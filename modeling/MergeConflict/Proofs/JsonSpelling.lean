import MergeConflict.Json.Printer
import MergeConflict.Json.Token

/-!
# The tokens of a JSON text

Which characters spell which tokens is said here apart from the scanner, after the grammar: white
space may stand between any two tokens, and a character of a quoted text stands for itself, or is
spelled by a letter behind a backslash, by a code unit, or by two of them. Numbers are integers in
decimal digits; a number ends where none of its characters follows.

Main statements: `ofText_spelled`, by which spelled tokens are what the scanner finds, and
`spelledText_flatMap`, by which a text is spelled as it is written.
-/

namespace MergeConflict.Json.Token

/-! ## Decimal digits -/

theorem digit?_eq_some {c : Char} (numeric : c.isDigit = true) :
    digit? c = some (c.toNat - '0'.toNat) := by
  have bounds : '0' ≤ c ∧ c ≤ '9' := by
    simpa [Char.isDigit, Char.le_def] using numeric
  rw [digit?, if_pos bounds]
  rfl

theorem digits_append {front rest : List Char} (numeric : ∀ c ∈ front, c.isDigit = true)
    (ends : ∀ c ∈ rest.head?, digit? c = none) :
    digits (front ++ rest) = (front.map fun c => c.toNat - '0'.toNat, rest) := by
  induction front with
  | nil =>
    cases rest with
    | nil => rfl
    | cons c rest =>
      rw [List.nil_append, digits, ends c rfl]
      rfl
  | cons c front ih =>
    rw [List.forall_mem_cons] at numeric
    rw [List.cons_append, digits, digit?_eq_some numeric.1]
    simp only [ih numeric.2, List.map_cons]

/-- The digits that a number is written with, the leading one first. -/
def digitsOf (n : Nat) : List Nat :=
  (Nat.toDigits 10 n).map fun c => c.toNat - '0'.toNat

theorem foldl_digitsOf (n : Nat) : (digitsOf n).foldl (fun n d => n * 10 + d) 0 = n := by
  rw [digitsOf, List.foldl_map]
  simpa only [Nat.mul_comm, Nat.ofDigitChars_eq_foldl] using
    Nat.ofDigitChars_ten_toDigits (n := n)

/-- Only zero is written with a zero in front. -/
theorem eq_zero_of_head?_digitsOf {n : Nat} (leads : (digitsOf n).head? = some 0) : n = 0 := by
  induction n using Nat.strongRecOn with
  | _ n ih =>
    rw [digitsOf, Nat.toDigits_eq_if (by decide)] at leads
    split at leads
    · next small =>
      have value := Nat.toNat_digitChar_sub_48_of_lt_ten small
      exact value.symm.trans (Option.some.inj leads)
    · next large =>
      rw [List.map_append, List.head?_append, Option.or_of_isSome (by simp)] at leads
      have rest := ih (n / 10) (by omega) leads
      omega

/-! ## Numbers -/

/-- What no number goes on with. -/
def Settled (chars : List Char) : Prop :=
  ∀ c ∈ chars.head?, digit? c = none ∧ c ≠ '.' ∧ c ≠ 'e' ∧ c ≠ 'E'

theorem settled_nil : Settled [] := by
  intro c first
  cases first

theorem fraction_settled {rest : List Char} (settled : Settled rest) :
    fraction rest = some ([], false, rest) := by
  unfold fraction
  split
  · exact absurd rfl (settled '.' rfl).2.1
  · rfl

theorem exponent_settled {rest : List Char} (settled : Settled rest) :
    exponent rest = some (0, false, rest) := by
  have lower (more : List Char) : rest ≠ 'e' :: more := by
    rintro rfl
    exact (settled 'e' rfl).2.2.1 rfl
  have upper (more : List Char) : rest ≠ 'E' :: more := by
    rintro rfl
    exact (settled 'E' rfl).2.2.2 rfl
  unfold exponent
  split
  · exact absurd rfl (lower _)
  · exact absurd rfl (upper _)
  · exact absurd rfl (lower _)
  · exact absurd rfl (upper _)
  · exact absurd rfl (lower _)
  · exact absurd rfl (upper _)
  · rfl

theorem number_toDigits (isNegative : Bool) (n : Nat) {rest : List Char} (settled : Settled rest) :
    number isNegative (Nat.toDigits 10 n ++ rest) =
      some (Numeral.toJson ⟨isNegative, digitsOf n, [], 0, true⟩, rest) := by
  have cut : digits (Nat.toDigits 10 n ++ rest) = (digitsOf n, rest) :=
    digits_append (fun c inside => Nat.isDigit_of_mem_toDigits (by decide) (by decide) inside)
      fun c first => (settled c first).1
  have proper : ¬((digitsOf n).isEmpty ∨
      (digitsOf n).head? = some 0 ∧ (digitsOf n).length ≠ 1) := by
    rintro (empty | ⟨leads, long⟩)
    · simp [digitsOf] at empty
    · rw [eq_zero_of_head?_digitsOf leads] at long
      exact long rfl
  rw [number, cut]
  simp only [if_neg proper, fraction_settled settled, exponent_settled settled,
    Option.bind_eq_bind, Option.bind_some]
  rfl

theorem toJson_digitsOf {n : Nat} (fits : n < Numeral.limit) :
    Numeral.toJson ⟨false, digitsOf n, [], 0, true⟩ = .int n := by
  simp only [Numeral.toJson, foldl_digitsOf, fits]
  rfl

theorem toJson_neg_digitsOf {n : Nat} (fits : 2 * n ≤ Numeral.limit) (above : n ≠ 0) :
    Numeral.toJson ⟨true, digitsOf n, [], 0, true⟩ = .int (-n) := by
  simp only [Numeral.toJson, foldl_digitsOf, fits]
  simp [above]

/-! ## Texts -/

/-- How a character may stand between quotes: as it is, behind a backslash by a letter of its own, or
by one or two code units. -/
inductive SpelledChar (c : Char) : List Char → Prop where
  | plain (visible : ¬c.toNat < 0x20) (unquoted : c ≠ '"') (unescaped : c ≠ '\\') :
      SpelledChar c [c]
  | letter {l : Char} (names : escaped? l = some c) : SpelledChar c ['\\', l]
  | codeUnit {w x y z : Char} (unit : codeUnit? w x y z = some c.toNat) :
      SpelledChar c ['\\', 'u', w, x, y, z]
  | surrogates {w x y z w' x' y' z' : Char} {high low : Nat}
      (unit : codeUnit? w x y z = some high) (unit' : codeUnit? w' x' y' z' = some low)
      (leads : 0xD800 ≤ high ∧ high < 0xDC00) (trails : 0xDC00 ≤ low ∧ low < 0xE000)
      (pair : c.toNat = 0x10000 + (high - 0xD800) * 0x400 + (low - 0xDC00)) :
      SpelledChar c ['\\', 'u', w, x, y, z, '\\', 'u', w', x', y', z']

inductive SpelledText : List Char → List Char → Prop where
  | nil : SpelledText [] []
  | cons {c : Char} {word text chars : List Char} (first : SpelledChar c word)
      (others : SpelledText text chars) : SpelledText (c :: text) (word ++ chars)

theorem spelledChar_escapeChar (c : Char) : SpelledChar c (escapeChar c) := by
  unfold escapeChar
  split
  all_goals try exact .letter rfl
  next unquoted unescaped _ _ _ _ _ =>
    split
    · next control =>
      -- The digits are those of one of the first 32 numbers.
      apply SpelledChar.codeUnit
      revert control
      generalize c.toNat = n
      revert n
      decide
    · next visible => exact .plain visible unquoted unescaped

theorem spelledText_flatMap (text : List Char) : SpelledText text (text.flatMap escapeChar) := by
  induction text with
  | nil => exact .nil
  | cons c text ih => exact .cons (spelledChar_escapeChar c) ih

/-- A character is no half of a pair, so its number is taken for the character. -/
theorem pushUnit_toNat (p : Partial) (c : Char) : p.pushUnit c.toNat = p.push c := by
  have valid : c.toNat < 0xD800 ∨ 0xDFFF < c.toNat ∧ c.toNat < 0x110000 := c.valid
  rw [Partial.pushUnit, if_neg (by omega), if_neg (by omega), Char.ofNat_toNat]

/-- A character is taken in, however it is spelled. -/
theorem readText_spelledChar {c : Char} {word : List Char} (spelled : SpelledChar c word)
    (p : Partial) (rest : List Char) : readText p (word ++ rest) = readText (p.push c) rest := by
  cases spelled with
  | plain visible unquoted unescaped =>
    rw [List.singleton_append, readText.eq_def]
    split
    · next none => cases none
    · next same => exact absurd (List.cons.inj same).1 unquoted
    · next same => exact absurd (List.cons.inj same).1 unescaped
    · next same => exact absurd (List.cons.inj same).1 unescaped
    · next same =>
      obtain ⟨rfl, rfl⟩ := List.cons.inj same
      exact if_neg visible
  | @letter l names =>
    have other : l ≠ 'u' := by
      rintro rfl
      cases names
    rw [List.cons_append, List.singleton_append, readText, names]
    exact fun _ _ _ _ _ same _ => other same
  | codeUnit unit =>
    simp only [List.cons_append, List.nil_append, readText, unit, pushUnit_toNat]
  | @surrogates w x y z w' x' y' z' high low unit unit' leads trails pair =>
    have joined : (p.pushUnit high).pushUnit low = p.push c := by
      have waits : p.pushUnit high = ⟨p.done, some high, p.paired && p.half.isNone⟩ :=
        if_pos leads
      rw [waits, Partial.pushUnit, if_neg (by omega), if_pos trails]
      simp only [← pair, Char.ofNat_toNat]
      rfl
    simp only [List.cons_append, List.nil_append, readText, unit, unit', joined]

theorem readText_spelledText {text chars : List Char} (spelled : SpelledText text chars)
    (p : Partial) (rest : List Char) :
    readText p (chars ++ '"' :: rest) = some ((text.foldl Partial.push p).content, rest) := by
  induction spelled generalizing p with
  | nil => rfl
  | cons first others ih =>
    rw [List.append_assoc, readText_spelledChar first, ih]
    rfl

theorem foldl_push (text done : List Char) :
    text.foldl Partial.push ⟨done, none, true⟩ = ⟨text.reverse ++ done, none, true⟩ := by
  induction text generalizing done with
  | nil => rfl
  | cons c text ih =>
    rw [List.foldl_cons, List.reverse_cons, List.append_assoc]
    exact ih (c :: done)

theorem readText_start {text : String} {chars : List Char}
    (spelled : SpelledText text.toList chars) (rest : List Char) :
    readText .start (chars ++ '"' :: rest) = some (some text, rest) := by
  rw [readText_spelledText spelled, Partial.start, foldl_push, List.append_nil]
  simp only [Partial.content, List.reverse_reverse, String.ofList_toList]
  rfl

/-! ## Tokens -/

/-- What a token other than a number looks like. -/
inductive SpelledToken : Token → List Char → Prop where
  | openObject : SpelledToken .openObject ['\x7b']
  | closeObject : SpelledToken .closeObject ['\x7d']
  | openArray : SpelledToken .openArray ['[']
  | closeArray : SpelledToken .closeArray [']']
  | comma : SpelledToken .comma [',']
  | colon : SpelledToken .colon [':']
  | null : SpelledToken (.scalar .null) "null".toList
  | bool (b : Bool) : SpelledToken (.scalar (.bool b)) (toString b).toList
  | text {text : String} {chars : List Char} (spelled : SpelledText text.toList chars) :
      SpelledToken (.text (some text)) ('"' :: chars ++ ['"'])

/-- The integers that are read as such: those of 64 bits, signed or not. -/
def Fits (i : Int) : Prop :=
  -(UInt64.size : Int) ≤ 2 * i ∧ i < UInt64.size

/-- Characters that spell tokens one after the other, with white space wherever it may stand. -/
inductive SpelledTokens : List Token → List Char → Prop where
  | done : SpelledTokens [] []
  | space {c : Char} {tokens : List Token} {chars : List Char} (free : isSpace c = true)
      (others : SpelledTokens tokens chars) : SpelledTokens tokens (c :: chars)
  | token {token : Token} {word : List Char} {tokens : List Token} {chars : List Char}
      (first : SpelledToken token word) (others : SpelledTokens tokens chars) :
      SpelledTokens (token :: tokens) (word ++ chars)
  | number {i : Int} {tokens : List Token} {chars : List Char} (fits : Fits i)
      (settled : Settled chars) (others : SpelledTokens tokens chars) :
      SpelledTokens (.scalar (.int i) :: tokens) ((toString i).toList ++ chars)

/-- The characters begin with a token, and `rest` is what stands behind it. -/
def Begins (token : Token) (rest chars : List Char) : Prop :=
  ∃ c more, chars = c :: more ∧ isSpace c = false ∧ next c more = some (token, rest) ∧
    rest.length ≤ more.length

theorem begins_token {token : Token} {word : List Char} (spelled : SpelledToken token word)
    (rest : List Char) : Begins token rest (word ++ rest) := by
  cases spelled with
  | @text text chars spelled =>
    have cut : '"' :: chars ++ ['"'] ++ rest = '"' :: (chars ++ '"' :: rest) := by simp
    refine ⟨_, _, cut, rfl, ?_, by simp +arith⟩
    rw [next, readText_start spelled]
    rfl
  | bool b => cases b <;> exact ⟨_, _, rfl, rfl, rfl, by simp +arith⟩
  | _ => exact ⟨_, _, rfl, rfl, rfl, by simp +arith⟩

/-- A digit opens a number, whatever follows it. -/
theorem next_digit {c : Char} (numeric : c.isDigit = true) (more : List Char) :
    next c more = (number false (c :: more)).map fun (value, rest) => (scalar value, rest) := by
  unfold next
  split
  all_goals first | rfl | cases numeric

theorem isSpace_digit {c : Char} (numeric : c.isDigit = true) : isSpace c = false := by
  simp only [isSpace, Bool.or_eq_false_iff, beq_eq_false_iff_ne]
  refine ⟨⟨⟨?_, ?_⟩, ?_⟩, ?_⟩
  all_goals
    rintro rfl
    cases numeric

theorem begins_number {i : Int} (fits : Fits i) {rest : List Char} (settled : Settled rest) :
    Begins (.scalar (.int i)) rest ((toString i).toList ++ rest) := by
  rw [Fits, UInt64.size] at fits
  rw [Int.toString_eq_repr, Int.repr_eq_if]
  split
  · next above =>
    obtain ⟨n, rfl⟩ := Int.eq_ofNat_of_zero_le above
    have bound : n < Numeral.limit := by
      simp only [Numeral.limit, UInt64.size]
      omega
    obtain ⟨c, more, cut⟩ := List.exists_cons_of_ne_nil (Nat.toDigits_ne_nil (n := n) (b := 10))
    have numeric : c.isDigit = true :=
      Nat.isDigit_of_mem_toDigits (by decide) (by decide) (cut ▸ List.mem_cons_self)
    have found : number false (c :: (more ++ rest)) = some (.int n, rest) := by
      rw [← List.cons_append, ← cut, number_toDigits false n settled, toJson_digitsOf bound]
    refine ⟨c, more ++ rest, ?_, isSpace_digit numeric, ?_, by simp⟩
    · rw [Int.toNat_natCast, Nat.toList_repr, cut, List.cons_append]
    · rw [next_digit numeric, found]
      rfl
  · next below =>
    obtain ⟨n, rfl⟩ : ∃ n : Nat, i = -n := ⟨i.natAbs, by omega⟩
    have bound : 2 * n ≤ Numeral.limit := by
      simp only [Numeral.limit, UInt64.size]
      omega
    have found : number true (Nat.toDigits 10 n ++ rest) = some (.int (-n), rest) := by
      rw [number_toDigits true n settled, toJson_neg_digitsOf bound (by omega)]
    have cut : ("-" ++ (- -(n : Int)).toNat.repr).toList ++ rest =
        '-' :: (Nat.toDigits 10 n ++ rest) := by
      rw [Int.neg_neg, Int.toNat_natCast, String.toList_append, Nat.toList_repr]
      rfl
    refine ⟨_, _, cut, rfl, ?_, by simp⟩
    rw [next, found]
    rfl

theorem scan_begins {token : Token} {rest chars : List Char} (begins : Begins token rest chars)
    {fuel : Nat} (enough : chars.length ≤ fuel) :
    ∃ less, scan fuel chars = token :: scan less rest ∧ rest.length ≤ less := by
  obtain ⟨c, more, rfl, visible, found, shorter⟩ := begins
  cases fuel with
  | zero => exact absurd enough (Nat.not_succ_le_zero _)
  | succ less =>
    refine ⟨less, ?_, Nat.le_trans shorter (Nat.le_of_succ_le_succ enough)⟩
    rw [scan, visible, found]
    rfl

/-- Spelled tokens are what is read, if there is fuel for every character. -/
theorem scan_spelled {tokens : List Token} {chars : List Char}
    (spelled : SpelledTokens tokens chars) {fuel : Nat} (enough : chars.length ≤ fuel) :
    scan fuel chars = tokens := by
  induction spelled generalizing fuel with
  | done => cases fuel <;> rfl
  | space free others ih =>
    cases fuel with
    | zero => exact absurd enough (Nat.not_succ_le_zero _)
    | succ fuel =>
      rw [scan, if_pos free]
      exact ih (Nat.le_of_succ_le_succ enough)
  | @token _ _ _ chars first others ih =>
    obtain ⟨less, read, room⟩ := scan_begins (begins_token first chars) enough
    rw [read, ih room]
  | number fits settled others ih =>
    obtain ⟨less, read, room⟩ := scan_begins (begins_number fits settled) enough
    rw [read, ih room]

theorem ofText_spelled {tokens : List Token} {text : String}
    (spelled : SpelledTokens tokens text.toList) : ofText text = tokens :=
  scan_spelled spelled (Nat.le_refl _)

end MergeConflict.Json.Token
