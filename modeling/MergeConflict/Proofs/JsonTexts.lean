import MergeConflict.Json.Reader
import MergeConflict.Proofs.JsonSpelling

/-!
# JSON texts of a value

A text is a JSON text of a value if it spells the value's tokens, in whatever layout. The reader
finds that value in such a text and nothing behind it. Both layouts of the printer are such texts,
as long as the value holds no doubles: those are rounded when they are read.

Main statements: `read_spelled` and `spelled_written`.
-/

namespace MergeConflict.Json

open Token

/-! ## The tokens of a value -/

mutual

def tokens : Json → List Token
  | .str s => [.text (some s)]
  | .arr [] => [.openArray, .closeArray]
  | .arr (item :: rest) => .openArray :: (item.tokens ++ itemTokens rest)
  | .obj [] => [.openObject, .closeObject]
  | .obj ((name, value) :: rest) =>
    .openObject :: .text (some name) :: .colon :: (value.tokens ++ fieldTokens rest)
  | value => [.scalar value]

/-- The tokens of an array behind its first item. -/
def itemTokens : List Json → List Token
  | [] => [.closeArray]
  | item :: rest => .comma :: (item.tokens ++ itemTokens rest)

/-- The tokens of an object behind its first field. -/
def fieldTokens : List (String × Json) → List Token
  | [] => [.closeObject]
  | (name, value) :: rest =>
    .comma :: .text (some name) :: .colon :: (value.tokens ++ fieldTokens rest)

end

/-- The text is a JSON text of the value. -/
def Spelled (value : Json) (text : String) : Prop :=
  SpelledTokens value.tokens text.toList

theorem length_tokens_pos (value : Json) : 0 < value.tokens.length := by
  unfold tokens
  split
  all_goals exact Nat.zero_lt_succ _

/-! ## Reading -/

/-- No value begins with the end of an array, so what stands behind an opening bracket is read as
items. -/
theorem readValue_openArray (value : Json) (rest : List Token) (fuel : Nat) :
    readValue (fuel + 1) (.openArray :: (value.tokens ++ rest)) =
      let items := readItems fuel (value.tokens ++ rest)
      ⟨.arr items.value, items.rest⟩ := by
  unfold tokens
  split
  all_goals rfl

-- The reader takes one unit of fuel for a value and one for each list it stands in, so twice the
-- number of tokens is enough for a value, and a little more for a list from one of its entries on.
mutual

theorem readValue_tokens : ∀ (value : Json) (rest : List Token) {fuel : Nat},
    2 * value.tokens.length ≤ fuel → readValue fuel (value.tokens ++ rest) = ⟨value, some rest⟩
  | value, _, 0, enough => by
    have filled := length_tokens_pos value
    omega
  | .arr (item :: items), rest, fuel + 1, enough => by
    have room : 2 * (item.tokens ++ itemTokens items).length + 1 ≤ fuel := by
      rw [tokens, List.length_cons] at enough
      omega
    rw [tokens, List.cons_append, List.append_assoc, readValue_openArray, ← List.append_assoc,
      readItems_tokens item items rest room]
  | .obj ((name, value) :: fields), rest, fuel + 1, enough => by
    have room : 2 * (value.tokens ++ fieldTokens fields).length + 3 ≤ fuel := by
      rw [tokens, List.length_cons, List.length_cons, List.length_cons] at enough
      omega
    have read := readFields_tokens name value fields rest room
    rw [tokens]
    simp only [List.cons_append]
    rw [readValue, read]
    all_goals simp
  | .str _, _, _ + 1, _ | .arr [], _, _ + 1, _ | .obj [], _, _ + 1, _ | .null, _, _ + 1, _
  | .bool _, _, _ + 1, _ | .int _, _, _ + 1, _ | .real _, _, _ + 1, _ | .flawed, _, _ + 1, _
  | .broken, _, _ + 1, _ | .nameless _, _, _ + 1, _ => rfl

theorem readItems_tokens : ∀ (item : Json) (items : List Json) (rest : List Token) {fuel : Nat},
    2 * (item.tokens ++ itemTokens items).length + 1 ≤ fuel →
      readItems fuel (item.tokens ++ itemTokens items ++ rest) = ⟨item :: items, some rest⟩
  | item, [], rest, fuel + 1, enough => by
    have room : 2 * item.tokens.length ≤ fuel := by
      rw [List.length_append] at enough
      omega
    rw [readItems, List.append_assoc, readValue_tokens item _ room]
    rfl
  | item, next :: items, rest, fuel + 1, enough => by
    have room : 2 * item.tokens.length ≤ fuel ∧
        2 * (next.tokens ++ itemTokens items).length + 1 ≤ fuel := by
      rw [itemTokens, List.length_append, List.length_cons] at enough
      omega
    rw [readItems, itemTokens, List.append_assoc, readValue_tokens item _ room.1]
    simp only [List.cons_append, readItems_tokens next items rest room.2]

theorem readFields_tokens : ∀ (name : String) (value : Json) (fields : List (String × Json))
    (rest : List Token) {fuel : Nat}, 2 * (value.tokens ++ fieldTokens fields).length + 3 ≤ fuel →
      readFields fuel
          (.text (some name) :: .colon :: (value.tokens ++ fieldTokens fields ++ rest)) =
        ⟨(name, value) :: fields, some rest⟩
  | name, value, [], rest, fuel + 1, enough => by
    have room : 2 * value.tokens.length ≤ fuel := by
      rw [List.length_append] at enough
      omega
    rw [readFields, List.append_assoc, readValue_tokens value _ room]
    rfl
  | name, value, (next, later) :: fields, rest, fuel + 1, enough => by
    have room : 2 * value.tokens.length ≤ fuel ∧
        2 * (later.tokens ++ fieldTokens fields).length + 3 ≤ fuel := by
      rw [fieldTokens, List.length_append, List.length_cons, List.length_cons,
        List.length_cons] at enough
      omega
    rw [readFields, fieldTokens, List.append_assoc, readValue_tokens value _ room.1]
    simp only [List.cons_append, readFields_tokens next later fields rest room.2]
    rfl

end

/-- A JSON text of a value is read as that value and no more. -/
theorem read_spelled {value : Json} {text : String} (spelled : value.Spelled text) :
    read text = ⟨value, true⟩ := by
  have found : readValue (2 * value.tokens.length + 1) (value.tokens ++ []) = ⟨value, some []⟩ :=
    readValue_tokens value [] (Nat.le_succ _)
  rw [List.append_nil] at found
  rw [read, ofText_spelled spelled]
  simp only [found]
  rfl

/-! ## Writing -/

mutual

/-- All numbers inside are integers that are read as such, and no fault of a text stands inside. -/
def Plain : Json → Prop
  | .null | .bool _ | .str _ => True
  | .int i => Fits i
  | .arr items => ItemsPlain items
  | .obj fields => FieldsPlain fields
  | .real _ | .flawed | .broken | .nameless _ => False

def ItemsPlain : List Json → Prop
  | [] => True
  | item :: rest => item.Plain ∧ ItemsPlain rest

def FieldsPlain : List (String × Json) → Prop
  | [] => True
  | (_, value) :: rest => value.Plain ∧ FieldsPlain rest

end

/-- Where a line may begin. -/
theorem spelled_gap (pretty : Bool) (level : Nat) {tokens : List Token} {chars : List Char}
    (spelled : SpelledTokens tokens chars) :
    SpelledTokens tokens ((if pretty then indentation level else []) ++ chars) := by
  cases pretty with
  | false => exact spelled
  | true =>
    refine .space rfl ?_
    induction 2 * level with
    | zero => exact spelled
    | succ n ih => exact .space rfl ih

theorem spelled_quote (text : String) {tokens : List Token} {chars : List Char}
    (spelled : SpelledTokens tokens chars) :
    SpelledTokens (.text (some text) :: tokens) (quote text ++ chars) :=
  .token (.text (spelledText_flatMap text.toList)) spelled

theorem spelled_colon (pretty : Bool) {tokens : List Token} {chars : List Char}
    (spelled : SpelledTokens tokens chars) :
    SpelledTokens (.colon :: tokens) ((if pretty then [':', ' '] else [':']) ++ chars) := by
  cases pretty with
  | false => exact .token .colon spelled
  | true =>
    have spaced : SpelledTokens tokens (' ' :: chars) := .space rfl spelled
    have opened := SpelledTokens.token .colon spaced
    exact opened

/-- An item is followed by a comma, a line end or a bracket. -/
theorem settled_writeItems (pretty : Bool) (level : Nat) (items : List Json) (chars : List Char) :
    Settled (writeItems pretty level items ++ chars) := by
  unfold writeItems
  intro c first
  split at first
  all_goals
    cases pretty
    all_goals
      cases Option.some.inj first
      decide

theorem settled_writeFields (pretty : Bool) (level : Nat) (fields : List (String × Json))
    (chars : List Char) : Settled (writeFields pretty level fields ++ chars) := by
  unfold writeFields
  intro c first
  split at first
  all_goals
    cases pretty
    all_goals
      cases Option.some.inj first
      decide

mutual

theorem spelled_write (pretty : Bool) : ∀ (value : Json) (level : Nat) {tokens : List Token}
    {chars : List Char}, value.Plain → Settled chars → SpelledTokens tokens chars →
      SpelledTokens (value.tokens ++ tokens) (value.write pretty level ++ chars)
  | .null, _, _, _, _, _, spelled => .token .null spelled
  | .bool true, _, _, _, _, _, spelled => .token (.bool true) spelled
  | .bool false, _, _, _, _, _, spelled => .token (.bool false) spelled
  | .int _, _, _, _, fits, settled, spelled => .number fits settled spelled
  | .str s, _, _, _, _, _, spelled => spelled_quote s spelled
  | .arr [], _, tokens, chars, _, _, spelled => by
    have closed : SpelledTokens (.closeArray :: tokens) (']' :: chars) := .token .closeArray spelled
    have opened := SpelledTokens.token .openArray closed
    exact opened
  | .arr (item :: items), level, _, chars, plain, _, spelled => by
    have others := spelled_writeItems pretty items level plain.2 spelled
    have first := spelled_write pretty item (level + 1) plain.1
      (settled_writeItems pretty level items chars) others
    rw [write, tokens]
    simp only [List.cons_append, List.append_assoc]
    exact .token .openArray (spelled_gap pretty (level + 1) first)
  | .obj [], _, tokens, chars, _, _, spelled => by
    have closed : SpelledTokens (.closeObject :: tokens) ('\x7d' :: chars) :=
      .token .closeObject spelled
    have opened := SpelledTokens.token .openObject closed
    exact opened
  | .obj ((name, value) :: fields), level, _, chars, plain, _, spelled => by
    have others := spelled_writeFields pretty fields level plain.2 spelled
    have first := spelled_write pretty value (level + 1) plain.1
      (settled_writeFields pretty level fields chars) others
    rw [write, tokens]
    simp only [List.cons_append, List.append_assoc]
    exact .token .openObject (spelled_gap pretty (level + 1)
      (spelled_quote name (spelled_colon pretty first)))

theorem spelled_writeItems (pretty : Bool) : ∀ (items : List Json) (level : Nat)
    {tokens : List Token} {chars : List Char}, ItemsPlain items → SpelledTokens tokens chars →
      SpelledTokens (itemTokens items ++ tokens) (writeItems pretty level items ++ chars)
  | [], level, _, _, _, spelled => by
    rw [writeItems, List.append_assoc]
    exact spelled_gap pretty level (.token .closeArray spelled)
  | item :: items, level, _, chars, plain, spelled => by
    have others := spelled_writeItems pretty items level plain.2 spelled
    have first := spelled_write pretty item (level + 1) plain.1
      (settled_writeItems pretty level items chars) others
    rw [writeItems, itemTokens]
    simp only [List.cons_append, List.append_assoc]
    exact .token .comma (spelled_gap pretty (level + 1) first)

theorem spelled_writeFields (pretty : Bool) : ∀ (fields : List (String × Json)) (level : Nat)
    {tokens : List Token} {chars : List Char}, FieldsPlain fields → SpelledTokens tokens chars →
      SpelledTokens (fieldTokens fields ++ tokens) (writeFields pretty level fields ++ chars)
  | [], level, _, _, _, spelled => by
    rw [writeFields, List.append_assoc]
    exact spelled_gap pretty level (.token .closeObject spelled)
  | (name, value) :: fields, level, _, chars, plain, spelled => by
    have others := spelled_writeFields pretty fields level plain.2 spelled
    have first := spelled_write pretty value (level + 1) plain.1
      (settled_writeFields pretty level fields chars) others
    rw [writeFields, fieldTokens]
    simp only [List.cons_append, List.append_assoc]
    exact .token .comma (spelled_gap pretty (level + 1)
      (spelled_quote name (spelled_colon pretty first)))

end

/-- A value is spelled as it is written, in either layout. -/
theorem spelled_written {value : Json} (plain : value.Plain) (pretty : Bool) :
    value.Spelled (String.ofList (value.write pretty 0)) := by
  have written := spelled_write pretty value 0 plain settled_nil .done
  rw [List.append_nil, List.append_nil] at written
  rw [Spelled, String.toList_ofList]
  exact written

end MergeConflict.Json
