import Mathlib.Tactic.SplitIfs
import MergeConflict.Text.Utf8

/-!
# The bytes of a text

The bytes of a text are read as that text: each character is found again in the one to four bytes it
is spelled with, whatever follows them.

Main statement: `decode?_toUTF8`.
-/

namespace MergeConflict.Text.Utf8

/-! ## Leading bytes -/

theorem lead?_one {byte : Nat} (bound : byte < 0x80) : lead? byte = some ⟨0, 0x80, 0xBF, byte⟩ :=
  if_pos bound

theorem lead?_two {byte : Nat} (least : 0xC2 ≤ byte) (bound : byte < 0xE0) :
    lead? byte = some ⟨1, 0x80, 0xBF, byte % 0x20⟩ := by
  rw [lead?, if_neg (by omega), if_neg (by omega), if_pos bound]

/-- Three bytes: the second one is bounded where the character could be spelled shorter or would be
half a pair. -/
theorem lead?_three {byte : Nat} (least : 0xE0 ≤ byte) (bound : byte < 0xF0) :
    lead? byte = some ⟨2, if byte = 0xE0 then 0xA0 else 0x80, if byte = 0xED then 0x9F else 0xBF,
      byte % 0x10⟩ := by
  rw [lead?, if_neg (by omega), if_neg (by omega), if_neg (by omega)]
  by_cases low : byte = 0xE0
  · rw [low]
    rfl
  · rw [if_neg low, if_neg low]
    by_cases high : byte = 0xED
    · rw [high]
      rfl
    · rw [if_neg high, if_pos bound, if_neg high]

/-- Four bytes: the second one is bounded where the character could be spelled shorter or would lie
beyond the last one. -/
theorem lead?_four {byte : Nat} (least : 0xF0 ≤ byte) (bound : byte ≤ 0xF4) :
    lead? byte = some ⟨3, if byte = 0xF0 then 0x90 else 0x80, if byte = 0xF4 then 0x8F else 0xBF,
      byte % 8⟩ := by
  rw [lead?, if_neg (by omega), if_neg (by omega), if_neg (by omega), if_neg (by omega),
    if_neg (by omega), if_neg (by omega)]
  by_cases low : byte = 0xF0
  · rw [low]
    rfl
  · rw [if_neg low, if_neg low]
    by_cases high : byte = 0xF4
    · rw [high]
      rfl
    · rw [if_pos (by omega), if_neg high]

/-! ## Characters -/

/-- Bytes that continue a character are taken, if there are as many as asked for. -/
theorem tail_append {low high : Nat} {first : UInt8} {others : List UInt8} (rest : List UInt8)
    (opens : low ≤ first.toNat ∧ first.toNat ≤ high)
    (continues : ∀ byte ∈ others, 0x80 ≤ byte.toNat ∧ byte.toNat ≤ 0xBF) :
    tail low high (others.length + 1) (first :: (others ++ rest)) = first :: others := by
  rw [tail, if_pos opens]
  congr 1
  induction others with
  | nil => rfl
  | cons byte others ih =>
    rw [List.forall_mem_cons] at continues
    rw [List.length_cons, List.cons_append, tail, if_pos continues.1, ih continues.2]

theorem scan_single {byte : UInt8} (rest : List UInt8) (small : byte.toNat < 0x80) :
    scan (byte :: rest) = some (Char.ofNat byte.toNat) :: scan rest := by
  rw [scan, lead?_one small]
  rfl

/-- A character of several bytes is read from them. -/
theorem scan_several {byte first : UInt8} (others : List UInt8) {lead : Lead} {v : Nat}
    (rest : List UInt8) (leads : lead? byte.toNat = some lead)
    (count : lead.count = others.length + 1)
    (opens : lead.low ≤ first.toNat ∧ first.toNat ≤ lead.high)
    (continues : ∀ byte ∈ others, 0x80 ≤ byte.toNat ∧ byte.toNat ≤ 0xBF)
    (value : (first :: others).foldl (fun n b => n * 64 + b.toNat % 64) lead.bits = v) :
    scan (byte :: first :: (others ++ rest)) = some (Char.ofNat v) :: scan rest := by
  have taken := tail_append rest opens continues
  have left : (others ++ rest).drop others.length = rest := List.drop_left
  rw [scan, leads]
  simp only [count, taken, left, value, List.length_cons, List.drop_succ_cons, if_true]

theorem toNat_ofNat {n : Nat} (bound : n < 0x100) : (UInt8.ofNat n).toNat = n :=
  UInt8.toNat_ofNat_of_lt' bound

/-- A byte that continues a character holds six bits of it. -/
theorem continuation (n : Nat) : 0x80 ≤ (UInt8.ofNat (n % 0x40 + 0x80)).toNat ∧
    (UInt8.ofNat (n % 0x40 + 0x80)).toNat ≤ 0xBF ∧
      (UInt8.ofNat (n % 0x40 + 0x80)).toNat % 64 = n % 64 := by
  have value : (UInt8.ofNat (n % 0x40 + 0x80)).toNat = n % 0x40 + 0x80 :=
    toNat_ofNat (by omega)
  omega

variable {v : Nat}

theorem scan_two (rest : List UInt8) (least : 0x80 ≤ v) (bound : v ≤ 0x7FF) :
    scan (UInt8.ofNat (v / 64 % 0x20 + 0xC0) :: UInt8.ofNat (v % 0x40 + 0x80) :: rest) =
      some (Char.ofNat v) :: scan rest := by
  have lead : (UInt8.ofNat (v / 64 % 0x20 + 0xC0)).toNat = v / 64 % 0x20 + 0xC0 :=
    toNat_ofNat (by omega)
  obtain ⟨low, high, bits⟩ := continuation v
  refine scan_several [] rest (lead?_two (by omega) (by omega)) rfl ⟨low, high⟩ nofun ?_
  simp only [List.foldl_cons, List.foldl_nil, bits, lead]
  omega

theorem scan_three (rest : List UInt8) (least : 0x800 ≤ v) (bound : v ≤ 0xFFFF)
    (valid : v < 0xD800 ∨ 0xDFFF < v) :
    scan (UInt8.ofNat (v / 4096 % 0x10 + 0xE0) :: UInt8.ofNat (v / 64 % 0x40 + 0x80) ::
      UInt8.ofNat (v % 0x40 + 0x80) :: rest) = some (Char.ofNat v) :: scan rest := by
  have lead : (UInt8.ofNat (v / 4096 % 0x10 + 0xE0)).toNat = v / 4096 % 0x10 + 0xE0 :=
    toNat_ofNat (by omega)
  obtain ⟨low, high, bits⟩ := continuation (v / 64)
  obtain ⟨low', high', bits'⟩ := continuation v
  refine scan_several [_] rest (lead?_three (by omega) (by omega)) rfl ?_
    (List.forall_mem_singleton.2 ⟨low', high'⟩) ?_
  · simp only [lead]
    split_ifs <;> omega
  · simp only [List.foldl_cons, List.foldl_nil, bits, bits', lead]
    omega

theorem scan_four (rest : List UInt8) (least : 0x10000 ≤ v) (bound : v < 0x110000) :
    scan (UInt8.ofNat (v / 262144 % 0x08 + 0xF0) :: UInt8.ofNat (v / 4096 % 0x40 + 0x80) ::
      UInt8.ofNat (v / 64 % 0x40 + 0x80) :: UInt8.ofNat (v % 0x40 + 0x80) :: rest) =
        some (Char.ofNat v) :: scan rest := by
  have lead : (UInt8.ofNat (v / 262144 % 0x08 + 0xF0)).toNat = v / 262144 % 0x08 + 0xF0 :=
    toNat_ofNat (by omega)
  obtain ⟨low, high, bits⟩ := continuation (v / 4096)
  obtain ⟨low', high', bits'⟩ := continuation (v / 64)
  obtain ⟨lowest, highest, last⟩ := continuation v
  refine scan_several [_, _] rest (lead?_four (by omega) (by omega)) rfl ?_
    (List.forall_mem_cons.2 ⟨⟨low', high'⟩, List.forall_mem_singleton.2 ⟨lowest, highest⟩⟩) ?_
  · simp only [lead]
    split_ifs <;> omega
  · simp only [List.foldl_cons, List.foldl_nil, bits, bits', last, lead]
    omega

theorem scan_utf8EncodeChar (c : Char) (rest : List UInt8) :
    scan (String.utf8EncodeChar c ++ rest) = some c :: scan rest := by
  have valid : c.val.toNat < 0xD800 ∨ 0xDFFF < c.val.toNat ∧ c.val.toNat < 0x110000 := c.valid
  have whole : Char.ofNat c.val.toNat = c := Char.ofNat_toNat c
  rw [String.utf8EncodeChar]
  split
  · next one =>
    have byte : (UInt8.ofNat c.val.toNat).toNat = c.val.toNat :=
      toNat_ofNat (by omega)
    rw [List.singleton_append, scan_single rest (by omega), byte, whole]
  · next several =>
    split
    · next two =>
      have read := scan_two rest (by omega) two
      rwa [whole] at read
    · next more =>
      split
      · next three =>
        have read := scan_three rest (by omega) three (by omega)
        rwa [whole] at read
      · next four =>
        have read := scan_four (v := c.val.toNat) rest (by omega) (by omega)
        rwa [whole] at read

/-! ## Texts -/

theorem scan_flatMap (text : List Char) :
    scan (text.flatMap String.utf8EncodeChar) = text.map some := by
  induction text with
  | nil => rw [List.flatMap_nil, scan, List.map_nil]
  | cons c text ih => rw [List.flatMap_cons, scan_utf8EncodeChar, ih, List.map_cons]

theorem toList_loop (bytes : ByteArray) (i : Nat) (done : List UInt8) :
    ByteArray.toList.loop bytes i done = done.reverse ++ bytes.data.toList.drop i := by
  fun_induction ByteArray.toList.loop bytes i done with
  | case1 i done inside ih =>
    have here : bytes.get! i = bytes.data.toList[i] := getElem!_pos bytes.data i inside
    rw [ih, List.reverse_cons, List.append_assoc, List.drop_eq_getElem_cons inside, here]
    rfl
  | case2 i done outside =>
    rw [List.drop_eq_nil_of_le (Nat.le_of_not_lt outside), List.append_nil]

theorem toList_toUTF8 (text : String) :
    text.toUTF8.toList = text.toList.flatMap String.utf8EncodeChar := by
  rw [ByteArray.toList, toList_loop, List.reverse_nil, List.nil_append, List.drop_zero,
    String.toUTF8_eq_toByteArray, ← String.utf8Encode_toList]
  exact List.toList_data_toByteArray

/-- The bytes of a text are read as that text. -/
theorem decode?_toUTF8 (text : String) : decode? text.toUTF8.toList = some text := by
  have all (chars : List Char) : (chars.map some).mapM id = some chars := by
    induction chars with
    | nil => rfl
    | cons c chars ih =>
      rw [List.map_cons, List.mapM_cons, ih]
      rfl
  rw [decode?, toList_toUTF8, scan_flatMap, all, Option.map_some, String.ofList_toList]

end MergeConflict.Text.Utf8
