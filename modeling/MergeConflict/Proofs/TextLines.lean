import Mathlib.Data.List.Basic
import MergeConflict.Text.Lines

/-!
# Texts and their lines

Cutting a text at its newlines and joining the lines again gives the text back, whatever it ends in.
What two texts share at their beginnings is a beginning of both, and so at their ends.

Cutting gives back what was joined too, if no line has a newline in it; so such lines are told apart
by their text (`joinLines_inj`).

Main statements: `joinLines_splitLines`, `splitLines_joinLines` and `dropFinalNewline_eq_iff`.
-/

namespace MergeConflict.Text

theorem cutAt_eq_splitOn (separator : Char) (text : List Char) :
    cutAt separator text = text.splitOn separator := by
  induction text with
  | nil => rfl
  | cons c rest ih =>
    rw [cutAt, List.splitOn, List.splitOnP_cons_eq_if_modifyHead, ← List.splitOn, ← ih]
    by_cases same : c = separator
    · rw [if_pos same, if_pos (beq_iff_eq.2 same)]
    · rw [if_neg same, if_neg (mt beq_iff_eq.1 same)]
      cases pieces : cutAt separator rest with
      | nil => exact absurd (ih.symm.trans pieces) (List.splitOn_ne_nil _ _)
      | cons piece pieces => rfl

theorem joinLines_splitLines (text : String) : joinLines (splitLines text) = text := by
  rw [← String.toList_inj, joinLines, String.toList_intercalate, splitLines, List.map_map]
  have same : String.toList ∘ String.ofList = id := funext fun _ => String.toList_ofList
  rw [same, List.map_id, cutAt_eq_splitOn]
  exact List.intercalate_splitOn '\n'

/-- What stands behind the last separator is the last piece. -/
theorem getLast?_cutAt {separator : Char} (front : List Char) {last : List Char}
    (whole : separator ∉ last) :
    (cutAt separator (front ++ separator :: last)).getLast? = some last := by
  rw [cutAt_eq_splitOn, List.splitOn_append_cons_self, List.splitOn_eq_singleton whole,
    List.getLast?_concat]

/-! ## Lines without a newline -/

theorem notMem_of_mem_cutAt {separator : Char} {text piece : List Char}
    (inside : piece ∈ cutAt separator text) : separator ∉ piece := by
  induction text generalizing piece with
  | nil =>
    rw [cutAt, List.mem_singleton] at inside
    rw [inside]
    exact List.not_mem_nil
  | cons c rest ih =>
    rw [cutAt] at inside
    split at inside
    · rcases List.mem_cons.1 inside with rfl | later
      · exact List.not_mem_nil
      · exact ih later
    · next different =>
      cases pieces : cutAt separator rest with
      | nil =>
        rw [pieces, List.mem_singleton] at inside
        rw [inside, List.mem_singleton]
        exact fun same => different same.symm
      | cons first others =>
        rw [pieces] at inside ih
        rcases List.mem_cons.1 inside with rfl | later
        · rw [List.mem_cons]
          rintro (same | held)
          · exact different same.symm
          · exact ih List.mem_cons_self held
        · exact ih (List.mem_cons_of_mem _ later)

/-- A line of a text has no newline in it. -/
theorem notMem_of_mem_splitLines {text line : String} (inside : line ∈ splitLines text) :
    '\n' ∉ line.toList := by
  obtain ⟨piece, cut, rfl⟩ := List.mem_map.1 inside
  rw [String.toList_ofList]
  exact notMem_of_mem_cutAt cut

theorem splitLines_ne_nil (text : String) : splitLines text ≠ [] := by
  rw [splitLines, cutAt_eq_splitOn]
  exact mt List.map_eq_nil_iff.1 (List.splitOn_ne_nil _ _)

theorem splitLines_joinLines {lines : List String} (filled : lines ≠ [])
    (single : ∀ line ∈ lines, '\n' ∉ line.toList) : splitLines (joinLines lines) = lines := by
  have apart : ∀ piece ∈ lines.map String.toList, '\n' ∉ piece := by
    intro piece inside
    obtain ⟨line, member, rfl⟩ := List.mem_map.1 inside
    exact single line member
  have cut : cutAt '\n' (joinLines lines).toList = lines.map String.toList := by
    rw [cutAt_eq_splitOn, joinLines, String.toList_intercalate]
    exact List.splitOn_intercalate '\n' apart (mt List.map_eq_nil_iff.1 filled)
  have same : String.ofList ∘ String.toList = id := funext fun _ => String.ofList_toList
  rw [splitLines, cut, List.map_map, same, List.map_id]

/-- Lines without a newline are told apart by their text. -/
theorem joinLines_inj {first second : List String} (filled : first ≠ []) (filled' : second ≠ [])
    (single : ∀ line ∈ first, '\n' ∉ line.toList) (single' : ∀ line ∈ second, '\n' ∉ line.toList)
    (same : joinLines first = joinLines second) : first = second := by
  rw [← splitLines_joinLines filled single, same, splitLines_joinLines filled' single']

/-! ## The newline at the end -/

/-- Less its newline a text is what stands in front of it, or all of it if it ends otherwise. -/
theorem dropFinalNewline_eq_iff {text kept : String} : dropFinalNewline text = kept ↔
    text = kept ++ "\n" ∨ text = kept ∧ ∀ front, text ≠ front ++ "\n" := by
  have ends (front : String) : (front ++ "\n").toList.reverse = '\n' :: front.toList.reverse := by
    rw [String.toList_append, List.reverse_append]
    rfl
  rw [dropFinalNewline]
  split
  · next rest last =>
    have whole : text = String.ofList rest.reverse ++ "\n" := by
      rw [← String.toList_inj, ← List.reverse_inj, last, ends, String.toList_ofList,
        List.reverse_reverse]
    constructor
    · rintro rfl
      exact .inl whole
    · rintro (same | ⟨_, other⟩)
      · rw [same, ends, List.cons.injEq] at last
        rw [← last.2, List.reverse_reverse, String.ofList_toList]
      · exact (other _ whole).elim
  · next other =>
    have without : ∀ front, text ≠ front ++ "\n" := by
      rintro front rfl
      exact other _ (ends front)
    exact ⟨fun same => .inr ⟨same, without⟩,
      fun held => (held.resolve_left (without kept)).1⟩

/-! ## What two lists share -/

variable {α : Type} [DecidableEq α]

/-- The common lead of two lists begins either of them. -/
theorem take_commonLead (xs ys : List α) :
    xs.take (commonLead xs ys) = ys.take (commonLead xs ys) := by
  fun_induction commonLead xs ys with
  | case1 x xs ys ih => simp [ih]
  | case2 => rfl
  | case3 => rfl

theorem commonLead_le_length_right (xs ys : List α) : commonLead xs ys ≤ ys.length := by
  fun_induction commonLead xs ys with
  | case1 x xs ys ih => exact Nat.succ_le_succ ih
  | case2 => exact Nat.zero_le _
  | case3 => exact Nat.zero_le _

/-- What two lists share at their ends, cut from the back of either. -/
theorem drop_commonLead_reverse (xs ys : List α) :
    xs.drop (xs.length - commonLead xs.reverse ys.reverse) =
      ys.drop (ys.length - commonLead xs.reverse ys.reverse) := by
  have shared := take_commonLead xs.reverse ys.reverse
  rw [List.take_reverse, List.take_reverse] at shared
  exact List.reverse_injective shared

end MergeConflict.Text
