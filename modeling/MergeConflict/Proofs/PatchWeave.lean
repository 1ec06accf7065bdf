import Mathlib.Data.List.Basic
import MergeConflict.Patch.Reconcile

/-!
# Patches woven into a buffer

`Patch.applyAll` splices patches into a buffer one by one, the last one first. For patches that
stand one behind the other that is a single walk over the buffer: `Patch.weave` copies the lines in
front of a patch, writes the patch's lines, and goes on behind the lines replaced.

The walk is what the other modules reason about. It can be cut at any line that no patch straddles
(`weave_cut`), and a patch that writes back the lines it replaces is no patch (`weave_cons_same`).

Main statements: `applyAll_eq_weave`, and `sort_eq_of_perm`, by which patches in any order sort to
the one order in which they stand one behind the other.
-/

namespace MergeConflict

/-- Of two members of a list in order, one stands in front of the other. -/
theorem eq_or_of_pairwise {α : Type} {ahead : α → α → Prop} {items : List α}
    (apart : items.Pairwise ahead) {a b : α} (insideA : a ∈ items) (insideB : b ∈ items) :
    a = b ∨ ahead a b ∨ ahead b a :=
  List.Pairwise.forall_of_forall_of_flip (R := fun a b => a = b ∨ ahead a b ∨ ahead b a)
    (fun _ _ => .inl rfl) (apart.imp fun before => .inr (.inl before))
    (apart.imp fun before => .inr (.inr before)) insideA insideB

namespace Patch

/-! ## Stretches of a buffer -/

theorem bufferLines_append_drop {lines : List String} {first mid : Nat} (low : first ≤ mid + 1) :
    bufferLines lines first mid ++ lines.drop mid = lines.drop (first - 1) := by
  have cut := congrArg (List.drop (first - 1)) (List.take_append_drop mid lines)
  rw [List.drop_append, List.length_take] at cut
  rw [← cut, bufferLines]
  congr 1
  rcases Nat.le_total mid lines.length with inside | beyond
  · rw [show first - 1 - min mid lines.length = 0 by omega, List.drop_zero]
  · simp only [List.drop_eq_nil_of_le beyond, List.drop_nil]

theorem bufferLines_append {lines : List String} {first mid last : Nat} (low : first ≤ mid + 1)
    (high : mid ≤ last) :
    bufferLines lines first mid ++ bufferLines lines (mid + 1) last =
      bufferLines lines first last := by
  have cut : bufferLines (lines.take last) first mid ++ (lines.take last).drop mid =
      (lines.take last).drop (first - 1) := bufferLines_append_drop low
  rwa [bufferLines, List.take_take, Nat.min_eq_left high] at cut

theorem take_append_bufferLines {lines : List String} {first mid : Nat} (low : first ≤ mid + 1) :
    lines.take (first - 1) ++ bufferLines lines first mid = lines.take mid := by
  have cut := List.take_append_drop (first - 1) (lines.take mid)
  rwa [List.take_take, Nat.min_eq_left (by omega)] at cut

/-- No line stands between a line and the one in front of it. -/
theorem bufferLines_eq_nil {lines : List String} {first last : Nat} (none : last < first) :
    bufferLines lines first last = [] := by
  apply List.drop_eq_nil_of_le
  rw [List.length_take]
  omega

@[simp] theorem bufferLines_empty (lines : List String) (line : Nat) :
    bufferLines lines line (line - 1) = [] := by
  simp [bufferLines]

/-! ## Patches one behind the other -/

/-- The line behind those the patch replaces. -/
def stop (patch : Patch) : Nat :=
  patch.start + patch.offset

theorem fits_iff {patch : Patch} {length : Nat} :
    patch.fits length = true ↔ 0 < patch.start ∧ patch.stop ≤ length + 1 := by
  simp only [fits, stop, Bool.and_eq_true, decide_eq_true_eq]
  omega

/-- The first patch ends before the second one begins, and an insertion stands in front of a
replacement that begins at the same line. -/
def Ahead (first second : Patch) : Prop :=
  first.stop ≤ second.start ∧ (first.start < second.start ∨ first.offset < second.offset)

/-- The patches stand one behind the other from line `cursor` on, inside a buffer of `length`
lines. -/
structure Laid (length cursor : Nat) (patches : List Patch) : Prop where
  within : ∀ patch ∈ patches, cursor ≤ patch.start ∧ patch.stop ≤ length + 1
  apart : patches.Pairwise Ahead

namespace Laid

variable {length cursor : Nat} {patch : Patch} {patches : List Patch}

theorem tail (laid : Laid length cursor (patch :: patches)) : Laid length patch.stop patches where
  within other inside :=
    ⟨((List.pairwise_cons.1 laid.apart).1 other inside).1,
      (laid.within other (List.mem_cons_of_mem _ inside)).2⟩
  apart := (List.pairwise_cons.1 laid.apart).2

theorem head (laid : Laid length cursor (patch :: patches)) :
    cursor ≤ patch.start ∧ patch.stop ≤ length + 1 :=
  laid.within patch List.mem_cons_self

end Laid

/-! ## The walk -/

/-- The buffer from line `cursor` on, with every patch's lines in the place of those it
replaces. -/
def weave (lines : List String) (cursor : Nat) : List Patch → List String
  | [] => lines.drop (cursor - 1)
  | patch :: rest =>
    bufferLines lines cursor (patch.start - 1) ++ (patch.newLines ++ weave lines patch.stop rest)

variable {lines : List String} {cursor : Nat} {patches : List Patch}

/-- The walk can be cut at a line that stands in front of all patches. -/
theorem weave_cut (mid : Nat) (low : cursor ≤ mid) (pos : 0 < mid)
    (behind : ∀ patch ∈ patches, mid ≤ patch.start) :
    weave lines cursor patches =
      bufferLines lines cursor (mid - 1) ++ weave lines mid patches := by
  cases patches with
  | nil => exact (bufferLines_append_drop (by omega)).symm
  | cons patch rest =>
    have := behind patch List.mem_cons_self
    have joined : bufferLines lines cursor (mid - 1) ++
        bufferLines lines (mid - 1 + 1) (patch.start - 1) = _ :=
      bufferLines_append (by omega) (by omega)
    rw [Nat.sub_add_cancel pos] at joined
    rw [weave, weave, ← joined, List.append_assoc]

/-- A patch that writes back the lines it replaces can be left out. -/
theorem weave_cons_same {patch : Patch} (laid : Laid lines.length cursor (patch :: patches))
    (pos : 0 < cursor) (same : patch.newLines = bufferLines lines patch.start (patch.stop - 1)) :
    weave lines cursor (patch :: patches) = weave lines cursor patches := by
  have := laid.head
  have after : patch.start ≤ patch.stop := Nat.le_add_right ..
  have behind : ∀ other ∈ patches, patch.stop ≤ other.start := fun other inside =>
    (laid.tail.within other inside).1
  rw [weave_cut patch.start (by omega) (by omega) fun other inside =>
      Nat.le_trans after (behind other inside),
    weave_cut patch.stop after (by omega) behind, weave, same]

/-- The patches behind some others leave the lines in front of them as they are. -/
theorem foldr_applied (laid : Laid lines.length cursor patches) (pos : 0 < cursor) :
    patches.foldr (fun patch buffer => (patch.applied? buffer).getD buffer) lines =
      lines.take (cursor - 1) ++ weave lines cursor patches := by
  induction patches generalizing cursor with
  | nil => exact (List.take_append_drop (cursor - 1) lines).symm
  | cons patch rest ih =>
    obtain ⟨low, high⟩ := laid.head
    have after : patch.start ≤ patch.stop := Nat.le_add_right ..
    have length : (lines.take (patch.stop - 1)).length = patch.start - 1 + patch.offset := by
      rw [List.length_take, stop] at *
      omega
    have fits : patch.fits
        (lines.take (patch.stop - 1) ++ weave lines patch.stop rest).length = true := by
      rw [fits_iff, List.length_append, length]
      simp only [stop]
      omega
    rw [List.foldr_cons, ih laid.tail (by omega), applied?, if_pos fits, Option.getD_some, splice,
      ← length, List.drop_left, weave, ← List.append_assoc (lines.take (cursor - 1)),
      take_append_bufferLines (by omega), List.take_append_of_le_length (by omega),
      List.take_take, Nat.min_eq_left (by omega), List.append_assoc]

/-! ## Sorting -/

theorem precedes_trans (a b c : Patch) (first : a.precedes b = true) (second : b.precedes c = true) :
    a.precedes c = true := by
  simp only [precedes, Bool.or_eq_true, Bool.and_eq_true, decide_eq_true_eq, beq_iff_eq] at *
  omega

theorem precedes_total (a b : Patch) : (a.precedes b || b.precedes a) = true := by
  simp only [precedes, Bool.or_eq_true, Bool.and_eq_true, decide_eq_true_eq, beq_iff_eq]
  omega

theorem Ahead.precedes {a b : Patch} (ahead : Ahead a b) : a.precedes b = true := by
  obtain ⟨clear, strict⟩ := ahead
  simp only [Patch.precedes, stop, Bool.or_eq_true, Bool.and_eq_true, decide_eq_true_eq,
    beq_iff_eq] at *
  omega

theorem Ahead.not_precedes {a b : Patch} (ahead : Ahead a b) : ¬ b.precedes a = true := by
  obtain ⟨clear, strict⟩ := ahead
  simp only [Patch.precedes, stop, Bool.or_eq_true, Bool.and_eq_true, decide_eq_true_eq,
    beq_iff_eq] at *
  omega

/-- Patches sort to the order in which they stand one behind the other. -/
theorem sort_eq_of_perm {unsorted : List Patch} (perm : unsorted.Perm patches)
    (apart : patches.Pairwise Ahead) : sort unsorted = patches := by
  have sorted := List.pairwise_mergeSort precedes_trans precedes_total unsorted
  have same := (List.mergeSort_perm unsorted precedes).trans perm
  have antisymm : ∀ a b, a ∈ sort unsorted → b ∈ patches →
      a.precedes b = true → b.precedes a = true → a = b := by
    intro a b insideA insideB before behind
    rcases eq_or_of_pairwise apart (same.subset insideA) insideB with equal | ahead | ahead
    · exact equal
    · exact (ahead.not_precedes behind).elim
    · exact (ahead.not_precedes before).elim
  exact List.Perm.eq_of_pairwise antisymm sorted (apart.imp fun ahead => ahead.precedes) same

/-- Applying patches that stand one behind the other is one walk over the buffer. -/
theorem applyAll_eq_weave (laid : Laid lines.length 1 patches) :
    applyAll lines patches = weave lines 1 patches := by
  rw [applyAll, sort_eq_of_perm (.refl _) laid.apart, foldr_applied laid Nat.one_pos]
  rfl

end Patch

end MergeConflict
