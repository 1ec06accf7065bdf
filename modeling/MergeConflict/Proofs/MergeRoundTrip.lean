import MergeConflict.Proofs.ReconcileWeave

/-!
# Applying all patches

The patches between a buffer and a text, applied all at once, lead from the one to the other, up to
white space that the comparison passes over. This holds of the hunks of any script that spells both
texts (`applyAll_hunks_eq`, `inkOf_applyAll_hunks`): the patches change the old text as the hunks
that count do, and a hunk that does not count leaves lines of the same ink standing. `fresh` are the
patches that a buffer has to a reference, and the comparison of both is such a script.

Main statement: `applyAll_fresh_eq`.
-/

namespace MergeConflict.Patch

/-! ## The patches of a script -/

section Script

variable {script : Script}

/-- White space aside, the lines that a hunk leaves in its place are its new ones. -/
theorem inkOf_settled (hunk : Hunk) :
    Text.inkOf (if Hunk.counts 0 hunk then hunk.newLines else hunk.oldLines) =
      Text.inkOf hunk.newLines := by
  split
  · rfl
  · next blank => simpa [Hunk.counts, Hunk.isBlank] using blank

/-- The patches of a script lead from its old text to its new one, up to white space. -/
theorem inkOf_applyAll_hunks (kept : script.KeptNonempty) :
    let current := script.oldLines
    Text.inkOf
        (applyAll current (reconcile current (Hunk.ofScript script 0) (findBlocks current))) =
      Text.inkOf script.newLines := by
  intro current
  rw [applyAll_eq_weave_hunks (Hunk.laid_ofScript kept 0) findBlocks_marks
    (findBlocks_pairwise current), Hunk.weave_ofScript kept]
  exact (Hunk.inkOf_weave_congr fun hunk _ => inkOf_settled hunk).trans
    (congrArg Text.inkOf (Hunk.laid_collect_one kept).2)

/-- Where no hunk changes white space only, the patches of a script lead from its old text to its
new one. -/
theorem applyAll_hunks_eq (kept : script.KeptNonempty)
    (inked : ∀ hunk ∈ Hunk.collect 1 none script, hunk.isBlank = false) :
    let current := script.oldLines
    applyAll current (reconcile current (Hunk.ofScript script 0) (findBlocks current)) =
      script.newLines := by
  intro current
  have all : Hunk.ofScript script 0 = Hunk.collect 1 none script :=
    List.filter_eq_self.2 fun hunk inside => by simp [Hunk.counts, inked hunk inside]
  rw [applyAll_eq_weave_hunks (Hunk.laid_ofScript kept 0) findBlocks_marks
    (findBlocks_pairwise current), all]
  exact (Hunk.laid_collect_one kept).2

end Script

/-! ## The patches to a reference -/

/-- The patches from a buffer to a reference, worked out from both texts alone. -/
def fresh (current reference : List String) (algorithm : Algorithm) : List Patch :=
  reconcile current (Hunk.between current reference 0 algorithm) (findBlocks current)

variable (current reference : List String) (algorithm : Algorithm)

theorem laid_fresh : Laid current.length 1 (fresh current reference algorithm) :=
  laid_reconcile (Hunk.laid_between current reference 0 algorithm) findBlocks_marks
    (findBlocks_pairwise current)

/-- The patches stand in the order in which the groups of the hunks come. -/
theorem fresh_eq_arrange : fresh current reference algorithm =
    arrange current (Hunk.between current reference 0 algorithm)
      (Group.ofBlocks (Hunk.between current reference 0 algorithm) (findBlocks current)).reverse :=
  reconcile_eq_arrange (Hunk.laid_between current reference 0 algorithm) findBlocks_marks
    (findBlocks_pairwise current)

theorem inkOf_applyAll_fresh :
    Text.inkOf (applyAll current (fresh current reference algorithm)) = Text.inkOf reference := by
  have shown := inkOf_applyAll_hunks (Script.diff_keptNonempty algorithm current reference)
  obtain ⟨spellsOld, spellsNew⟩ := Script.diff_spells algorithm current reference
  rwa [spellsOld, spellsNew] at shown

/-- All patches together turn the buffer into the reference if the comparison has no hunk that
changes white space only, and up to white space in any case. -/
theorem applyAll_fresh_eq :
    ((∀ hunk ∈ Hunk.collect 1 none (Script.diff algorithm current reference),
        hunk.isBlank = false) →
      applyAll current (fresh current reference algorithm) = reference) ∧
    Text.inkOf (applyAll current (fresh current reference algorithm)) = Text.inkOf reference := by
  refine ⟨fun inked => ?_, inkOf_applyAll_fresh current reference algorithm⟩
  have reached := applyAll_hunks_eq (Script.diff_keptNonempty algorithm current reference) inked
  obtain ⟨spellsOld, spellsNew⟩ := Script.diff_spells algorithm current reference
  rwa [spellsOld, spellsNew] at reached

end MergeConflict.Patch
