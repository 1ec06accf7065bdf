import MergeConflict.Proofs.StrayMarkers

/-!
# When a refresh is exact

A partial refresh is as good as a whole one exactly if the patches it keeps and the patches it finds
are together those of the whole new text (`Seamless`). Two things make it so: no block is cut, and
the patches kept are those of the hunks in front of the anchor (`KeepsFront`). Against a reference
without a start marker nothing else does.

The second condition is no matter of course either: an edit below a patch can lead the comparison to
another alignment above.

Main statement: `run_upToDate_iff`.
-/

namespace MergeConflict.Buffer

/-- Kept and found patches are together those of the whole new text. -/
def Seamless (buffer : Buffer) (next : List String) (hint : Nat) : Prop :=
  ∀ reference, buffer.pool.merged = some reference → ∀ anchor,
    anchor = (buffer.push next).anchor hint → anchor ≠ 0 →
      Patch.kept (Patch.found next reference anchor buffer.algorithm) buffer.patches anchor ++
          Patch.found next reference anchor buffer.algorithm =
        Patch.fresh next reference buffer.algorithm

/-- The patches kept are those of the hunks in front of the anchor. -/
def KeepsFront (buffer : Buffer) (next : List String) (hint : Nat) : Prop :=
  ∀ reference, buffer.pool.merged = some reference → ∀ anchor,
    anchor = (buffer.push next).anchor hint → anchor ≠ 0 →
      Patch.kept (Patch.found next reference anchor buffer.algorithm) buffer.patches anchor =
        Patch.reconcile next (Hunk.inFront next reference anchor buffer.algorithm)
          (findBlocks next)

variable {buffer : Buffer} {next : List String} {hint : Nat}

/-- After a new text the list is up to date exactly if the refresh was seamless. -/
theorem upToDate_revise_iff (order : Patch.InOrder buffer.patches) :
    (buffer.revise next hint).UpToDate ↔ buffer.Seamless next hint := by
  constructor
  · rintro upToDate reference merged anchor rfl partly
    have list := upToDate reference merged
    rwa [patches_revise buffer next hint merged, patchesFrom_eq order partly] at list
  · intro seamless reference merged
    have merged : buffer.pool.merged = some reference := merged
    rw [patches_revise buffer next hint merged]
    by_cases whole : (buffer.push next).anchor hint = 0
    · rw [whole, patchesFrom_zero]
      rfl
    · rw [patchesFrom_eq order whole]
      exact seamless reference merged _ rfl whole

theorem CutsNoBlock.seamless (uncut : buffer.CutsNoBlock next hint)
    (front : buffer.KeepsFront next hint) : buffer.Seamless next hint := by
  intro reference merged anchor anchored partly
  rw [front reference merged anchor anchored partly,
    Patch.fresh_eq_append (uncut reference merged anchor anchored partly)]

theorem Seamless.cutsNoBlock (seamless : buffer.Seamless next hint)
    (order : Patch.InOrder buffer.patches) (plain : buffer.HasPlain) :
    buffer.CutsNoBlock next hint ∧ buffer.KeepsFront next hint := by
  have upToDate := (upToDate_revise_iff order).2 seamless
  have uncut : buffer.CutsNoBlock next hint :=
    cutsNoBlock_of_strayless order (upToDate.strayless plain)
  refine ⟨uncut, fun reference merged anchor anchored partly => ?_⟩
  have parts := seamless reference merged anchor anchored partly
  rw [Patch.fresh_eq_append (uncut reference merged anchor anchored partly)] at parts
  exact List.append_cancel_right parts

/-- Along every run the list is up to date exactly if every new text is refreshed seamlessly. That is
so where no block is cut and the patches kept are those of the hunks in front, and against a
reference without a start marker only there. -/
theorem run_upToDate_iff (lines : List String) (algorithm : Algorithm) (moves : List Move) :
    ((∀ done rest, moves = done ++ rest → ((ofLines lines algorithm).run done).UpToDate) ↔
      ∀ done move rest next hint, moves = done ++ move :: rest →
        ((ofLines lines algorithm).run done).move move =
          ((ofLines lines algorithm).run done).revise next hint →
        ((ofLines lines algorithm).run done).Seamless next hint) ∧
    ∀ next hint,
      (((ofLines lines algorithm).run moves).CutsNoBlock next hint →
        ((ofLines lines algorithm).run moves).KeepsFront next hint →
        ((ofLines lines algorithm).run moves).Seamless next hint) ∧
      (((ofLines lines algorithm).run moves).HasPlain →
        ((ofLines lines algorithm).run moves).Seamless next hint →
        ((ofLines lines algorithm).run moves).CutsNoBlock next hint ∧
          ((ofLines lines algorithm).run moves).KeepsFront next hint) := by
  refine ⟨?_, fun next hint => ⟨CutsNoBlock.seamless, fun plain seamless =>
    seamless.cutsNoBlock (run_inOrder lines algorithm moves) plain⟩⟩
  refine run_forall_iff UpToDate Seamless ?first ?still ?whole ?revised moves
  case first => exact fun _ merged => nomatch merged
  case still =>
    intro before located pool same upToDate reference held
    exact upToDate reference (same.symm.trans held)
  case whole => exact fun before _ => upToDate_refresh_zero before
  case revised =>
    exact fun done next hint _ => upToDate_revise_iff (run_inOrder lines algorithm done)

/-- Settling the second of two adjacent blocks leaves a list that is not up to date. -/
theorem adjacent_outdated :
    ¬ (adjacent.run [offer, .apply settleSecond]).UpToDate := by
  intro upToDate
  have strayless := upToDate.strayless adjacent_hasPlain
  rw [adjacent_settled] at strayless
  exact adjacent_cut (cutsNoBlock_of_strayless (run_inOrder _ _ [offer]) strayless)

end MergeConflict.Buffer
