import MergeConflict.Proofs.BufferMoves
import MergeConflict.Proofs.ReconcileSplit

/-!
# Looking at a buffer from a line on

After a change the buffer is compared with the reference from an anchor line on. The hunks that end
in front of the anchor are left out, and the earlier patches that end there are kept in their place
(`keptPatches`). The list is then the kept patches with the found ones behind them
(`patchesFrom_eq`); it is what the whole buffer gives exactly if the two parts together are.

The hunks of the whole buffer are those in front and those that reach the anchor. If no block is met
by both kinds, the found patches are patches of the whole buffer, and the others are those of the
hunks in front (`fresh_eq_append`).

Main statements: `patchesFrom_eq`, `fresh_eq_append`, and `run_inOrder` and `run_fits`, by which the
patches stand in order and inside the text in every state of a run.
-/

namespace MergeConflict

namespace Hunk

/-- The hunks that count and end in front of line `anchor`. -/
def inFront (old new : List String) (anchor : Nat) (algorithm : Algorithm) : List Hunk :=
  (between old new 0 algorithm).filter fun hunk => decide (hunk.lastLine < anchor)

variable {old new : List String} {anchor : Nat} {algorithm : Algorithm}

/-- The hunks that count from line `anchor` on are those that reach it. -/
theorem between_eq_filter :
    between old new anchor algorithm =
      (between old new 0 algorithm).filter fun hunk => !decide (hunk.lastLine < anchor) := by
  rw [between, between, ofScript, ofScript, List.filter_filter]
  refine List.filter_congr fun hunk _ => ?_
  simp [counts, ← decide_not]

theorem le_lastLine_of_mem_between {hunk : Hunk}
    (inside : hunk ∈ between old new anchor algorithm) : anchor ≤ hunk.lastLine := by
  rw [between_eq_filter, List.mem_filter] at inside
  simpa using inside.2

/-- The hunks in front of an anchor and those that reach it are all hunks. -/
theorem inFront_append_between (old new : List String) (anchor : Nat) (algorithm : Algorithm) :
    inFront old new anchor algorithm ++ between old new anchor algorithm =
      between old new 0 algorithm := by
  rw [between_eq_filter]
  refine filter_append_filter_not _ ((laid_between old new 0 algorithm).apart.imp ?_)
  intro a b clear reaches
  have before : b.lastLine < anchor := of_decide_eq_true reaches
  refine decide_eq_true ?_
  simp only [lastLine, stop] at *
  omega

end Hunk

namespace Patch

/-- The patches stand one behind the other, in lines that a text can have. -/
structure InOrder (patches : List Patch) : Prop where
  pos : ∀ patch ∈ patches, 0 < patch.start
  apart : patches.Pairwise Ahead

theorem Laid.inOrder {length : Nat} {patches : List Patch} (laid : Laid length 1 patches) :
    InOrder patches :=
  ⟨fun patch inside => (laid.within patch inside).1, laid.apart⟩

/-- The patches from line `anchor` on. -/
def found (current reference : List String) (anchor : Nat) (algorithm : Algorithm) : List Patch :=
  reconcile current (Hunk.between current reference anchor algorithm) (findBlocks current)

/-- The earlier patches that end in front of line `anchor` and of all patches found. -/
def kept (found earlier : List Patch) (anchor : Nat) : List Patch :=
  earlier.filter fun patch =>
    decide (patch.lastLine < anchor) && found.head?.all fun first =>
      decide (patch.lastLine < first.start)

variable {current reference : List String} {anchor : Nat} {algorithm : Algorithm}
  {earlier : List Patch}

theorem laid_found : Laid current.length 1 (found current reference anchor algorithm) :=
  laid_reconcile (Hunk.laid_between current reference anchor algorithm) findBlocks_marks
    (findBlocks_pairwise current)

/-- A patch that is found reaches the anchor, since a hunk inside it does. -/
theorem le_lastLine_of_mem_found {patch : Patch}
    (inside : patch ∈ found current reference anchor algorithm) : anchor ≤ patch.lastLine := by
  obtain ⟨hunk, member, _, stops⟩ :=
    exists_hunk_of_mem_reconcile (Hunk.laid_between current reference anchor algorithm)
      findBlocks_marks (findBlocks_pairwise current) inside
  have := Hunk.le_lastLine_of_mem_between member
  simp only [Hunk.lastLine, Hunk.stop, lastLine, stop] at *
  omega

theorem kept_inOrder (found : List Patch) (order : InOrder earlier) :
    InOrder (kept found earlier anchor) :=
  ⟨fun patch inside => order.pos patch (List.mem_of_mem_filter inside),
    order.apart.sublist List.filter_sublist⟩

theorem lastLine_lt_of_mem_kept {found : List Patch} {patch : Patch}
    (inside : patch ∈ kept found earlier anchor) :
    patch.lastLine < anchor ∧ ∀ first ∈ found.head?, patch.lastLine < first.start := by
  have both := (List.mem_filter.1 inside).2
  rw [Bool.and_eq_true, decide_eq_true_eq] at both
  refine ⟨both.1, fun first head => ?_⟩
  have clear := both.2
  rw [Option.mem_def.1 head] at clear
  exact of_decide_eq_true clear

/-- The kept patches, with the found ones behind them, stand one behind the other. -/
theorem kept_append_found_inOrder (order : InOrder earlier) :
    InOrder (kept (found current reference anchor algorithm) earlier anchor ++
      found current reference anchor algorithm) := by
  have keptOrder : InOrder (kept (found current reference anchor algorithm) earlier anchor) :=
    kept_inOrder _ order
  have laid : Laid current.length 1 (found current reference anchor algorithm) := laid_found
  refine ⟨fun patch inside => ?_, List.pairwise_append.2 ⟨keptOrder.apart, laid.apart, ?_⟩⟩
  · rcases List.mem_append.1 inside with inside | inside
    · exact keptOrder.pos patch inside
    · exact (laid.within patch inside).1
  · intro patch inside other later
    obtain ⟨front, clear⟩ := lastLine_lt_of_mem_kept inside
    have reaches := le_lastLine_of_mem_found later
    have below : patch.lastLine < other.start := by
      obtain ⟨first, rest, same⟩ := List.exists_cons_of_ne_nil (List.ne_nil_of_mem later)
      have head := clear first (same ▸ rfl)
      have apart := laid.apart
      rw [same] at later apart
      rcases List.mem_cons.1 later with rfl | later
      · exact head
      · have ahead := ((List.pairwise_cons.1 apart).1 other later).1
        exact Nat.lt_of_lt_of_le head (Nat.le_trans (Nat.le_add_right ..) ahead)
    have := keptOrder.pos patch inside
    simp only [lastLine, Ahead, stop] at *
    omega

/-- If no block is cut, the patches of the whole buffer are those of the hunks in front of the
anchor, then those found from the anchor on. -/
theorem fresh_eq_append (uncut : Uncut (Hunk.inFront current reference anchor algorithm)
      (Hunk.between current reference anchor algorithm) (findBlocks current)) :
    fresh current reference algorithm =
      reconcile current (Hunk.inFront current reference anchor algorithm) (findBlocks current) ++
        found current reference anchor algorithm := by
  have laid := Hunk.laid_between current reference 0 algorithm
  have parts := Hunk.inFront_append_between current reference anchor algorithm
  rw [← parts] at laid
  rw [fresh, ← parts]
  exact reconcile_append laid uncut findBlocks_marks (findBlocks_pairwise current)

end Patch

namespace Buffer

/-- The kept patches with the found ones behind them are the list of a partial refresh. -/
theorem patchesFrom_eq {buffer : Buffer} {reference : List String} {earlier : List Patch}
    {anchor : Nat} (order : Patch.InOrder earlier) (partly : anchor ≠ 0) :
    buffer.patchesFrom reference earlier anchor =
      Patch.kept (Patch.found buffer.current reference anchor buffer.algorithm) earlier anchor ++
        Patch.found buffer.current reference anchor buffer.algorithm := by
  rw [patchesFrom, if_neg partly]
  exact Patch.sort_eq_of_perm List.perm_append_comm
    (Patch.kept_append_found_inOrder order).apart

/-- The list of a refresh stands in order if the list before did. -/
theorem patchesFrom_inOrder {buffer : Buffer} {reference : List String} {earlier : List Patch}
    {anchor : Nat} (order : Patch.InOrder earlier) :
    Patch.InOrder (buffer.patchesFrom reference earlier anchor) := by
  rcases Nat.eq_zero_or_pos anchor with rfl | partly
  · rw [patchesFrom_zero]
    exact (Patch.laid_fresh ..).inOrder
  · rw [patchesFrom_eq order (Nat.ne_of_gt partly)]
    exact Patch.kept_append_found_inOrder order

theorem inOrder_nil : Patch.InOrder [] :=
  ⟨fun _ inside => (List.not_mem_nil inside).elim, .nil⟩

/-- What holds of no patches and of fresh ones, and of a refreshed list if it did before, holds of
the patches in every state of a run. -/
theorem run_patches (holds : List String → List Patch → Prop) (none : ∀ current, holds current [])
    (fresh : ∀ current reference algorithm,
      holds current (Patch.fresh current reference algorithm))
    (refreshed : ∀ (before : Buffer) (next reference : List String) (hint : Nat),
      holds before.current before.patches →
      holds next ((before.push next).patchesFrom reference before.patches
        ((before.push next).anchor hint)))
    (lines : List String) (algorithm : Algorithm) (moves : List Move) :
    holds ((ofLines lines algorithm).run moves).current
      ((ofLines lines algorithm).run moves).patches := by
  have kept : ∀ before after : Buffer, holds before.current before.patches →
      Passage before after → holds after.current after.patches := by
    intro before after held passage
    cases passage with
    | still located pool same => exact held
    | whole current undoStack redoStack located pool initialPatches =>
      refine (patches_refresh_zero _).symm ▸ ?_
      split
      · exact none _
      · exact fresh _ _ _
    | revised next hint =>
      rw [revise, refresh]
      simp only
      split
      · exact none _
      · exact refreshed before next _ hint held
  exact run_induction (none lines) kept moves

/-- In every state of a run the patches stand in order. -/
theorem run_inOrder (lines : List String) (algorithm : Algorithm) (moves : List Move) :
    Patch.InOrder ((ofLines lines algorithm).run moves).patches := by
  refine run_patches (fun _ patches => Patch.InOrder patches) ?none ?fresh ?refreshed
    lines algorithm moves
  case none => exact fun _ => inOrder_nil
  case fresh => exact fun _ _ _ => (Patch.laid_fresh ..).inOrder
  case refreshed => exact fun _ _ _ _ order => patchesFrom_inOrder order

/-! ## Patches inside the text -/

/-- A patch of a refreshed list is found, or kept from the list before. -/
theorem mem_patchesFrom {buffer : Buffer} {reference : List String} {earlier : List Patch}
    {anchor : Nat} {patch : Patch} (inside : patch ∈ buffer.patchesFrom reference earlier anchor) :
    patch ∈ Patch.found buffer.current reference anchor buffer.algorithm ∨
      patch ∈ Patch.kept (Patch.found buffer.current reference anchor buffer.algorithm) earlier
        anchor := by
  rw [patchesFrom] at inside
  split at inside
  · exact .inl inside
  · exact List.mem_append.1 (List.mem_mergeSort.1 inside)

/-- A text is looked at from one of its lines on, or from the line behind the last. -/
theorem anchor_le (buffer : Buffer) (hint : Nat) :
    buffer.anchor hint ≤ buffer.current.length + 1 := by
  rw [anchor]
  split
  · next previous _ _ =>
    have lead := Text.commonLead_le_length_right previous buffer.current
    split
    · simp only
      split
      · exact Nat.zero_le _
      · omega
    · exact Nat.zero_le _
  · exact Nat.zero_le _

/-- A kept patch ends in front of the anchor, so it fits the new text as it did the one before. -/
theorem patchesFrom_fits {buffer : Buffer} {reference : List String} {earlier : List Patch}
    {anchor length : Nat} (fit : ∀ patch ∈ earlier, patch.fits length = true)
    (low : anchor ≤ buffer.current.length + 1) :
    ∀ patch ∈ buffer.patchesFrom reference earlier anchor,
      patch.fits buffer.current.length = true := by
  intro patch inside
  rw [Patch.fits_iff]
  rcases mem_patchesFrom inside with found | kept
  · exact Patch.laid_found.within patch found
  · have pos := (Patch.fits_iff.1 (fit patch (List.mem_of_mem_filter kept))).1
    have front := (Patch.lastLine_lt_of_mem_kept kept).1
    refine ⟨pos, ?_⟩
    simp only [Patch.lastLine, Patch.stop] at *
    omega

/-- In every state of a run each patch replaces lines that the text has. -/
theorem run_fits (lines : List String) (algorithm : Algorithm) (moves : List Move) :
    ∀ patch ∈ ((ofLines lines algorithm).run moves).patches,
      patch.fits ((ofLines lines algorithm).run moves).current.length = true := by
  refine run_patches (fun current patches => ∀ patch ∈ patches, patch.fits current.length = true)
    ?none ?fresh ?refreshed lines algorithm moves
  case none => exact fun _ _ inside => (List.not_mem_nil inside).elim
  case fresh => exact fun _ _ _ patch inside =>
    Patch.fits_iff.2 ((Patch.laid_fresh ..).within patch inside)
  case refreshed => exact fun _ _ _ _ fit => patchesFrom_fits fit (anchor_le _ _)

end Buffer

end MergeConflict
