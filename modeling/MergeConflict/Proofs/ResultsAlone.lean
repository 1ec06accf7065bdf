import MergeConflict.Proofs.BufferMoves

/-!
# What results alone make of a buffer

A session does two things to a buffer: the user changes the text, and results come in. The pool is
made by the results alone, whatever the text is meanwhile (`run_pool`), and a file that gets nothing
but results stays as loaded, with the patches from it to the reference (`run_commits`). A reset
leads back to that buffer: what the user did is forgotten, and every result is kept.

One thing a reset does not bring back. The initial patches are taken when the reference changes,
from the text that is shown then (`textAtArrival`), so they are those of the file exactly as far as
that text has the same patches to the reference.

Main statements: `run_reset_eq` and `run_initialPatches_iff`.
-/

namespace MergeConflict.Buffer

/-- The results that some moves put in, in order. -/
def updatesOf (moves : List Move) : List Update :=
  moves.filterMap Move.update?

/-- The patches from a text to a reference, none where there is no reference. -/
def patchesTo (current : List String) (algorithm : Algorithm) : Option (List String) → List Patch
  | none => []
  | some reference => Patch.fresh current reference algorithm

/-- A file as loaded over a pool, with its patches to the reference. -/
def ofPool (lines : List String) (algorithm : Algorithm) (pool : Pool) : Buffer :=
  { ofLines lines algorithm with
    pool
    patches := patchesTo lines algorithm pool.merged
    initialPatches := patchesTo lines algorithm pool.merged }

/-- A move, and the text that was shown when the reference last changed. -/
def arrive (state : Buffer × List String) (move : Move) : Buffer × List String :=
  (state.1.move move,
    if (state.1.move move).pool.merged = state.1.pool.merged then state.2 else state.1.current)

/-- The text that was shown when the reference changed for the last time, at first that of the
start. -/
def textAtArrival (start : Buffer) (moves : List Move) : List String :=
  (moves.foldl arrive (start, start.current)).2

/-- The initial patches are those from the file as loaded, over its own blocks, to the reference. -/
def InitialOfLoaded (buffer : Buffer) : Prop :=
  ∀ reference, buffer.pool.merged = some reference →
    buffer.initialPatches = Patch.reconcile buffer.loaded
      (Hunk.between buffer.loaded reference 0 buffer.algorithm) buffer.blocks

variable {lines : List String} {algorithm : Algorithm} {buffer : Buffer}

/-! ## Results and nothing else -/

theorem updatesOf_concat (moves : List Move) (move : Move) :
    updatesOf (moves ++ [move]) = updatesOf moves ++ move.update?.toList := by
  rw [updatesOf, updatesOf, List.filterMap_append]
  cases given : move.update? with
  | none => rw [List.filterMap_cons_none given]; rfl
  | some update => rw [List.filterMap_cons_some given]; rfl

/-- The pool is made by the results that come in, whatever else is done. -/
theorem run_pool (buffer : Buffer) (moves : List Move) :
    (buffer.run moves).pool = (updatesOf moves).foldl Pool.commit buffer.pool := by
  induction moves using List.reverseRecOn with
  | nil => rfl
  | append_singleton moves move ih =>
    rw [run_concat, move_pool, ih, updatesOf_concat, List.foldl_append]
    cases move.update? with
    | none => rfl
    | some update => rfl

theorem commit_ofPool (pool : Pool) (update : Update) :
    ((ofPool lines algorithm pool).commit update).1 =
      ofPool lines algorithm (pool.commit update) := by
  by_cases same : (pool.commit update).merged = pool.merged
  · rw [commit_fst_of_merged_eq same, ofPool, ofPool, same]
  · exact commit_fst_of_merged_ne same

/-- A file that gets nothing but results stays as loaded. -/
theorem run_commits (updates : List Update) (pool : Pool) :
    (ofPool lines algorithm pool).run (updates.map .commit) =
      ofPool lines algorithm (updates.foldl Pool.commit pool) := by
  induction updates generalizing pool with
  | nil => rfl
  | cons update updates ih =>
    rw [List.map_cons, run, List.foldl_cons, move, commit_ofPool]
    exact ih (pool.commit update)

/-! ## Reset -/

/-- A reset leads back to the file as loaded, over the pool as it is. -/
theorem Rooted.reset_eq (rooted : buffer.Rooted lines algorithm) :
    buffer.reset.1 =
      { ofPool lines algorithm buffer.pool with initialPatches := buffer.initialPatches } := by
  obtain ⟨rfl, blocks, prints, rfl, -⟩ := rooted
  rw [reset, refresh, ofPool, ofLines, ← prints, ← blocks]
  rfl

/-- After any run a reset leaves the buffer that a file just loaded has become by the results of the
run alone, in the text and its blocks, the patches, both stacks, the places remembered and the pool.
Only the initial patches stay as they were. -/
theorem run_reset_eq (text : String) (algorithm : Algorithm) (moves : List Move) :
    ((ofContent text algorithm).run moves).reset.1 =
      { (ofContent text algorithm).run ((updatesOf moves).map .commit) with
        initialPatches := ((ofContent text algorithm).run moves).initialPatches } := by
  have alone : (ofContent text algorithm).run ((updatesOf moves).map .commit) =
      ofPool (Text.splitLines text) algorithm ((updatesOf moves).foldl Pool.commit .empty) :=
    run_commits (updatesOf moves) .empty
  have pool : ((ofContent text algorithm).run moves).pool =
      (updatesOf moves).foldl Pool.commit .empty :=
    run_pool (ofContent text algorithm) moves
  rw [alone, ← pool]
  exact (run_rooted (Text.splitLines text) algorithm moves).reset_eq

/-! ## Initial patches -/

theorem foldl_arrive_fst (moves : List Move) (state : Buffer × List String) :
    (moves.foldl arrive state).1 = state.1.run moves := by
  induction moves generalizing state with
  | nil => rfl
  | cons move moves ih => exact ih _

theorem textAtArrival_concat (start : Buffer) (moves : List Move) (move : Move) :
    textAtArrival start (moves ++ [move]) =
      if ((start.run moves).move move).pool.merged = (start.run moves).pool.merged then
        textAtArrival start moves
      else (start.run moves).current := by
  rw [textAtArrival, List.foldl_concat, arrive, foldl_arrive_fst]
  rfl

/-- Only a change of the reference changes the initial patches, to those of the text shown then. -/
theorem move_initialPatches (buffer : Buffer) (move : Move) :
    (buffer.move move).initialPatches =
      if (buffer.move move).pool.merged = buffer.pool.merged then buffer.initialPatches
      else patchesTo buffer.current buffer.algorithm (buffer.move move).pool.merged := by
  cases given : move.update? with
  | none =>
    obtain ⟨_, _, _, _, _, _, moved⟩ := exists_move_eq buffer given
    rw [moved, if_pos rfl]
  | some update =>
    rw [update?_eq_some_iff.1 given, Buffer.move, commit_pool]
    split
    · next same => rw [commit_fst_of_merged_eq same]
    · next changed =>
      rw [commit_fst_of_merged_ne changed]
      exact patches_refresh_zero _

theorem run_initialPatches_eq (lines : List String) (algorithm : Algorithm) (moves : List Move) :
    ((ofLines lines algorithm).run moves).initialPatches =
      patchesTo (textAtArrival (ofLines lines algorithm) moves) algorithm
        ((ofLines lines algorithm).run moves).pool.merged := by
  induction moves using List.reverseRecOn with
  | nil => rfl
  | append_singleton moves move ih =>
    rw [run_concat, move_initialPatches, textAtArrival_concat,
      (run_rooted lines algorithm moves).algorithm]
    split
    · next same => rw [ih, same]
    · rfl

/-- If every result has come while the text was as loaded, the reference has arrived at that
text. -/
theorem textAtArrival_eq (moves : List Move)
    (early : ∀ done update rest, moves = done ++ .commit update :: rest →
      ((ofLines lines algorithm).run done).current = lines) :
    textAtArrival (ofLines lines algorithm) moves = lines := by
  induction moves using List.reverseRecOn with
  | nil => rfl
  | append_singleton moves move ih =>
    rw [textAtArrival_concat]
    split
    · exact ih fun done update rest taken => early done update (rest ++ [move]) (by simp [taken])
    · next changed =>
      -- only a result changes the reference
      cases given : move.update? with
      | none => exact (changed (by rw [move_pool, given]; rfl)).elim
      | some update => exact early moves update [] (by rw [update?_eq_some_iff.1 given])

/-- In every state of a run that has a reference, the initial patches are those of the text that was
shown when the reference arrived. So they are those of the file as loaded exactly if both texts have
the same patches to the reference, which they have where every result came before any edit. -/
theorem run_initialPatches_iff (lines : List String) (algorithm : Algorithm) (moves : List Move) :
    let buffer := (ofLines lines algorithm).run moves
    let shown := textAtArrival (ofLines lines algorithm) moves
    (∀ reference, buffer.pool.merged = some reference →
      buffer.initialPatches = Patch.fresh shown reference algorithm) ∧
    (buffer.InitialOfLoaded ↔ ∀ reference, buffer.pool.merged = some reference →
      Patch.fresh shown reference algorithm = Patch.fresh lines reference algorithm) ∧
    ((∀ done update rest, moves = done ++ .commit update :: rest →
        ((ofLines lines algorithm).run done).current = lines) →
      buffer.InitialOfLoaded) := by
  intro buffer shown
  have arrived (reference : List String) (merged : buffer.pool.merged = some reference) :
      buffer.initialPatches = Patch.fresh shown reference algorithm := by
    have initial : buffer.initialPatches = patchesTo shown algorithm buffer.pool.merged :=
      run_initialPatches_eq lines algorithm moves
    rw [initial, merged]
    rfl
  have rooted : buffer.Rooted lines algorithm := run_rooted lines algorithm moves
  have exact : buffer.InitialOfLoaded ↔ ∀ reference, buffer.pool.merged = some reference →
      Patch.fresh shown reference algorithm = Patch.fresh lines reference algorithm := by
    rw [InitialOfLoaded, rooted.loaded, rooted.blocks, rooted.algorithm]
    refine forall_congr' fun reference => forall_congr' fun merged => ?_
    rw [arrived reference merged]
    rfl
  refine ⟨arrived, exact, fun early => exact.2 fun reference _ => ?_⟩
  have same : shown = lines := textAtArrival_eq moves early
  rw [same]

/-! ## A reference that arrives behind an edit -/

/-- One block between two lines. -/
def framed : Buffer :=
  ofLines ["h", "<<<<<<<", "a", "=======", "b", ">>>>>>>", "t"] .lines

/-- Six lines come in front, and then a reference for the file as loaded. -/
def shifted : Buffer :=
  framed.run [.edit "1\n2\n3\n4\n5\n6\nh\n<<<<<<<\na\n=======\nb\n>>>>>>>\nt" 1,
    .commit (.heuristic ⟨false, [], some ["h", "a", "t"], false⟩)]

/-- The patches held for the audit are in the lines of the edited text. So it is the patch that
takes the six lines out which overlaps the block of the file, and the heuristic text that a side is
compared with is empty. -/
theorem shifted_initialPatches :
    ¬ shifted.InitialOfLoaded ∧
      Patch.fresh framed.loaded ["h", "a", "t"] .lines = [⟨2, 5, ["a"]⟩] ∧
      shifted.initialPatches = [⟨1, 6, []⟩, ⟨8, 5, ["a"]⟩] ∧
      shifted.pool.heuristicCode 1 ⟨2, none, 4, 6⟩ shifted.initialPatches = "" := by
  have merged : shifted.pool.merged = some ["h", "a", "t"] := by decide +kernel
  have ofFile : Patch.fresh framed.loaded ["h", "a", "t"] .lines = [⟨2, 5, ["a"]⟩] := by
    rw [Patch.fresh_eq_arrange]
    decide +kernel
  have initial : shifted.initialPatches = [⟨1, 6, []⟩, ⟨8, 5, ["a"]⟩] := by
    rw [shifted, framed, run_initialPatches_eq]
    change Patch.fresh _ ["h", "a", "t"] .lines = _
    rw [Patch.fresh_eq_arrange]
    decide +kernel
  refine ⟨fun loaded => ?_, ofFile, initial, ?_⟩
  · have same := loaded _ merged
    rw [initial] at same
    exact absurd (same.trans ofFile) (by decide)
  · rw [initial]
    decide +kernel

end MergeConflict.Buffer
