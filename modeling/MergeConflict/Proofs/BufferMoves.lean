import Mathlib.Data.List.Induction
import MergeConflict.Buffer
import MergeConflict.Proofs.MergeRoundTrip

/-!
# Runs of a buffer

A session moves its buffer in few ways. Seen from the list of patches there are three (`Passage`):
the list and all it depends on stay as they are, the list is worked out anew from the whole buffer,
or a new version of the text is looked at from a line on (`revise`). Every move is one of these
(`move_passage`), so that what holds of the list is shown three times and not once per move.

Main statements: `apply_cases` and `move_passage`, which say what a move can do, `run_induction`, by
which what every passage keeps holds in every state of a run, `run_forall_iff`, for what a new text
need not keep, and `run_rooted`.
-/

namespace MergeConflict.Buffer

/-- What a session does to its buffer. -/
inductive Move where
  | prepare (request : Request)
  | apply (request : Request)
  | edit (content : String) (hint : Nat)
  | undo
  | redo
  | reset
  | commit (update : Update)

/-- The buffer after a move. A move that fails leaves the text as it is. -/
def move (buffer : Buffer) : Move → Buffer
  | .prepare request => (buffer.prepare request).1
  | .apply request => (buffer.apply request).1
  | .edit content hint => (buffer.edit content hint).1
  | .undo => buffer.undo.1
  | .redo => buffer.redo.1
  | .reset => buffer.reset.1
  | .commit update => (buffer.commit update).1

/-- What the observers of a buffer are told of a move. -/
def announced (buffer : Buffer) : Move → List Transition
  | .prepare _ => []
  | .apply request =>
    match (buffer.apply request).2 with
    | .ok applied => [applied.transition]
    | .error _ => []
  | .edit content hint => (buffer.edit content hint).2.toList
  | .undo => buffer.undo.2.toList
  | .redo => buffer.redo.2.toList
  | .reset => [buffer.reset.2]
  | .commit update => [(buffer.commit update).2]

/-- The buffer after some moves. -/
def run (buffer : Buffer) (moves : List Move) : Buffer :=
  moves.foldl move buffer

/-- The buffer after `next` has replaced its text around line `hint`. -/
def revise (buffer : Buffer) (next : List String) (hint : Nat) : Buffer :=
  (buffer.push next).refresh hint

/-- The patches are those that the text has to the reference, as far as there is one. -/
def UpToDate (buffer : Buffer) : Prop :=
  ∀ reference, buffer.pool.merged = some reference →
    buffer.patches = Patch.fresh buffer.current reference buffer.algorithm

/-- What a move does to a buffer, as far as the list of patches is concerned. -/
inductive Passage (before : Buffer) : Buffer → Prop
  | still (located : List (Request × Interval)) (pool : Pool) :
    pool.merged = before.pool.merged → Passage before { before with located, pool }
  | whole (current : List String) (undoStack redoStack : List (List String))
    (located : List (Request × Interval)) (pool : Pool) (initialPatches : List Patch) :
    Passage before
      { ({ before with current, undoStack, redoStack, located, pool } : Buffer).refresh 0 with
        initialPatches }
  | revised (next : List String) (hint : Nat) : Passage before (before.revise next hint)

variable {buffer : Buffer}

theorem run_concat (buffer : Buffer) (moves : List Move) (move : Move) :
    buffer.run (moves ++ [move]) = (buffer.run moves).move move := by
  simp [run]

/-! ## The three passages -/

/-- A refresh around line 0 looks at the whole buffer. -/
theorem anchor_zero (buffer : Buffer) : buffer.anchor 0 = 0 := by
  rw [anchor]
  split
  · rfl
  · rfl

theorem patchesFrom_zero (buffer : Buffer) (reference : List String) (earlier : List Patch) :
    buffer.patchesFrom reference earlier 0 =
      Patch.fresh buffer.current reference buffer.algorithm :=
  rfl

theorem patches_refresh_zero (buffer : Buffer) :
    (buffer.refresh 0).patches = match buffer.pool.merged with
      | none => []
      | some reference => Patch.fresh buffer.current reference buffer.algorithm := by
  cases merged : buffer.pool.merged with
  | none => simp only [refresh, merged]
  | some reference => simp only [refresh, merged, anchor_zero, patchesFrom_zero]

theorem upToDate_refresh_zero (buffer : Buffer) : (buffer.refresh 0).UpToDate := by
  intro reference merged
  have merged : buffer.pool.merged = some reference := merged
  rw [patches_refresh_zero, merged]
  rfl

/-- Remembering where a request goes leaves the places of all others. -/
theorem lookup_remember {request other : Request} (distinct : other ≠ request) (at' : Interval)
    (located : List (Request × Interval)) :
    ((request, at') :: located.filter fun entry => entry.1 ≠ request).lookup other =
      located.lookup other := by
  rw [List.lookup_cons, beq_false_of_ne distinct]
  change (located.filter fun entry => entry.1 ≠ request).lookup other = located.lookup other
  induction located with
  | nil => rfl
  | cons entry rest ih =>
    by_cases same : entry.1 = request
    · have apart : (other == entry.1) = false := beq_false_of_ne (same ▸ distinct)
      rw [List.filter_cons_of_neg (by simp [same]), ih, List.lookup_cons, apart]
    · rw [List.filter_cons_of_pos (by simp [same]), List.lookup_cons, List.lookup_cons, ih]

/-- Looking for a block changes nothing but the place remembered for the request. -/
theorem prepare_fst (buffer : Buffer) (request : Request) :
    ∃ located, (buffer.prepare request).1 = { buffer with located } ∧
      ∀ other ≠ request, located.lookup other = buffer.located.lookup other := by
  unfold prepare
  split
  · exact ⟨_, rfl, fun _ _ => rfl⟩
  · split
    · exact ⟨_, rfl, fun _ _ => rfl⟩
    · exact ⟨_, rfl, fun _ distinct => lookup_remember distinct _ _⟩

theorem target_fst (buffer : Buffer) (request : Request) :
    ∃ located, (buffer.target request).1 = { buffer with located } ∧
      ∀ other ≠ request, located.lookup other = buffer.located.lookup other := by
  obtain ⟨located, prepared, others⟩ := prepare_fst buffer request
  have left {changed : Buffer} {result : Except ResolveError Interval}
      (outcome : buffer.prepare request = (changed, result)) :
      changed = { buffer with located } :=
    (congrArg Prod.fst outcome).symm.trans prepared
  unfold target
  split
  · split
    · exact ⟨_, rfl, fun _ _ => rfl⟩
    · split
      · split
        · next outcome => exact ⟨located, left outcome, others⟩
        · next outcome => split <;> exact ⟨located, left outcome, others⟩
      · exact ⟨_, rfl, fun _ _ => rfl⟩
  · split
    · next outcome => exact ⟨located, left outcome, others⟩
    · next outcome => exact ⟨located, left outcome, others⟩

/-- A choice other than a patch goes where its block is found. -/
theorem target_of_located {request : Request} {conflict : Block} {at' : Interval}
    (direct : ∀ index, request.choice ≠ .patch index)
    (known : buffer.block request.block = .ok conflict)
    (found : buffer.locate request.block = some at') :
    ∃ located, buffer.target request =
      ({ buffer with located }, .ok (at'.first, at'.lineCount)) := by
  have prepared : ∃ located, buffer.prepare request = ({ buffer with located }, .ok at') := by
    refine ⟨(request, at') :: buffer.located.filter fun entry => entry.1 ≠ request, ?_⟩
    rw [prepare, known]
    simp only [found]
  obtain ⟨located, prepared⟩ := prepared
  refine ⟨located, ?_⟩
  unfold target
  split
  · next index chosen => exact absurd chosen (direct index)
  · rw [prepared]

/-- A choice that has lines to replace, and resolves, revises the text there. -/
theorem apply_of_target {request : Request} {position count : Nat} {resolved : Resolved}
    (targeted : (buffer.target request).2 = .ok (position, count))
    (resolves : buffer.pool.resolve buffer.setting request.block request.choice = .ok resolved) :
    let after := buffer.revise
      (Patch.splice buffer.current position count resolved.lines) (position + 1)
    buffer.apply request = (after, .ok ⟨after.transition .apply, request, resolved.audit⟩) := by
  obtain ⟨located, left, -⟩ := target_fst buffer request
  have outcome : buffer.target request = ({ buffer with located }, .ok (position, count)) :=
    Prod.ext left targeted
  have resolves : ({ buffer with located } : Buffer).pool.resolve
      ({ buffer with located } : Buffer).setting request.block request.choice = .ok resolved :=
    resolves
  rw [apply, outcome]
  simp only [resolves]
  rfl

/-- A choice that resolves replaces the lines of its block where that is found. -/
theorem apply_of_located {request : Request} {conflict : Block} {at' : Interval}
    {resolved : Resolved} (direct : ∀ index, request.choice ≠ .patch index)
    (known : buffer.block request.block = .ok conflict)
    (found : buffer.locate request.block = some at')
    (resolves : buffer.pool.resolve buffer.setting request.block request.choice = .ok resolved) :
    (buffer.apply request).1 = buffer.revise
        (Patch.splice buffer.current at'.first at'.lineCount resolved.lines) (at'.first + 1) ∧
      (buffer.apply request).2 =
        .ok ⟨(buffer.apply request).1.transition .apply, request, resolved.audit⟩ := by
  obtain ⟨located, targeted⟩ := target_of_located direct known found
  rw [apply_of_target (congrArg Prod.snd targeted) resolves]
  exact ⟨rfl, rfl⟩

/-- A choice fails, with at most its block's place to remember, or revises the text. -/
theorem apply_cases (buffer : Buffer) (request : Request) :
    (∃ e, buffer.apply request = ((buffer.target request).1, .error e)) ∨
      ∃ next hint audit, buffer.apply request = (buffer.revise next hint,
        .ok ⟨(buffer.revise next hint).transition .apply, request, audit⟩) := by
  obtain ⟨located, targeted, -⟩ := target_fst buffer request
  unfold Buffer.apply
  rcases outcome : buffer.target request with ⟨found, e | ⟨position, count⟩⟩
  · exact .inl ⟨e, rfl⟩
  · rw [outcome] at targeted
    simp only at targeted
    subst targeted
    simp only
    split
    · next e _ => exact .inl ⟨e, rfl⟩
    · next resolved _ => exact .inr ⟨_, _, _, rfl⟩

/-- Every move keeps the patches, works them out anew, or revises the text. -/
theorem move_passage (buffer : Buffer) (move : Move) : Passage buffer (buffer.move move) := by
  cases move with
  | prepare request =>
    obtain ⟨located, prepared, -⟩ := prepare_fst buffer request
    rw [Buffer.move, prepared]
    exact .still located buffer.pool rfl
  | apply request =>
    rw [Buffer.move]
    rcases apply_cases buffer request with ⟨e, failed⟩ | ⟨next, hint, audit, applied⟩
    · obtain ⟨located, targeted, -⟩ := target_fst buffer request
      rw [failed, targeted]
      exact .still located buffer.pool rfl
    · rw [applied]
      exact .revised next hint
  | edit content hint =>
    rw [Buffer.move, edit]
    split
    · exact .still buffer.located buffer.pool rfl
    · exact .revised _ _
  | undo =>
    rw [Buffer.move, undo]
    split
    · exact .still buffer.located buffer.pool rfl
    · next previous rest _ =>
      exact .whole previous rest (buffer.current :: buffer.redoStack) [] buffer.pool
        buffer.initialPatches
  | redo =>
    rw [Buffer.move, redo]
    split
    · exact .still buffer.located buffer.pool rfl
    · next next rest _ =>
      exact .whole next (buffer.current :: buffer.undoStack) rest [] buffer.pool
        buffer.initialPatches
  | reset => exact .whole buffer.loaded [] [] [] buffer.pool buffer.initialPatches
  | commit update =>
    rw [Buffer.move, commit]
    simp only
    split
    · exact .whole buffer.current buffer.undoStack buffer.redoStack buffer.located
        (buffer.pool.commit update) _
    · next same => exact .still buffer.located _ (by simpa using same)

/-- What holds at first and is kept by every passage holds in every state of a run. -/
theorem run_induction {holds : Buffer → Prop} (start : holds buffer)
    (kept : ∀ before after, holds before → Passage before after → holds after)
    (moves : List Move) : holds (buffer.run moves) := by
  induction moves generalizing buffer with
  | nil => exact start
  | cons move moves ih => exact ih (kept _ _ start (move_passage buffer move))

/-- What every whole refresh brings about holds in every state of a run exactly if every new text
fits. -/
theorem run_forall_iff {start : Buffer} (holds : Buffer → Prop)
    (fits : Buffer → List String → Nat → Prop) (first : holds start)
    (still : ∀ (before : Buffer) located pool, pool.merged = before.pool.merged → holds before →
      holds { before with located, pool })
    (whole : ∀ (before : Buffer) initialPatches,
      holds { before.refresh 0 with initialPatches })
    (revised : ∀ done next hint, holds (start.run done) →
      (holds ((start.run done).revise next hint) ↔ fits (start.run done) next hint))
    (moves : List Move) :
    (∀ done rest, moves = done ++ rest → holds (start.run done)) ↔
      ∀ done move rest next hint, moves = done ++ move :: rest →
        (start.run done).move move = (start.run done).revise next hint →
        fits (start.run done) next hint := by
  constructor
  · intro always done move rest next hint taken moved
    have after := always (done ++ [move]) rest (by simp [taken])
    rw [run_concat, moved] at after
    exact (revised done next hint (always done (move :: rest) taken)).1 after
  · intro fitting done
    induction done using List.reverseRecOn with
    | nil => exact fun _ _ => first
    | append_singleton done move ih =>
      intro rest taken
      have taken' : moves = done ++ move :: rest := by simp [taken]
      have passage := move_passage (start.run done) move
      rw [run_concat]
      generalize moved : (start.run done).move move = after at *
      cases passage with
      | still located pool same => exact still _ located pool same (ih (move :: rest) taken')
      | whole current undoStack redoStack located pool initialPatches =>
        exact whole { start.run done with current, undoStack, redoStack, located, pool } _
      | revised next hint =>
        exact (revised done next hint (ih (move :: rest) taken')).2
          (fitting done move rest next hint taken' moved)

/-! ## Results -/

/-- The result that a move puts into the pool. -/
def Move.update? : Move → Option Update
  | .commit update => some update
  | _ => none

theorem update?_eq_some_iff {move : Move} {update : Update} :
    move.update? = some update ↔ move = .commit update := by
  cases move with
  | commit given => simp [Move.update?]
  | _ => simp [Move.update?]

/-- A move that puts in no result leaves the file, the pool and the initial patches as they are. -/
theorem exists_move_eq (buffer : Buffer) {move : Move} (own : move.update? = none) :
    ∃ current undoStack redoStack located outstanding patches, buffer.move move =
      { buffer with current, undoStack, redoStack, located, outstanding, patches } := by
  cases move with
  | prepare request =>
    obtain ⟨located, prepared, -⟩ := prepare_fst buffer request
    exact ⟨_, _, _, _, _, _, prepared⟩
  | apply request =>
    rw [Buffer.move]
    rcases apply_cases buffer request with ⟨e, failed⟩ | ⟨next, hint, audit, applied⟩
    · obtain ⟨located, targeted, -⟩ := target_fst buffer request
      rw [failed, targeted]
      exact ⟨_, _, _, _, _, _, rfl⟩
    · rw [applied]
      exact ⟨_, _, _, _, _, _, rfl⟩
  | edit content hint =>
    rw [Buffer.move, edit]
    split
    · exact ⟨_, _, _, _, _, _, rfl⟩
    · exact ⟨_, _, _, _, _, _, rfl⟩
  | undo =>
    rw [Buffer.move, undo]
    split
    · exact ⟨_, _, _, _, _, _, rfl⟩
    · exact ⟨_, _, _, _, _, _, rfl⟩
  | redo =>
    rw [Buffer.move, redo]
    split
    · exact ⟨_, _, _, _, _, _, rfl⟩
    · exact ⟨_, _, _, _, _, _, rfl⟩
  | reset => exact ⟨_, _, _, _, _, _, rfl⟩
  | commit update => cases own

theorem commit_pool (buffer : Buffer) (update : Update) :
    (buffer.commit update).1.pool = buffer.pool.commit update := by
  rw [commit]
  simp only
  split
  · rfl
  · rfl

/-- A result that is put in changes neither the text nor what a block is looked up in. -/
theorem commit_frame (buffer : Buffer) (update : Update) :
    (buffer.commit update).1.current = buffer.current ∧
      (buffer.commit update).1.loaded = buffer.loaded ∧
      (buffer.commit update).1.blocks = buffer.blocks ∧
      (buffer.commit update).1.prints = buffer.prints := by
  rw [commit]
  simp only
  split
  · exact ⟨rfl, rfl, rfl, rfl⟩
  · exact ⟨rfl, rfl, rfl, rfl⟩

/-- Only a result that is put in changes the pool. -/
theorem move_pool (buffer : Buffer) (move : Move) :
    (buffer.move move).pool = move.update?.elim buffer.pool buffer.pool.commit := by
  cases given : move.update? with
  | none =>
    obtain ⟨_, _, _, _, _, _, moved⟩ := exists_move_eq buffer given
    rw [moved]
    rfl
  | some update =>
    rw [update?_eq_some_iff.1 given]
    exact commit_pool buffer update

/-- A result that leaves the merged reference as it is changes the pool alone. -/
theorem commit_fst_of_merged_eq {update : Update}
    (same : (buffer.pool.commit update).merged = buffer.pool.merged) :
    (buffer.commit update).1 = { buffer with pool := buffer.pool.commit update } := by
  rw [commit]
  simp only
  rw [if_neg (not_not.2 same)]

/-- A result that changes the merged reference leads to a whole refresh, whose patches are held as
the initial ones. -/
theorem commit_fst_of_merged_ne {update : Update}
    (changed : (buffer.pool.commit update).merged ≠ buffer.pool.merged) :
    (buffer.commit update).1 =
      { ({ buffer with pool := buffer.pool.commit update } : Buffer).refresh 0 with
        initialPatches :=
          (({ buffer with pool := buffer.pool.commit update } : Buffer).refresh 0).patches } := by
  rw [commit]
  simp only
  rw [if_pos changed]

/-! ## What no move changes -/

/-- The buffer of a file: it holds the file as loaded with the file's blocks and their fingerprints,
and its outstanding blocks are those of the current text. -/
structure Rooted (lines : List String) (algorithm : Algorithm) (buffer : Buffer) : Prop where
  loaded : buffer.loaded = lines
  blocks : buffer.blocks = findBlocks lines
  prints : buffer.prints = FingerprintIndex.ofBlocks lines (findBlocks lines)
  algorithm : buffer.algorithm = algorithm
  outstanding : buffer.outstanding = findBlocks buffer.current

theorem rooted_ofLines (lines : List String) (algorithm : Algorithm) :
    (ofLines lines algorithm).Rooted lines algorithm :=
  ⟨rfl, rfl, rfl, rfl, rfl⟩

theorem Rooted.revise {lines : List String} {algorithm : Algorithm}
    (rooted : buffer.Rooted lines algorithm) (next : List String) (hint : Nat) :
    (buffer.revise next hint).Rooted lines algorithm :=
  ⟨rooted.loaded, rooted.blocks, rooted.prints, rooted.algorithm, rfl⟩

theorem Rooted.move {lines : List String} {algorithm : Algorithm}
    (rooted : buffer.Rooted lines algorithm) (move : Move) :
    (buffer.move move).Rooted lines algorithm := by
  obtain ⟨loaded, blocks, prints, same, outstanding⟩ := rooted
  have passage := move_passage buffer move
  generalize buffer.move move = after at passage
  cases passage with
  | still _ _ _ => exact ⟨loaded, blocks, prints, same, outstanding⟩
  | whole _ _ _ _ _ _ => exact ⟨loaded, blocks, prints, same, rfl⟩
  | revised _ _ => exact ⟨loaded, blocks, prints, same, rfl⟩

/-- The sides of a block given by number are those it was loaded with. -/
theorem Rooted.sides {lines : List String} {algorithm : Algorithm}
    (rooted : buffer.Rooted lines algorithm) (number : Nat) :
    buffer.sides number = match numbered? (findBlocks lines) number with
      | some own => .ok (own.sides lines)
      | none => .error (.blockOutOfRange number (findBlocks lines).length) := by
  rw [Buffer.sides, Buffer.block, rooted.blocks, rooted.loaded]
  cases numbered? (findBlocks lines) number with
  | some own => rfl
  | none => rfl

theorem run_rooted (lines : List String) (algorithm : Algorithm) (moves : List Move) :
    ((ofLines lines algorithm).run moves).Rooted lines algorithm := by
  induction moves using List.reverseRecOn with
  | nil => exact rooted_ofLines lines algorithm
  | append_singleton moves move ih =>
    rw [run_concat]
    exact ih.move move

end MergeConflict.Buffer
