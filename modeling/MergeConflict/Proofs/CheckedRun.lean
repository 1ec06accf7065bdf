import MergeConflict.Proofs.ApplyOutcome
import MergeConflict.Proofs.CheckedPatches
import MergeConflict.Proofs.MarkerRuns

/-!
# The operations of a buffer with checked arithmetic

The operations of a buffer are written here as in `Checked.reconcile`: a difference that would be
negative, a position outside its list and a splice that does not fit its buffer are faults. A search
for a block goes from line to line and needs no check.

No operation has a fault in any state of a run. It rests on the patches: each begins at line 1 or
later (`Numbered`), those of the current text and those held for the audit, whatever the moves and
the results that were put in.

Main statement: `run_never_faults`.
-/

namespace MergeConflict.Checked

/-! ## Checked operations -/

/-- The fingerprints of a text's blocks. -/
def ofBlocks (lines : List String) (blocks : List Block) : Option FingerprintIndex := do
  let prints ← blocks.mapM fun block => do
    let first ← sub block.startLine 1
    let last ← sub block.endLine 1
    return Fingerprint.ofRange lines first last
  return ⟨prints⟩

/-- A file just loaded. -/
def ofLines (lines : List String) (algorithm : Algorithm) : Option Buffer := do
  let prints ← ofBlocks lines (findBlocks lines)
  return { Buffer.ofLines lines algorithm with prints }

def patchesFrom (buffer : Buffer) (reference : List String) (earlier : List Patch)
    (anchor : Nat) : Option (List Patch) := do
  let hunks ← between buffer.current reference anchor buffer.algorithm
  let found ← reconcile buffer.current hunks (findBlocks buffer.current)
  if anchor = 0 then return found
  else
    let kept ← keep (fun patch => do
      let last ← lastLine patch.start patch.offset
      return decide (last < anchor) && found.head?.all fun first => decide (last < first.start))
      earlier
    return Patch.sort (found ++ kept)

def refresh (buffer : Buffer) (hint : Nat) : Option Buffer := do
  let patches ← match buffer.pool.merged with
    | none => some []
    | some reference => patchesFrom buffer reference buffer.patches (buffer.anchor hint)
  return { buffer with outstanding := findBlocks buffer.current, patches }

def fits (patch : Patch) (length : Nat) : Option Bool :=
  if patch.start = 0 then some false
  else do
    let position ← sub patch.start 1
    return decide (position + patch.offset ≤ length)

/-- The position of line 0 is taken to be 0. -/
def touches (patch : Patch) (at' : Interval) : Option Bool := do
  let first := patch.start - 1
  let last ← sub (first + max patch.offset 1) 1
  return decide (first ≤ at'.last) && decide (at'.first ≤ last)

def lineCount (at' : Interval) : Option Nat := do
  let span ← sub at'.last at'.first
  return span + 1

def splice (lines : List String) (position count : Nat) (replacement : List String) :
    Option (List String) :=
  if position + count ≤ lines.length then some (Patch.splice lines position count replacement)
  else none

/-- Number of the block's lines in `first..last`, both inclusive. -/
def overlap (block : Block) (first last : Nat) : Option Nat :=
  let low := max first block.startLine
  let high := min last block.endLine
  if low ≤ high then do
    let span ← sub high low
    return span + 1
  else some 0

def widestOverlap (conflict : Block) (patches : List Patch) : Option (Option Patch) := do
  let best ← patches.foldlM (fun (best : Option Patch × Nat) patch => do
    let last ← lastLine patch.start patch.offset
    let shared ← overlap conflict patch.start last
    return if best.2 < shared then (some patch, shared) else best) (none, 0)
  return best.1

def heuristicCode (pool : Pool) (block : Nat) (conflict : Block) (initial : List Patch) :
    Option String := do
  match ← widestOverlap conflict initial with
  | some patch => return patch.content
  | none => return ((pool.bestResolution? block).map Resolution.content).getD ""

/-- Of the choices only a side has the patches looked at for the audit. -/
def resolve (pool : Pool) (setting : Setting) (block : Nat) (choice : Choice) :
    Option (Except ResolveError Resolved) :=
  match choice, Pool.Setting.block setting block with
  | .side which, .ok conflict =>
    match (conflict.sides setting.loaded).get? which with
    | none => some (.error (.noBaseVersion block))
    | some lines => do
      let content := Text.joinLines lines
      let code ← heuristicCode pool block conflict setting.initialPatches
      return .ok ⟨lines, content, {
        choice := choice.auditName
        choiceCode := content
        heuristicCode := code
        labelCode := pool.labelCode block
        scriptCode := pool.scriptCode block }⟩
  | _, _ => some (pool.resolve setting block choice)

def target (buffer : Buffer) (request : Request) :
    Option (Buffer × Except ResolveError (Nat × Nat)) :=
  match request.choice with
  | .patch index =>
    match buffer.patches[index]? with
    | none => some (buffer, .error (.patchOutOfRange index))
    | some patch => do
      if ← fits patch buffer.current.length then
        let position ← sub patch.start 1
        match buffer.prepare request with
        | (buffer, .error e) => return (buffer, .error e)
        | (buffer, .ok at') =>
          let held ← buffer.patches[index]?
          if ← touches held at' then return (buffer, .ok (position, patch.offset))
          else return (buffer, .error (.patchOutOfRange index))
      else return (buffer, .error (.patchOutOfRange index))
  | _ =>
    match buffer.prepare request with
    | (buffer, .error e) => some (buffer, .error e)
    | (buffer, .ok at') => do
      let count ← lineCount at'
      return (buffer, .ok (at'.first, count))

def apply (buffer : Buffer) (request : Request) :
    Option (Buffer × Except ResolveError Applied) := do
  match ← target buffer request with
  | (buffer, .error e) => return (buffer, .error e)
  | (buffer, .ok (position, count)) =>
    match ← resolve buffer.pool buffer.setting request.block request.choice with
    | .error e => return (buffer, .error e)
    | .ok resolved =>
      let next ← splice buffer.current position count resolved.lines
      let buffer ← refresh (buffer.push next) (position + 1)
      return (buffer, .ok ⟨buffer.transition .apply, request, resolved.audit⟩)

def edit (buffer : Buffer) (content : String) (hint : Nat) :
    Option (Buffer × Option Transition) :=
  let next := Text.splitLines content
  if next = buffer.current then some (buffer, none)
  else do
    let buffer ← refresh (buffer.push next) hint
    return (buffer, some (buffer.transition .edit))

def undo (buffer : Buffer) : Option (Buffer × Option Transition) :=
  match buffer.undoStack with
  | [] => some (buffer, none)
  | previous :: rest => do
    let buffer ← refresh { buffer with
      current := previous
      undoStack := rest
      redoStack := buffer.current :: buffer.redoStack
      located := [] } 0
    return (buffer, some (buffer.transition .undo))

def redo (buffer : Buffer) : Option (Buffer × Option Transition) :=
  match buffer.redoStack with
  | [] => some (buffer, none)
  | next :: rest => do
    let buffer ← refresh { buffer with
      current := next
      undoStack := buffer.current :: buffer.undoStack
      redoStack := rest
      located := [] } 0
    return (buffer, some (buffer.transition .redo))

def reset (buffer : Buffer) : Option (Buffer × Transition) := do
  let buffer ← refresh { buffer with
    current := buffer.loaded
    undoStack := []
    redoStack := []
    located := [] } 0
  return (buffer, buffer.transition .reset)

def commit (buffer : Buffer) (update : Update) : Option (Buffer × Transition) := do
  let pool := buffer.pool.commit update
  let changed := pool.merged ≠ buffer.pool.merged
  let buffer := { buffer with pool }
  if changed then
    let buffer ← refresh buffer 0
    let buffer := { buffer with initialPatches := buffer.patches }
    return (buffer, buffer.transition .candidates)
  else return (buffer, buffer.transition .candidates)

/-- The buffer after a move. -/
def move (buffer : Buffer) : Buffer.Move → Option Buffer
  | .prepare request => some (buffer.prepare request).1
  | .apply request => (apply buffer request).map Prod.fst
  | .edit content hint => (edit buffer content hint).map Prod.fst
  | .undo => (undo buffer).map Prod.fst
  | .redo => (redo buffer).map Prod.fst
  | .reset => (reset buffer).map Prod.fst
  | .commit update => (commit buffer update).map Prod.fst

/-- A file loaded and taken through some moves. -/
def run (lines : List String) (algorithm : Algorithm) (moves : List Buffer.Move) :
    Option Buffer := do
  let buffer ← ofLines lines algorithm
  moves.foldlM move buffer

/-! ## No fault in a refresh -/

/-- The patches of the buffer begin at line 1 or later. -/
structure Numbered (buffer : Buffer) : Prop where
  patches : ∀ patch ∈ buffer.patches, 0 < patch.start
  initialPatches : ∀ patch ∈ buffer.initialPatches, 0 < patch.start

variable {buffer : Buffer}

theorem ofLines_eq_some (lines : List String) (algorithm : Algorithm) :
    ofLines lines algorithm = some (Buffer.ofLines lines algorithm) := by
  have prints : ofBlocks lines (findBlocks lines) =
      some (FingerprintIndex.ofBlocks lines (findBlocks lines)) := by
    have each := @mapM_eq_some _ _ (fun block => do
      let first ← sub block.startLine 1
      let last ← sub block.endLine 1
      return Fingerprint.ofRange lines first last) (Fingerprint.ofBlock lines) (findBlocks lines)
      fun block inside => by
        have marks := findBlocks_marks block inside
        have startStop := marks.start_lt_stop
        rw [sub_eq_some marks.start_pos, sub_eq_some (show 1 ≤ block.endLine by omega)]
        rfl
    rw [ofBlocks, each]
    rfl
  rw [ofLines, prints]
  rfl

theorem patchesFrom_eq_some {earlier : List Patch} (pos : ∀ patch ∈ earlier, 0 < patch.start)
    (reference : List String) (anchor : Nat) :
    patchesFrom buffer reference earlier anchor =
      some (buffer.patchesFrom reference earlier anchor) := by
  have found := reconcile_eq_some
    (Hunk.laid_between buffer.current reference anchor buffer.algorithm) findBlocks_marks
    (findBlocks_pairwise buffer.current)
  rw [patchesFrom, between_eq_some, Buffer.patchesFrom]
  simp only [Option.bind_eq_bind, Option.bind_some, found]
  split
  · rfl
  · rw [keep_eq_some fun patch inside => by
      rw [lastLine_eq_some (pos patch inside)]
      rfl]
    rfl

theorem refresh_eq_some (pos : ∀ patch ∈ buffer.patches, 0 < patch.start) (hint : Nat) :
    refresh buffer hint = some (buffer.refresh hint) := by
  rw [refresh, Buffer.refresh]
  cases buffer.pool.merged with
  | none => rfl
  | some reference =>
    simp only
    rw [patchesFrom_eq_some pos]
    rfl

/-! ## No fault in an application -/

theorem fits_eq_some (patch : Patch) (length : Nat) :
    fits patch length = some (patch.fits length) := by
  rw [fits, Patch.fits]
  split
  · next zero => simp [zero]
  · next pos =>
    rw [sub_eq_some (Nat.pos_of_ne_zero pos), decide_eq_true pos]
    rfl

theorem touches_eq_some (patch : Patch) (at' : Interval) :
    touches patch at' = some (patch.touches at') := by
  rw [touches, sub_eq_some (by omega)]
  rfl

theorem lineCount_eq_some {at' : Interval} (filled : at'.first ≤ at'.last) :
    lineCount at' = some at'.lineCount := by
  rw [lineCount, sub_eq_some filled, Interval.lineCount, Nat.succ_sub filled]
  rfl

theorem overlap_eq_some (block : Block) (first last : Nat) :
    overlap block first last = some (block.overlap first last) := by
  rw [overlap, Block.overlap]
  split
  · next shared =>
    rw [sub_eq_some shared, Nat.succ_sub shared]
    rfl
  · next clear =>
    rw [Nat.sub_eq_zero_of_le (by omega)]

theorem widestOverlap_eq_some (conflict : Block) {patches : List Patch}
    (pos : ∀ patch ∈ patches, 0 < patch.start) :
    widestOverlap conflict patches = some (Pool.widestOverlap? conflict patches) := by
  rw [widestOverlap, foldlM_eq_some fun patch inside best => by
    rw [lastLine_eq_some (pos patch inside)]
    simp only [Option.bind_eq_bind, Option.bind_some, overlap_eq_some]
    rfl]
  rfl

theorem heuristicCode_eq_some (pool : Pool) (block : Nat) (conflict : Block)
    {initial : List Patch} (pos : ∀ patch ∈ initial, 0 < patch.start) :
    heuristicCode pool block conflict initial =
      some (pool.heuristicCode block conflict initial) := by
  rw [heuristicCode, widestOverlap_eq_some conflict pos, Pool.heuristicCode]
  simp only [Option.bind_eq_bind, Option.bind_some]
  cases Pool.widestOverlap? conflict initial with
  | none => rfl
  | some patch => rfl

theorem resolve_eq_some (pool : Pool) {setting : Setting}
    (pos : ∀ patch ∈ setting.initialPatches, 0 < patch.start) (block : Nat) (choice : Choice) :
    resolve pool setting block choice = some (pool.resolve setting block choice) := by
  unfold resolve
  split
  · next which conflict known =>
    rw [Pool.resolve, known]
    simp only [bind, Except.bind]
    cases (conflict.sides setting.loaded).get? which with
    | none => rfl
    | some lines =>
      simp only
      rw [heuristicCode_eq_some pool block conflict pos]
      rfl
  · rfl

/-- Where a request was prepared to go has a first line, and its last line is one of the text. -/
theorem within_of_prepare {request : Request} {at' : Interval} {after : Buffer}
    (outcome : buffer.prepare request = (after, .ok at')) :
    at'.first ≤ at'.last ∧ at'.last < buffer.current.length := by
  have prepared : (buffer.prepare request).2 = .ok at' := by rw [outcome]
  exact FingerprintIndex.within_of_locate (Buffer.prepare_ok_iff.1 prepared).2

theorem target_eq_some (buffer : Buffer) (request : Request) :
    target buffer request = some (buffer.target request) := by
  have direct : (match buffer.prepare request with
      | (buffer, .error e) => some (buffer, .error e)
      | (buffer, .ok at') => do
        let count ← lineCount at'
        return (buffer, .ok (at'.first, count))) =
      some (match buffer.prepare request with
        | (buffer, .error e) => (buffer, .error e)
        | (buffer, .ok at') => (buffer, .ok (at'.first, at'.lineCount)) :
          Buffer × Except ResolveError (Nat × Nat)) := by
    rcases outcome : buffer.prepare request with ⟨after, e | at'⟩
    · rfl
    · simp only
      rw [lineCount_eq_some (within_of_prepare outcome).1]
      rfl
  unfold target Buffer.target
  cases request.choice with
  | patch index =>
    simp only
    cases held : buffer.patches[index]? with
    | none => rfl
    | some patch =>
      simp only [fits_eq_some, Option.bind_eq_bind, Option.bind_some]
      by_cases fit : patch.fits buffer.current.length = true
      · have pos := (Patch.fits_iff.1 fit).1
        obtain ⟨located, prepared, -⟩ := Buffer.prepare_fst buffer request
        rw [if_pos fit, if_pos fit, sub_eq_some pos]
        rcases outcome : buffer.prepare request with ⟨after, e | at'⟩
        · rfl
        · rw [outcome] at prepared
          have still : after.patches[index]? = some patch := by
            rw [show after = _ from prepared]
            exact held
          simp only [Option.bind_some, still, touches_eq_some]
          split
          · rfl
          · rfl
      · rw [if_neg fit, if_neg fit]
        rfl
  | _ => exact direct

/-- The lines that a request replaces are lines of the text. -/
theorem within_of_target {request : Request} {after : Buffer} {position count : Nat}
    (outcome : buffer.target request = (after, .ok (position, count))) :
    position + count ≤ buffer.current.length := by
  obtain ⟨at', prepared, place⟩ := Buffer.exists_place_of_target (congrArg Prod.snd outcome)
  rcases place with ⟨_, patch, _, _, fits, rfl, rfl⟩ | ⟨_, rfl, rfl⟩
  · have inside := Patch.fits_iff.1 fits
    rw [Patch.stop] at inside
    omega
  · have within := FingerprintIndex.within_of_locate (Buffer.prepare_ok_iff.1 prepared).2
    rw [Interval.lineCount]
    omega

theorem apply_eq_some (numbered : Numbered buffer) (request : Request) :
    apply buffer request = some (buffer.apply request) := by
  rw [apply, target_eq_some]
  unfold Buffer.apply
  rcases outcome : buffer.target request with ⟨after, e | ⟨position, count⟩⟩
  · rfl
  · obtain ⟨located, targeted, -⟩ := Buffer.target_fst buffer request
    rw [outcome] at targeted
    have targeted : after = { buffer with located } := targeted
    have fit := within_of_target outcome
    subst targeted
    have same : ({ buffer with located } : Buffer).setting = buffer.setting := rfl
    simp only [Option.bind_eq_bind, Option.bind_some, same]
    rw [resolve_eq_some _ (by exact numbered.initialPatches)]
    cases buffer.pool.resolve buffer.setting request.block request.choice with
    | error e => rfl
    | ok resolved =>
      simp only [Option.bind_some, splice, if_pos fit]
      rw [refresh_eq_some (by exact numbered.patches)]
      rfl

theorem edit_eq_some (numbered : Numbered buffer) (content : String) (hint : Nat) :
    edit buffer content hint = some (buffer.edit content hint) := by
  rw [edit, Buffer.edit]
  simp only
  split
  · rfl
  · rw [refresh_eq_some (by exact numbered.patches)]
    rfl

theorem undo_eq_some (numbered : Numbered buffer) : undo buffer = some buffer.undo := by
  rw [undo, Buffer.undo]
  cases buffer.undoStack with
  | nil => rfl
  | cons previous rest =>
    simp only
    rw [refresh_eq_some (by exact numbered.patches)]
    rfl

theorem redo_eq_some (numbered : Numbered buffer) : redo buffer = some buffer.redo := by
  rw [redo, Buffer.redo]
  cases buffer.redoStack with
  | nil => rfl
  | cons next rest =>
    simp only
    rw [refresh_eq_some (by exact numbered.patches)]
    rfl

theorem reset_eq_some (numbered : Numbered buffer) : reset buffer = some buffer.reset := by
  rw [reset, Buffer.reset, refresh_eq_some (by exact numbered.patches)]
  rfl

theorem commit_eq_some (numbered : Numbered buffer) (update : Update) :
    commit buffer update = some (buffer.commit update) := by
  rw [commit, Buffer.commit]
  simp only
  split
  · rw [refresh_eq_some (by exact numbered.patches)]
    rfl
  · rfl

theorem move_eq_some (numbered : Numbered buffer) (move : Buffer.Move) :
    Checked.move buffer move = some (buffer.move move) := by
  cases move with
  | prepare request => rfl
  | apply request => rw [Checked.move, apply_eq_some numbered]; rfl
  | edit content hint => rw [Checked.move, edit_eq_some numbered]; rfl
  | undo => rw [Checked.move, undo_eq_some numbered]; rfl
  | redo => rw [Checked.move, redo_eq_some numbered]; rfl
  | reset => rw [Checked.move, reset_eq_some numbered]; rfl
  | commit update => rw [Checked.move, commit_eq_some numbered]; rfl

/-! ## No fault in a run -/

/-- A move leaves the patches held for the audit, or takes over the current ones. -/
theorem initialPatches_move (buffer : Buffer) (move : Buffer.Move) :
    (buffer.move move).initialPatches = buffer.initialPatches ∨
      (buffer.move move).initialPatches = (buffer.move move).patches := by
  cases given : move.update? with
  | none =>
    obtain ⟨_, _, _, _, _, _, moved⟩ := Buffer.exists_move_eq buffer given
    rw [moved]
    exact .inl rfl
  | some update =>
    rw [Buffer.update?_eq_some_iff.1 given, Buffer.move]
    by_cases same : (buffer.pool.commit update).merged = buffer.pool.merged
    · rw [Buffer.commit_fst_of_merged_eq same]
      exact .inl rfl
    · rw [Buffer.commit_fst_of_merged_ne same]
      exact .inr rfl

theorem run_numbered (lines : List String) (algorithm : Algorithm) (moves : List Buffer.Move) :
    Numbered ((Buffer.ofLines lines algorithm).run moves) := by
  have current (moves : List Buffer.Move) :
      ∀ patch ∈ ((Buffer.ofLines lines algorithm).run moves).patches, 0 < patch.start :=
    fun patch inside => (Patch.fits_iff.1 (Buffer.run_fits lines algorithm moves patch inside)).1
  refine ⟨current moves, ?_⟩
  induction moves using List.reverseRecOn with
  | nil => exact fun patch inside => (List.not_mem_nil inside).elim
  | append_singleton moves move ih =>
    have now := current (moves ++ [move])
    rw [Buffer.run_concat] at now ⊢
    rcases initialPatches_move ((Buffer.ofLines lines algorithm).run moves) move with same | taken
    · rw [same]
      exact ih
    · rw [taken]
      exact now

theorem run_eq_some (lines : List String) (algorithm : Algorithm) (moves : List Buffer.Move) :
    run lines algorithm moves = some ((Buffer.ofLines lines algorithm).run moves) := by
  rw [run, ofLines_eq_some]
  change moves.foldlM move (Buffer.ofLines lines algorithm) = _
  induction moves using List.reverseRecOn with
  | nil => rfl
  | append_singleton moves move ih =>
    rw [List.foldlM_append, ih, Buffer.run_concat]
    change [move].foldlM Checked.move _ = _
    rw [List.foldlM_cons, move_eq_some (run_numbered lines algorithm moves)]
    rfl

/-- In every state of a run each patch begins at line 1 or later and replaces lines that the text
has, the patches are sorted by first line, and each ends in front of the line that the next begins
at. Loading a file and the moves of the run go without a fault, and so does every operation in the
state that they lead to: each gives what it gives unchecked. -/
theorem run_never_faults (lines : List String) (algorithm : Algorithm)
    (moves : List Buffer.Move) :
    let buffer := (Buffer.ofLines lines algorithm).run moves
    (∀ patch ∈ buffer.patches,
      1 ≤ patch.start ∧ patch.start - 1 + patch.offset ≤ buffer.current.length) ∧
    buffer.patches.Pairwise
      (fun first second => first.start ≤ second.start ∧ first.lastLine < second.start) ∧
    run lines algorithm moves = some buffer ∧
    (∀ request, apply buffer request = some (buffer.apply request)) ∧
    (∀ content hint, edit buffer content hint = some (buffer.edit content hint)) ∧
    undo buffer = some buffer.undo ∧ redo buffer = some buffer.redo ∧
    reset buffer = some buffer.reset ∧
    ∀ update, commit buffer update = some (buffer.commit update) := by
  intro buffer
  have numbered : Numbered buffer := run_numbered lines algorithm moves
  have order := Buffer.run_inOrder lines algorithm moves
  refine ⟨fun patch inside => ?_, ?_, run_eq_some lines algorithm moves, apply_eq_some numbered,
    edit_eq_some numbered, undo_eq_some numbered, redo_eq_some numbered, reset_eq_some numbered,
    commit_eq_some numbered⟩
  · have fit : patch.fits buffer.current.length = true :=
      Buffer.run_fits lines algorithm moves patch inside
    rw [Patch.fits_iff, Patch.stop] at fit
    omega
  · refine order.apart.imp_of_mem fun {first second} inside _ ahead => ?_
    have pos := order.pos first inside
    have stops : first.start + first.offset ≤ second.start := ahead.1
    rw [Patch.lastLine]
    omega

end MergeConflict.Checked
