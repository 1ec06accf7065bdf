import MergeConflict.Buffer.Watched
import MergeConflict.Proofs.BufferMoves

/-!
# What a buffer keeps beside its text

Beside its text a buffer keeps what follows from the text and from the pool: the outstanding blocks,
the patches, and the places of the requests that were prepared. After every move they are what would
be found anew: the blocks are those of the text, there are no patches without a reference, and every
place is where its block is located now (`Placed`).

A buffer that is observed (`Watched`) moves as it would unobserved, and each observer is told what
is announced of the move (`Watched.move_eq`). A move that has an effect (`Performs`) is announced
once, as a transition that describes the buffer behind it, and no other move is announced
(`announced_of_performs`, `announced_of_not_performs`).

Main statement: `run_derived`.
-/

namespace MergeConflict.Buffer

/-- The move has an effect: a choice that is applied, an edit to another text, undo and redo with a
version to go to, reset, and every result. -/
def Performs (buffer : Buffer) : Move → Prop
  | .prepare _ => False
  | .apply request => ∃ applied, (buffer.apply request).2 = .ok applied
  | .edit content _ => Text.splitLines content ≠ buffer.current
  | .undo => buffer.undoStack ≠ []
  | .redo => buffer.redoStack ≠ []
  | .reset => True
  | .commit _ => True

/-- The kind that a move is announced as, if it ever is. -/
def Move.kind? : Move → Option TransitionKind
  | .prepare _ => none
  | .apply _ => some .apply
  | .edit .. => some .edit
  | .undo => some .undo
  | .redo => some .redo
  | .reset => some .reset
  | .commit _ => some .candidates

/-- What can happen to a buffer that is observed. -/
inductive Event where
  /-- A further observer. -/
  | subscribe
  | move (move : Move)

namespace Watched

def move (watched : Watched) : Move → Watched
  | .prepare request => (watched.prepare request).1
  | .apply request => (watched.apply request).1
  | .edit content hint => (watched.edit content hint).1
  | .undo => watched.undo.1
  | .redo => watched.redo.1
  | .reset => watched.reset.1
  | .commit update => (watched.commit update).1

def step (watched : Watched) : Event → Watched
  | .subscribe => watched.subscribe
  | .move move => watched.move move

def run (watched : Watched) (events : List Event) : Watched :=
  events.foldl step watched

end Watched

/-- Every place remembered for a request is where its block is located now. -/
def Placed (buffer : Buffer) : Prop :=
  ∀ entry ∈ buffer.located, buffer.locate entry.1.block = some entry.2

variable {buffer : Buffer}

/-! ## Remembered places -/

theorem placed_of_located_eq_nil (none : buffer.located = []) : buffer.Placed := by
  intro entry inside
  rw [none] at inside
  cases inside

/-- What is remembered for a request is where its block has just been found. -/
theorem Placed.prepare (placed : buffer.Placed) (request : Request) :
    (buffer.prepare request).1.Placed := by
  unfold Buffer.prepare
  split
  · exact placed
  · cases found : buffer.locate request.block with
    | none => exact placed
    | some at' =>
      intro entry inside
      change buffer.locate entry.1.block = some entry.2
      rcases List.mem_cons.1 inside with rfl | others
      · exact found
      · exact placed entry (List.mem_of_mem_filter others)

/-- A choice is looked up as far as its block at most. -/
theorem target_fst_eq_or (buffer : Buffer) (request : Request) :
    (buffer.target request).1 = buffer ∨
      (buffer.target request).1 = (buffer.prepare request).1 := by
  unfold target
  split
  · split
    · exact .inl rfl
    · split
      · right
        split
        · next outcome => rw [outcome]
        · next outcome =>
          rw [outcome]
          split <;> rfl
      · exact .inl rfl
  · right
    split
    · next outcome => rw [outcome]
    · next outcome => rw [outcome]

/-- No move leaves a place that is out of date: a move that changes the text forgets them all. -/
theorem Placed.move (placed : buffer.Placed) (move : Move) : (buffer.move move).Placed := by
  cases move with
  | prepare request => exact placed.prepare request
  | apply request =>
    rw [Buffer.move]
    rcases apply_cases buffer request with ⟨e, failed⟩ | ⟨next, hint, audit, applied⟩
    · rw [failed]
      rcases target_fst_eq_or buffer request with same | prepared
      · rwa [same]
      · rw [prepared]
        exact placed.prepare request
    · rw [applied]
      exact placed_of_located_eq_nil rfl
  | edit content hint =>
    rw [Buffer.move, edit]
    split
    · exact placed
    · exact placed_of_located_eq_nil rfl
  | undo =>
    rw [Buffer.move, undo]
    split
    · exact placed
    · exact placed_of_located_eq_nil rfl
  | redo =>
    rw [Buffer.move, redo]
    split
    · exact placed
    · exact placed_of_located_eq_nil rfl
  | reset => exact placed_of_located_eq_nil rfl
  | commit update =>
    rw [Buffer.move, commit]
    simp only
    split
    · exact placed
    · exact placed

theorem run_placed (lines : List String) (algorithm : Algorithm) (moves : List Move) :
    ((ofLines lines algorithm).run moves).Placed := by
  induction moves using List.reverseRecOn with
  | nil => exact placed_of_located_eq_nil rfl
  | append_singleton moves move ih =>
    rw [run_concat]
    exact ih.move move

/-! ## Patches -/

theorem patches_refresh_of_merged_eq_none (buffer : Buffer) (hint : Nat)
    (none : buffer.pool.merged = none) : (buffer.refresh hint).patches = [] := by
  simp only [refresh, none]

/-- Without a reference there are no patches. -/
theorem run_patches_eq_nil (lines : List String) (algorithm : Algorithm) (moves : List Move) :
    ((ofLines lines algorithm).run moves).pool.merged = none →
      ((ofLines lines algorithm).run moves).patches = [] := by
  have kept (before after : Buffer) (empty : before.pool.merged = none → before.patches = [])
      (passage : Passage before after) : after.pool.merged = none → after.patches = [] := by
    intro none
    cases passage with
    | still located pool same => exact empty (same.symm.trans none)
    | whole current undoStack redoStack located pool initialPatches =>
      exact patches_refresh_of_merged_eq_none
        { before with current, undoStack, redoStack, located, pool } 0 none
    | revised next hint => exact patches_refresh_of_merged_eq_none (before.push next) hint none
  exact @run_induction _ (fun buffer => buffer.pool.merged = none → buffer.patches = [])
    (fun _ => rfl) kept moves

/-! ## What observers are told -/

/-- A transition gives the numbers of the buffer it is made from. -/
theorem transition_eq (derived : buffer.outstanding = findBlocks buffer.current)
    (kind : TransitionKind) : buffer.transition kind = {
      kind
      outstanding := (findBlocks buffer.current).length
      patches := buffer.patches.length
      canUndo := decide (buffer.undoStack ≠ [])
      canRedo := decide (buffer.redoStack ≠ [])
      state := if buffer.undoStack = [] then .clean else .dirty } := by
  rw [transition, derived, canUndo, canRedo, state]
  cases buffer.undoStack <;> cases buffer.redoStack <;> rfl

/-- A move that has an effect is announced once, by the buffer behind it. -/
theorem announced_of_performs {move : Move} (performs : buffer.Performs move) :
    ∃ kind ∈ move.kind?, buffer.announced move = [(buffer.move move).transition kind] := by
  cases move with
  | prepare request => exact performs.elim
  | apply request =>
    obtain ⟨applied, succeeds⟩ := performs
    refine ⟨.apply, rfl, ?_⟩
    rw [announced, Buffer.move]
    rcases apply_cases buffer request with ⟨e, failed⟩ | ⟨next, hint, audit, outcome⟩
    · rw [failed] at succeeds
      cases succeeds
    · rw [outcome]
  | edit content hint =>
    refine ⟨.edit, rfl, ?_⟩
    rw [announced, Buffer.move, edit, if_neg performs]
    rfl
  | undo =>
    refine ⟨.undo, rfl, ?_⟩
    obtain ⟨previous, rest, stack⟩ := List.exists_cons_of_ne_nil performs
    rw [announced, Buffer.move, undo, stack]
    rfl
  | redo =>
    refine ⟨.redo, rfl, ?_⟩
    obtain ⟨next, rest, stack⟩ := List.exists_cons_of_ne_nil performs
    rw [announced, Buffer.move, redo, stack]
    rfl
  | reset => exact ⟨.reset, rfl, rfl⟩
  | commit update => exact ⟨.candidates, rfl, rfl⟩

theorem announced_of_not_performs {move : Move} (idle : ¬ buffer.Performs move) :
    buffer.announced move = [] := by
  cases move with
  | prepare request => rfl
  | apply request =>
    rw [announced]
    cases outcome : (buffer.apply request).2 with
    | error e => rfl
    | ok applied => exact absurd ⟨applied, outcome⟩ idle
  | edit content hint =>
    have same : Text.splitLines content = buffer.current := not_not.1 idle
    rw [announced, edit, if_pos same]
    rfl
  | undo =>
    have stack : buffer.undoStack = [] := not_not.1 idle
    rw [announced, undo, stack]
    rfl
  | redo =>
    have stack : buffer.redoStack = [] := not_not.1 idle
    rw [announced, redo, stack]
    rfl
  | reset => exact absurd trivial idle
  | commit update => exact absurd trivial idle

namespace Watched

variable {watched : Watched}

theorem announce?_fst (watched : Watched) (change : Buffer × Option Transition) :
    (watched.announce? change).1 = ⟨change.1, watched.heard.map (· ++ change.2.toList)⟩ := by
  obtain ⟨buffer, none | transition⟩ := change
  · simp [announce?]
  · rfl

/-- An observed buffer moves as it would unobserved, and every observer is told what is announced of
the move. -/
theorem move_eq (watched : Watched) (move : Move) :
    watched.move move = ⟨watched.buffer.move move,
      watched.heard.map (· ++ watched.buffer.announced move)⟩ := by
  cases move with
  | prepare request => simp [Watched.move, prepare, Buffer.move, announced]
  | apply request =>
    rw [Watched.move, apply, Buffer.move, announced]
    obtain ⟨buffer, e | applied⟩ := watched.buffer.apply request
    · simp
    · rfl
  | edit content hint => exact announce?_fst ..
  | undo => exact announce?_fst ..
  | redo => exact announce?_fst ..
  | reset => rfl
  | commit update => rfl

/-- Observers do not act on the buffer. -/
theorem exists_run_buffer (watched : Watched) (events : List Event) :
    ∃ moves, (watched.run events).buffer = watched.buffer.run moves := by
  induction events generalizing watched with
  | nil => exact ⟨[], rfl⟩
  | cons event events ih =>
    obtain ⟨moves, reached⟩ := ih (watched.step event)
    cases event with
    | subscribe => exact ⟨moves, reached⟩
    | move move =>
      refine ⟨move :: moves, reached.trans ?_⟩
      rw [step, move_eq]
      rfl

end Watched

/-- In every state of a run, with observers coming at any time: the outstanding blocks are those of
the text, there are no patches without a reference, and every place remembered is where its block is
located. A move that has an effect is told to each observer once, by the numbers of the state behind
it, and of any other move nobody hears. -/
theorem run_derived (lines : List String) (algorithm : Algorithm) (events : List Event) :
    let watched := (Watched.ofLines lines algorithm).run events
    let buffer := watched.buffer
    buffer.outstanding = findBlocks buffer.current ∧
      (buffer.pool.merged = none → buffer.patches = []) ∧
      (∀ entry ∈ buffer.located, buffer.locate entry.1.block = some entry.2) ∧
      ∀ move,
        let after := watched.step (.move move)
        after.buffer = buffer.move move ∧
          (buffer.Performs move → ∃ kind ∈ move.kind?,
            after.heard = watched.heard.map (· ++ [{
              kind
              outstanding := (findBlocks after.buffer.current).length
              patches := after.buffer.patches.length
              canUndo := decide (after.buffer.undoStack ≠ [])
              canRedo := decide (after.buffer.redoStack ≠ [])
              state := if after.buffer.undoStack = [] then .clean else .dirty }])) ∧
          (¬ buffer.Performs move → after.heard = watched.heard) := by
  intro watched buffer
  obtain ⟨moves, reached⟩ := Watched.exists_run_buffer (Watched.ofLines lines algorithm) events
  have reached : buffer = (ofLines lines algorithm).run moves := reached
  refine ⟨?_, ?_, ?_, fun move => ?_⟩
  · rw [reached]
    exact (run_rooted lines algorithm moves).outstanding
  · rw [reached]
    exact run_patches_eq_nil lines algorithm moves
  · rw [reached]
    exact run_placed lines algorithm moves
  · intro after
    have stepped : after = ⟨buffer.move move, watched.heard.map (· ++ buffer.announced move)⟩ :=
      Watched.move_eq watched move
    have outstanding : after.buffer.outstanding = findBlocks after.buffer.current := by
      rw [stepped, reached, ← run_concat]
      exact (run_rooted lines algorithm (moves ++ [move])).outstanding
    rw [stepped] at outstanding ⊢
    refine ⟨rfl, fun performs => ?_, fun idle => ?_⟩
    · obtain ⟨kind, listed, told⟩ := announced_of_performs performs
      refine ⟨kind, listed, ?_⟩
      rw [told, transition_eq outstanding]
    · simp only [announced_of_not_performs idle, List.append_nil, List.map_id']

end MergeConflict.Buffer
