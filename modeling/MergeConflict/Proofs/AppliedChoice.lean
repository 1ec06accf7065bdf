import MergeConflict.Proofs.BlockAddress

/-!
# What an applied choice puts where

A choice that is applied puts its lines in the place of some lines of the buffer: those of a patch
if the choice is one, and otherwise those that its block is found at (`Replaces`). The buffer is the
same before and behind them, the version that was there goes onto the stack, and the pool and the
initial patches are not touched (`Applies`). What is replaced at the place of a block is the text
that the block has in the file, unless another text has its fingerprint.

Main statement: `run_applies`.
-/

namespace MergeConflict.Buffer

/-- The lines from position `first` up to position `past` are those that a request replaces. -/
def Replaces (buffer : Buffer) (request : Request) (first past : Nat) : Prop :=
  match request.choice with
  | .patch index =>
    ∃ patch ∈ buffer.patches[index]?, patch.start = first + 1 ∧ patch.lastLine = past
  | _ =>
    ∃ at', buffer.locate request.block = some at' ∧ at'.first = first ∧ at'.last + 1 = past

/-- A request has been applied: what it stands for is in the place of the lines from position
`first` up to position `past`. -/
structure Applies (before : Buffer) (request : Request) (first past : Nat) (resolved : Resolved)
    (after : Buffer) (applied : Applied) : Prop where
  resolves :
    before.pool.resolve before.setting request.block request.choice = .ok resolved
  replaces : before.Replaces request first past
  first_le : first ≤ past
  past_le : past ≤ before.current.length
  current : after.current =
    before.current.take first ++ resolved.lines ++ before.current.drop past
  undoStack : after.undoStack = before.current :: before.undoStack
  redoStack : after.redoStack = []
  located : after.located = []
  pool : after.pool = before.pool
  initialPatches : after.initialPatches = before.initialPatches
  choiceCode : applied.audit.choiceCode = Text.joinLines resolved.lines

variable {buffer : Buffer} {request : Request}

/-- A choice other than a patch replaces the lines that its block is found at. -/
theorem replaces_iff {first past : Nat} (direct : ∀ index, request.choice ≠ .patch index) :
    buffer.Replaces request first past ↔
      ∃ at', buffer.locate request.block = some at' ∧ at'.first = first ∧ at'.last + 1 = past := by
  unfold Replaces
  split
  · next index chosen => exact absurd chosen (direct index)
  · rfl

/-- The lines that a request has to replace are in the buffer. -/
theorem replaces_of_target {position count : Nat}
    (targeted : (buffer.target request).2 = .ok (position, count)) :
    buffer.Replaces request position (position + count) ∧
      position + count ≤ buffer.current.length := by
  obtain ⟨at', prepared, place⟩ := exists_place_of_target targeted
  rcases place with ⟨index, patch, chosen, held, fits, rfl, rfl⟩ | ⟨direct, rfl, rfl⟩
  · obtain ⟨pos, inside⟩ := Patch.fits_iff.1 fits
    rw [Patch.stop] at inside
    refine ⟨?_, by omega⟩
    rw [Replaces, chosen]
    refine ⟨patch, held, by omega, ?_⟩
    rw [Patch.lastLine]
    omega
  · have found := (prepare_ok_iff.1 prepared).2
    have := FingerprintIndex.within_of_locate found
    rw [Interval.lineCount]
    exact ⟨(replaces_iff direct).2 ⟨at', found, rfl, by omega⟩, by omega⟩

/-- A choice that is applied has been put in the place of the lines that it replaces. -/
theorem exists_applies {applied : Applied} (done : (buffer.apply request).2 = .ok applied) :
    ∃ first past resolved,
      buffer.Applies request first past resolved (buffer.apply request).1 applied := by
  obtain ⟨position, count, resolved, targeted, resolves, revised, audit⟩ :=
    exists_revise_of_apply done
  obtain ⟨replaces, inside⟩ := replaces_of_target targeted
  refine ⟨position, position + count, resolved, ?_⟩
  rw [revised]
  exact {
    resolves, replaces
    first_le := Nat.le_add_right ..
    past_le := inside
    current := rfl
    undoStack := rfl
    redoStack := rfl
    located := rfl
    pool := rfl
    initialPatches := rfl
    choiceCode := by
      rw [audit, (Pool.resolve_lines resolves).1, Pool.joinLines_of_resolve resolves] }

/-- What is replaced at the place of a block has the block's text. -/
theorem Replaces.joinLines_eq {lines : List String} {algorithm : Algorithm} {first past : Nat}
    {own : Block} (replaces : buffer.Replaces request first past)
    (rooted : buffer.Rooted lines algorithm) (free : CollisionFreeIn lines buffer.current)
    (known : numbered? (findBlocks lines) request.block = some own)
    (direct : ∀ index, request.choice ≠ .patch index) :
    Text.joinLines ((buffer.current.take past).drop first) =
      Text.joinLines (own.body lines) := by
  obtain ⟨at', found, rfl, rfl⟩ := (replaces_iff direct).1 replaces
  rw [rooted.locate_eq known] at found
  -- the numbers of the file's blocks lead to stretches of the buffer as it is now
  obtain ⟨front, run, visits, same, rfl⟩ :=
    exists_run_of_locate free (mem_of_numbered? known) found
  obtain ⟨_, _, filled⟩ := visits.ends
  obtain ⟨behind, split⟩ := visits.isPrefix
  have past : front.length + run.length - 1 + 1 = (front ++ run).length := by
    rw [List.length_append]
    omega
  rw [past, ← split, List.take_left, List.drop_left, same]

/-- In every state of a run, a choice that is applied puts what it stands for in the place of the
lines that it replaces, leaves the version before on the stack and the pool as it is, and is audited
with the text put in. Unless it is a patch, what it replaces has the text of its block in the file,
provided no other stretch has the block's fingerprint; and a side is put in as that block has it. -/
theorem run_applies (lines : List String) (algorithm : Algorithm) (moves : List Move)
    (request : Request) (applied : Applied)
    (done : (((ofLines lines algorithm).run moves).apply request).2 = .ok applied) :
    let before := (ofLines lines algorithm).run moves
    ∃ own first past resolved, numbered? (findBlocks lines) request.block = some own ∧
      before.Applies request first past resolved (before.apply request).1 applied ∧
      ((∀ index, request.choice ≠ .patch index) → CollisionFreeIn lines before.current →
        Text.joinLines ((before.current.take past).drop first) =
          Text.joinLines (own.body lines)) ∧
      ∀ which, request.choice = .side which →
        (own.sides lines).get? which = some resolved.lines := by
  intro before
  have rooted : before.Rooted lines algorithm := run_rooted lines algorithm moves
  obtain ⟨first, past, resolved, applies⟩ := exists_applies done
  obtain ⟨⟨⟨_, _⟩, targeted⟩, _⟩ := exists_apply_iff.1 ⟨applied, done⟩
  obtain ⟨at', prepared, _⟩ := exists_place_of_target targeted
  obtain ⟨⟨own, known⟩, _⟩ := prepare_ok_iff.1 prepared
  have named : numbered? (findBlocks lines) request.block = some own := rooted.blocks ▸ known
  refine ⟨own, first, past, resolved, named, applies, fun direct free => ?_, fun which chosen => ?_⟩
  · exact applies.replaces.joinLines_eq rooted free named direct
  · have resolves := applies.resolves
    rw [chosen] at resolves
    rw [← rooted.loaded]
    exact Pool.get?_of_resolve_side known resolves

/-- A conflict that an edit has moved down by one line is replaced where it is, by the side asked
for. -/
theorem run_applies_moved :
    let lines := ["<<<<<<<", "a", "=======", "b", ">>>>>>>"]
    let before := (ofLines lines .lines).run [.edit "new\n<<<<<<<\na\n=======\nb\n>>>>>>>" 1]
    let request : Request := ⟨1, .side .theirs⟩
    ∃ applied, (before.apply request).2 = .ok applied ∧ CollisionFreeIn lines before.current ∧
      ∃ own first past resolved, numbered? (findBlocks lines) 1 = some own ∧
        before.Applies request first past resolved (before.apply request).1 applied ∧
        Text.joinLines ((before.current.take past).drop first) =
          Text.joinLines (own.body lines) ∧
        (own.sides lines).get? .theirs = some resolved.lines ∧ resolved.lines = ["b"] ∧
        (before.apply request).1.current = ["new", "b"] := by
  intro lines before request
  have done : (before.apply request).2 =
      .ok ⟨⟨.apply, 0, 0, true, false, .dirty⟩, request, ⟨"theirs", "b", "", "", ""⟩⟩ := by
    decide +kernel
  have free : CollisionFreeIn lines before.current := by decide +kernel
  have content : (before.apply request).1.current = ["new", "b"] := by decide +kernel
  have written : (numbered? (findBlocks lines) 1).map (fun own => (own.sides lines).get? .theirs) =
      some (some ["b"]) := by decide +kernel
  obtain ⟨own, first, past, resolved, known, applies, replaced, sides⟩ :=
    run_applies lines .lines _ _ _ done
  have side : (own.sides lines).get? .theirs = some resolved.lines := sides .theirs rfl
  have put : resolved.lines = ["b"] := by
    rw [known, Option.map_some, side] at written
    exact Option.some.inj (Option.some.inj written)
  exact ⟨_, done, free, own, first, past, resolved, known, applies, replaced nofun free, side, put,
    content⟩

end MergeConflict.Buffer
