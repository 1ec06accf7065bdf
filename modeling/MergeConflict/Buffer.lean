import MergeConflict.Fingerprint
import MergeConflict.Patch.Reconcile
import MergeConflict.Pool.Resolve

/-!
The live buffer of one conflicted file, with its versions.

Every change of the buffer or of the merged reference brings the outstanding blocks and the
semantic patches up to date, and is announced by a `Transition`. The blocks that choices refer to
by number are those of the file as loaded.
-/

namespace MergeConflict

/-- Whether there is a version to go back to. -/
inductive BufferState where
  | clean
  | dirty
deriving DecidableEq, Repr

inductive TransitionKind where
  | apply
  | edit
  | undo
  | redo
  | reset
  | candidates
deriving DecidableEq, Repr

def TransitionKind.name : TransitionKind → String
  | apply => "apply"
  | edit => "edit"
  | undo => "undo"
  | redo => "redo"
  | reset => "reset"
  | candidates => "candidates"

/-- What a change left behind. -/
structure Transition where
  kind : TransitionKind
  outstanding : Nat
  patches : Nat
  canUndo : Bool
  canRedo : Bool
  state : BufferState
deriving DecidableEq, Repr

/-- An applied choice. -/
structure Applied where
  transition : Transition
  request : Request
  audit : Audit
deriving DecidableEq, Repr

structure Buffer where
  /-- The file as loaded. -/
  loaded : List String
  /-- The blocks of the file as loaded. -/
  blocks : List Block
  prints : FingerprintIndex
  current : List String
  /-- Earlier versions, the latest first. -/
  undoStack : List (List String)
  /-- Versions that were undone, the latest first. -/
  redoStack : List (List String)
  /-- Where prepared requests go. -/
  located : List (Request × Interval)
  /-- The blocks of the current version. -/
  outstanding : List Block
  /-- The patches from the current version to the merged reference. -/
  patches : List Patch
  /-- The patches at the time the merged reference last changed. -/
  initialPatches : List Patch
  pool : Pool
  algorithm : Algorithm
deriving DecidableEq

namespace Buffer

/-- A file just loaded. -/
def ofLines (lines : List String) (algorithm : Algorithm) : Buffer :=
  let blocks := findBlocks lines
  { loaded := lines
    blocks
    prints := FingerprintIndex.ofBlocks lines blocks
    current := lines
    undoStack := []
    redoStack := []
    located := []
    outstanding := blocks
    patches := []
    initialPatches := []
    pool := Pool.empty
    algorithm }

def ofContent (content : String) (algorithm : Algorithm) : Buffer :=
  ofLines (Text.splitLines content) algorithm

def content (buffer : Buffer) : String :=
  Text.joinLines buffer.current

def canUndo (buffer : Buffer) : Bool :=
  !buffer.undoStack.isEmpty

def canRedo (buffer : Buffer) : Bool :=
  !buffer.redoStack.isEmpty

def state (buffer : Buffer) : BufferState :=
  if buffer.undoStack.isEmpty then .clean else .dirty

/-- The loaded block with a number. -/
def block (buffer : Buffer) (block : Nat) : Except ResolveError Block :=
  match numbered? buffer.blocks block with
  | some conflict => .ok conflict
  | none => .error (.blockOutOfRange block buffer.blocks.length)

/-- The sides of a loaded block given by number. -/
def sides (buffer : Buffer) (block : Nat) : Except ResolveError Sides :=
  (buffer.block block).map fun conflict => conflict.sides buffer.loaded

/-- Where a loaded block given by number sits now. -/
def locate (buffer : Buffer) (block : Nat) : Option Interval :=
  buffer.prints.locate buffer.current block

/-- The announcement of a change that has just been made. -/
def transition (buffer : Buffer) (kind : TransitionKind) : Transition where
  kind
  outstanding := buffer.outstanding.length
  patches := buffer.patches.length
  canUndo := buffer.canUndo
  canRedo := buffer.canRedo
  state := buffer.state

/-- The line a change around line `hint` is looked at from: nothing above it differs from the
previous version. Zero asks for the whole buffer. -/
def anchor (buffer : Buffer) (hint : Nat) : Nat :=
  match buffer.undoStack with
  | previous :: _ =>
    if 1 < hint then
      let line := min hint (Text.commonLead previous buffer.current + 1)
      if line = 1 then 0 else line
    else 0
  | [] => 0

/-- The patches to a reference from line `anchor` on, with those of `earlier` that end before the
anchor and before all others. -/
def patchesFrom (buffer : Buffer) (reference : List String) (earlier : List Patch)
    (anchor : Nat) : List Patch :=
  let hunks := Hunk.between buffer.current reference anchor buffer.algorithm
  let found := Patch.reconcile buffer.current hunks (findBlocks buffer.current)
  if anchor = 0 then found
  else
    let kept := earlier.filter fun patch =>
      decide (patch.lastLine < anchor) && found.head?.all fun first =>
        decide (patch.lastLine < first.start)
    Patch.sort (found ++ kept)

/-- Brings blocks and patches up to date after a change around line `hint`. -/
def refresh (buffer : Buffer) (hint : Nat) : Buffer :=
  { buffer with
    outstanding := findBlocks buffer.current
    patches :=
      match buffer.pool.merged with
      | none => []
      | some reference => buffer.patchesFrom reference buffer.patches (buffer.anchor hint) }

/-- A new version. -/
def push (buffer : Buffer) (next : List String) : Buffer :=
  { buffer with
    current := next
    undoStack := buffer.current :: buffer.undoStack
    redoStack := []
    located := [] }

/-- Where a request was prepared to go. -/
def locatedAt? (buffer : Buffer) (request : Request) : Option Interval :=
  buffer.located.lookup request

/-- Finds the block of a request and remembers where it is. -/
def prepare (buffer : Buffer) (request : Request) : Buffer × Except ResolveError Interval :=
  match buffer.block request.block with
  | .error e => (buffer, .error e)
  | .ok _ =>
    match buffer.locate request.block with
    | none => (buffer, .error (.locationNotFound request.block))
    | some at' =>
      let others := buffer.located.filter fun entry => entry.1 ≠ request
      ({ buffer with located := (request, at') :: others }, .ok at')

def setting (buffer : Buffer) : Setting where
  loaded := buffer.loaded
  blocks := buffer.blocks
  patches := buffer.patches
  initialPatches := buffer.initialPatches

/-- Finds the lines that a request replaces, as first position and count. A patch has to touch the
block it is asked for. -/
def target (buffer : Buffer) (request : Request) : Buffer × Except ResolveError (Nat × Nat) :=
  match request.choice with
  | .patch index =>
    match buffer.patches[index]? with
    | none => (buffer, .error (.patchOutOfRange index))
    | some patch =>
      if patch.fits buffer.current.length then
        match buffer.prepare request with
        | (buffer, .error e) => (buffer, .error e)
        | (buffer, .ok at') =>
          if patch.touches at' then (buffer, .ok (patch.start - 1, patch.offset))
          else (buffer, .error (.patchOutOfRange index))
      else (buffer, .error (.patchOutOfRange index))
  | _ =>
    match buffer.prepare request with
    | (buffer, .error e) => (buffer, .error e)
    | (buffer, .ok at') => (buffer, .ok (at'.first, at'.lineCount))

/-- Replaces a block by a choice. -/
def apply (buffer : Buffer) (request : Request) : Buffer × Except ResolveError Applied :=
  match buffer.target request with
  | (buffer, .error e) => (buffer, .error e)
  | (buffer, .ok (position, count)) =>
    match buffer.pool.resolve buffer.setting request.block request.choice with
    | .error e => (buffer, .error e)
    | .ok resolved =>
      let next := Patch.splice buffer.current position count resolved.lines
      let buffer := (buffer.push next).refresh (position + 1)
      (buffer, .ok ⟨buffer.transition .apply, request, resolved.audit⟩)

/-- Replaces the whole text after an edit around line `hint`; the same text is no change. -/
def edit (buffer : Buffer) (content : String) (hint : Nat) : Buffer × Option Transition :=
  let next := Text.splitLines content
  if next = buffer.current then (buffer, none)
  else
    let buffer := (buffer.push next).refresh hint
    (buffer, some (buffer.transition .edit))

/-- Back to the previous version, if there is one. -/
def undo (buffer : Buffer) : Buffer × Option Transition :=
  match buffer.undoStack with
  | [] => (buffer, none)
  | previous :: rest =>
    let buffer :=
      { buffer with
        current := previous
        undoStack := rest
        redoStack := buffer.current :: buffer.redoStack
        located := [] }.refresh 0
    (buffer, some (buffer.transition .undo))

/-- Forward to the version undone last, if there is one. -/
def redo (buffer : Buffer) : Buffer × Option Transition :=
  match buffer.redoStack with
  | [] => (buffer, none)
  | next :: rest =>
    let buffer :=
      { buffer with
        current := next
        undoStack := buffer.current :: buffer.undoStack
        redoStack := rest
        located := [] }.refresh 0
    (buffer, some (buffer.transition .redo))

/-- Back to the file as loaded; the pool is kept. -/
def reset (buffer : Buffer) : Buffer × Transition :=
  let buffer :=
    { buffer with
      current := buffer.loaded
      undoStack := []
      redoStack := []
      located := [] }.refresh 0
  (buffer, buffer.transition .reset)

/-- Puts a result into the pool. -/
def commit (buffer : Buffer) (update : Update) : Buffer × Transition :=
  let pool := buffer.pool.commit update
  let changed := pool.merged ≠ buffer.pool.merged
  let buffer := { buffer with pool }
  let buffer :=
    if changed then
      let buffer := buffer.refresh 0
      { buffer with initialPatches := buffer.patches }
    else buffer
  (buffer, buffer.transition .candidates)

/-- The sizes of a buffer's parts, for a programmer. -/
def describe (buffer : Buffer) : String :=
  "BufferVersionManager \x7b lines: " ++ toString buffer.current.length ++
    ", blocks: " ++ toString buffer.blocks.length ++
    ", outstanding: " ++ toString buffer.outstanding.length ++
    ", patches: " ++ toString buffer.patches.length ++
    ", undo: " ++ toString buffer.undoStack.length ++
    ", redo: " ++ toString buffer.redoStack.length ++ " \x7d"

end Buffer

end MergeConflict
