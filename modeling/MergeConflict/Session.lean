import MergeConflict.Buffer
import MergeConflict.FileContext

/-!
A session: one conflicted file being resolved, with the notices that came up on the way.
-/

namespace MergeConflict

inductive NoticeLevel where
  | info
  | warning
  | error
deriving DecidableEq, Repr

/-- A message for the user about something that went wrong in the background. -/
structure Notice where
  level : NoticeLevel
  source : Option Source
  message : String
deriving DecidableEq, Repr

namespace Notice

def warning (source : Source) (message : String) : Notice :=
  ⟨.warning, some source, message⟩

def error (source : Option Source) (message : String) : Notice :=
  ⟨.error, source, message⟩

/-- The message behind its source in brackets. -/
def text (notice : Notice) : String :=
  match notice.source with
  | some source => "[" ++ source.name ++ "] " ++ notice.message
  | none => notice.message

end Notice

structure Session where
  file : FileContext
  buffer : Buffer
  /-- In order of arrival. -/
  notices : List Notice
deriving DecidableEq

/-- A loaded block and where it sits now. -/
structure BlockView where
  number : Nat
  block : Block
  print : Option Fingerprint
  located : Option Interval
  candidates : List Candidate
deriving DecidableEq

/-- What a front-end is shown of a session. -/
structure Snapshot where
  file : FileContext
  content : String
  blocks : List BlockView
  outstanding : List Block
  patches : List Patch
  canUndo : Bool
  canRedo : Bool
  state : BufferState
  status : HeuristicStatus
  noPatches : Bool
  batchPending : Bool
  /-- The batch id that edit-script results have to carry. -/
  batch : UInt64
  notices : List Notice
deriving DecidableEq

namespace Session

def ofBuffer (file : FileContext) (buffer : Buffer) : Session :=
  ⟨file, buffer, []⟩

def ofContent (file : FileContext) (content : String) (algorithm : Algorithm) : Session :=
  ofBuffer file (Buffer.ofContent content algorithm)

def notify (session : Session) (notice : Notice) : Session :=
  { session with notices := session.notices ++ [notice] }

/-- Puts a result into the session's pool. -/
def commit (session : Session) (update : Update) : Session :=
  { session with buffer := (session.buffer.commit update).1 }

/-- The view of the block at an index. -/
def viewAt (session : Session) (block : Block) (index : Nat) : BlockView :=
  let number := index + 1
  { number
    block
    print := session.buffer.prints.get? number
    located := session.buffer.locate number
    candidates := session.buffer.pool.candidates number }

def snapshot (session : Session) : Snapshot :=
  let buffer := session.buffer
  { file := session.file
    content := buffer.content
    blocks := buffer.blocks.zipIdx.map fun (block, index) => session.viewAt block index
    outstanding := buffer.outstanding
    patches := buffer.patches
    canUndo := buffer.canUndo
    canRedo := buffer.canRedo
    state := buffer.state
    status := buffer.pool.status
    noPatches := buffer.pool.noPatches
    batchPending := buffer.pool.batchPending
    batch := buffer.pool.batch
    notices := session.notices }

end Session

end MergeConflict
