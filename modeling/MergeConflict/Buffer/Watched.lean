import MergeConflict.Buffer

/-!
A buffer that is observed. Once a change has been made and the buffer brought up to date, its
transition is told to every observer. An observer is known by what it has been told.
-/

namespace MergeConflict.Buffer

/-- A buffer and, for each of its observers, what it has been told. -/
structure Watched where
  buffer : Buffer
  heard : List (List Transition)

namespace Watched

/-- A buffer that nobody observes. -/
def ofBuffer (buffer : Buffer) : Watched :=
  ⟨buffer, []⟩

/-- A file just loaded, which nobody observes. -/
def ofLines (lines : List String) (algorithm : Algorithm) : Watched :=
  ofBuffer (Buffer.ofLines lines algorithm)

/-- A further observer, which is told what happens from now on. -/
def subscribe (watched : Watched) : Watched :=
  { watched with heard := watched.heard ++ [[]] }

/-- Tells every observer. -/
def tell (watched : Watched) (transition : Transition) : Watched :=
  { watched with heard := watched.heard.map (· ++ [transition]) }

/-- A change of the buffer, told to every observer. -/
def announce (watched : Watched) (change : Buffer × Transition) : Watched × Transition :=
  (({ watched with buffer := change.1 } : Watched).tell change.2, change.2)

/-- A change of the buffer if there is one, told to every observer. -/
def announce? (watched : Watched) : Buffer × Option Transition → Watched × Option Transition
  | (buffer, none) => ({ watched with buffer }, none)
  | (buffer, some transition) =>
    let (watched, transition) := watched.announce (buffer, transition)
    (watched, some transition)

/-- Looking for a block is no change. -/
def prepare (watched : Watched) (request : Request) : Watched × Except ResolveError Interval :=
  let (buffer, found) := watched.buffer.prepare request
  ({ watched with buffer }, found)

def apply (watched : Watched) (request : Request) : Watched × Except ResolveError Applied :=
  match watched.buffer.apply request with
  | (buffer, .error e) => ({ watched with buffer }, .error e)
  | (buffer, .ok applied) => ((watched.announce (buffer, applied.transition)).1, .ok applied)

def edit (watched : Watched) (content : String) (hint : Nat) : Watched × Option Transition :=
  watched.announce? (watched.buffer.edit content hint)

def undo (watched : Watched) : Watched × Option Transition :=
  watched.announce? watched.buffer.undo

def redo (watched : Watched) : Watched × Option Transition :=
  watched.announce? watched.buffer.redo

def reset (watched : Watched) : Watched × Transition :=
  watched.announce watched.buffer.reset

def commit (watched : Watched) (update : Update) : Watched × Transition :=
  watched.announce (watched.buffer.commit update)

end Watched

end MergeConflict.Buffer
