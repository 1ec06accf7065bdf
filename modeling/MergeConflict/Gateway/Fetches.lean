import MergeConflict.Gateway.SessionId

/-!
The bookkeeping of fetches.

Every fetch has a token by which it can be cancelled. At most one token is registered for a
session; a later fetch takes its place, and then cancels it. Each function here is one atomic step
of a handler or of a fetch that ends.
-/

namespace MergeConflict

structure FetchToken where
  number : Nat
deriving DecidableEq, Repr

structure Fetches where
  registered : List (SessionId × FetchToken)
  cancelled : List FetchToken
  /-- How many tokens there are so far. -/
  issued : Nat
  /-- The gateway shuts down, which cancels every token. -/
  isShut : Bool
deriving DecidableEq, Repr

namespace Fetches

def empty : Fetches := ⟨[], [], 0, false⟩

def isCancelled (fetches : Fetches) (token : FetchToken) : Bool :=
  fetches.isShut || fetches.cancelled.contains token

/-- A token that no fetch has had before. -/
def issue (fetches : Fetches) : FetchToken × Fetches :=
  (⟨fetches.issued⟩, { fetches with issued := fetches.issued + 1 })

/-- Registers a token for a session, and gives the one that was registered before. -/
def register (fetches : Fetches) (id : SessionId) (token : FetchToken) :
    Option FetchToken × Fetches :=
  (fetches.registered.lookup id,
    { fetches with registered := (id, token) :: fetches.registered.filter (·.1 ≠ id) })

def cancel (fetches : Fetches) (token : FetchToken) : Fetches :=
  { fetches with cancelled := token :: fetches.cancelled }

/-- Takes the token of a session out. -/
def remove (fetches : Fetches) (id : SessionId) : Option FetchToken × Fetches :=
  (fetches.registered.lookup id,
    { fetches with registered := fetches.registered.filter (·.1 ≠ id) })

/-- A fetch of a session has ended: unless it was cancelled, nothing stays registered for the
session. -/
def complete (fetches : Fetches) (id : SessionId) (token : FetchToken) : Fetches :=
  if fetches.isCancelled token then fetches
  else { fetches with registered := fetches.registered.filter (·.1 ≠ id) }

def shut (fetches : Fetches) : Fetches :=
  { fetches with isShut := true }

end Fetches

end MergeConflict
