import MergeConflict.Gateway.SessionId
import MergeConflict.Http.Request

/-!
The addresses of the gateway, and what may be done at each.
-/

namespace MergeConflict

/-- What can be asked of an open session besides looking at it and closing it. -/
inductive SessionAction where
  | apply
  | edit
  | undo
  | redo
  | reset
  | candidates
  | fetch
deriving DecidableEq, Repr

def SessionAction.ofName? : String → Option SessionAction
  | "apply" => some apply
  | "edit" => some edit
  | "undo" => some undo
  | "redo" => some redo
  | "reset" => some reset
  | "candidates" => some candidates
  | "fetch" => some fetch
  | _ => none

/-- An address; `key` names a session and is not read yet. -/
inductive Endpoint where
  | sessions
  | session (key : List Char)
  | action (key : List Char) (action : SessionAction)
  | status
deriving DecidableEq, Repr

/-- Something the gateway is asked to do. -/
inductive Operation where
  | create
  | view (id : SessionId)
  | close (id : SessionId)
  | act (id : SessionId) (action : SessionAction)
  | status
deriving DecidableEq, Repr

/-- Why a request is no operation. -/
inductive RoutingError where
  | noSuchPath
  | wrongMethod
  | badKey
deriving DecidableEq, Repr

namespace Endpoint

private def hexValue? (c : Char) : Option Nat :=
  if '0' ≤ c ∧ c ≤ '9' then some (c.toNat - 48)
  else if 'a' ≤ c ∧ c ≤ 'f' then some (c.toNat - 87)
  else if 'A' ≤ c ∧ c ≤ 'F' then some (c.toNat - 55)
  else none

/-- A segment of a path with every escaped byte written as the character of that number. -/
def unescape : List Char → List Char
  | '%' :: a :: b :: rest =>
    match hexValue? a, hexValue? b with
    | some x, some y => Char.ofNat (16 * x + y) :: unescape rest
    | _, _ => '%' :: unescape (a :: b :: rest)
  | c :: rest => c :: unescape rest
  | [] => []
termination_by text => text.length

/-- The address of a path. An empty key is none at the end of a path, but may stand in front of an
action. -/
def ofPath? (path : List Char) : Option Endpoint :=
  match Text.cutAt '/' path with
  | [] :: ['v', '1'] :: rest =>
    match rest with
    | [name] =>
      match String.ofList name with
      | "sessions" => some sessions
      | "status" => some status
      | _ => none
    | [name, key] =>
      if String.ofList name = "sessions" ∧ key ≠ [] then some (session (unescape key)) else none
    | [name, key, verb] =>
      if String.ofList name = "sessions" then
        (SessionAction.ofName? (String.ofList verb)).map (action (unescape key))
      else none
    | _ => none
  | _ => none

end Endpoint

namespace Operation

def withId (key : List Char) (operation : SessionId → Operation) :
    Except RoutingError Operation :=
  match SessionId.ofText? key with
  | some id => .ok (operation id)
  | none => .error .badKey

/-- The operation that a request asks for. A method that only asks for the head of an answer is the
same operation. -/
def ofRequest (request : Http.Request) : Except RoutingError Operation :=
  match Endpoint.ofPath? request.path, request.method with
  | none, _ => .error .noSuchPath
  | some .sessions, .post => .ok create
  | some (.session key), .get => withId key view
  | some (.session key), .head => withId key view
  | some (.session key), .delete => withId key close
  | some (.action key action), .post => withId key (act · action)
  | some .status, .get => .ok status
  | some .status, .head => .ok status
  | some _, _ => .error .wrongMethod

end Operation

end MergeConflict
