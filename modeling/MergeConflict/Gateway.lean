import MergeConflict.EngineSet
import MergeConflict.Gateway.Endpoint
import MergeConflict.Gateway.Fetches
import MergeConflict.Json.Reader
import MergeConflict.Wire.Gateway

/-!
The HTTP interface over sessions, for editors.

A handler answers at once. Work that takes time, a fetch of candidates or the report of a choice to
the audit, is handed out as a `Job` with the session it is for; it goes on also when the session is
closed meanwhile.
-/

namespace MergeConflict

/-- A session and whether requests can still reach it. -/
structure Room where
  id : SessionId
  session : Session
  isOpen : Bool

structure Gateway where
  settings : Settings
  engines : EngineSet
  rooms : List Room
  fetches : Fetches

/-- Work that a request leaves behind. -/
inductive Job where
  | fetch (id : SessionId) (token : FetchToken)
  | audit (id : SessionId) (record : ChoiceRecord)

/-- An answer; none stands for a body that is not JSON. -/
structure Response where
  status : Nat
  body : Option Json

/-- What a request leads to. -/
structure Handled where
  gateway : Gateway
  response : Response
  job : Option Job

def Json.Fault.status : Json.Fault → Nat
  | .malformed => 400
  | .misfit => 422

def RoutingError.status : RoutingError → Nat
  | noSuchPath => 404
  | wrongMethod => 405
  | badKey => 400

def ResolveError.status : ResolveError → Nat
  | locationNotFound _ => 409
  | missingResolution .. => 404
  | _ => 400

namespace Response

/-- A refusal without a word. -/
def bare (status : Nat) : Response :=
  ⟨status, none⟩

def ok (body : Json) : Response :=
  ⟨200, some body⟩

def failure (status : Nat) (message : String) : Response :=
  ⟨status, some (.obj [("error", .str message)])⟩

end Response

namespace Gateway

/-- The version that the status tells. -/
def version : String := "0.1.0"

def start (settings : Settings) (engines : EngineSet) : Gateway :=
  ⟨settings, engines, [], .empty⟩

/-- The session with an id, whether open or not. -/
def held? (gateway : Gateway) (id : SessionId) : Option Session :=
  (gateway.rooms.find? (·.id = id)).map Room.session

/-- The open session with an id. -/
def session? (gateway : Gateway) (id : SessionId) : Option Session :=
  (gateway.rooms.find? fun room => room.isOpen && room.id = id).map Room.session

/-- The gateway with another state of a session. -/
def withSession (gateway : Gateway) (id : SessionId) (session : Session) : Gateway :=
  { gateway with rooms := gateway.rooms.map fun room =>
      if room.id = id then { room with session } else room }

def sessionCount (gateway : Gateway) : Nat :=
  (gateway.rooms.filter Room.isOpen).length

private def answered (gateway : Gateway) (response : Response) : Handled :=
  ⟨gateway, response, none⟩

def notFound (gateway : Gateway) (id : SessionId) : Handled :=
  gateway.answered (.failure 404 ("session " ++ id.text ++ " not found"))

/-! ## Handlers -/

/-- The file of a session that does not say which. -/
def defaultFile (gateway : Gateway) : FileContext :=
  let project := gateway.settings.project
  { FileContext.blank with
    project := project.path
    targetBranch := project.targetBranch
    sourceBranch := project.sourceBranch }

def create (gateway : Gateway) (id : SessionId) (body : CreateBody) : Handled :=
  let session := Session.ofContent (body.file.getD gateway.defaultFile) body.content
    gateway.settings.diff.algorithm
  let gateway := { gateway with rooms := gateway.rooms ++ [Room.mk id session true] }
  gateway.answered <| .ok <| .obj [
    ("id", .str id.text),
    ("blocks", .ofList Block.toJson session.buffer.blocks),
    ("outstanding", .ofNat session.buffer.outstanding.length)]

def view (gateway : Gateway) (id : SessionId) : Handled :=
  match gateway.session? id with
  | none => gateway.notFound id
  | some session =>
    gateway.answered <| .ok <| .obj (("id", .str id.text) :: session.snapshot.fields)

/-- The first step of closing: a fetch that still runs is cancelled. -/
def cancelFetch (gateway : Gateway) (id : SessionId) : Gateway :=
  let (token, fetches) := gateway.fetches.remove id
  { gateway with fetches := token.elim fetches fetches.cancel }

/-- The second step of closing. -/
def closeRoom (gateway : Gateway) (id : SessionId) : Gateway :=
  { gateway with rooms := gateway.rooms.map fun room =>
      if room.id = id then { room with isOpen := false } else room }

def close (gateway : Gateway) (id : SessionId) : Handled :=
  let gateway := gateway.cancelFetch id
  match gateway.session? id with
  | none => gateway.notFound id
  | some _ => (gateway.closeRoom id).answered <| .ok <| .obj [("status", .str "ok")]

/-- Runs a change of a session's buffer. -/
def change (gateway : Gateway) (id : SessionId) (step : Buffer → Buffer × Option Transition) :
    Handled :=
  match gateway.session? id with
  | none => gateway.notFound id
  | some session =>
    let (buffer, transition) := step session.buffer
    (gateway.withSession id { session with buffer }).answered <|
      .ok (.ofOption Transition.toJson transition)

def apply (gateway : Gateway) (id : SessionId) (request : Request) : Handled :=
  match gateway.session? id with
  | none => gateway.notFound id
  | some session =>
    let (buffer, result) := session.buffer.apply request
    let gateway := gateway.withSession id { session with buffer }
    match result with
    | .error e => gateway.answered (.failure e.status e.message)
    | .ok applied =>
      { gateway
        response := .ok <| .obj [
          ("transition", applied.transition.toJson), ("audit", applied.audit.toJson)]
        job :=
          if gateway.engines.has .audit then
            some (.audit id (session.file.choiceRecord request.block applied.audit))
          else none }

/-- Makes a new token the one registered for a session, and cancels the one before. -/
def replaceFetch (gateway : Gateway) (id : SessionId) : FetchToken × Gateway :=
  let (token, fetches) := gateway.fetches.issue
  let (previous, fetches) := fetches.register id token
  (token, { gateway with fetches := previous.elim fetches fetches.cancel })

def fetch (gateway : Gateway) (id : SessionId) : Handled :=
  match gateway.session? id with
  | none => gateway.notFound id
  | some _ =>
    let (token, gateway) := gateway.replaceFetch id
    { gateway
      response := ⟨202, some <| .obj [
        ("status", .str "fetching"), ("engines", .ofStrings gateway.engines.names)]⟩
      job := some (.fetch id token) }

def tellStatus (gateway : Gateway) : Handled :=
  gateway.answered <| .ok <| .obj [
    ("status", .str "ok"),
    ("version", .str version),
    ("sessions", .ofNat gateway.sessionCount),
    ("engines", .ofStrings gateway.engines.names)]

/-! ## Requests -/

/-- Reads the body before anything else is looked at. -/
def withBody {α : Type} (gateway : Gateway) (request : Http.Request) (decode : Json.Decoder α)
    (handle : α → Handled) : Handled :=
  match request.json with
  | none => gateway.answered (.bare 415)
  | some text =>
    match Json.ofText decode text with
    | .error fault => gateway.answered (.bare fault.status)
    | .ok body => handle body

def act (gateway : Gateway) (request : Http.Request) (id : SessionId) :
    SessionAction → Handled
  | .apply => gateway.withBody request Request.ofJson (gateway.apply id)
  | .edit => gateway.withBody request EditBody.ofJson fun body =>
    gateway.change id (·.edit body.content body.line)
  | .undo => gateway.change id Buffer.undo
  | .redo => gateway.change id Buffer.redo
  | .reset => gateway.change id fun buffer =>
    let (buffer, transition) := buffer.reset
    (buffer, some transition)
  | .candidates => gateway.withBody request Update.ofJson fun update =>
    gateway.change id fun buffer =>
      let (buffer, transition) := buffer.commit update
      (buffer, some transition)
  | .fetch => gateway.fetch id

def perform (gateway : Gateway) (fresh : SessionId) (request : Http.Request) :
    Operation → Handled
  | .create => gateway.withBody request CreateBody.ofJson (gateway.create fresh)
  | .view id => gateway.view id
  | .close id => gateway.close id
  | .act id action => gateway.act request id action
  | .status => gateway.tellStatus

/-- Handles a request; a session that it opens gets the fresh id. Questions about what is allowed
are answered for any address, and an answer of which only the head is asked for has no body. -/
def handle (gateway : Gateway) (fresh : SessionId) (request : Http.Request) : Handled :=
  if request.method = .options then gateway.answered (.bare 200)
  else
    match Operation.ofRequest request with
    | .error e => gateway.answered (.bare e.status)
    | .ok operation =>
      let handled := gateway.perform fresh request operation
      if request.method = .head then
        { handled with response := .bare handled.response.status }
      else handled

/-! ## Jobs -/

/-- A fetch has ended. -/
def completeFetch (gateway : Gateway) (id : SessionId) (token : FetchToken) : Gateway :=
  { gateway with fetches := gateway.fetches.complete id token }

def shutDown (gateway : Gateway) : Gateway :=
  { gateway with fetches := gateway.fetches.shut }

end Gateway

end MergeConflict
