import MergeConflict.Json.Reader

/-!
Typed reading of JSON values.

A decoder meets the faults of a value in the order of the text: `malformed` where the text is not
JSON, `misfit` where a value has the wrong shape. A record is an object, or the array of its
fields in order; unknown names are skipped, and a name may occur once.
-/

namespace MergeConflict.Json

inductive Fault where
  | malformed
  | misfit
deriving DecidableEq, Repr

abbrev Decoder (α : Type) := Json → Except Fault α

/-- The fault of a value found where another kind is asked for. -/
def wrongKind : Json → Fault
  | .flawed | .broken => .malformed
  | _ => .misfit

/-- Passes over a value without a use. -/
def skip (value : Json) : Except Fault Unit :=
  if value.isWhole then .ok () else .error .malformed

/-- An integer in `low..high`, both inclusive. -/
def integer (low high : Int) : Decoder Int
  | .int i => if low ≤ i ∧ i ≤ high then .ok i else .error .misfit
  | value => .error value.wrongKind

/-- A natural of some number of bits. -/
def natural (width : Nat) : Decoder Nat := fun value =>
  let last : Nat := Nat.pow 2 width - 1
  (integer 0 last value).map Int.toNat

/-- A line number, an index or a count. -/
def index : Decoder Nat := natural 64

def boolean : Decoder Bool
  | .bool b => .ok b
  | value => .error value.wrongKind

def string : Decoder String
  | .str s => .ok s
  | value => .error value.wrongKind

/-- A double; an integer is rounded to the nearest one. -/
def double : Decoder Binary64
  | .real x => .ok x
  | .int i => .ok (Binary64.ofInt i)
  | value => .error value.wrongKind

def option {α : Type} (decode : Decoder α) : Decoder (Option α)
  | .null => .ok none
  | value => (decode value).map some

def list {α : Type} (decode : Decoder α) : Decoder (List α)
  | .arr items => items.mapM decode
  | value => .error value.wrongKind

def strings : Decoder (List String) := list string

/-- Whether a field may be left out of an object, and of an array. -/
inductive Presence where
  | required
  /-- Null if left out of an object; an array has to hold it. -/
  | nullable
  | defaulted
deriving DecidableEq

/-- A field of a record, by the names it goes under. -/
structure Field (σ : Type) where
  name : String
  secondName : Option String
  presence : Presence
  read : Json → σ → Except Fault σ

namespace Field

variable {σ α : Type}

def required (name : String) (decode : Decoder α) (put : α → σ → σ) : Field σ :=
  ⟨name, none, .required, fun value record => (decode value).map (put · record)⟩

def nullable (name : String) (decode : Decoder α) (put : Option α → σ → σ) : Field σ :=
  ⟨name, none, .nullable, fun value record => (option decode value).map (put · record)⟩

def defaulted (name : String) (decode : Decoder α) (put : α → σ → σ) : Field σ :=
  ⟨name, none, .defaulted, fun value record => (decode value).map (put · record)⟩

def isNamed (field : Field σ) (name : String) : Bool :=
  field.name == name || field.secondName == some name

end Field

variable {α σ : Type}

/-- The fields of an object put into a record one after the other; `seen` are those put so far. -/
def putFields (fields : List (Field σ)) (seen : List String) (record : σ) :
    List (String × Json) → Except Fault (List String × σ)
  | [] => .ok (seen, record)
  | (_, .nameless _) :: _ => .error .malformed
  | (name, value) :: rest =>
    match fields.find? (·.isNamed name) with
    | none => do
      skip value
      putFields fields seen record rest
    | some field =>
      if seen.contains field.name then .error .misfit
      else do
        let record ← field.read value record
        putFields fields (field.name :: seen) record rest

/-- The items of an array put into a record, one per field. -/
def putItems (record : σ) : List (Field σ) → List Json → Except Fault σ
  | [], [] => .ok record
  | [], _ :: _ => .error .malformed
  | fields, [] => if fields.all (·.presence = .defaulted) then .ok record else .error .misfit
  | field :: fields, item :: rest => do
    let record ← field.read item record
    putItems record fields rest

/-- A record over a blank one that holds the defaults. -/
def record (blank : σ) (fields : List (Field σ)) : Decoder σ
  | .obj pairs => do
    let (seen, record) ← putFields fields [] blank pairs
    if fields.any fun field => field.presence = .required && !seen.contains field.name then
      .error .misfit
    else .ok record
  | .arr items => putItems blank fields items
  | value => .error value.wrongKind

/-- A variant of a choice: a bare name, or a name that holds a value. -/
inductive Variant (α : Type) where
  | bare (value : α)
  | holding (decode : Decoder α)

/-- What a bare variant may hold where it stands as a field. -/
def nothing : Decoder Unit
  | .null => .ok ()
  | value => .error value.wrongKind

/-- A choice between variants: the name of a bare one, or an object with a name and its value. The
name is judged before what follows it. -/
def choiceHolding (nothing : Decoder Unit) (variants : List (String × Variant α)) : Decoder α
  | .str name =>
    match variants.lookup name with
    | some (.bare a) => .ok a
    | _ => .error .misfit
  | .obj ((_, .nameless _) :: _) => .error .malformed
  | .obj ((name, value) :: more) =>
    match variants.lookup name with
    | none => .error .misfit
    | some variant => do
      let a ←
        match variant with
        | .bare a => (nothing value).map fun _ => a
        | .holding decode => decode value
      if more.isEmpty then .ok a else .error .malformed
  | _ => .error .malformed

def choice (variants : List (String × Variant α)) : Decoder α :=
  choiceHolding nothing variants

/-- A choice inside a buffered value, where an object without fields is as good as null. -/
def bufferedChoice (variants : List (String × Variant α)) : Decoder α :=
  choiceHolding (fun value => match value with
    | .obj [] => .ok ()
    | value => nothing value) variants

/-- How many containers a buffered value may stand in, its own ones counted. -/
def depthLimit : Nat := 127

/-- Reads the whole value before its shape is looked at; `outer` containers stand around it. -/
def buffered (outer : Nat) (decode : Decoder α) : Decoder α := fun value =>
  if value.isSound (depthLimit - outer) then (decode value).mapError fun _ => .misfit
  else .error .malformed

/-- The decoder of the variant that a tag names. -/
def tagged (variants : List (String × Decoder α)) : Decoder (Decoder α)
  | .str tag =>
    match variants.lookup tag with
    | some decode => .ok decode
    | none => .error .misfit
  | value => .error value.wrongKind

/-- The decoder that the field `tag` of an object names. The tag is judged where it stands, the
other fields being no more than sound. -/
def findTag (tag : String) (variants : List (String × Decoder α)) (found : Option (Decoder α)) :
    List (String × Json) → Except Fault (Decoder α)
  | [] =>
    match found with
    | some decode => .ok decode
    | none => .error .misfit
  | (name, value) :: rest =>
    if name = tag then
      if found.isSome then .error .misfit
      else do
        let decode ← tagged variants value
        findTag tag variants (some decode) rest
    else if value.isSound (depthLimit - 1) then findTag tag variants found rest
    else .error .malformed

/-- A value of the variant that its field `tag` names, or the first item of an array. The variant
reads what stands beside the tag, as a buffered value. -/
def taggedBy (tag : String) (variants : List (String × Decoder α)) : Decoder α
  | .obj fields => do
    let decode ← findTag tag variants none fields
    (decode (.obj (fields.filter (·.1 != tag)))).mapError fun _ => .misfit
  | .arr (first :: rest) => do
    let decode ← tagged variants first
    if itemsSound (depthLimit - 1) rest then (decode (.arr rest)).mapError fun _ => .misfit
    else .error .malformed
  | value => .error value.wrongKind

/-- A typed value from a text that holds nothing else. -/
def ofText (decode : Decoder α) (text : String) : Except Fault α := do
  let document := Json.read text
  let a ← decode document.value
  if document.complete then .ok a else .error .malformed

end MergeConflict.Json
