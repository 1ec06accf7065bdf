import MergeConflict.Json.Token

/-!
Reading a JSON text.

The reader never fails: where the text stops being JSON it closes what is open and leaves `broken`
there. A value is `complete` when nothing is broken inside it and nothing follows it.
-/

namespace MergeConflict.Json

/-- A value and the tokens behind it, or no tokens where the text broke inside the value. -/
structure Reading (α : Type) where
  value : α
  rest : Option (List Token)

/-- A field from its name, if that denotes a text, and its value. -/
def named : Option String → Json → String × Json
  | some name, value => (name, value)
  | none, value => ("", .nameless value)

mutual

/-- The value that some tokens begin with. -/
def readValue : Nat → List Token → Reading Json
  | 0, _ => ⟨.broken, none⟩
  | fuel + 1, tokens =>
    match tokens with
    | .scalar value :: rest => ⟨value, some rest⟩
    | .text (some content) :: rest => ⟨.str content, some rest⟩
    | .text none :: rest => ⟨.flawed, some rest⟩
    | .openArray :: .closeArray :: rest => ⟨.arr [], some rest⟩
    | .openArray :: rest =>
      let items := readItems fuel rest
      ⟨.arr items.value, items.rest⟩
    | .openObject :: .closeObject :: rest => ⟨.obj [], some rest⟩
    | .openObject :: rest =>
      let fields := readFields fuel rest
      ⟨.obj fields.value, fields.rest⟩
    | _ => ⟨.broken, none⟩

/-- The items of an array from one item on. -/
def readItems : Nat → List Token → Reading (List Json)
  | 0, _ => ⟨[.broken], none⟩
  | fuel + 1, tokens =>
    let item := readValue fuel tokens
    match item.rest with
    | none => ⟨[item.value], none⟩
    | some (.comma :: rest) =>
      let more := readItems fuel rest
      ⟨item.value :: more.value, more.rest⟩
    | some (.closeArray :: rest) => ⟨[item.value], some rest⟩
    | some _ => ⟨[item.value, .broken], none⟩

/-- The fields of an object from one field on. -/
def readFields : Nat → List Token → Reading (List (String × Json))
  | 0, _ => ⟨[("", .nameless .broken)], none⟩
  | fuel + 1, tokens =>
    match tokens with
    | .text name :: .colon :: rest =>
      let value := readValue fuel rest
      let field := named name value.value
      match value.rest with
      | none => ⟨[field], none⟩
      | some (.comma :: rest) =>
        let more := readFields fuel rest
        ⟨field :: more.value, more.rest⟩
      | some (.closeObject :: rest) => ⟨[field], some rest⟩
      | some _ => ⟨[field, ("", .nameless .broken)], none⟩
    | .text name :: _ => ⟨[named name .broken], none⟩
    | _ => ⟨[("", .nameless .broken)], none⟩

end

/-- The value a text begins with, and whether the text is that value and nothing else. -/
structure Document where
  value : Json
  complete : Bool

/-- Reads a text. Each level of the reader takes a token or opens a list that does. -/
def read (text : String) : Document :=
  let tokens := Token.ofText text
  let reading := readValue (2 * tokens.length + 1) tokens
  ⟨reading.value, reading.rest.any (·.isEmpty)⟩

/-- The value of a text that is JSON from end to end, every value in it denoting something. -/
def parse? (text : String) : Option Json :=
  let document := read text
  if document.complete && document.value.isSound 127 then some document.value else none

end MergeConflict.Json
