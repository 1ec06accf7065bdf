import MergeConflict.Wire.Session

/-!
The JSON bodies of requests to the gateway.
-/

namespace MergeConflict

/-- Opens a session; without a file the configured project is meant. -/
structure CreateBody where
  content : String
  file : Option FileContext
deriving DecidableEq, Repr

structure EditBody where
  content : String
  line : Nat
deriving DecidableEq, Repr

def CreateBody.ofJson : Json.Decoder CreateBody :=
  Json.record ⟨"", none⟩ [
    .required "content" Json.string fun s r => { r with content := s },
    .defaulted "file" (Json.option FileContext.ofJson) fun f r => { r with file := f }]

def EditBody.ofJson : Json.Decoder EditBody :=
  Json.record ⟨"", 0⟩ [
    .required "content" Json.string fun s r => { r with content := s },
    .defaulted "line" Json.index fun n r => { r with line := n }]

end MergeConflict
