import MergeConflict.CommandLine.Dialogue

/-!
What a user enters at a prompt, and which reply it is.
-/

namespace MergeConflict

/-- Something entered, before it is known at which prompt. -/
inductive Input where
  | text (text : String)
  | index (index : Nat)
  | flag (yes : Bool)
  /-- Leaves the default as it is. -/
  | blank
  /-- Fits no prompt. -/
  | garbled
deriving DecidableEq, Repr

/-- The position of the first item that starts with a text. -/
private def startingWith? (text : String) (items : List String) : Option (Fin items.length) :=
  (List.finRange items.length).find? fun index => items[index].startsWith text

private def itemAt? (items : List String) (index : Nat) : Option (Fin items.length) :=
  if h : index < items.length then some ⟨index, h⟩ else none

/-- The reply that an input is to a prompt, if it fits. -/
def Input.reply? : Input → (prompt : Prompt) → Option prompt.Reply
  | text line, .text .. => some line
  | text line, .number .. => some line
  | text line, .pick _ items _ => startingWith? line items
  | index i, .pick _ items _ => itemAt? items i
  | blank, .pick _ items default => itemAt? items default
  | flag yes, .confirm .. => some yes
  | blank, .confirm _ default => some default
  | _, _ => none

/-- How a line typed at a prompt is meant: an item is named by its position or by how it begins, a
yes or no by its first letter. -/
def Prompt.inputOf (line : String) : Prompt → Input
  | text .. | number .. => .text line
  | pick .. =>
    if line = "" then .blank
    else
      match readNumber? 64 line with
      | some position => .index position
      | none => .text line
  | confirm .. =>
    match line.toList with
    | [] => .blank
    | 'y' :: _ => .flag true
    | 'n' :: _ => .flag false
    | _ => .garbled

end MergeConflict
