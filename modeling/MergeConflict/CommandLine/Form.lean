/-!
Forms: what a command accepts on the command line, and the reading of words by a form.

A form has options, at most one operand, and perhaps commands. Words are read from left to right. An
argument is taken in two steps: a word opens it, and the next one that opens another settles it. So
an argument is judged (is its value missing, empty or a second one?) only when it is settled, and a
word that fits nothing at all is reported before that.
-/

namespace MergeConflict

/-- Why words are no command line. -/
inductive UsageError where
  /-- The words ask how the program is used. -/
  | helpRequested
  /-- There is nothing to do, so its use is shown. -/
  | nothingGiven
  | missingCommand
  | unknownCommand
  | missingArgument
  | unknownArgument
  | repeatedArgument
  /-- A value that is missing, or empty where it names a path. -/
  | invalidValue
  /-- A value for an option that takes none. -/
  | surplusValue
deriving DecidableEq, Repr

/-- What an argument holds. -/
inductive ArgumentKind where
  | flag
  | text
  /-- A text that is not empty. -/
  | path
deriving DecidableEq, Repr

structure Argument where
  name : String
  kind : ArgumentKind
deriving DecidableEq, Repr

structure Form where
  options : List Argument
  operand : Option Argument
  commands : List String
deriving DecidableEq, Repr

/-- The kinds of words, as far as their first characters tell. -/
inductive Word where
  /-- Two dashes: what follows is no option. -/
  | escape
  /-- An option by its name, and what follows an equals sign. -/
  | long (name : String) (value : Option String)
  /-- Options by their letters. -/
  | short (letter : Char)
  | plain
deriving DecidableEq, Repr

def Word.ofText (text : String) : Word :=
  match text.toList with
  | ['-', '-'] => escape
  | '-' :: '-' :: rest =>
    let name := String.ofList (rest.takeWhile (· ≠ '='))
    match rest.dropWhile (· ≠ '=') with
    | [] => long name none
    | _ :: value => long name (some (String.ofList value))
  | '-' :: letter :: _ => short letter
  | _ => plain

/-- An argument that a word has opened, and its value if it came. -/
structure OpenArgument where
  argument : Argument
  value : Option String
deriving DecidableEq, Repr

/-- Words read so far. -/
structure Reading where
  /-- The arguments that are settled, with their values. -/
  settled : List (String × String)
  pending : Option OpenArgument
  /-- Whether the operand was given. -/
  filled : Bool
  /-- Whether the options are over. -/
  escaped : Bool
deriving DecidableEq, Repr

namespace Reading

def empty : Reading := ⟨[], none, false, false⟩

def value? (reading : Reading) (name : String) : Option String :=
  reading.settled.lookup name

/-- Whether the next plain word is the value of an option. -/
def awaitsValue (reading : Reading) : Bool :=
  reading.pending.any fun opened => opened.value.isNone

/-- Takes an argument in: its value has to be there and to fit, and it may come only once. -/
def add (reading : Reading) (opened : OpenArgument) : Except UsageError Reading :=
  match opened.value with
  | none => .error .invalidValue
  | some value =>
    if (reading.value? opened.argument.name).isSome then .error .repeatedArgument
    else if opened.argument.kind = .path ∧ value = "" then .error .invalidValue
    else .ok { reading with settled := reading.settled ++ [(opened.argument.name, value)] }

/-- Settles the open argument. -/
def settle (reading : Reading) : Except UsageError Reading :=
  match reading.pending with
  | none => .ok reading
  | some opened => ({ reading with pending := none } : Reading).add opened

/-- Settles the open argument and opens another. -/
def push (reading : Reading) (opened : OpenArgument) : Except UsageError Reading := do
  return { (← reading.settle) with pending := some opened }

/-- Settles the open argument and another at once. -/
def take (reading : Reading) (opened : OpenArgument) : Except UsageError Reading := do
  (← reading.settle).add opened

/-- Shows the help, unless the open argument is at fault. -/
def help (reading : Reading) : Except UsageError Reading := do
  let _ ← reading.settle
  .error .helpRequested

end Reading

namespace Form

def option? (form : Form) (name : String) : Option Argument :=
  form.options.find? (·.name = name)

/-- The name under which every form shows its help. -/
def helpName : String := "help"

/-- Whether a word names a command of the form; where there are commands, help is one of them. -/
def namesCommand (form : Form) (word : String) : Bool :=
  !form.commands.isEmpty && (word == helpName || form.commands.contains word)

/-- Reads an option given by name. -/
def readLong (form : Form) (reading : Reading) (name : String) (value : Option String) :
    Except UsageError Reading :=
  if name = helpName then
    if value.isSome then .error .surplusValue else reading.help
  else
    match form.option? name with
    | none => .error .unknownArgument
    | some argument =>
      match argument.kind, value with
      | .flag, some _ => .error .surplusValue
      | .flag, none => reading.take ⟨argument, some ""⟩
      | _, some _ => reading.take ⟨argument, value⟩
      | _, none => reading.push ⟨argument, none⟩

/-- Reads options given by letters; only help has one. -/
def readShort (reading : Reading) (letter : Char) : Except UsageError Reading :=
  if letter = 'h' then reading.help else .error .unknownArgument

/-- Reads the operand, or rejects a word that fits nothing. -/
def readOperand (form : Form) (reading : Reading) (word : String) : Except UsageError Reading :=
  match form.operand, reading.filled with
  | some argument, false =>
    return { (← reading.push ⟨argument, some word⟩) with filled := true }
  | _, _ =>
    if form.commands.isEmpty ∨ (reading.escaped ∧ form.namesCommand word) then
      .error .unknownArgument
    else .error .unknownCommand

/-- Reads one word that names no command. -/
def readWord (form : Form) (reading : Reading) (word : String) : Except UsageError Reading :=
  if reading.escaped then form.readOperand reading word
  else
    match Word.ofText word with
    | .escape => .ok { reading with escaped := true }
    | .long name value => form.readLong reading name value
    | .short letter => readShort reading letter
    | .plain =>
      match reading.pending with
      | some ⟨argument, none⟩ =>
        .ok { reading with pending := some ⟨argument, some word⟩ }
      | _ => form.readOperand reading word

/-- Reads words up to the first that names a command; answers the reading, that word and the words
behind it. -/
def read (form : Form) (reading : Reading) :
    List String → Except UsageError (Reading × Option (String × List String))
  | [] => .ok (reading, none)
  | word :: rest =>
    if !reading.escaped && !reading.awaitsValue && form.namesCommand word then
      .ok (reading, some (word, rest))
    else
      match form.readWord reading word with
      | .error e => .error e
      | .ok reading => form.read reading rest

/-- Reads words of a form that has no commands. -/
def readAll (form : Form) (words : List String) : Except UsageError Reading := do
  (← form.read .empty words).1.settle

end Form

end MergeConflict
