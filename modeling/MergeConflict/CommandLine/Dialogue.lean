import MergeConflict.Json.Decoder

/-!
Dialogues: what a command does with its user and with files, as a value.

A dialogue prints, asks and uses files, and goes on with what it gets. It says nothing of how the
printing and asking is done, so the same command runs at a terminal and against answers that were
written down before.
-/

namespace MergeConflict

/-- What goes wrong with a file or folder. -/
inductive FileFault where
  | missing
  /-- A folder stands where a file is wanted. -/
  | isFolder
  /-- A file stands where a folder is wanted. -/
  | isFile
  | alreadyThere
  /-- The bytes are no text. -/
  | noText
  | other (message : String)
deriving DecidableEq, Repr

/-- A question to the user. -/
inductive Prompt where
  /-- A line of text; an empty one stands for the default. -/
  | text (title default : String)
  /-- A number below `2 ^ bits`; an empty line stands for the default. -/
  | number (title : String) (default bits : Nat)
  /-- One of the items. -/
  | pick (title : String) (items : List String) (default : Nat)
  | confirm (title : String) (default : Bool)
deriving DecidableEq, Repr

namespace Prompt

/-- What the user does. -/
def Reply : Prompt → Type
  | text .. => String
  | number .. => String
  | pick _ items _ => Fin items.length
  | confirm .. => Bool

/-- What the command gets. -/
def Answer : Prompt → Type
  | text .. => String
  | number .. => Nat
  | pick _ items _ => Fin items.length
  | confirm .. => Bool

private def digitOf? (c : Char) : Option Nat :=
  if c.isDigit then some (c.toNat - '0'.toNat) else none

private def digitsValue? : List Char → Option Nat
  | [] => none
  | digits => (digits.mapM digitOf?).map fun values => values.foldl (fun n d => 10 * n + d) 0

/-- The number below `2 ^ bits` that decimal digits spell, perhaps behind a plus sign. -/
def readNumber? (bits : Nat) (line : String) : Option Nat :=
  let digits :=
    match line.toList with
    | '+' :: rest => rest
    | all => all
  (digitsValue? digits).filter fun n => decide (n < Nat.pow 2 bits)

private def textOf (default line : String) : String :=
  if line = "" then default else line

private def numberOf? (default bits : Nat) (line : String) : Option Nat :=
  if line = "" then some default else readNumber? bits line

/-- What a reply answers; none where the prompt has to be put again. -/
def accept : (prompt : Prompt) → prompt.Reply → Option prompt.Answer
  | text _ default, line => some (textOf default line)
  | number _ default bits, line => numberOf? default bits line
  | pick .., index => some index
  | confirm .., yes => some yes

end Prompt

/-- Why a command gives up. -/
inductive CommandFailure where
  | file (fault : FileFault)
  /-- The settings file cannot be read. -/
  | settings (fault : Json.Fault)
  /-- A prompt was left without an answer. -/
  | unanswered
  /-- The command needs a part that is left out of this program. -/
  | notIncluded (part : String)
deriving DecidableEq, Repr

/-- What a command does, up to its result. -/
inductive Dialogue (α : Type) where
  | done (value : α)
  | fail (failure : CommandFailure)
  /-- Prints a text and a newline. -/
  | say (text : String) (next : Dialogue α)
  | ask (prompt : Prompt) (next : prompt.Answer → Dialogue α)
  | isThere (path : String) (next : Bool → Dialogue α)
  | read (path : String) (next : Except FileFault String → Dialogue α)
  | write (path content : String) (next : Except FileFault Unit → Dialogue α)
  /-- Makes a folder and those above it; one that is there already is left as it is. -/
  | makeFolder (path : String) (next : Except FileFault Unit → Dialogue α)
  /-- The full path of a file, empty if it has none. -/
  | fullPath (path : String) (next : String → Dialogue α)

namespace Dialogue

variable {α β : Type}

/-- Goes on with the result. -/
def andThen : Dialogue α → (α → Dialogue β) → Dialogue β
  | done value, f => f value
  | fail failure, _ => fail failure
  | say text next, f => say text (next.andThen f)
  | ask prompt next, f => ask prompt fun answer => (next answer).andThen f
  | isThere path next, f => isThere path fun found => (next found).andThen f
  | read path next, f => read path fun content => (next content).andThen f
  | write path content next, f => write path content fun result => (next result).andThen f
  | makeFolder path next, f => makeFolder path fun result => (next result).andThen f
  | fullPath path next, f => fullPath path fun full => (next full).andThen f

instance : Monad Dialogue where
  pure := done
  bind := andThen

/-- Gives up at a fault. -/
def ofFile : Except FileFault α → Dialogue α
  | .ok value => done value
  | .error fault => fail (.file fault)

def print (text : String) : Dialogue Unit :=
  say text (done ())

/-- Prints texts, a newline behind each. -/
def printAll : List String → Dialogue Unit
  | [] => done ()
  | text :: rest => say text (printAll rest)

def skipLine : Dialogue Unit :=
  print ""

def readText (path : String) : Dialogue String :=
  read path ofFile

def writeText (path content : String) : Dialogue Unit :=
  write path content ofFile

def makeFolders (path : String) : Dialogue Unit :=
  makeFolder path ofFile

def askText (title default : String) : Dialogue String :=
  ask (.text title default) done

def askNumber (title : String) (default bits : Nat) : Dialogue Nat :=
  ask (.number title default bits) done

def askWhether (title : String) (default : Bool) : Dialogue Bool :=
  ask (.confirm title default) done

/-- Has one of the options picked, which are shown by their labels. -/
def choose (title : String) (options : List α) (label : α → String) (default : Nat) :
    Dialogue α :=
  ask (.pick title (options.map label) default) fun index =>
    done (options.get (Fin.cast (List.length_map label) index))

end Dialogue

end MergeConflict
