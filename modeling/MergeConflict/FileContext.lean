import MergeConflict.Engine.Request

/-!
The file that a session resolves, and the requests that are made about it.
-/

namespace MergeConflict

/-- Where a conflicted file lives and which merge produced it. -/
structure FileContext where
  project : String
  targetBranch : String
  sourceBranch : String
  /-- The path within the project. -/
  path : String
  /-- The full path, or empty. -/
  fullPath : String
  /-- Checked-out copies of the versions. -/
  targetCopy : String
  sourceCopy : String
  baseCopy : String
  conflictCopy : String
deriving DecidableEq, Repr

namespace FileContext

def blank : FileContext := ⟨"", "", "", "", "", "", "", "", ""⟩

/-- The last component of a path; none after a step to the parent. -/
def lastComponent? (path : String) : Option (List Char) :=
  match ((Text.cutAt '/' path.toList).filter fun c => c ≠ [] ∧ c ≠ ['.']).getLast? with
  | some ['.', '.'] => none
  | component => component

/-- What follows the last dot of a path's last component, unless that dot begins the component. -/
def extension? (path : String) : Option String := do
  let name ← lastComponent? path
  let ending := name.reverse.takeWhile (· ≠ '.')
  if name.length ≤ ending.length + 1 then none else some (String.ofList ending.reverse)

/-- The language of a path, as the classifier names it. -/
def languageOf (path : String) : String :=
  match (extension? path).getD "" with
  | "cc" | "cpp" | "h" | "hpp" | "c++" | "c" | "cp" | "C" | "cxx" => "cpp"
  | "java" => "java"
  | "kt" => "kotlin"
  | _ => "unknown"

def language (file : FileContext) : String :=
  languageOf file.path

/-- The full path if there is one, or else the path within the project. -/
def bestPath (file : FileContext) : String :=
  if file.fullPath = "" then file.path else file.fullPath

def heuristicRequest (file : FileContext) : HeuristicRequest where
  project := file.project
  ours := file.targetBranch
  theirs := file.sourceBranch
  file := file.bestPath

private def forwardSlashes (path : String) : String :=
  String.ofList (path.toList.map fun c => if c = '\\' then '/' else c)

def labelRequest (file : FileContext) : LabelRequest where
  project := file.project
  targetBranch := file.targetBranch
  sourceBranch := file.sourceBranch
  ours := forwardSlashes file.targetCopy
  theirs := forwardSlashes file.sourceCopy
  conflict := forwardSlashes file.conflictCopy
  base := forwardSlashes file.baseCopy
  language := file.language

def historyQuery (file : FileContext) : HistoryQuery where
  file := file.bestPath
  repository := file.project
  fileType := 0

/-- The report of a choice for a block given by number. -/
def choiceRecord (file : FileContext) (block : Nat) (audit : Audit) : ChoiceRecord where
  project := file.project
  targetBranch := file.targetBranch
  sourceBranch := file.sourceBranch
  file := file.path
  index := block - 1
  audit

end FileContext

end MergeConflict
