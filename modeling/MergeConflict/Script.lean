/-!
Edit scripts between two texts, and their normal form.

A script is a list of runs; a run keeps, removes or adds some lines. The kept and removed lines in
order spell the old text, the kept and added ones the new text. In the normal form no run is
empty, neighbours differ in tag, and removals stand in front of additions.
-/

namespace MergeConflict

inductive Tag where
  | equal
  | removed
  | added
deriving DecidableEq, Repr

def Tag.name : Tag → String
  | equal => "equal"
  | removed => "removed"
  | added => "added"

/-- Neighbouring lines of one tag. -/
structure Run where
  tag : Tag
  lines : List String
deriving DecidableEq, Repr

abbrev Script := List Run

namespace Script

/-- The text a script starts from. -/
def oldLines (script : Script) : List String :=
  script.flatMap fun run => if run.tag = .added then [] else run.lines

/-- The text a script leads to. -/
def newLines (script : Script) : List String :=
  script.flatMap fun run => if run.tag = .removed then [] else run.lines

/-- A run, or nothing for no lines. -/
def single (tag : Tag) (lines : List String) : Script :=
  if lines.isEmpty then [] else [⟨tag, lines⟩]

/-- Kept lines in front of a script, joined with the kept lines it begins with. -/
def keep (lines : List String) : Script → Script
  | ⟨.equal, more⟩ :: rest => ⟨.equal, lines ++ more⟩ :: rest
  | script => single .equal lines ++ script

/-- A script with the edits between two kept stretches gathered, `removed` and `added` being those
since the last kept line. -/
def gather (removed added : List String) : Script → Script
  | [] => single .removed removed ++ single .added added
  | ⟨.removed, lines⟩ :: rest => gather (removed ++ lines) added rest
  | ⟨.added, lines⟩ :: rest => gather removed (added ++ lines) rest
  | ⟨.equal, lines⟩ :: rest =>
    if lines.isEmpty then gather removed added rest
    else single .removed removed ++ (single .added added ++ keep lines (gather [] [] rest))

/-- The normal form. -/
def normalize (script : Script) : Script :=
  gather [] [] script

end Script

end MergeConflict
