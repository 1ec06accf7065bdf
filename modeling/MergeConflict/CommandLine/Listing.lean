import MergeConflict.Buffer
import MergeConflict.CommandLine.SettingsFile

/-!
The commands that only list: the blocks of a file, and its patches against a merged reference.
-/

namespace MergeConflict

namespace CommandLine

/-- A text with blanks behind it, up to a width. -/
def padTo (width : Nat) (text : String) : String :=
  text ++ String.ofList (List.replicate (width - text.length) ' ')

/-- One line for a block. -/
def blockLine (lines : List String) (prints : FingerprintIndex) (number : Nat) (block : Block) :
    String :=
  let sides := block.sides lines
  let base :=
    match sides.base with
    | some base => "base " ++ toString base.length ++ " / "
    | none => ""
  "  #" ++ padTo 3 (toString number) ++
    " lines " ++ toString block.startLine ++ "-" ++ toString block.endLine ++
    "  " ++ (if block.isThreeWay then "3-way" else "2-way") ++
    "  ours " ++ toString sides.ours.length ++ " / " ++ base ++
    "theirs " ++ toString sides.theirs.length ++
    "  [" ++ ((prints.get? number).map Fingerprint.short).getD "" ++ "]"

/-- What the listing of a file's blocks says. -/
def blockListing (file content : String) : List String :=
  let lines := Text.splitLines content
  let blocks := findBlocks lines
  if blocks.isEmpty then ["No conflict blocks in " ++ file]
  else
    let prints := FingerprintIndex.ofBlocks lines blocks
    [toString blocks.length ++ " conflict block(s) in " ++ file, ""] ++
      blocks.zipIdx.map fun (block, index) => blockLine lines prints (numberOf index) block

def blocks (file : String) : Dialogue Unit := do
  .printAll (blockListing file (← .readText file))

/-- The report of a static analysis that has nothing but a merged text. -/
def mergedReport (merged : String) : Report where
  resolutions := []
  merged := some (Text.splitLines merged)
  patchesEmpty := false
  pending := false

/-- What the listing of patches says of the one at an index. -/
def patchLines (patch : Patch) (index : Nat) : List String :=
  ["patch " ++ toString index ++ ": lines " ++ toString patch.start ++ "-" ++
      toString patch.lastLine ++ " (" ++ toString patch.offset ++ " line(s) replaced)"] ++
    patch.newLines.map ("  + " ++ ·) ++ [""]

/-- What the listing of a file's patches against a merged text says. -/
def patchListing (algorithm : Algorithm) (content merged : String) : List String :=
  let buffer := (Buffer.ofContent content algorithm).commit (.heuristic (mergedReport merged))
  match buffer.1.patches with
  | [] => ["No semantic patches."]
  | patches => patches.zipIdx.flatMap fun (patch, index) => patchLines patch index

def patches (invocation : Invocation) (file merged : String) : Dialogue Unit := do
  let settings ← Settings.readOrDefault invocation.settingsPath
  let content ← .readText file
  let reference ← .readText merged
  .printAll (patchListing settings.diff.algorithm content reference)

end CommandLine

end MergeConflict
