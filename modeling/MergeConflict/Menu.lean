import MergeConflict.Session

/-!
The menu of choices for one block, as it is offered at a terminal.
-/

namespace MergeConflict

structure MenuEntry where
  label : String
  choice : Choice
deriving DecidableEq, Repr

namespace Menu

/-- How many characters of a text are shown. -/
def previewLength : Nat := 50

/-- The first line of a text, shortened, with a mark where there is more. -/
def preview (text : String) : String :=
  let lines := Text.displayLines text
  let first := (lines.head?.getD "").toList
  let shown := String.ofList (first.take previewLength)
  let more := 1 < lines.length ∨ previewLength < first.length
  let out := if more then shown ++ " ..." else shown
  if out = "" then "(empty)" else out

/-- A confidence in brackets, behind a blank. -/
def confidenceText : Option Binary64 → String
  | some x => " (" ++ x.twoPlaces ++ ")"
  | none => ""

def sideEntries (block : Block) : List MenuEntry :=
  [⟨"Keep ours", .side .ours⟩] ++
    (if block.isThreeWay then [⟨"Keep base", .side .base⟩] else []) ++
    [⟨"Keep theirs", .side .theirs⟩]

/-- The patches that touch the block where it sits now. -/
def patchEntries (located : Option Interval) (patches : List Patch) : List MenuEntry :=
  match located with
  | none => []
  | some at' =>
    (patches.zipIdx.filter fun (patch, _) => patch.touches at').map fun (patch, index) =>
      ⟨"Semantic patch " ++ toString index ++ ": " ++ preview patch.content, .patch index⟩

/-- Entries for candidates; only the first heuristic one is listed, and history candidates are
ranked in order from `rank` on. -/
def candidateEntries (heuristicListed : Bool) (rank : Nat) : List Candidate → List MenuEntry
  | [] => []
  | c :: rest =>
    match c.source with
    | .heuristic =>
      if heuristicListed then candidateEntries true rank rest
      else
        ⟨"Heuristic " ++ c.label.getD "" ++ confidenceText c.confidence ++ ": " ++
          preview c.content, .heuristic⟩ :: candidateEntries true rank rest
    | .classifier =>
      ⟨"ML [" ++ c.label.getD "?" ++ "]" ++ confidenceText c.confidence ++ ": " ++
        preview c.content, .classifier⟩ :: candidateEntries heuristicListed rank rest
    | .editScript =>
      if c.resolvable = some true then
        ⟨"Edit script: " ++ preview c.content, .editScript⟩ ::
          candidateEntries heuristicListed rank rest
      else candidateEntries heuristicListed rank rest
    | .history =>
      ⟨"History #" ++ toString (rank + 1) ++ confidenceText c.confidence ++ ": " ++
        preview c.content, .history rank⟩ :: candidateEntries heuristicListed (rank + 1) rest

/-- Everything that can replace the block of a view now. -/
def entries (view : BlockView) (patches : List Patch) : List MenuEntry :=
  sideEntries view.block ++ patchEntries view.located patches ++
    candidateEntries false 0 view.candidates

end Menu

end MergeConflict
