import MergeConflict.Script
import MergeConflict.Text.Lines

/-!
Compaction slides every edit of a script as far up as its neighbours allow, then as far down, so
that edits which touch are merged.

A removal moves past additions only. An addition also moves past kept lines, when the lines that
change sides are equal: `k s · a s` reads the same as `k · s a · s`.
-/

namespace MergeConflict.Script

/-- A script with one run in view; `before` is reversed. -/
structure Cursor where
  before : Script
  focus : Run
  after : Script

/-- Lines and runs counted together. -/
def weight : Script → Nat
  | [] => 0
  | run :: rest => run.lines.length + 1 + weight rest

/-- Kept lines behind the last kept lines of a reversed script. -/
def keepAtEnd (lines : List String) : Script → Script
  | ⟨.equal, more⟩ :: rest => ⟨.equal, more ++ lines⟩ :: rest
  | script => ⟨.equal, lines⟩ :: script

/-- Kept lines in front of the first kept lines of a script. -/
def keepInFront (lines : List String) : Script → Script
  | ⟨.equal, more⟩ :: rest => ⟨.equal, lines ++ more⟩ :: rest
  | script => ⟨.equal, lines⟩ :: script

theorem weight_single_append_le (tag : Tag) (lines : List String) (script : Script) :
    weight (single tag lines ++ script) ≤ lines.length + 1 + weight script := by
  unfold single
  split <;> simp [weight]

/-- Number of lines by which an edit can move up past kept lines. -/
def stepsUp (focus : Run) (kept : List String) : Nat :=
  if focus.tag = .added then Text.commonLead kept.reverse focus.lines.reverse else 0

/-- Number of lines by which an edit can move down past kept lines. -/
def stepsDown (focus : Run) (kept : List String) : Nat :=
  if focus.tag = .added then Text.commonLead kept focus.lines else 0

/-- Moves an edit up until the kept lines in front of it differ from its last lines. -/
def rise (before : Script) (focus : Run) (after : Script) : Cursor :=
  match before with
  | [] => ⟨[], focus, after⟩
  | ⟨.equal, lines⟩ :: rest =>
    if _empty : lines = [] then rise rest focus after
    else if _stuck : stepsUp focus lines = 0 then ⟨⟨.equal, lines⟩ :: rest, focus, after⟩
    else
      let left := lines.length - stepsUp focus lines
      let moved := lines.drop left
      rise (single .equal (lines.take left) ++ rest)
        ⟨focus.tag, moved ++ focus.lines.take (focus.lines.length - stepsUp focus lines)⟩
        (keepInFront moved after)
  | ⟨tag, lines⟩ :: rest =>
    if tag = focus.tag then rise rest ⟨focus.tag, lines ++ focus.lines⟩ after
    else rise rest focus (⟨tag, lines⟩ :: after)
termination_by weight before
decreasing_by
  · simp [weight]
  · have := weight_single_append_le .equal
      (lines.take (lines.length - stepsUp focus lines)) rest
    have := List.length_pos_iff.2 _empty
    simp only [List.length_take, weight] at *
    omega
  · simp [weight]
  · simp [weight]

/-- Moves an edit down until the kept lines behind it differ from its first lines. -/
def sink (before : Script) (focus : Run) (after : Script) : Cursor :=
  match after with
  | [] => ⟨before, focus, []⟩
  | ⟨.equal, lines⟩ :: rest =>
    if _empty : lines = [] then sink before focus rest
    else if _stuck : stepsDown focus lines = 0 then ⟨before, focus, ⟨.equal, lines⟩ :: rest⟩
    else
      let steps := stepsDown focus lines
      let moved := lines.take steps
      sink (keepAtEnd moved before) ⟨focus.tag, focus.lines.drop steps ++ moved⟩
        (single .equal (lines.drop steps) ++ rest)
  | ⟨tag, lines⟩ :: rest =>
    if tag = focus.tag then sink before ⟨focus.tag, focus.lines ++ lines⟩ rest
    else sink (⟨tag, lines⟩ :: before) focus rest
termination_by weight after
decreasing_by
  · simp [weight]
  · have := weight_single_append_le .equal (lines.drop (stepsDown focus lines)) rest
    have := List.length_pos_iff.2 _empty
    simp only [List.length_drop, weight] at *
    omega
  · simp [weight]
  · simp [weight]

/-- Settles the edits with one tag from the top down, at most `fuel` runs. -/
def settle (tag : Tag) (before after : Script) : Nat → Script
  | 0 => before.reverse ++ after
  | fuel + 1 =>
    match after with
    | [] => before.reverse
    | run :: rest =>
      if run.tag = tag then
        let up := rise before run rest
        let down := sink up.before up.focus up.after
        settle tag (down.focus :: down.before) down.after fuel
      else settle tag (run :: before) rest fuel

/-- Every run is passed once, and settling an edit never leaves more behind it than there was. -/
def settleAll (tag : Tag) (script : Script) : Script :=
  settle tag [] script (weight script + 1)

/-- Settles the removals, then the additions. -/
def compact (script : Script) : Script :=
  settleAll .added (settleAll .removed script)

end MergeConflict.Script
