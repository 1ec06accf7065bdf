import MergeConflict.Proofs.ReconcileWeave

/-!
# What reconciled hunks mean

A walk over a script takes its kept lines as they are, and of every stretch of edits between them
the added lines if the hunk of the stretch is chosen and the removed ones if it is not
(`Script.walk`). Splicing the chosen hunks into the old text one by one leads to the same text
(`weave_collect`), and so do the patches that they are reconciled to, whatever blocks the old text
has: widening a hunk to a block and folding hunks into one patch changes nothing of what they mean.

Main statement: `applyAll_reconcile`.
-/

namespace MergeConflict

/-- The lines that stand in the place of a stretch of edits: the added ones if its hunk is chosen,
the removed ones if it is not. -/
def Hunk.taken (chosen : List Hunk) (hunk : Hunk) : List String :=
  if hunk ∈ chosen then hunk.newLines else hunk.oldLines

/-- The text that a walk over a script takes, `stretch` being the hunk of the edits since the last
kept line. -/
def Script.walk (chosen : List Hunk) (stretch : Hunk) : Script → List String
  | [] => stretch.taken chosen
  | ⟨.equal, lines⟩ :: rest =>
    stretch.taken chosen ++
      (lines ++ walk chosen ⟨stretch.start + stretch.offset + lines.length, 0, [], []⟩ rest)
  | ⟨.removed, lines⟩ :: rest =>
    let grown : Hunk :=
      { stretch with
        offset := stretch.offset + lines.length, oldLines := stretch.oldLines ++ lines }
    walk chosen grown rest
  | ⟨.added, lines⟩ :: rest =>
    walk chosen { stretch with newLines := stretch.newLines ++ lines } rest

namespace Hunk

variable {lines : List String} {line : Nat} {pending : Option Hunk} {stretch : Hunk}

/-- The patch that puts the lines taken in the place of a hunk. -/
def settled (chosen : List Hunk) (hunk : Hunk) : Patch :=
  ⟨hunk.start, hunk.offset, hunk.taken chosen⟩

/-- The walk over the hunk still growing, and on. -/
theorem Growing.weave_settled (growing : Growing lines line pending)
    (opened : pending.getD ⟨line, 0, [], []⟩ = stretch) (chosen : List Hunk) (rest : List Patch) :
    Patch.weave lines stretch.start (pending.toList.map (settled chosen) ++ rest) =
      stretch.taken chosen ++ Patch.weave lines line rest := by
  cases pending with
  | none =>
    subst opened
    simp [taken]
  | some hunk =>
    subst opened
    obtain ⟨_, reached⟩ := growing hunk rfl
    have stops : (settled chosen hunk).stop = line := reached
    simp only [Option.getD_some, Option.toList_some, List.map_cons, List.map_nil,
      List.cons_append, List.nil_append, Patch.weave, stops]
    rw [show (settled chosen hunk).start = hunk.start from rfl, Patch.bufferLines_empty]
    rfl

/-- The hunks of a script, each settled by what is chosen and all woven into the old text, write
what the walk over the script takes. -/
theorem weave_collect (chosen : List Hunk) {script : Script} (kept : script.KeptNonempty) :
    ∀ {line : Nat} {pending : Option Hunk} {stretch : Hunk}, 0 < line → line ≤ lines.length + 1 →
      lines.drop (line - 1) = script.oldLines → Growing lines line pending →
      pending.getD ⟨line, 0, [], []⟩ = stretch →
      Patch.weave lines stretch.start ((collect line pending script).map (settled chosen)) =
        script.walk chosen stretch := by
  induction script with
  | nil =>
    intro line pending stretch _ _ rest growing opened
    have woven := growing.weave_settled opened chosen []
    rw [List.append_nil, Patch.weave, rest] at woven
    rw [collect, woven, Script.walk]
    exact List.append_nil _
  | cons run script ih =>
    intro line pending stretch pos inside rest growing opened
    have keptRest : Script.KeptNonempty script := fun r found => kept r (List.mem_cons_of_mem _ found)
    obtain ⟨_, same, sits, reached, -, -⟩ := growing.opened pos inside
    rw [opened] at same
    subst same
    obtain ⟨tag, text⟩ := run
    cases tag with
    | equal =>
      have here : lines.drop (line - 1) = text ++ Script.oldLines script := by simpa using rest
      obtain ⟨beyond, within, taken⟩ := advance pos inside here
      have fresh := Growing.none lines (line + text.length)
      have later : Patch.weave lines (line + text.length)
          ((collect (line + text.length) none script).map (settled chosen)) =
            Script.walk chosen ⟨line + text.length, 0, [], []⟩ script :=
        ih keptRest (by omega) within beyond fresh rfl
      have front : ∀ patch ∈ (collect (line + text.length) none script).map (settled chosen),
          line + text.length ≤ patch.start := fun patch found => by
        obtain ⟨hunk, member, rfl⟩ := List.mem_map.1 found
        exact ((laid_collect keptRest (by omega) within beyond fresh).1.sits hunk member).1
      -- the stretch ends here, and the walk goes on behind the kept lines with a new one
      have ends : stretch.start + stretch.offset = line := reached
      rw [collect, List.map_append, growing.weave_settled opened,
        Patch.weave_cut (line + text.length) (by omega) (by omega) front, taken, later,
        Script.walk, ends]
    | removed =>
      have here : lines.drop (line - 1) = text ++ Script.oldLines script := by simpa using rest
      obtain ⟨beyond, within, taken⟩ := advance pos inside here
      rw [collect, opened, Script.walk]
      have grown : Growing lines (line + text.length)
          (some { stretch with
            offset := stretch.offset + text.length, oldLines := stretch.oldLines ++ text }) := by
        rintro _ ⟨⟩
        subst reached
        exact ⟨sits.remove within taken, (Nat.add_assoc ..).symm⟩
      exact ih keptRest (by omega) within beyond grown rfl
    | added =>
      have here : lines.drop (line - 1) = Script.oldLines script := by simpa using rest
      rw [collect, opened, Script.walk]
      have grown : Growing lines line
          (some { stretch with newLines := stretch.newLines ++ text }) := by
        rintro _ ⟨⟩
        exact ⟨⟨sits.pos, sits.stop_le, sits.oldLines_eq⟩, reached⟩
      exact ih keptRest pos inside here grown rfl

/-- The hunks of a script that count, woven into its old text, write what the walk over the script
takes. -/
theorem weave_ofScript_eq_walk {script : Script} (kept : script.KeptNonempty) (least : Nat) :
    Patch.weave script.oldLines 1 ((ofScript script least).map Patch.ofHunk) =
      script.walk (ofScript script least) ⟨1, 0, [], []⟩ := by
  have chosen : ∀ hunk ∈ collect 1 none script,
      settled (ofScript script least) hunk =
        ⟨hunk.start, hunk.offset, if counts least hunk then hunk.newLines else hunk.oldLines⟩ := by
    intro hunk inside
    have listed : hunk ∈ ofScript script least ↔ counts least hunk = true := by
      rw [ofScript, List.mem_filter]
      exact and_iff_right inside
    simp only [settled, taken, listed]
  have walked : Patch.weave script.oldLines 1
      ((collect 1 none script).map (settled (ofScript script least))) =
        script.walk (ofScript script least) ⟨1, 0, [], []⟩ :=
    weave_collect (ofScript script least) kept Nat.one_pos (Nat.le_add_left ..) rfl
      (.none script.oldLines 1) rfl
  rw [← walked, List.map_congr_left chosen]
  exact weave_ofScript kept least

end Hunk

namespace Patch

/-- The patches that the hunks of a script are reconciled to, applied all together, lead to the text
that the walk over the script takes: the kept lines, and of every stretch of edits the added lines
if its hunk counts, the removed ones if it does not. The hunks spliced on their own lead there
too. -/
theorem applyAll_reconcile (script : Script) (kept : script.KeptNonempty) (least : Nat) :
    let current := script.oldLines
    let hunks := Hunk.ofScript script least
    applyAll current (reconcile current hunks (findBlocks current)) =
        script.walk hunks ⟨1, 0, [], []⟩ ∧
      applyAll current (hunks.map ofHunk) = script.walk hunks ⟨1, 0, [], []⟩ := by
  intro current hunks
  have laid : Hunk.Laid current 1 hunks := Hunk.laid_ofScript kept least
  have walked : weave current 1 (hunks.map ofHunk) = script.walk hunks ⟨1, 0, [], []⟩ :=
    Hunk.weave_ofScript_eq_walk kept least
  constructor
  · rw [applyAll_eq_weave_hunks laid findBlocks_marks (findBlocks_pairwise current), walked]
  · exact (applyAll_eq_weave (laid.patches Hunk.newLines)).trans walked

/-- Two hunks meet one block and only the second counts: the patch covers the block, and what the
first would have removed stays. -/
theorem applyAll_reconcile_lateHunk :
    let script : Script := [⟨.equal, ["head"]⟩, ⟨.removed, ["<<<<<<< a", "x", "======="]⟩,
      ⟨.equal, ["y"]⟩, ⟨.removed, [">>>>>>> b"]⟩, ⟨.equal, ["tail"]⟩]
    script.KeptNonempty ∧
      applyAll script.oldLines (reconcile script.oldLines (Hunk.ofScript script 5)
        (findBlocks script.oldLines)) = ["head", "<<<<<<< a", "x", "=======", "y", "tail"] :=
  have kept : Script.KeptNonempty [⟨.equal, ["head"]⟩, ⟨.removed, ["<<<<<<< a", "x", "======="]⟩,
      ⟨.equal, ["y"]⟩, ⟨.removed, [">>>>>>> b"]⟩, ⟨.equal, ["tail"]⟩] := by
    simp [Script.KeptNonempty]
  ⟨kept, (applyAll_reconcile _ kept 5).1.trans (by decide +kernel)⟩

end Patch

end MergeConflict
