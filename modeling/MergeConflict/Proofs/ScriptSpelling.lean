import MergeConflict.Proofs.TextLines
import MergeConflict.Script.Diff

/-!
# Scripts spell both of their texts

A script spells its old text by its kept and removed lines and its new text by its kept and added
ones. Every stage of a comparison keeps both spellings: the divide-and-conquer search whatever cut
it is given, the comparison between anchors whatever anchors it is given, the sliding of edits in
`compact` because an edit only passes equal lines, and the gathering of `normalize`.

Main statements: `diff_spells`, and `diff_keptNonempty`, by which two hunks of a comparison never
touch.
-/

namespace MergeConflict

namespace Script

/-- The script leads from one text to another. -/
def Spells (script : Script) (old new : List String) : Prop :=
  script.oldLines = old ∧ script.newLines = new

/-! ## Spellings of the constructors -/

@[simp] theorem oldLines_nil : oldLines [] = [] := rfl

@[simp] theorem newLines_nil : newLines [] = [] := rfl

@[simp] theorem oldLines_cons (run : Run) (rest : Script) :
    oldLines (run :: rest) = (if run.tag = .added then [] else run.lines) ++ oldLines rest := by
  simp [oldLines]

@[simp] theorem newLines_cons (run : Run) (rest : Script) :
    newLines (run :: rest) = (if run.tag = .removed then [] else run.lines) ++ newLines rest := by
  simp [newLines]

@[simp] theorem oldLines_append (first second : Script) :
    oldLines (first ++ second) = oldLines first ++ oldLines second := by
  simp [oldLines]

@[simp] theorem newLines_append (first second : Script) :
    newLines (first ++ second) = newLines first ++ newLines second := by
  simp [newLines]

@[simp] theorem oldLines_single (tag : Tag) (lines : List String) :
    oldLines (single tag lines) = if tag = .added then [] else lines := by
  unfold single
  split <;> simp_all

@[simp] theorem newLines_single (tag : Tag) (lines : List String) :
    newLines (single tag lines) = if tag = .removed then [] else lines := by
  unfold single
  split <;> simp_all

theorem Spells.append {first second : Script} {old old' new new' : List String}
    (left : first.Spells old new) (right : second.Spells old' new') :
    Spells (first ++ second) (old ++ old') (new ++ new') :=
  ⟨by rw [oldLines_append, left.1, right.1], by rw [newLines_append, left.2, right.2]⟩

/-! ## Comparison -/

theorem trim_old (old new : List String) :
    (trim old new).lead ++ ((trim old new).old ++ (trim old new).tail) = old := by
  simp only [trim, List.take_append_drop]

theorem trim_new (old new : List String) :
    (trim old new).lead ++ ((trim old new).new ++ (trim old new).tail) = new := by
  simp only [trim]
  rw [Text.take_commonLead, Text.drop_commonLead_reverse]
  simp only [List.take_append_drop]

theorem replaceAll_spells (old new : List String) : (replaceAll old new).Spells old new := by
  constructor <;> simp [replaceAll]

/-- A comparison spells both texts, whichever way its middle cuts them. -/
theorem myers_spells (old new : List String) : (myers old new).Spells old new := by
  induction size : old.length + new.length using Nat.strongRecOn generalizing old new with
  | ind size ih =>
    have inner (edits : Script) (spells : edits.Spells (trim old new).old (trim old new).new) :
        Spells (single .equal (trim old new).lead ++ edits ++ single .equal (trim old new).tail)
          old new := by
      obtain ⟨oldEdits, newEdits⟩ := spells
      constructor
      · simpa [oldEdits] using trim_old old new
      · simpa [newEdits] using trim_new old new
    have less := trim_length_le old new
    rw [myers]
    apply inner
    split
    · exact replaceAll_spells _ _
    · split
      · next x y _ =>
        split
        · next proper =>
          obtain ⟨low, high⟩ := proper
          have front := ih _ (by simp only [List.length_take]; omega)
            ((trim old new).old.take x) ((trim old new).new.take y) rfl
          have back := ih _ (by simp only [List.length_drop]; omega)
            ((trim old new).old.drop x) ((trim old new).new.drop y) rfl
          simpa only [List.take_append_drop] using front.append back
        · exact replaceAll_spells _ _
      · exact replaceAll_spells _ _

theorem betweenAnchors_spells (i j : Nat) (old new : List String) (cuts : List (Nat × Nat)) :
    (betweenAnchors i j old new cuts).Spells old new := by
  induction cuts generalizing i j old new with
  | nil => exact myers_spells old new
  | cons cut rest ih =>
    have whole := (myers_spells (old.take (cut.1 - i)) (new.take (cut.2 - j))).append
      (ih cut.1 cut.2 (old.drop (cut.1 - i)) (new.drop (cut.2 - j)))
    simpa only [betweenAnchors, List.take_append_drop] using whole

theorem patience_spells (old new : List String) : (patience old new).Spells old new :=
  betweenAnchors_spells 0 0 old new _

/-! ## Sliding -/

/-- The script that a cursor looks at. -/
def Cursor.script (cursor : Cursor) : Script :=
  cursor.before.reverse ++ cursor.focus :: cursor.after

@[simp] theorem oldLines_keepInFront (lines : List String) (script : Script) :
    oldLines (keepInFront lines script) = lines ++ oldLines script := by
  unfold keepInFront
  split <;> simp

@[simp] theorem newLines_keepInFront (lines : List String) (script : Script) :
    newLines (keepInFront lines script) = lines ++ newLines script := by
  unfold keepInFront
  split <;> simp

@[simp] theorem oldLines_keepAtEnd_reverse (lines : List String) (before : Script) :
    oldLines (keepAtEnd lines before).reverse = oldLines before.reverse ++ lines := by
  unfold keepAtEnd
  split <;> simp

@[simp] theorem newLines_keepAtEnd_reverse (lines : List String) (before : Script) :
    newLines (keepAtEnd lines before).reverse = newLines before.reverse ++ lines := by
  unfold keepAtEnd
  split <;> simp

@[simp] theorem single_reverse (tag : Tag) (lines : List String) :
    (single tag lines).reverse = single tag lines := by
  unfold single
  split <;> rfl

/-- Only an addition moves past kept lines, and its last lines are those it passes. -/
theorem moved_of_stepsUp {focus : Run} {kept : List String} (free : stepsUp focus kept ≠ 0) :
    focus.tag = .added ∧
      focus.lines.drop (focus.lines.length - stepsUp focus kept) =
        kept.drop (kept.length - stepsUp focus kept) := by
  unfold stepsUp at free ⊢
  split at free
  · next added => exact ⟨added, by rw [if_pos added, Text.drop_commonLead_reverse]⟩
  · exact (free rfl).elim

/-- Only an addition moves past kept lines, and its first lines are those it passes. -/
theorem moved_of_stepsDown {focus : Run} {kept : List String} (free : stepsDown focus kept ≠ 0) :
    focus.tag = .added ∧
      focus.lines.take (stepsDown focus kept) = kept.take (stepsDown focus kept) := by
  unfold stepsDown at free ⊢
  split at free
  · next added => exact ⟨added, by rw [if_pos added, Text.take_commonLead]⟩
  · exact (free rfl).elim

/-- Neighbours of one tag spell what one run of their lines spells. -/
theorem spells_join {tag : Tag} {first second : List String} {before after : Script}
    {old new : List String} :
    Spells (before ++ ⟨tag, first⟩ :: ⟨tag, second⟩ :: after) old new ↔
      Spells (before ++ ⟨tag, first ++ second⟩ :: after) old new := by
  cases tag <;> simp [Spells]

/-- A removal and an addition next to each other spell the same in either order. -/
theorem spells_swap {first second : Run} {before after : Script} {old new : List String}
    (firstEdit : first.tag ≠ .equal) (secondEdit : second.tag ≠ .equal)
    (other : first.tag ≠ second.tag) :
    Spells (before ++ first :: second :: after) old new ↔
      Spells (before ++ second :: first :: after) old new := by
  cases firstTag : first.tag <;> cases secondTag : second.tag <;> simp_all [Spells]

/-- An edit that rises leaves both spellings as they are. -/
theorem rise_spells {before : Script} {focus : Run} {after : Script} {old new : List String}
    (edit : focus.tag ≠ .equal)
    (spells : Spells (before.reverse ++ focus :: after) old new) :
    (rise before focus after).script.Spells old new ∧
      (rise before focus after).focus.tag = focus.tag := by
  fun_induction rise before focus after with
  | case1 => exact ⟨spells, rfl⟩
  | case2 focus after rest ih => exact ih edit (by simpa [Spells] using spells)
  | case3 => exact ⟨spells, rfl⟩
  | case4 focus after lines rest _ free left moved ih =>
    obtain ⟨added, passed⟩ := moved_of_stepsUp free
    have kept (more : List String) : lines.take left ++ (moved ++ more) = lines ++ more := by
      rw [← List.append_assoc, List.take_append_drop]
    have slid (more : List String) :
        focus.lines.take (focus.lines.length - stepsUp focus lines) ++ (moved ++ more) =
          focus.lines ++ more := by
      rw [← List.append_assoc, show moved = _ from passed.symm, List.take_append_drop]
    refine ih edit ⟨?_, ?_⟩
    · simpa [added, kept] using spells.1
    · simpa [added, kept, slid] using spells.2
  | case5 focus after lines rest _ ih =>
    refine ih edit (spells_join.1 ?_)
    simpa using spells
  | case6 focus after tag lines rest kind other ih =>
    refine ih edit ((spells_swap edit kind (Ne.symm other)).2 ?_)
    simpa using spells

/-- An edit that sinks leaves both spellings as they are. -/
theorem sink_spells {before : Script} {focus : Run} {after : Script} {old new : List String}
    (edit : focus.tag ≠ .equal)
    (spells : Spells (before.reverse ++ focus :: after) old new) :
    (sink before focus after).script.Spells old new := by
  fun_induction sink before focus after with
  | case1 => exact spells
  | case2 before focus rest ih => exact ih edit (by simpa [Spells] using spells)
  | case3 => exact spells
  | case4 before focus lines rest _ free steps moved ih =>
    obtain ⟨added, passed⟩ := moved_of_stepsDown free
    have kept (more : List String) : moved ++ (lines.drop steps ++ more) = lines ++ more := by
      rw [← List.append_assoc, List.take_append_drop]
    have slid (more : List String) :
        moved ++ (focus.lines.drop steps ++ more) = focus.lines ++ more := by
      rw [← List.append_assoc, show moved = _ from passed.symm, List.take_append_drop]
    refine ih edit ⟨?_, ?_⟩
    · simpa [added, kept] using spells.1
    · simpa [added, kept, slid] using spells.2
  | case5 before focus lines rest _ ih => exact ih edit (spells_join.1 spells)
  | case6 before focus tag lines rest kind other ih =>
    refine ih edit ?_
    simpa using (spells_swap edit kind (Ne.symm other)).1 spells

theorem settle_spells {tag : Tag} (edit : tag ≠ .equal) {old new : List String} (fuel : Nat) :
    ∀ before after : Script, Spells (before.reverse ++ after) old new →
      (settle tag before after fuel).Spells old new := by
  induction fuel with
  | zero =>
    intro before after spells
    exact spells
  | succ fuel ih =>
    intro before after spells
    cases after with
    | nil => simpa [settle] using spells
    | cons run rest =>
      rw [settle]
      split
      · next same =>
        have risen := rise_spells (same ▸ edit) spells
        have sunk := sink_spells (by rw [risen.2, same]; exact edit) risen.1
        apply ih
        simpa [Cursor.script] using sunk
      · apply ih
        simpa using spells

theorem compact_spells {script : Script} {old new : List String}
    (spells : script.Spells old new) : (compact script).Spells old new :=
  settle_spells (by decide) _ [] _ (settle_spells (by decide) _ [] _ spells)

/-! ## Gathering -/

@[simp] theorem oldLines_keep (lines : List String) (script : Script) :
    oldLines (keep lines script) = lines ++ oldLines script := by
  unfold keep
  split <;> simp

@[simp] theorem newLines_keep (lines : List String) (script : Script) :
    newLines (keep lines script) = lines ++ newLines script := by
  unfold keep
  split <;> simp

theorem oldLines_gather (removed added : List String) (script : Script) :
    oldLines (gather removed added script) = removed ++ oldLines script := by
  fun_induction gather removed added script with
  | case1 => simp
  | case2 removed added lines rest ih => simp [ih]
  | case3 removed added lines rest ih => simp [ih]
  | case4 removed added lines rest empty ih => simp_all
  | case5 removed added lines rest _ ih => simp [ih]

theorem newLines_gather (removed added : List String) (script : Script) :
    newLines (gather removed added script) = added ++ newLines script := by
  fun_induction gather removed added script with
  | case1 => simp
  | case2 removed added lines rest ih => simp [ih]
  | case3 removed added lines rest ih => simp [ih]
  | case4 removed added lines rest empty ih => simp_all
  | case5 removed added lines rest _ ih => simp [ih]

theorem normalize_spells {script : Script} {old new : List String}
    (spells : script.Spells old new) : script.normalize.Spells old new :=
  ⟨by rw [normalize, oldLines_gather, spells.1, List.nil_append],
    by rw [normalize, newLines_gather, spells.2, List.nil_append]⟩

/-- Every kept run of the script has a line. -/
def KeptNonempty (script : Script) : Prop :=
  ∀ run ∈ script, run.tag = .equal → run.lines ≠ []

theorem keptNonempty_single {tag : Tag} (lines : List String) :
    KeptNonempty (single tag lines) := by
  intro run inside _
  unfold single at inside
  split at inside
  · cases inside
  · next nonempty =>
    rw [List.mem_singleton.1 inside]
    simpa using nonempty

theorem KeptNonempty.append {first second : Script} (left : first.KeptNonempty)
    (right : second.KeptNonempty) : KeptNonempty (first ++ second) := by
  intro run inside
  rcases List.mem_append.1 inside with early | late
  · exact left run early
  · exact right run late

theorem KeptNonempty.keep {script : Script} (rest : script.KeptNonempty) (lines : List String) :
    KeptNonempty (keep lines script) := by
  unfold Script.keep
  split
  · next more tail =>
    intro run inside kept
    rcases List.mem_cons.1 inside with rfl | later
    · have := rest ⟨.equal, more⟩ List.mem_cons_self rfl
      simp [this]
    · exact rest run (List.mem_cons_of_mem _ later) kept
  · exact (keptNonempty_single lines).append rest

theorem gather_keptNonempty (removed added : List String) (script : Script) :
    (gather removed added script).KeptNonempty := by
  fun_induction gather removed added script with
  | case1 => exact (keptNonempty_single _).append (keptNonempty_single _)
  | case2 _ _ _ _ ih => exact ih
  | case3 _ _ _ _ ih => exact ih
  | case4 _ _ _ _ _ ih => exact ih
  | case5 _ _ lines _ _ ih =>
    exact (keptNonempty_single _).append ((keptNonempty_single _).append (ih.keep lines))

/-- A comparison spells both of its texts. -/
theorem diff_spells (algorithm : Algorithm) (old new : List String) :
    (diff algorithm old new).Spells old new := by
  cases algorithm with
  | lines => exact normalize_spells (compact_spells (myers_spells old new))
  | tokens => exact normalize_spells (compact_spells (patience_spells old new))

/-- Kept lines stand between any two edits of a comparison. -/
theorem diff_keptNonempty (algorithm : Algorithm) (old new : List String) :
    (diff algorithm old new).KeptNonempty :=
  gather_keptNonempty [] [] _

end Script

end MergeConflict
