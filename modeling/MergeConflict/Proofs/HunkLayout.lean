import MergeConflict.Proofs.PatchWeave
import MergeConflict.Proofs.ScriptSpelling

/-!
# The hunks of a comparison

The hunks that a script is cut into sit in the old text where their line numbers say, hold the
lines they replace there, and stand apart from each other by at least one kept line. Woven into
the old text they give the new one.

The invariant of `Hunk.collect` is `Hunk.Growing`: the hunk still growing reaches up to the line
the script has come to.

Main statements: `laid_collect_one`, and `weave_filter`, by which leaving hunks out puts their
old lines back.
-/

namespace MergeConflict

namespace Hunk

/-- The line behind those the hunk replaces. -/
def stop (hunk : Hunk) : Nat :=
  hunk.start + hunk.offset

/-- The hunk holds the lines that the text has at its place. -/
structure Sits (lines : List String) (hunk : Hunk) : Prop where
  pos : 0 < hunk.start
  stop_le : hunk.stop ≤ lines.length + 1
  oldLines_eq : hunk.oldLines = Patch.bufferLines lines hunk.start (hunk.stop - 1)

/-- The hunks sit in the text from line `cursor` on, and at least one line stands between any
two. -/
structure Laid (lines : List String) (cursor : Nat) (hunks : List Hunk) : Prop where
  sits : ∀ hunk ∈ hunks, cursor ≤ hunk.start ∧ hunk.Sits lines
  apart : hunks.Pairwise fun a b => a.stop < b.start

namespace Laid

variable {lines : List String} {cursor : Nat} {hunk : Hunk} {hunks more : List Hunk}

theorem pos (laid : Laid lines cursor hunks) : ∀ hunk ∈ hunks, 0 < hunk.start :=
  fun hunk inside => (laid.sits hunk inside).2.pos

theorem sublist (laid : Laid lines cursor hunks) (sub : more.Sublist hunks) :
    Laid lines cursor more :=
  ⟨fun hunk inside => laid.sits hunk (sub.subset inside), laid.apart.sublist sub⟩

theorem nil : Laid lines cursor [] :=
  ⟨fun _ inside => (List.not_mem_nil inside).elim, .nil⟩

theorem mono {lower : Nat} (laid : Laid lines cursor hunks) (le : lower ≤ cursor) :
    Laid lines lower hunks :=
  ⟨fun hunk inside => ⟨Nat.le_trans le (laid.sits hunk inside).1, (laid.sits hunk inside).2⟩,
    laid.apart⟩

theorem tail (laid : Laid lines cursor (hunk :: hunks)) : Laid lines hunk.stop hunks where
  sits other inside :=
    ⟨Nat.le_of_lt ((List.pairwise_cons.1 laid.apart).1 other inside),
      (laid.sits other (List.mem_cons_of_mem _ inside)).2⟩
  apart := (List.pairwise_cons.1 laid.apart).2

theorem cons (head : cursor ≤ hunk.start ∧ hunk.Sits lines)
    (tail : Laid lines (hunk.stop + 1) hunks) : Laid lines cursor (hunk :: hunks) where
  sits other inside := by
    rcases List.mem_cons.1 inside with rfl | later
    · exact head
    · have := (tail.sits other later).1
      exact ⟨by simp only [stop] at this; omega, (tail.sits other later).2⟩
  apart := .cons (fun other inside => (tail.sits other inside).1) tail.apart

/-- Hunks that stand apart, taken as patches, stand one behind the other. -/
theorem patches (laid : Laid lines cursor hunks) (text : Hunk → List String) :
    Patch.Laid lines.length cursor (hunks.map fun h => ⟨h.start, h.offset, text h⟩) where
  within patch inside := by
    obtain ⟨hunk, found, rfl⟩ := List.mem_map.1 inside
    exact ⟨(laid.sits hunk found).1, (laid.sits hunk found).2.stop_le⟩
  apart := by
    refine List.pairwise_map.2 (laid.apart.imp fun clear => ?_)
    simp only [stop, Patch.Ahead, Patch.stop] at clear ⊢
    omega

end Laid

/-! ## Collecting hunks -/

/-- The hunk still growing reaches up to line `line`. -/
def Growing (lines : List String) (line : Nat) (pending : Option Hunk) : Prop :=
  ∀ hunk ∈ pending, hunk.Sits lines ∧ hunk.stop = line

theorem Growing.none (lines : List String) (line : Nat) : Growing lines line .none :=
  fun hunk inside => (Option.not_mem_none hunk inside).elim

/-- The line that the hunk still growing begins at, or else the next one. -/
def begun (line : Nat) (pending : Option Hunk) : Nat :=
  (pending.map start).getD line

/-- The hunk still growing, put in front of hunks that begin further on. -/
theorem Growing.flush {lines : List String} {line : Nat} {pending : Option Hunk}
    {hunks : List Hunk} {text : List String} (growing : Growing lines line pending)
    (laid : Laid lines (line + 1) hunks)
    (woven : Patch.weave lines line (hunks.map Patch.ofHunk) = text) :
    Laid lines (begun line pending) (pending.toList ++ hunks) ∧
      Patch.weave lines (begun line pending) ((pending.toList ++ hunks).map Patch.ofHunk) =
        (pending.map newLines).getD [] ++ text := by
  cases pending with
  | none => exact ⟨laid.mono (Nat.le_succ line), woven⟩
  | some hunk =>
    obtain ⟨sits, reached⟩ := growing hunk rfl
    subst reached
    refine ⟨.cons ⟨Nat.le_refl _, sits⟩ laid, ?_⟩
    have behind : (Patch.ofHunk hunk).stop = hunk.stop := rfl
    simp only [begun, Option.map_some, Option.getD_some, Option.toList_some, List.cons_append,
      List.nil_append, List.map_cons, Patch.weave, behind, woven]
    rw [show (Patch.ofHunk hunk).start = hunk.start from rfl, Patch.bufferLines_empty]
    rfl

/-- The hunk still growing, or a new one at the next line. -/
theorem Growing.opened {lines : List String} {line : Nat} {pending : Option Hunk}
    (growing : Growing lines line pending) (pos : 0 < line) (inside : line ≤ lines.length + 1) :
    ∃ hunk, pending.getD ⟨line, 0, [], []⟩ = hunk ∧ hunk.Sits lines ∧ hunk.stop = line ∧
      hunk.start = begun line pending ∧ hunk.newLines = (pending.map newLines).getD [] := by
  cases pending with
  | none =>
    refine ⟨_, rfl, ⟨pos, inside, ?_⟩, rfl, rfl, rfl⟩
    simp [stop]
  | some hunk =>
    obtain ⟨sits, reached⟩ := growing hunk rfl
    exact ⟨hunk, rfl, sits, reached, rfl, rfl⟩

/-- Behind the lines at the front of the rest of a text. -/
theorem advance {lines front rest : List String} {line : Nat} (pos : 0 < line)
    (inside : line ≤ lines.length + 1) (here : lines.drop (line - 1) = front ++ rest) :
    lines.drop (line + front.length - 1) = rest ∧ line + front.length ≤ lines.length + 1 ∧
      Patch.bufferLines lines line (line + front.length - 1) = front := by
  have split : line + front.length - 1 = line - 1 + front.length := by omega
  refine ⟨?_, ?_, ?_⟩
  · rw [split, ← List.drop_drop, here, List.drop_left]
  · have := congrArg List.length here
    rw [List.length_drop, List.length_append] at this
    omega
  · rw [Patch.bufferLines, split, List.drop_take, Nat.add_sub_cancel_left, here, List.take_left]

/-- A hunk that takes the next lines of the text sits there with them. -/
theorem Sits.remove {lines text : List String} {hunk : Hunk} (sits : hunk.Sits lines)
    (within : hunk.stop + text.length ≤ lines.length + 1)
    (stretch : Patch.bufferLines lines hunk.stop (hunk.stop + text.length - 1) = text) :
    ({ hunk with
        offset := hunk.offset + text.length, oldLines := hunk.oldLines ++ text } : Hunk).Sits
      lines := by
  have low : hunk.start ≤ hunk.stop := Nat.le_add_right ..
  have pos : 1 ≤ hunk.stop := Nat.le_trans sits.pos low
  have stops : hunk.start + (hunk.offset + text.length) = hunk.stop + text.length := by
    rw [stop, Nat.add_assoc]
  refine ⟨sits.pos, ?_, ?_⟩
  · rw [stop, stops]
    exact within
  · rw [stop, stops, sits.oldLines_eq]
    have joined : Patch.bufferLines lines hunk.start (hunk.stop - 1) ++
        Patch.bufferLines lines (hunk.stop - 1 + 1) (hunk.stop + text.length - 1) = _ :=
      Patch.bufferLines_append (by omega) (by omega)
    rwa [Nat.sub_add_cancel pos, stretch] at joined

/-- The hunks of a script that spells the rest of a text from line `line` on sit in the text, and
woven into it they write what the script adds to the hunk still growing. -/
theorem laid_collect {lines : List String} {script : Script} (kept : script.KeptNonempty) :
    ∀ {line : Nat} {pending : Option Hunk}, 0 < line → line ≤ lines.length + 1 →
      lines.drop (line - 1) = script.oldLines → Growing lines line pending →
      Laid lines (begun line pending) (collect line pending script) ∧
        Patch.weave lines (begun line pending) ((collect line pending script).map Patch.ofHunk) =
          (pending.map newLines).getD [] ++ script.newLines := by
  induction script with
  | nil =>
    intro line pending _ _ rest growing
    simpa [collect] using growing.flush .nil rest
  | cons run script ih =>
    intro line pending pos inside rest growing
    have keptRest : Script.KeptNonempty script := fun r found => kept r (List.mem_cons_of_mem _ found)
    obtain ⟨tag, text⟩ := run
    obtain ⟨hunk, opened, sits, reached, starts, writes⟩ := growing.opened pos inside
    cases tag with
    | equal =>
      have here : lines.drop (line - 1) = text ++ Script.oldLines script := by simpa using rest
      obtain ⟨beyond, within, stretch⟩ := advance pos inside here
      have : 0 < text.length := List.length_pos_iff.2 (kept ⟨.equal, text⟩ List.mem_cons_self rfl)
      obtain ⟨laid, woven⟩ := ih keptRest (by omega) within beyond
        (.none lines (line + text.length))
      have behind : Laid lines (line + 1) (collect (line + text.length) none script) := by
        refine laid.mono ?_
        simp only [begun, Option.map_none, Option.getD_none]
        omega
      have front : ∀ patch ∈ (collect (line + text.length) none script).map Patch.ofHunk,
          line + text.length ≤ patch.start := fun patch found => by
        obtain ⟨later, member, rfl⟩ := List.mem_map.1 found
        exact (laid.sits later member).1
      refine growing.flush behind ?_
      rw [Patch.weave_cut (line + text.length) (by omega) (by omega) front, stretch]
      exact congrArg (text ++ ·) woven
    | removed =>
      have here : lines.drop (line - 1) = text ++ Script.oldLines script := by simpa using rest
      obtain ⟨beyond, within, stretch⟩ := advance pos inside here
      rw [collect, opened]
      have grown : Growing lines (line + text.length)
          (some { hunk with
            offset := hunk.offset + text.length, oldLines := hunk.oldLines ++ text }) := by
        rintro _ ⟨⟩
        subst reached
        exact ⟨sits.remove within stretch, (Nat.add_assoc ..).symm⟩
      obtain ⟨laid, woven⟩ := ih keptRest (by omega) within beyond grown
      rw [← starts, ← writes]
      refine ⟨laid, woven.trans ?_⟩
      simp
    | added =>
      have here : lines.drop (line - 1) = Script.oldLines script := by simpa using rest
      rw [collect, opened]
      have grown : Growing lines line (some { hunk with newLines := hunk.newLines ++ text }) := by
        rintro _ ⟨⟩
        exact ⟨⟨sits.pos, sits.stop_le, sits.oldLines_eq⟩, reached⟩
      obtain ⟨laid, woven⟩ := ih keptRest pos inside here grown
      rw [← starts, ← writes]
      refine ⟨laid, woven.trans ?_⟩
      simp

/-- The hunks of a script sit in its old text, and woven into it they give its new text. -/
theorem laid_collect_one {script : Script} (kept : script.KeptNonempty) :
    Laid script.oldLines 1 (collect 1 none script) ∧
      Patch.weave script.oldLines 1 ((collect 1 none script).map Patch.ofHunk) =
        script.newLines :=
  laid_collect kept Nat.one_pos (Nat.le_add_left ..) rfl (.none script.oldLines 1)

/-- The hunks of a script that count sit in its old text. -/
theorem laid_ofScript {script : Script} (kept : script.KeptNonempty) (least : Nat) :
    Laid script.oldLines 1 (ofScript script least) :=
  (laid_collect_one kept).1.sublist List.filter_sublist

/-- The hunks of a comparison that count sit in its old text. -/
theorem laid_between (old new : List String) (least : Nat) (algorithm : Algorithm) :
    Laid old 1 (between old new least algorithm) := by
  have laid := laid_ofScript (Script.diff_keptNonempty algorithm old new) least
  rwa [(Script.diff_spells algorithm old new).1] at laid

/-! ## Leaving hunks out -/

/-- Leaving hunks out puts the lines back that they replace. -/
theorem weave_filter {lines : List String} {cursor : Nat} {hunks : List Hunk} (keep : Hunk → Bool)
    (laid : Laid lines cursor hunks) (pos : 0 < cursor) :
    Patch.weave lines cursor ((hunks.filter keep).map Patch.ofHunk) =
      Patch.weave lines cursor (hunks.map fun hunk =>
        ⟨hunk.start, hunk.offset, if keep hunk then hunk.newLines else hunk.oldLines⟩) := by
  induction hunks generalizing cursor with
  | nil => rfl
  | cons hunk rest ih =>
    have whole := laid.patches fun hunk => if keep hunk then hunk.newLines else hunk.oldLines
    obtain ⟨low, sits⟩ := laid.sits hunk List.mem_cons_self
    cases kept : keep hunk with
    | true =>
      have later := ih laid.tail (Nat.lt_of_lt_of_le sits.pos (Nat.le_add_right ..))
      rw [List.filter_cons_of_pos kept, List.map_cons, List.map_cons, Patch.weave, Patch.weave,
        if_pos kept]
      exact congrArg (fun tail => _ ++ (_ ++ tail)) later
    | false =>
      have back : (if keep hunk then hunk.newLines else hunk.oldLines) =
          Patch.bufferLines lines hunk.start (hunk.stop - 1) := by
        rw [if_neg (by simp [kept])]
        exact sits.oldLines_eq
      rw [List.map_cons] at whole ⊢
      rw [Patch.weave_cons_same whole pos back, List.filter_cons_of_neg (by simp [kept])]
      exact ih (laid.sublist (List.sublist_cons_self ..)) pos

/-- The hunks of a script that count change its old text as all of them do, save that the others
leave their lines standing. -/
theorem weave_ofScript {script : Script} (kept : script.KeptNonempty) (least : Nat) :
    Patch.weave script.oldLines 1 ((ofScript script least).map Patch.ofHunk) =
      Patch.weave script.oldLines 1 ((collect 1 none script).map fun hunk =>
        ⟨hunk.start, hunk.offset, if counts least hunk then hunk.newLines else hunk.oldLines⟩) :=
  weave_filter (counts least) (laid_collect_one kept).1 Nat.one_pos

end Hunk

/-- White space aside, lines one after the other read as each part does. -/
@[simp] theorem Text.inkOf_append (first second : List String) :
    inkOf (first ++ second) = inkOf first ++ inkOf second := by
  simp [inkOf]

/-- Exchanging the lines of hunks for lines of the same ink keeps the ink of the whole. -/
theorem Hunk.inkOf_weave_congr {lines : List String} {cursor : Nat} {hunks : List Hunk}
    {text other : Hunk → List String}
    (same : ∀ hunk ∈ hunks, Text.inkOf (text hunk) = Text.inkOf (other hunk)) :
    Text.inkOf (Patch.weave lines cursor (hunks.map fun h => ⟨h.start, h.offset, text h⟩)) =
      Text.inkOf (Patch.weave lines cursor (hunks.map fun h => ⟨h.start, h.offset, other h⟩)) := by
  induction hunks generalizing cursor with
  | nil => rfl
  | cons hunk rest ih =>
    simp only [List.map_cons, Patch.weave, Text.inkOf_append, same hunk List.mem_cons_self]
    rw [ih fun h inside => same h (List.mem_cons_of_mem _ inside)]
    rfl

end MergeConflict
