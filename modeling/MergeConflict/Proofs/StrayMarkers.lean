import MergeConflict.Proofs.PartialRefresh

/-!
# Stray start markers

A patch is stray if a line that it writes carries a start marker. The patches of a whole buffer are
never stray when the reference has no start marker in it, white space aside: all of them applied
give the reference's ink, and the marker would show in it (`not_isStray_of_mem_fresh`).

The patches found from an anchor on are another matter. If a block is met by a hunk in front of the
anchor and by one that reaches it, the second hunk alone is widened to the whole block, and the
lines above it are copied from the buffer, the start marker among them (`exists_isStray_of_cut`).
So a refresh keeps the list free of stray patches exactly if it cuts no block.

Main statement: `run_strayless_iff`.
-/

namespace MergeConflict

/-- The text has no start marker in it, all white space being left out. -/
def Text.Plain (lines : List String) : Prop :=
  ¬ Marker.start.text.toList <:+: inkOf lines

/-- A line with a start marker shows in the ink of a text. -/
theorem Text.start_infix_inkOf {lines : List String} {line : String} (inside : line ∈ lines)
    (opens : Marker.start.opens line = true) :
    Marker.start.text.toList <:+: inkOf lines := by
  obtain ⟨front, behind, rfl⟩ := List.append_of_mem inside
  obtain ⟨rest, spelled⟩ := List.isPrefixOf_iff_prefix.1 opens
  refine ⟨inkOf front, rest.filter (fun c => !isBlank c) ++ inkOf behind, ?_⟩
  have marker : Marker.start.text.toList.filter (fun c => !isBlank c) =
      Marker.start.text.toList := by decide
  have ink : inkOf [line] = Marker.start.text.toList ++ rest.filter fun c => !isBlank c := by
    rw [inkOf, List.flatMap_singleton, ← spelled, List.filter_append, marker]
  rw [List.append_cons, inkOf_append, inkOf_append, ink]
  simp

namespace Patch

/-- A line that the patch writes carries a start marker. -/
def IsStray (patch : Patch) : Prop :=
  ∃ line ∈ patch.newLines, Marker.start.opens line = true

variable {current reference : List String} {anchor : Nat} {algorithm : Algorithm}

/-! ## Patches of a whole buffer -/

/-- The lines of each patch stand in the buffer that all patches give. -/
theorem newLines_infix_weave {lines : List String} {cursor : Nat} {patches : List Patch}
    {patch : Patch} (inside : patch ∈ patches) : patch.newLines <:+: weave lines cursor patches := by
  induction patches generalizing cursor with
  | nil => cases inside
  | cons first rest ih =>
    rw [weave]
    rcases List.mem_cons.1 inside with rfl | later
    · exact ⟨_, _, by rw [List.append_assoc]⟩
    · obtain ⟨front, behind, woven⟩ := @ih first.stop later
      exact ⟨bufferLines lines cursor (first.start - 1) ++ (first.newLines ++ front), behind, by
        simp [← woven]⟩

/-- Against a reference without a start marker the patches of the whole buffer, put in together,
leave no start marker. -/
theorem not_opens_of_mem_applyAll (plain : Text.Plain reference) {line : String}
    (inside : line ∈ applyAll current (fresh current reference algorithm)) :
    ¬ Marker.start.opens line = true := by
  intro opens
  have shown := Text.start_infix_inkOf inside opens
  rw [inkOf_applyAll_fresh] at shown
  exact plain shown

/-- Against a reference without a start marker no patch of the whole buffer is stray. -/
theorem not_isStray_of_mem_fresh (plain : Text.Plain reference) {patch : Patch}
    (inside : patch ∈ fresh current reference algorithm) : ¬ patch.IsStray := by
  rintro ⟨line, written, opens⟩
  have woven : patch.newLines <:+: applyAll current (fresh current reference algorithm) := by
    rw [applyAll_eq_weave (laid_fresh current reference algorithm)]
    exact newLines_infix_weave inside
  exact not_opens_of_mem_applyAll plain (woven.subset written) opens

/-! ## Patches found from an anchor on -/

theorem mem_bufferLines {lines : List String} {first last line : Nat} {text : String}
    (read : numbered? lines line = some text) (low : first ≤ line) (high : line ≤ last) :
    text ∈ bufferLines lines first last := by
  have pos := numbered?_pos read
  rw [numbered?_eq pos] at read
  refine List.mem_of_getElem? (i := line - 1 - (first - 1)) ?_
  rw [bufferLines, List.getElem?_drop, List.getElem?_take, if_pos (by omega), ← read]
  congr 1
  omega

/-- A line of the span in front of all hunks is copied. -/
theorem Group.mem_fill {lines : List String} {last cursor line : Nat} {hunks : List Hunk}
    {text : String} (read : numbered? lines line = some text) (low : cursor ≤ line)
    (high : line ≤ last) (clear : ∀ hunk ∈ hunks, line < hunk.start) :
    text ∈ fill lines last cursor hunks := by
  cases hunks with
  | nil =>
    rw [fill, if_pos (Nat.le_trans low high)]
    exact mem_bufferLines read low high
  | cons hunk hunks =>
    have front := clear hunk List.mem_cons_self
    rw [fill, if_pos (Nat.lt_of_le_of_lt low front)]
    exact List.mem_append_left _ (mem_bufferLines read low (Nat.le_sub_one_of_lt front))

/-- A block met by a hunk in front of the anchor and by one that reaches it leaves its start marker
in a patch. -/
theorem exists_isStray_of_cut {block : Block} (inside : block ∈ findBlocks current) {a b : Hunk}
    (inFront : a ∈ Hunk.inFront current reference anchor algorithm)
    (reaching : b ∈ Hunk.between current reference anchor algorithm)
    (meetsA : a.meets block.startLine block.endLine = true)
    (meetsB : b.meets block.startLine block.endLine = true) :
    ∃ patch ∈ found current reference anchor algorithm, patch.IsStray := by
  have laid := Hunk.laid_between current reference anchor algorithm
  obtain ⟨group, grouped, low, high⟩ := Group.exists_ofBlocks_spanning laid inside reaching meetsB
  obtain ⟨_, chain⟩ := Group.ofBlocks_chain laid findBlocks_marks (findBlocks_pairwise current)
  have marks := findBlocks_marks block inside
  have all := Hunk.laid_between current reference 0 algorithm
  rw [← Hunk.inFront_append_between current reference anchor algorithm] at all
  have clear : ∀ hunk ∈ group.inside (Hunk.between current reference anchor algorithm),
      block.startLine < hunk.start := fun hunk within => by
    have := stop_lt_start all inFront (Group.mem_inside within).1
    rw [Hunk.meets_iff] at meetsA
    omega
  obtain ⟨text, read, opens⟩ := Option.bind_eq_some_iff.1 marks.start
  refine ⟨group.patch current (Hunk.between current reference anchor algorithm), ?_, text, ?_, ?_⟩
  · exact Group.patch_mem_reconcile grouped
  · rw [(chain.sound group grouped).patch_eq laid]
    exact Group.mem_fill read low (Nat.le_trans (Nat.le_of_lt marks.start_lt_stop) high) clear
  · exact Marker.ofLine?_eq_some.1 opens

end Patch

namespace Buffer

/-- The buffer has a reference, and the reference has no start marker in it. -/
def HasPlain (buffer : Buffer) : Prop :=
  ∃ reference, buffer.pool.merged = some reference ∧ Text.Plain reference

/-- No patch of the list is stray. -/
def Strayless (buffer : Buffer) : Prop :=
  ∀ patch ∈ buffer.patches, ¬ patch.IsStray

/-- Replacing the text by `next` around line `hint` cuts no block: none is met both by a hunk in
front of the anchor and by a hunk that reaches it. -/
def CutsNoBlock (buffer : Buffer) (next : List String) (hint : Nat) : Prop :=
  ∀ reference, buffer.pool.merged = some reference → ∀ anchor,
    anchor = (buffer.push next).anchor hint → anchor ≠ 0 →
      Patch.Uncut (Hunk.inFront next reference anchor buffer.algorithm)
        (Hunk.between next reference anchor buffer.algorithm) (findBlocks next)

variable {buffer : Buffer}

/-- The patches of a buffer whose text has just been replaced. -/
theorem patches_revise (buffer : Buffer) (next : List String) (hint : Nat) {reference : List String}
    (merged : buffer.pool.merged = some reference) :
    (buffer.revise next hint).patches =
      (buffer.push next).patchesFrom reference buffer.patches ((buffer.push next).anchor hint) := by
  have merged : (buffer.push next).pool.merged = some reference := merged
  simp only [revise, refresh, merged]
  rfl

/-- A new text that leaves no stray patch has cut no block. -/
theorem cutsNoBlock_of_strayless {next : List String} {hint : Nat}
    (order : Patch.InOrder buffer.patches) (strayless : (buffer.revise next hint).Strayless) :
    buffer.CutsNoBlock next hint := by
  rintro reference merged anchor rfl partly block inside a inFront b reaching meetsA
  by_contra meetsB
  rw [Bool.not_eq_false] at meetsB
  obtain ⟨patch, within, stray⟩ :=
    Patch.exists_isStray_of_cut inside inFront reaching meetsA meetsB
  refine strayless patch ?_ stray
  rw [patches_revise buffer next hint merged, patchesFrom_eq order partly]
  exact List.mem_append_right _ within

/-- A list that is up to date against a reference without a start marker has no stray patch. -/
theorem UpToDate.strayless (upToDate : buffer.UpToDate) (plain : buffer.HasPlain) :
    buffer.Strayless := by
  obtain ⟨reference, merged, plain⟩ := plain
  intro patch inside
  rw [upToDate reference merged] at inside
  exact Patch.not_isStray_of_mem_fresh plain inside

/-- From a list without stray patches a new text leads to one exactly if no block is cut. -/
theorem strayless_revise_iff {next : List String} {hint : Nat} (plain : buffer.HasPlain)
    (order : Patch.InOrder buffer.patches) (strayless : buffer.Strayless) :
    (buffer.revise next hint).Strayless ↔ buffer.CutsNoBlock next hint := by
  refine ⟨cutsNoBlock_of_strayless order, fun uncut patch inside => ?_⟩
  obtain ⟨reference, merged, plain⟩ := plain
  rw [patches_revise buffer next hint merged] at inside
  by_cases whole : (buffer.push next).anchor hint = 0
  · rw [whole, patchesFrom_zero] at inside
    exact Patch.not_isStray_of_mem_fresh plain inside
  · rw [patchesFrom_eq order whole] at inside
    rcases List.mem_append.1 inside with inside | inside
    · exact strayless patch (List.mem_of_mem_filter inside)
    · have found : patch ∈ Patch.fresh next reference buffer.algorithm := by
        rw [Patch.fresh_eq_append (uncut reference merged _ rfl whole)]
        exact List.mem_append_right _ inside
      exact Patch.not_isStray_of_mem_fresh plain found

/-- Along every run, the list of a buffer whose reference has no start marker in it is free of
stray patches exactly if no new text cuts a block. -/
theorem run_strayless_iff (lines : List String) (algorithm : Algorithm) (moves : List Move) :
    (∀ done rest, moves = done ++ rest → ((ofLines lines algorithm).run done).HasPlain →
      ((ofLines lines algorithm).run done).Strayless) ↔
    ∀ done move rest next hint, moves = done ++ move :: rest →
      ((ofLines lines algorithm).run done).move move =
        ((ofLines lines algorithm).run done).revise next hint →
      ((ofLines lines algorithm).run done).HasPlain →
      ((ofLines lines algorithm).run done).CutsNoBlock next hint := by
  refine run_forall_iff (fun buffer => buffer.HasPlain → buffer.Strayless)
    (fun buffer next hint => buffer.HasPlain → buffer.CutsNoBlock next hint)
    ?first ?still ?whole ?revised moves
  case first => exact fun _ _ inside => (List.not_mem_nil inside).elim
  case still =>
    rintro before located pool same strayless ⟨reference, held, plain⟩
    exact strayless ⟨reference, same.symm.trans held, plain⟩
  case whole => exact fun before _ plain => (upToDate_refresh_zero before).strayless plain
  case revised =>
    -- the reference of the revised buffer is that of the buffer before
    intro done next hint strayless
    exact forall_congr' fun plain =>
      strayless_revise_iff plain (run_inOrder lines algorithm done) (strayless plain)

/-! ## Two adjacent blocks -/

/-- Two blocks, one right behind the other. -/
def adjacent : Buffer :=
  ofLines ["<<<<<<<", "a", "=======", "b", ">>>>>>>", "<<<<<<<", "c", "=======", "d", ">>>>>>>"]
    .lines

/-- A reference for both blocks. -/
def offer : Move :=
  .commit (.heuristic ⟨false, [], some ["a", "Z"], false⟩)

/-- Our side for the second block. -/
def settleSecond : Request :=
  ⟨2, .side .ours⟩

theorem adjacent_settled :
    adjacent.run [offer, .apply settleSecond] =
      (adjacent.run [offer]).revise ["<<<<<<<", "a", "=======", "b", ">>>>>>>", "c"] 6 := by
  have known : (adjacent.run [offer]).block 2 = .ok ⟨6, none, 8, 10⟩ := rfl
  have found : (adjacent.run [offer]).locate 2 = some ⟨5, 9⟩ := by decide +kernel
  have direct : ∀ index, settleSecond.choice ≠ .patch index := nofun
  exact (apply_of_located direct known found rfl).1

/-- The hunk that replaces the settled lines begins inside the first block. -/
theorem adjacent_cut :
    ¬ (adjacent.run [offer]).CutsNoBlock ["<<<<<<<", "a", "=======", "b", ">>>>>>>", "c"] 6 := by
  intro uncut
  have merged : (adjacent.run [offer]).pool.merged = some ["a", "Z"] := by decide +kernel
  have anchor : 6 = ((adjacent.run [offer]).push
      ["<<<<<<<", "a", "=======", "b", ">>>>>>>", "c"]).anchor 6 := by decide +kernel
  have cut : ¬ Patch.Uncut
      (Hunk.inFront ["<<<<<<<", "a", "=======", "b", ">>>>>>>", "c"] ["a", "Z"] 6 .lines)
      (Hunk.between ["<<<<<<<", "a", "=======", "b", ">>>>>>>", "c"] ["a", "Z"] 6 .lines)
      (findBlocks ["<<<<<<<", "a", "=======", "b", ">>>>>>>", "c"]) := by decide +kernel
  exact cut (uncut _ merged 6 anchor (by decide))

theorem adjacent_hasPlain : (adjacent.run [offer, .apply settleSecond]).HasPlain := by
  rw [adjacent_settled]
  exact ⟨["a", "Z"], by decide +kernel, by rw [Text.Plain]; decide +kernel⟩

/-- Settling the second of two adjacent blocks leaves a patch that would write the start marker of
the first one back. -/
theorem adjacent_stray :
    (adjacent.run [offer, .apply settleSecond]).HasPlain ∧
      ¬ (adjacent.run [offer, .apply settleSecond]).Strayless := by
  refine ⟨adjacent_hasPlain, fun strayless => adjacent_cut ?_⟩
  rw [adjacent_settled] at strayless
  exact cutsNoBlock_of_strayless (run_inOrder _ _ [offer]) strayless

end Buffer

end MergeConflict
