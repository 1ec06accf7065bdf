import Mathlib.Data.List.Forall2
import MergeConflict.Proofs.ReconcileSplit

/-!
# Which lines and which hunks a patch takes

Reconciling a script's hunks deals them out to the patches in order, every hunk to one patch
(`exists_parts_arrange`), and the lines that the patches replace are no others than those of the
hunks and of the blocks that hunks meet (`Group.Reached`). So a block is touched by the patches at
all only if a hunk meets it, and then a single patch takes in the whole of it.

The invariant behind the second part is kept by the fold of blocks into groups: a union of groups
has no gap, for groups are joined only if they overlap.

Main statement: `reconcile_layout`.
-/

namespace MergeConflict.Patch

/-- The patch replaces a line of the block. -/
def Shares (patch : Patch) (block : Block) : Prop :=
  ∃ line, (patch.start ≤ line ∧ line ≤ patch.lastLine) ∧
    block.startLine ≤ line ∧ line ≤ block.endLine

/-- The stretches of the lines `first..last` that some hunks leave: in front of the first, between
any two, and behind the last. -/
def gaps (lines : List String) (first last : Nat) (part : List Hunk) : List (List String) :=
  List.zipWith (bufferLines lines) (first :: part.map Hunk.stop)
    (part.map (fun hunk => hunk.start - 1) ++ [last])

/-- By turns the stretches that some hunks leave and the new lines of the hunks. -/
def interleaved (lines : List String) (first last : Nat) (part : List Hunk) : List String :=
  (List.zipWith (· ++ ·) (gaps lines first last part) (part.map Hunk.newLines ++ [[]])).flatten

/-- The patch is what some hunks amount to: it spans them, and writes the new lines of each once, in
order, between the lines of the buffer that they leave. -/
structure Gathers (lines : List String) (patch : Patch) (part : List Hunk) : Prop where
  inhabited : part ≠ []
  spans : ∀ hunk ∈ part, patch.start ≤ hunk.start ∧ hunk.stop ≤ patch.stop
  apart : part.Pairwise fun a b => a.stop < b.start
  writes : patch.newLines = interleaved lines patch.start patch.lastLine part

variable {lines : List String} {cursor : Nat} {hunks : List Hunk} {blocks : List Block}
  {groups : List Group}

/-! ## The lines of a group -/

/-- A hunk replaces the line, or meets a block that the line is of. -/
def Group.Reached (hunks : List Hunk) (blocks : List Block) (line : Nat) : Prop :=
  ∃ hunk ∈ hunks, (hunk.start ≤ line ∧ line < hunk.stop) ∨
    ∃ block ∈ blocks, hunk.meets block.startLine block.endLine = true ∧
      block.startLine ≤ line ∧ line ≤ block.endLine

/-- A block with a line that is reached is met by a hunk. -/
theorem Group.Reached.exists_meets (apart : blocks.Pairwise fun a b => a.endLine < b.startLine)
    {block : Block} (inside : block ∈ blocks) {line : Nat} (low : block.startLine ≤ line)
    (high : line ≤ block.endLine) (reached : Reached hunks blocks line) :
    ∃ hunk ∈ hunks, hunk.meets block.startLine block.endLine = true := by
  obtain ⟨hunk, member, ⟨starts, stops⟩ | ⟨other, inside', meets, low', high'⟩⟩ := reached
  · exact ⟨hunk, member, Hunk.meets_iff.2 ⟨by omega, by omega⟩⟩
  · rcases eq_or_of_pairwise apart inside inside' with rfl | clear | clear
    · exact ⟨hunk, member, meets⟩
    · omega
    · omega

/-- The lines of a block's group are reached: beyond the block it only goes where a hunk that meets
the block does. -/
theorem Group.Spans.reached {block : Block} {group : Group} (spans : Spans hunks block group)
    (inside : block ∈ blocks) {line : Nat} (low : group.first ≤ line)
    (high : line ≤ group.last) : Reached hunks blocks line := by
  rcases Nat.lt_or_ge line block.startLine with before | from'
  · rcases spans.first_attained with same | ⟨hunk, member, meets, same⟩
    · omega
    · have := (Hunk.meets_iff.1 meets).1
      exact ⟨hunk, member, .inl ⟨by omega, by omega⟩⟩
  · rcases Nat.lt_or_ge block.endLine line with beyond | upTo
    · rcases spans.last_attained with same | ⟨hunk, member, meets, same⟩
      · omega
      · have := (Hunk.meets_iff.1 meets).2
        exact ⟨hunk, member, .inl ⟨by omega, by omega⟩⟩
    · obtain ⟨hunk, member, meets⟩ := spans.inhabited
      exact ⟨hunk, member, .inr ⟨block, inside, meets, from', upTo⟩⟩

section Reconcile

variable (laid : Hunk.Laid lines 1 hunks) (marks : ∀ block ∈ blocks, block.Marks lines)
  (apart : blocks.Pairwise fun a b => a.endLine < b.startLine)

include laid marks apart

/-- The lines of the groups of all blocks are reached. -/
theorem Group.reached_of_mem_ofBlocks :
    ∀ group ∈ ofBlocks hunks blocks, ∀ line, group.first ≤ line → line ≤ group.last →
      Reached hunks blocks line := by
  refine (ofBlocks_induction laid marks apart
    (motive := fun groups => ∀ group ∈ groups, ∀ line, group.first ≤ line → line ≤ group.last →
      Reached hunks blocks line) (fun _ inside => (List.not_mem_nil inside).elim)
    fun block inside group groups chain spans holds => ?_).2
  have sound := spans.sound laid (marks block inside)
  cases groups with
  | nil =>
    intro other within line low high
    cases List.mem_singleton.1 within
    exact spans.reached inside low high
  | cons latest rest =>
    intro other within line low high
    rw [push] at within
    split at within
    · next meets =>
      rcases List.mem_cons.1 within with rfl | earlier
      · -- the spans joined overlap, so the line is in one of them
        have overlap := (chain.sound latest List.mem_cons_self).overlap sound meets
        have := chain.below latest List.mem_cons_self
        have := spans.le_last
        have := (marks block inside).start_lt_stop
        simp only [union] at low high
        by_cases early : latest.first ≤ line ∧ line ≤ latest.last
        · exact holds latest List.mem_cons_self line early.1 early.2
        · exact spans.reached inside (by omega) (by omega)
      · exact holds other (List.mem_cons_of_mem _ earlier) line low high
    · rcases List.mem_cons.1 within with rfl | earlier
      · exact spans.reached inside low high
      · exact holds other earlier line low high

end Reconcile

/-! ## The hunks of a patch -/

theorem interleaved_nil (lines : List String) (first last : Nat) :
    interleaved lines first last [] = bufferLines lines first last := by
  simp [interleaved, gaps]

theorem interleaved_cons (lines : List String) (first last : Nat) (hunk : Hunk)
    (part : List Hunk) : interleaved lines first last (hunk :: part) =
      bufferLines lines first (hunk.start - 1) ++
        (hunk.newLines ++ interleaved lines hunk.stop last part) := by
  simp [interleaved, gaps]

/-- The lines collected for a group are the new lines of its hunks and those of the buffer that the
hunks leave, by turns. -/
theorem Group.fill_eq_interleaved (laid : Hunk.Laid lines cursor hunks) (last : Nat) :
    fill lines last cursor hunks = interleaved lines cursor last hunks := by
  induction hunks generalizing cursor with
  | nil =>
    rw [fill, interleaved_nil]
    split
    · rfl
    · next beyond => exact (bufferLines_eq_nil (Nat.lt_of_not_le beyond)).symm
  | cons hunk hunks ih =>
    have low := (laid.sits hunk List.mem_cons_self).1
    have reaches : cursor ≤ hunk.stop := Nat.le_trans low (Nat.le_add_right ..)
    rw [fill, interleaved_cons, copied_lines low, ← Hunk.stop, Nat.max_eq_right reaches,
      ih laid.tail]

/-- A hunk taken as a patch is made of itself. -/
theorem gathers_ofHunk (lines : List String) (hunk : Hunk) :
    Gathers lines (ofHunk hunk) [hunk] where
  inhabited := List.cons_ne_nil _ _
  spans other inside := by
    cases List.mem_singleton.1 inside
    exact ⟨Nat.le_refl _, Nat.le_refl _⟩
  apart := List.pairwise_singleton _ _
  writes := by
    have starts : (ofHunk hunk).start = hunk.start := rfl
    have ends : (ofHunk hunk).lastLine = hunk.stop - 1 := rfl
    rw [interleaved_cons, interleaved_nil, starts, ends, bufferLines_empty, bufferLines_empty,
      List.append_nil]
    rfl

theorem forall₂_gathers_ofHunk (lines : List String) (hunks : List Hunk) :
    List.Forall₂ (Gathers lines) (hunks.map ofHunk) (hunks.map ([·])) :=
  List.forall₂_map_left_iff.2 <| List.forall₂_map_right_iff.2 <| List.forall₂_same.2
    fun hunk _ => gathers_ofHunk lines hunk

/-- The patch over a group is made of the hunks that meet its span. -/
theorem Group.gathers_over {group : Group} (laid : Hunk.Laid lines cursor hunks)
    (held : group.Holds hunks) (pos : 0 < group.first) (span : group.first ≤ group.last)
    (inhabited : ∃ hunk ∈ hunks, hunk.meets group.first group.last = true) :
    Gathers lines (group.over lines (group.inside hunks)) (group.inside hunks) where
  inhabited := by
    obtain ⟨hunk, member, meets⟩ := inhabited
    exact List.ne_nil_of_mem (List.mem_filter.2 ⟨member, meets⟩)
  spans hunk within := by
    obtain ⟨member, meets⟩ := mem_inside within
    have := held hunk member meets
    simp only [Group.over, stop]
    omega
  apart := (laid_inside laid held).apart
  writes := by
    have ends : (group.over lines (group.inside hunks)).lastLine = group.last := by
      simp only [lastLine, Group.over]
      omega
    rw [ends]
    exact fill_eq_interleaved (laid_inside laid held) group.last

/-- Going from group to group deals the hunks out to the patches in order. -/
theorem exists_parts_arrange (laid : Hunk.Laid lines cursor hunks) (pos : 0 < cursor)
    (ordered : Group.Ordered lines.length cursor hunks groups)
    (inhabited : ∀ group ∈ groups, ∃ hunk ∈ hunks, hunk.meets group.first group.last = true) :
    ∃ parts : List (List Hunk),
      parts.flatten = hunks ∧ List.Forall₂ (Gathers lines) (arrange lines hunks groups) parts := by
  have flat (items : List Hunk) : (items.map ([·])).flatten = items := by
    rw [← List.flatMap_def, List.flatMap_singleton']
  induction groups generalizing cursor hunks with
  | nil => exact ⟨hunks.map ([·]), flat hunks, forall₂_gathers_ofHunk lines hunks⟩
  | cons group groups ih =>
    obtain ⟨low, span, -⟩ := ordered.span group List.mem_cons_self
    have held := ordered.holds group List.mem_cons_self
    -- a hunk that meets a later group begins behind this one
    have beyond : ∀ other ∈ groups,
        ∃ hunk ∈ group.behind hunks, hunk.meets other.first other.last = true := by
      intro other within
      obtain ⟨hunk, member, meets⟩ := inhabited other (List.mem_cons_of_mem _ within)
      have := ordered.holds other (List.mem_cons_of_mem _ within) hunk member meets
      have := (List.pairwise_cons.1 ordered.apart).1 other within
      exact ⟨hunk, List.mem_filter.2 ⟨member, decide_eq_true (by omega)⟩, meets⟩
    obtain ⟨parts, whole, each⟩ :=
      ih (Group.laid_behind laid) (Nat.succ_pos _) ordered.tail beyond
    refine ⟨(group.before hunks).map ([·]) ++ group.inside hunks :: parts, ?_, ?_⟩
    · rw [List.flatten_append, List.flatten_cons, flat, whole]
      exact Group.split laid span
    · have gathers := Group.gathers_over laid held (by omega) span
        (inhabited group List.mem_cons_self)
      exact List.rel_append (forall₂_gathers_ofHunk lines _) (.cons gathers each)

/-! ## The patches of a script -/

section Layout

variable (laid : Hunk.Laid lines 1 hunks) (marks : ∀ block ∈ blocks, block.Marks lines)
  (apart : blocks.Pairwise fun a b => a.endLine < b.startLine)

include laid marks apart

/-- A block that shares a line with a patch is met by a hunk. -/
theorem exists_meets_of_shares {patch : Patch} (within : patch ∈ reconcile lines hunks blocks)
    {block : Block} (inside : block ∈ blocks) (shares : patch.Shares block) :
    ∃ hunk ∈ hunks, hunk.meets block.startLine block.endLine = true := by
  obtain ⟨line, ⟨low, high⟩, low', high'⟩ := shares
  obtain ⟨_, chain⟩ := Group.ofBlocks_chain laid marks apart
  rcases of_mem_reconcile within with ⟨group, known, rfl⟩ | ⟨hunk, member, rfl⟩
  · have := (chain.sound group known).first_le
    simp only [lastLine, Group.patch] at low high
    have reached :=
      Group.reached_of_mem_ofBlocks laid marks apart group known line low (by omega)
    exact reached.exists_meets apart inside low' high'
  · have := laid.pos hunk member
    simp only [lastLine, ofHunk] at low high
    exact ⟨hunk, member, Hunk.meets_iff.2 ⟨by rw [Hunk.stop]; omega, by omega⟩⟩

/-- A block that a hunk meets is covered by a patch. -/
theorem exists_covers_of_meets {block : Block} (inside : block ∈ blocks) {hunk : Hunk}
    (member : hunk ∈ hunks) (meets : hunk.meets block.startLine block.endLine = true) :
    ∃ patch ∈ reconcile lines hunks blocks,
      patch.start ≤ block.startLine ∧ block.endLine ≤ patch.lastLine := by
  obtain ⟨group, known, low, high⟩ := Group.exists_ofBlocks_spanning laid inside member meets
  obtain ⟨_, chain⟩ := Group.ofBlocks_chain laid marks apart
  have := (chain.sound group known).first_le
  refine ⟨group.patch lines hunks, Group.patch_mem_reconcile known, low, ?_⟩
  simp only [lastLine, Group.patch]
  omega

end Layout

/-- Patches one behind the other, from line 1 on, share no line. -/
theorem Laid.eq_of_shared {length : Nat} {patches : List Patch} (laid : Laid length 1 patches)
    {a b : Patch} (insideA : a ∈ patches) (insideB : b ∈ patches) {line : Nat}
    (inA : a.start ≤ line ∧ line ≤ a.lastLine) (inB : b.start ≤ line ∧ line ≤ b.lastLine) :
    a = b := by
  have posA := (laid.within a insideA).1
  have posB := (laid.within b insideB).1
  simp only [lastLine] at inA inB
  rcases eq_or_of_pairwise laid.apart insideA insideB with same | ⟨clear, _⟩ | ⟨clear, _⟩
  · exact same
  all_goals
    rw [stop] at clear
    omega

/-- How the patches lie that the hunks of a script are reconciled to. They fit the buffer, stand in
order and share no line. A block shares a line with a patch just if a hunk meets it, and then with
one patch only, which covers the block. And the hunks are dealt out to the patches in order, each to
one of them. -/
theorem reconcile_layout (script : Script) (kept : script.KeptNonempty) (least : Nat) :
    let current := script.oldLines
    let hunks := Hunk.ofScript script least
    let patches := reconcile current hunks (findBlocks current)
    (∀ patch ∈ patches, patch.fits current.length = true) ∧
      patches.Pairwise (fun a b => a.start ≤ b.start ∧ a.lastLine < b.start) ∧
      (∀ block ∈ findBlocks current,
        ((∃ patch ∈ patches, patch.Shares block) ↔
          ∃ hunk ∈ hunks, block.intersects hunk.start hunk.lastLine = true) ∧
        ∀ hunk ∈ hunks, block.intersects hunk.start hunk.lastLine = true →
          ∃ patch ∈ patches, (patch.start ≤ block.startLine ∧ block.endLine ≤ patch.lastLine) ∧
            ∀ other ∈ patches, other.Shares block → other = patch) ∧
      ∃ parts : List (List Hunk),
        parts.flatten = hunks ∧ List.Forall₂ (Gathers current) patches parts := by
  intro current hunks patches
  have laid : Hunk.Laid current 1 hunks := Hunk.laid_ofScript kept least
  have apart := findBlocks_pairwise current
  have marks : ∀ block ∈ findBlocks current, block.Marks current := findBlocks_marks
  have placed : Laid current.length 1 patches := laid_reconcile laid marks apart
  refine ⟨fun patch inside => ?_, ?_, fun block inside => ?_, ?_⟩
  · exact fits_iff.2 (placed.within patch inside)
  · refine placed.apart.imp_of_mem fun {a b} insideA _ ahead => ?_
    have := (placed.within a insideA).1
    simp only [Ahead, stop] at ahead
    simp only [lastLine]
    omega
  · have shared {patch : Patch} (low : patch.start ≤ block.startLine)
        (high : block.endLine ≤ patch.lastLine) : patch.Shares block :=
      have := (marks block inside).start_lt_stop
      ⟨block.startLine, ⟨low, by omega⟩, Nat.le_refl _, by omega⟩
    have covered {hunk : Hunk} (member : hunk ∈ hunks)
        (met : block.intersects hunk.start hunk.lastLine = true) :
        ∃ patch ∈ patches, patch.start ≤ block.startLine ∧ block.endLine ≤ patch.lastLine := by
      rw [Block.intersects_eq_meets (laid.pos hunk member)] at met
      exact exists_covers_of_meets laid marks apart inside member met
    refine ⟨⟨?_, ?_⟩, fun hunk member met => ?_⟩
    · rintro ⟨patch, within, shares⟩
      obtain ⟨hunk, member, meets⟩ := exists_meets_of_shares laid marks apart within inside shares
      exact ⟨hunk, member, (Block.intersects_eq_meets (laid.pos hunk member)).trans meets⟩
    · rintro ⟨hunk, member, met⟩
      obtain ⟨patch, within, low, high⟩ := covered member met
      exact ⟨patch, within, shared low high⟩
    · obtain ⟨patch, within, low, high⟩ := covered member met
      refine ⟨patch, within, ⟨low, high⟩, fun other within' shares => ?_⟩
      obtain ⟨line, inOther, low', high'⟩ := shares
      exact placed.eq_of_shared within' within inOther ⟨by omega, by omega⟩
  · obtain ⟨_, chain⟩ := Group.ofBlocks_chain laid marks apart
    have dealt := exists_parts_arrange laid Nat.one_pos (ordered_ofBlocks laid marks apart)
      fun group inside => (chain.sound group (List.mem_reverse.1 inside)).inhabited
    rwa [← reconcile_eq_arrange laid marks apart] at dealt

/-- A hunk that begins in one block and ends in the next folds both into one patch, and an insertion
in front of them stays on its own. -/
theorem reconcile_layout_twoBlocks :
    let script : Script := [⟨.added, ["note"]⟩, ⟨.equal, ["<<<<<<<", "=======", "x"]⟩,
      ⟨.removed, [">>>>>>>", "<<<<<<<"]⟩, ⟨.equal, ["=======", ">>>>>>>"]⟩]
    let current := script.oldLines
    let hunks := Hunk.ofScript script 0
    let note : Patch := ⟨1, 0, ["note"]⟩
    let whole : Patch := ⟨1, 7, ["<<<<<<<", "=======", "x", "=======", ">>>>>>>"]⟩
    script.KeptNonempty ∧ reconcile current hunks (findBlocks current) = [note, whole] ∧
      (∀ patch ∈ [note, whole], patch.fits 7 = true) ∧
      (note.start ≤ whole.start ∧ note.lastLine < whole.start) ∧
      (∀ block ∈ [⟨1, none, 2, 4⟩, ⟨5, none, 6, 7⟩],
        (∃ patch ∈ [note, whole], patch.Shares block) ∧
          (whole.start ≤ block.startLine ∧ block.endLine ≤ whole.lastLine) ∧
            ∀ other ∈ [note, whole], other.Shares block → other = whole) ∧
      ∃ parts : List (List Hunk),
        parts.flatten = hunks ∧ List.Forall₂ (Gathers current) [note, whole] parts := by
  intro script current hunks note whole
  have kept : script.KeptNonempty := by simp [script, Script.KeptNonempty]
  have patches : reconcile current hunks (findBlocks current) = [note, whole] := by
    rw [reconcile_eq_arrange (Hunk.laid_ofScript kept 0) findBlocks_marks
      (findBlocks_pairwise current)]
    decide +kernel
  have blocks : findBlocks current = [⟨1, none, 2, 4⟩, ⟨5, none, 6, 7⟩] := by decide +kernel
  have met : ∀ block ∈ findBlocks current, ∃ hunk ∈ hunks,
      block.intersects hunk.start hunk.lastLine = true := by decide +kernel
  obtain ⟨fits, order, covered, parts⟩ := reconcile_layout script kept 0
  rw [patches] at fits order covered parts
  rw [blocks] at covered met
  refine ⟨kept, patches, fits, List.rel_of_pairwise_cons order List.mem_cons_self,
    fun block inside => ⟨(covered block inside).1.2 (met block inside), ?_⟩, parts⟩
  obtain ⟨hunk, member, meets⟩ := met block inside
  obtain ⟨patch, within, covers, only⟩ := (covered block inside).2 hunk member meets
  -- the insertion replaces no line, so its patch covers nothing
  have bare : ∀ block ∈ ([⟨1, none, 2, 4⟩, ⟨5, none, 6, 7⟩] : List Block),
      note.lastLine < block.endLine := by decide
  obtain rfl : patch = whole := by
    rcases List.mem_cons.1 within with rfl | within
    · exact absurd covers.2 (Nat.not_le_of_lt (bare block inside))
    · exact List.mem_singleton.1 within
  exact ⟨covers, only⟩
end MergeConflict.Patch
