import MergeConflict.Proofs.AppliedChoice
import MergeConflict.Proofs.PatchParts
import MergeConflict.Proofs.StrayMarkers
import MergeConflict.Proofs.TextView

/-!
# Patches that settle a block

A patch is accepted for a block if it covers one of its lines, and it settles the block if it covers
all of them. The patches of a comparison that meet a block do, since they are widened to it
(`covers_of_mem_found`). Two things remain. A patch that only puts lines in front of a block
counts as covering the block's first line, and replaces none. And a patch that is kept from an
earlier comparison has been widened to the blocks of the earlier text; in the new one a block may
begin in front of the anchor and end behind it that was not there (`KeepsClear`).

Neither can be where the list is up to date with a reference that has no start marker: some hunk
takes the block's first line away, and in front of that hunk no other one ends.

Main statement: `run_accepted_covers`.
-/

namespace MergeConflict

namespace Patch

/-- The patch replaces every line of the block. -/
def Covers (patch : Patch) (block : Block) : Prop :=
  patch.start ≤ block.startLine ∧ block.endLine ≤ patch.lastLine

/-- The patch only puts lines in front of the block. -/
def IsInFront (patch : Patch) (block : Block) : Prop :=
  patch.offset = 0 ∧ patch.start = block.startLine

variable {lines : List String} {cursor : Nat} {hunks : List Hunk} {blocks : List Block}
  {patches : List Patch} {patch other : Patch} {block : Block}

/-- Of patches one behind the other none has to do with a block but the one that covers it. -/
theorem Laid.eq_of_covers {length : Nat} (laid : Laid length 1 patches) (inside : patch ∈ patches)
    (inside' : other ∈ patches) (covers : other.Covers block)
    (meets : block.intersects patch.start patch.lastLine = true) : patch = other := by
  have pos := (laid.within patch inside).1
  have pos' := (laid.within other inside').1
  obtain ⟨starts, stops⟩ := covers
  simp only [Block.intersects, Bool.and_eq_true, decide_eq_true_eq] at meets
  rw [lastLine] at meets stops
  rcases eq_or_of_pairwise laid.apart inside inside' with same | ⟨clear, _⟩ | ⟨clear, _⟩
  · exact same
  · rw [stop] at clear
    omega
  · rw [stop] at clear
    omega

section Reconcile

variable (laid : Hunk.Laid lines 1 hunks) (marks : ∀ block ∈ blocks, block.Marks lines)
  (apart : blocks.Pairwise fun a b => a.endLine < b.startLine)

include laid marks apart

/-- A patch that has to do with the inside of a block covers the block. -/
theorem covers_of_mem_reconcile (within : patch ∈ reconcile lines hunks blocks)
    (inside : block ∈ blocks) (meets : block.intersects patch.start patch.lastLine = true) :
    patch.Covers block := by
  have met : ∃ hunk ∈ hunks, hunk.meets block.startLine block.endLine = true := by
    rcases of_mem_reconcile within with ⟨group, known, same⟩ | ⟨hunk, member, rfl⟩
    · -- the patch of a group has a line, so it shares one with the block
      have := (marks block inside).start_lt_stop
      obtain ⟨_, chain⟩ := Group.ofBlocks_chain laid marks apart
      have filled := (chain.sound group known).first_le
      have start : patch.start = group.first := by rw [same, Group.patch]
      have last : patch.lastLine = group.last := by
        rw [same]
        simp only [lastLine, Group.patch]
        omega
      simp only [Block.intersects, Bool.and_eq_true, decide_eq_true_eq] at meets
      refine exists_meets_of_shares laid marks apart within inside
        ⟨max patch.start block.startLine, ?_, ?_⟩
      · omega
      · omega
    · exact ⟨hunk, member, (Block.intersects_eq_meets (laid.pos hunk member)).symm.trans meets⟩
  obtain ⟨hunk, member, met⟩ := met
  obtain ⟨other, within', covers⟩ := exists_covers_of_meets laid marks apart inside member met
  rw [(laid_reconcile laid marks apart).eq_of_covers within within' covers meets]
  exact covers

end Reconcile

/-- A patch found in a text that has to do with the inside of a block of the text covers it. -/
theorem covers_of_mem_found {reference : List String} {anchor : Nat} {algorithm : Algorithm}
    (within : patch ∈ found lines reference anchor algorithm) (known : block ∈ findBlocks lines)
    (meets : block.intersects patch.start patch.lastLine = true) : patch.Covers block :=
  covers_of_mem_reconcile (Hunk.laid_between lines reference anchor algorithm) findBlocks_marks
    (findBlocks_pairwise lines) within known meets

/-- A line that no patch replaces stays. -/
theorem mem_weave {line : Nat} {text : String} (read : numbered? lines line = some text)
    (low : cursor ≤ line) (free : ∀ patch ∈ patches, line < patch.start ∨ patch.stop ≤ line) :
    text ∈ weave lines cursor patches := by
  induction patches generalizing cursor with
  | nil =>
    have pos := numbered?_pos read
    rw [numbered?_eq pos] at read
    refine List.mem_of_getElem? (i := line - 1 - (cursor - 1)) ?_
    rw [weave, List.getElem?_drop, ← read]
    congr 1
    omega
  | cons patch rest ih =>
    rw [weave, List.mem_append, List.mem_append]
    rcases free patch List.mem_cons_self with before | behind
    · exact .inl (mem_bufferLines read low (Nat.le_sub_one_of_lt before))
    · exact .inr (.inr (ih behind fun other later => free other (List.mem_cons_of_mem _ later)))

/-- Against a reference without a start marker no patch of the whole buffer stands in front of a
block without replacing a line. -/
theorem not_isInFront_of_mem_fresh {reference : List String} {algorithm : Algorithm}
    (plain : Text.Plain reference) (within : patch ∈ fresh lines reference algorithm)
    (inside : block ∈ findBlocks lines) : ¬ patch.IsInFront block := by
  rintro ⟨empty, start⟩
  have laid := Hunk.laid_between lines reference 0 algorithm
  have marks : ∀ block ∈ findBlocks lines, block.Marks lines := findBlocks_marks
  have apart := findBlocks_pairwise lines
  obtain ⟨text, read, opens⟩ := Option.bind_eq_some_iff.1 (marks block inside).start
  -- the hunk that takes the start marker away
  have taken : ∃ hunk ∈ Hunk.between lines reference 0 algorithm,
      hunk.start ≤ block.startLine ∧ block.startLine < hunk.stop := by
    by_contra none
    have stays : text ∈ applyAll lines (fresh lines reference algorithm) := by
      rw [fresh, applyAll_eq_weave_hunks laid marks apart]
      refine mem_weave read (marks block inside).start_pos fun other within => ?_
      obtain ⟨hunk, member, rfl⟩ := List.mem_map.1 within
      by_contra overlaps
      simp only [ofHunk, stop, not_or, Nat.not_lt, Nat.not_le] at overlaps
      exact none ⟨hunk, member, overlaps⟩
    exact not_opens_of_mem_applyAll plain stays (Marker.ofLine?_eq_some.1 opens)
  obtain ⟨hunk, member, low, high⟩ := taken
  rcases of_mem_reconcile within with ⟨group, known, same⟩ | ⟨other, member', same⟩
  · obtain ⟨_, chain⟩ := Group.ofBlocks_chain laid marks apart
    have filled := (chain.sound group known).first_le
    rw [same] at empty
    simp only [Group.patch] at empty
    omega
  · rw [same] at empty start
    simp only [ofHunk] at empty start
    rcases laid.apart_or member member' with rfl | before | behind
    · rw [Hunk.stop] at high
      omega
    · omega
    · rw [Hunk.stop] at behind
      omega

/-! ## Patches that touch a block -/

/-- A patch touches the place of a block where it has to do with the inside of the block or stands
in front of it. -/
theorem intersects_or_isInFront (pos : 0 < patch.start) (marks : block.Marks lines)
    (touching : patch.touches block.interval = true) :
    block.intersects patch.start patch.lastLine = true ∨ patch.IsInFront block := by
  have := marks.start_pos
  have := marks.start_lt_stop
  unfold touches Block.interval at touching
  simp only [Bool.and_eq_true, decide_eq_true_eq] at touching
  unfold Block.intersects IsInFront lastLine
  simp only [Bool.and_eq_true, decide_eq_true_eq]
  omega

/-- A patch that stands in front of a block replaces no line of it. -/
theorem Covers.not_isInFront (covers : patch.Covers block) (marks : block.Marks lines) :
    ¬ patch.IsInFront block := by
  rintro ⟨empty, start⟩
  have := marks.start_pos
  have := marks.start_lt_stop
  have := covers.2
  rw [lastLine] at this
  omega

end Patch

/-- A patch is put in as it writes. -/
theorem Pool.lines_of_resolve_patch {pool : Pool} {setting : Setting} {number index : Nat}
    {own : Block} {patch : Patch} {resolved : Resolved}
    (known : numbered? setting.blocks number = some own)
    (held : setting.patches[index]? = some patch)
    (resolves : pool.resolve setting number (.patch index) = .ok resolved) :
    resolved.lines = patch.newLines := by
  rw [resolve, bind_block_of_known known] at resolves
  simp only [held] at resolves
  cases resolves
  rfl

/-- A block within the lines that two texts begin with is a block of both. -/
theorem exists_block_in_front {first second : List String} {count : Nat} {block : Block}
    (same : first.take count = second.take count) (known : block ∈ findBlocks first)
    (front : block.endLine ≤ count) :
    ∃ twin ∈ findBlocks second,
      twin.startLine = block.startLine ∧ twin.endLine = block.endLine := by
  have marks := findBlocks_marks block known
  have pos := marks.start_pos
  have startStop := marks.start_lt_stop
  have inText := marks.stop_le
  have length := marks.length_body
  have whole : first.take (block.startLine - 1) ++ block.body first = first.take block.endLine :=
    Patch.take_append_bufferLines (by omega)
  have copy : first.take (block.startLine - 1) ++ block.body first <+: second := by
    have cut := congrArg (List.take block.endLine) same
    rw [List.take_take, List.take_take, Nat.min_eq_left front] at cut
    rw [whole, cut]
    exact List.take_prefix _ _
  obtain ⟨twin, isBlock, startLine, endLine, _⟩ := exists_block_of_copy copy known
  rw [List.length_take] at startLine endLine
  exact ⟨twin, isBlock, by omega, by omega⟩

namespace Buffer

/-- Every patch that has to do with the inside of a block covers the block. -/
def Widened (buffer : Buffer) : Prop :=
  ∀ patch ∈ buffer.patches, ∀ block ∈ findBlocks buffer.current,
    block.intersects patch.start patch.lastLine = true → patch.Covers block

/-- When the text is replaced by `next` around line `hint`, no patch is kept that has to do with the
inside of a block which reaches the anchor. -/
def KeepsClear (buffer : Buffer) (next : List String) (hint : Nat) : Prop :=
  ∀ reference, buffer.pool.merged = some reference → ∀ anchor,
    anchor = (buffer.push next).anchor hint → anchor ≠ 0 →
      ∀ patch ∈ Patch.kept (Patch.found next reference anchor buffer.algorithm) buffer.patches
        anchor, ∀ block ∈ findBlocks next, anchor ≤ block.endLine →
          block.intersects patch.start patch.lastLine = false

/-- A request for a patch has been carried out: the patch lies where it says, and the block of the
request has been found at a block of the text that has its lines. -/
structure Accepts (buffer : Buffer) (request : Request) (block : Block) (patch : Patch) : Prop where
  held : ∃ index, request.choice = .patch index ∧ buffer.patches[index]? = some patch
  located : buffer.locate request.block = some block.interval
  known : block ∈ findBlocks buffer.current
  body : ∃ own, numbered? buffer.blocks request.block = some own ∧
    block.body buffer.current = own.body buffer.loaded
  current : (buffer.apply request).1.current =
    Patch.splice buffer.current (patch.start - 1) patch.offset patch.newLines

variable {buffer : Buffer} {next : List String} {hint : Nat}

/-! ## Patches along a run -/

/-- The anchor lies no further than the first line that differs from the version before. -/
theorem anchor_le_lead {previous : List String} {rest : List (List String)}
    (before : buffer.undoStack = previous :: rest) :
    buffer.anchor hint ≤ Text.commonLead previous buffer.current + 1 := by
  rw [anchor, before]
  simp only
  split
  · split
    · exact Nat.zero_le _
    · exact Nat.min_le_right _ _
  · exact Nat.zero_le _

/-- In front of the anchor the new text is the one before. -/
theorem take_anchor {anchor : Nat} (anchored : anchor = (buffer.push next).anchor hint) :
    buffer.current.take (anchor - 1) = next.take (anchor - 1) := by
  have lead : anchor ≤ Text.commonLead buffer.current next + 1 := by
    rw [anchored]
    exact anchor_le_lead rfl
  have shared := congrArg (List.take (anchor - 1)) (Text.take_commonLead buffer.current next)
  rwa [List.take_take, List.take_take, Nat.min_eq_left (Nat.sub_le_of_le_add lead)] at shared

/-- A patch of the text before covers the blocks it has to do with that the new text has in front of
the anchor: they were there before. -/
theorem Widened.covers_in_front {anchor : Nat} {patch : Patch} {block : Block}
    (widened : buffer.Widened) (anchored : anchor = (buffer.push next).anchor hint)
    (inside : patch ∈ buffer.patches) (known : block ∈ findBlocks next)
    (front : block.endLine < anchor)
    (meets : block.intersects patch.start patch.lastLine = true) : patch.Covers block := by
  obtain ⟨twin, known', startLine, endLine⟩ :=
    exists_block_in_front (take_anchor anchored).symm known (Nat.le_sub_one_of_lt front)
  rw [Block.intersects, ← startLine, ← endLine] at meets
  have covers := widened patch inside twin known' meets
  rwa [Patch.Covers, startLine, endLine] at covers

/-- From a list whose patches cover the blocks they have to do with, a new text leads to one exactly
if the patches kept are clear of the blocks that reach the anchor. -/
theorem widened_revise_iff (order : Patch.InOrder buffer.patches) (widened : buffer.Widened) :
    (buffer.revise next hint).Widened ↔ buffer.KeepsClear next hint := by
  cases merged : buffer.pool.merged with
  | none =>
    have none_left : (buffer.revise next hint).patches = [] :=
      patches_refresh_of_merged_eq_none (buffer.push next) hint merged
    refine iff_of_true (fun patch inside => ?_) fun reference held => ?_
    · rw [none_left] at inside
      exact (List.not_mem_nil inside).elim
    · rw [merged] at held
      cases held
  | some reference =>
    have list := patches_revise buffer next hint merged
    generalize anchored : (buffer.push next).anchor hint = anchor at list
    by_cases whole : anchor = 0
    · rw [whole, patchesFrom_zero] at list
      refine iff_of_true (fun patch inside block => ?_) fun _ _ other anchored' partly => ?_
      · rw [list] at inside
        exact Patch.covers_of_mem_found inside
      · exact absurd (anchored'.trans (anchored.trans whole)) partly
    · rw [patchesFrom_eq order whole] at list
      constructor
      · rintro after other held anchor' anchored' - patch inside block known reaches
        obtain rfl := Option.some.inj (merged.symm.trans held)
        obtain rfl := anchored'.trans anchored
        have inList : patch ∈ (buffer.revise next hint).patches := by
          rw [list]
          exact List.mem_append_left _ inside
        by_contra meets
        rw [Bool.not_eq_false] at meets
        -- a kept patch ends in front of the anchor, so it does not cover such a block
        have ends := (Patch.lastLine_lt_of_mem_kept inside).1
        have stops := (after patch inList block known meets).2
        omega
      · intro clear patch inside block known meets
        rw [list] at inside
        rcases List.mem_append.1 inside with inside | inside
        · have front : block.endLine < anchor := by
            by_contra reaches
            have apart := clear reference merged anchor anchored.symm whole patch inside block known
              (Nat.le_of_not_lt reaches)
            rw [meets] at apart
            cases apart
          exact widened.covers_in_front anchored.symm (List.mem_of_mem_filter inside) known front
            meets
        · exact Patch.covers_of_mem_found inside known meets

/-- Fresh patches cover the blocks that they have to do with. -/
theorem widened_refresh_zero (buffer : Buffer) : (buffer.refresh 0).Widened := by
  intro patch inside block known meets
  rw [patches_refresh_zero] at inside
  split at inside
  · exact (List.not_mem_nil inside).elim
  · exact Patch.covers_of_mem_found inside known meets

/-- Along every run the patches cover the blocks that they have to do with, exactly if with every
new text those that are kept are clear of the blocks that reach the anchor. -/
theorem run_widened_iff (lines : List String) (algorithm : Algorithm) (moves : List Move) :
    (∀ done rest, moves = done ++ rest → ((ofLines lines algorithm).run done).Widened) ↔
      ∀ done move rest next hint, moves = done ++ move :: rest →
        ((ofLines lines algorithm).run done).move move =
          ((ofLines lines algorithm).run done).revise next hint →
        ((ofLines lines algorithm).run done).KeepsClear next hint := by
  refine run_forall_iff Widened KeepsClear ?first ?still ?whole ?revised moves
  case first => exact fun _ inside => (List.not_mem_nil inside).elim
  case still => exact fun before located pool same widened => widened
  case whole => exact fun before _ => widened_refresh_zero before
  case revised =>
    exact fun done next hint => widened_revise_iff (run_inOrder lines algorithm done)

/-- A final answer that changes the reference leads to fresh patches. -/
theorem patches_commit_report {report : Report} {reference : List String}
    (final : report.pending = false) (merged : Pool.referenceOf report = some reference)
    (changed : buffer.pool.merged ≠ some reference) :
    (buffer.move (.commit (.heuristic report))).patches =
      Patch.fresh buffer.current reference buffer.algorithm := by
  have given : (buffer.pool.commit (.heuristic report)).merged = some reference := by
    rw [Pool.commit]
    simp only [final, merged]
    rfl
  rw [move, commit_fst_of_merged_ne (given ▸ changed.symm)]
  simp only [patches_refresh_zero, given]

/-! ## Accepted patches -/

/-- Where no line has a newline in it and no stretch has a wrong fingerprint, a block of the file is
found at a block of the text that has its lines. -/
theorem Rooted.exists_block_of_locate {lines : List String} {algorithm : Algorithm} {number : Nat}
    {own : Block} {at' : Interval} (rooted : buffer.Rooted lines algorithm)
    (free : CollisionFreeIn lines buffer.current) (loaded : Text.Unbroken lines)
    (shown : Text.Unbroken buffer.current) (known : numbered? buffer.blocks number = some own)
    (found : buffer.locate number = some at') :
    ∃ block ∈ findBlocks buffer.current, at' = block.interval ∧
      block.body buffer.current = own.body buffer.loaded := by
  rw [rooted.blocks] at known
  rw [rooted.locate_eq known] at found
  obtain ⟨front, visits, rfl⟩ :=
    exists_visits_of_locate free loaded shown (mem_of_numbered? known) found
  obtain ⟨block, isBlock, startLine, endLine, body⟩ :=
    exists_block_of_copy visits.isPrefix (mem_of_numbered? known)
  refine ⟨block, isBlock, ?_, rooted.loaded ▸ body⟩
  rw [Block.interval, startLine, endLine, Nat.add_sub_cancel]

/-- A patch that is applied has been accepted for a block that it touches. -/
theorem exists_accepts {lines : List String} {algorithm : Algorithm} {request : Request}
    {index : Nat} {applied : Applied} (rooted : buffer.Rooted lines algorithm)
    (fit : ∀ patch ∈ buffer.patches, patch.fits buffer.current.length = true)
    (free : CollisionFreeIn lines buffer.current) (loaded : Text.Unbroken lines)
    (shown : Text.Unbroken buffer.current) (chosen : request.choice = .patch index)
    (done : (buffer.apply request).2 = .ok applied) :
    ∃ block patch, buffer.Accepts request block patch ∧ patch.touches block.interval = true := by
  obtain ⟨position, count, resolved, targeted, resolves, -⟩ := exists_revise_of_apply done
  obtain ⟨at', prepared, reaches⟩ := (exists_target_iff fit).1 ⟨_, targeted⟩
  obtain ⟨⟨own, named⟩, found⟩ := prepare_ok_iff.1 prepared
  obtain ⟨block, known, rfl, body⟩ := rooted.exists_block_of_locate free loaded shown named found
  rw [chosen] at reaches resolves
  obtain ⟨patch, held, touching⟩ := reaches
  have written : resolved.lines = patch.newLines := Pool.lines_of_resolve_patch named held resolves
  have current := current_apply targeted (chosen ▸ resolves)
  obtain ⟨_, _, ⟨index', patch', chosen', held', _, rfl, rfl⟩ | ⟨direct, _⟩⟩ :=
    exists_place_of_target targeted
  · obtain rfl : index = index' := Choice.patch.inj (chosen.symm.trans chosen')
    obtain rfl : patch = patch' := Option.some.inj (held.symm.trans held')
    rw [written] at current
    exact ⟨block, patch, ⟨⟨index, chosen, held⟩, found, known, ⟨own, named, body⟩, current⟩, touching⟩
  · exact absurd chosen (direct index)

/-- A patch that touches the place where the block of a request is found is put in. -/
theorem apply_of_patch {request : Request} {index : Nat} {conflict : Block} {at' : Interval}
    {patch : Patch} (chosen : request.choice = .patch index)
    (known : numbered? buffer.blocks request.block = some conflict)
    (found : buffer.locate request.block = some at')
    (held : buffer.patches[index]? = some patch)
    (fits : patch.fits buffer.current.length = true) (touching : patch.touches at' = true) :
    (∃ applied, (buffer.apply request).2 = .ok applied) ∧
      (buffer.apply request).1 = buffer.revise
        (Patch.splice buffer.current (patch.start - 1) patch.offset patch.newLines)
        (patch.start - 1 + 1) := by
  have targeted : (buffer.target request).2 = .ok (patch.start - 1, patch.offset) := by
    unfold target prepare block
    rw [chosen, known]
    simp only [held, if_pos fits, found, if_pos touching]
  have named : numbered? buffer.setting.blocks request.block = some conflict := known
  have offers : buffer.pool.Offers buffer.setting request.block request.choice := by
    rw [chosen]
    exact (List.getElem?_eq_some_iff.1 held).1
  obtain ⟨resolved, resolves⟩ := (Pool.exists_resolve_iff named request.choice).2 offers
  have written : resolved.lines = patch.newLines :=
    Pool.lines_of_resolve_patch named held (chosen ▸ resolves)
  rw [apply_of_target targeted resolves, written]
  exact ⟨⟨_, rfl⟩, rfl⟩

/-- Along a run the patches cover the blocks that they have to do with, exactly if with every new
text those that are kept are clear of the blocks that reach the anchor.

A patch that is applied for a block of the file has been accepted for a block of the text that has
its lines. If the patches cover the blocks they have to do with, then this one covers the block it
has been accepted for, unless it only puts lines in front of it. If they are up to date with a
reference that has no start marker, it covers the block and writes no start marker. -/
theorem run_accepted_covers (text : String) (algorithm : Algorithm) (moves : List Move)
    (references : UnbrokenReferences moves) :
    ((∀ done rest, moves = done ++ rest → ((ofContent text algorithm).run done).Widened) ↔
      ∀ done move rest next hint, moves = done ++ move :: rest →
        ((ofContent text algorithm).run done).move move =
          ((ofContent text algorithm).run done).revise next hint →
        ((ofContent text algorithm).run done).KeepsClear next hint) ∧
    let buffer := (ofContent text algorithm).run moves
    ∀ request index applied, request.choice = .patch index →
      (buffer.apply request).2 = .ok applied →
      CollisionFreeIn (Text.splitLines text) buffer.current →
      ∃ block patch, buffer.Accepts request block patch ∧
        (buffer.Widened → (patch.Covers block ↔ ¬ patch.IsInFront block)) ∧
        (buffer.UpToDate → buffer.HasPlain → patch.Covers block ∧ ¬ patch.IsStray) := by
  refine ⟨run_widened_iff _ algorithm moves, ?_⟩
  intro buffer request index applied chosen done free
  have rooted : buffer.Rooted (Text.splitLines text) algorithm := run_rooted _ algorithm moves
  have shown : Text.Unbroken buffer.current :=
    (run_unbroken text algorithm moves references).versions _ (current_mem_versions buffer)
  have fit := run_fits (Text.splitLines text) algorithm moves
  obtain ⟨block, patch, accepts, touching⟩ :=
    exists_accepts rooted fit free (Text.ofText_splitLines text).2 shown chosen done
  have marks := findBlocks_marks block accepts.known
  obtain ⟨_, _, held⟩ := accepts.held
  have inside := List.mem_of_getElem? held
  have either := Patch.intersects_or_isInFront (Patch.fits_iff.1 (fit patch inside)).1 marks touching
  refine ⟨block, patch, accepts, fun widened => ⟨fun covers => covers.not_isInFront marks,
    fun apart => ?_⟩, fun upToDate plain => ?_⟩
  · exact widened patch inside block accepts.known (either.resolve_right apart)
  · obtain ⟨reference, merged, plain⟩ := plain
    rw [upToDate reference merged] at inside
    have apart := Patch.not_isInFront_of_mem_fresh plain inside accepts.known
    refine ⟨?_, Patch.not_isStray_of_mem_fresh plain inside⟩
    exact Patch.covers_of_mem_found inside accepts.known (either.resolve_right apart)

/-- One block between two lines. -/
def enclosed : String :=
  "h\n<<<<<<<\na\n=======\nb\n>>>>>>>\nt"

/-- A reference that has one line in place of the block. -/
def settle : Move :=
  .commit (.heuristic ⟨false, [], some ["h", "m", "t"], false⟩)

/-- The patch has been widened to the block, and takes it away. -/
theorem enclosed_covered :
    let buffer := (ofContent enclosed .lines).run [settle]
    let request : Request := ⟨1, .patch 0⟩
    buffer.patches = [⟨2, 5, ["m"]⟩] ∧ (∃ applied, (buffer.apply request).2 = .ok applied) ∧
      ∃ block patch, buffer.Accepts request block patch ∧ patch.Covers block ∧ ¬ patch.IsStray := by
  intro buffer request
  have empty : (ofContent enclosed .lines).pool.merged ≠ some ["h", "m", "t"] := by decide
  have fresh : buffer.patches = Patch.fresh _ ["h", "m", "t"] .lines :=
    patches_commit_report rfl rfl empty
  have patches : buffer.patches = [⟨2, 5, ["m"]⟩] := by
    refine fresh.trans ?_
    rw [Patch.fresh_eq_arrange]
    decide +kernel
  have merged : buffer.pool.merged = some ["h", "m", "t"] := by decide +kernel
  have upToDate : buffer.UpToDate := by
    intro reference held
    obtain rfl := Option.some.inj (merged.symm.trans held)
    exact fresh
  have plain : buffer.HasPlain := by
    refine ⟨_, merged, ?_⟩
    rw [Text.Plain]
    decide +kernel
  have held : buffer.patches[0]? = some ⟨2, 5, ["m"]⟩ := by
    rw [patches]
    rfl
  have known : numbered? buffer.blocks request.block = some ⟨2, none, 4, 6⟩ := by decide +kernel
  have found : buffer.locate 1 = some ⟨1, 5⟩ := by decide +kernel
  have references : UnbrokenReferences [settle] := by
    intro report inside reference held
    cases List.mem_singleton.1 inside
    cases held
    decide +kernel
  obtain ⟨⟨applied, done⟩, _⟩ :=
    apply_of_patch rfl known found held (by decide +kernel) (by decide)
  obtain ⟨block, patch, accepts, _, settled⟩ :=
    (run_accepted_covers enclosed .lines [settle] references).2 request 0 applied rfl done
      (by decide +kernel)
  exact ⟨patches, ⟨applied, done⟩, block, patch, accepts, settled upToDate plain⟩

/-! ## Patches that settle nothing -/

/-- One block and nothing else. -/
def lone : Buffer :=
  ofContent "<<<<<<<\na\n=======\nb\n>>>>>>>" .lines

/-- A reference that has the block, with a line in front of it. -/
def herald : Move :=
  .commit (.heuristic
    ⟨false, [], some ["X", "<<<<<<<", "a", "=======", "b", ">>>>>>>"], false⟩)

/-- The patch puts the line in front of the block. It is accepted for the block, and the block is
still there. -/
theorem lone_stays :
    let buffer := lone.run [herald]
    let request : Request := ⟨1, .patch 0⟩
    buffer.patches = [⟨1, 0, ["X"]⟩] ∧ buffer.locate 1 = some ⟨0, 4⟩ ∧
      (∃ applied, (buffer.apply request).2 = .ok applied) ∧
      (buffer.apply request).1.current = "X" :: buffer.current ∧
      (buffer.apply request).1.locate 1 = some ⟨1, 5⟩ := by
  intro buffer request
  have empty : lone.pool.merged ≠ some ["X", "<<<<<<<", "a", "=======", "b", ">>>>>>>"] := by decide
  have patches : buffer.patches = [⟨1, 0, ["X"]⟩] := by
    refine (patches_commit_report rfl rfl empty).trans ?_
    rw [Patch.fresh_eq_arrange]
    decide +kernel
  have found : buffer.locate 1 = some ⟨0, 4⟩ := by decide +kernel
  have known : numbered? buffer.blocks request.block = some ⟨1, none, 3, 5⟩ := by decide +kernel
  have held : buffer.patches[0]? = some ⟨1, 0, ["X"]⟩ := by
    rw [patches]
    rfl
  obtain ⟨applied, revised⟩ := apply_of_patch rfl known found held (by decide +kernel) (by decide)
  rw [revised]
  exact ⟨patches, found, applied, rfl, by decide +kernel⟩

/-- A reference that has all lines of the block but the start marker and the middle one. -/
def strip : Move :=
  .commit (.heuristic ⟨false, [], some ["a", "b", ">>>>>>>"], false⟩)

/-- The end marker of the block is lost and put back. -/
def mended : Buffer :=
  lone.run [strip, .edit "<<<<<<<\na\n=======\nb\nz" 0, .edit "<<<<<<<\na\n=======\nb\n>>>>>>>" 5]

/-- The patches have been found while there was no block, and are kept although there is one again.
The first of them is accepted for it, takes the start marker away and leaves the other lines. -/
theorem mended_halved :
    let request : Request := ⟨1, .patch 0⟩
    mended.patches = [⟨1, 1, []⟩, ⟨3, 1, []⟩] ∧ mended.locate 1 = some ⟨0, 4⟩ ∧
      (∃ applied, (mended.apply request).2 = .ok applied) ∧
      (mended.apply request).1.current = ["a", "=======", "b", ">>>>>>>"] ∧
      findBlocks (mended.apply request).1.current = [] := by
  intro request
  let next := ["<<<<<<<", "a", "=======", "b", ">>>>>>>"]
  let reference := ["a", "b", ">>>>>>>"]
  let opened := lone.run [strip, .edit "<<<<<<<\na\n=======\nb\nz" 0]
  have merged : (lone.run [strip]).pool.merged = some reference := by decide +kernel
  have before : opened.patches = [⟨1, 1, []⟩, ⟨3, 1, []⟩, ⟨5, 1, [">>>>>>>"]⟩] := by
    change ((lone.run [strip]).revise ["<<<<<<<", "a", "=======", "b", "z"] 0).patches = _
    rw [patches_revise _ _ _ merged, anchor_zero, patchesFrom_zero, Patch.fresh_eq_arrange]
    decide +kernel
  have nothing : Patch.found next reference 5 .lines = [] := by
    rw [Patch.found, Patch.reconcile_eq_arrange (Hunk.laid_between _ _ 5 _) findBlocks_marks
      (findBlocks_pairwise _)]
    decide +kernel
  have anchored : (opened.push next).anchor 5 = 5 := by decide +kernel
  have patches : mended.patches = [⟨1, 1, []⟩, ⟨3, 1, []⟩] := by
    have order : Patch.InOrder opened.patches := run_inOrder _ .lines _
    have stays : opened.pool.merged = some reference := by decide +kernel
    change (opened.revise next 5).patches = _
    rw [patches_revise _ _ _ stays, anchored, patchesFrom_eq order (by decide), before]
    change Patch.kept (Patch.found next reference 5 .lines) _ 5 ++
      Patch.found next reference 5 .lines = _
    rw [nothing]
    decide
  have found : mended.locate 1 = some ⟨0, 4⟩ := by decide +kernel
  have known : numbered? mended.blocks request.block = some ⟨1, none, 3, 5⟩ := by decide +kernel
  have held : mended.patches[0]? = some ⟨1, 1, []⟩ := by
    rw [patches]
    rfl
  obtain ⟨applied, revised⟩ := apply_of_patch rfl known found held (by decide +kernel) (by decide)
  rw [revised]
  exact ⟨patches, found, applied, rfl, by decide +kernel⟩

end Buffer

end MergeConflict
