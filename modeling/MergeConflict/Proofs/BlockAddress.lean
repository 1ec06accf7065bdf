import MergeConflict.Proofs.ApplyOutcome
import MergeConflict.Proofs.MarkerRuns
import MergeConflict.Proofs.TextLines

/-!
# Where the number of a block leads

A block is asked for by its number and looked for by the fingerprint of its text. Blocks with one
text are one and the same to a search: it answers for each of them with the first that it comes to
(`FirstCopy`, `locate_eq_some_iff_firstCopy`). So the numbers of a text lead to the blocks they
belong to exactly if no block that a search comes to has its text a second time, and exactly then no
two numbers lead to one place.

That the answer is a block at all rests on two facts: a stretch with the text of a block is a block
(`exists_block_of_copy`), and no other stretch shares the block's fingerprint (`CollisionFree`).

Main statement: `prepare_loaded_iff`.
-/

namespace MergeConflict

/-- The positions of a block's lines, its markers included. -/
def Block.interval (block : Block) : Interval :=
  ⟨block.startLine - 1, block.endLine - 1⟩

/-- A search comes to the block's own lines. -/
def Block.Visited (lines : List String) (block : Block) : Prop :=
  Visits lines (lines.take (block.startLine - 1)) (block.body lines)

/-- Of the blocks with the text of `own`, the search comes to `block` first. -/
structure FirstCopy (lines : List String) (own block : Block) : Prop where
  known : block ∈ findBlocks lines
  body : block.body lines = own.body lines
  visited : block.Visited lines
  first : ∀ other ∈ findBlocks lines, other.startLine < block.startLine → other.Visited lines →
    other.body lines ≠ own.body lines

/-- No block that the search comes to has its text a second time. -/
def ToldApart (lines : List String) : Prop :=
  ∀ block ∈ findBlocks lines, block.Visited lines →
    ∀ other ∈ findBlocks lines, other.body lines = block.body lines → other = block

/-- A stretch from a start marker to an end marker with another text than a block has another
fingerprint. -/
def CollisionFree (lines : List String) : Prop :=
  ∀ block ∈ findBlocks lines, ∀ start ∈ List.range' 1 lines.length,
    ∀ stop ∈ List.range' 1 lines.length, start < stop →
      opensAt lines .start start = true → opensAt lines .stop stop = true →
        Text.joinLines (Patch.bufferLines lines start stop) ≠ Text.joinLines (block.body lines) →
          Fingerprint.ofLines (Patch.bufferLines lines start stop) ≠
            Fingerprint.ofLines (block.body lines)

instance (lines : List String) : Decidable (CollisionFree lines) :=
  inferInstanceAs (Decidable (∀ block ∈ findBlocks lines, _))

/-- No stretch of `current` from a start marker to an end marker has the fingerprint of a block of
`loaded` without having its text. -/
def CollisionFreeIn (loaded current : List String) : Prop :=
  ∀ block ∈ findBlocks loaded, ∀ start ∈ List.range' 1 current.length,
    ∀ stop ∈ List.range' 1 current.length, start < stop →
      opensAt current .start start = true → opensAt current .stop stop = true →
        Text.joinLines (Patch.bufferLines current start stop) ≠
            Text.joinLines (block.body loaded) →
          Fingerprint.ofLines (Patch.bufferLines current start stop) ≠
            Fingerprint.ofLines (block.body loaded)

instance (loaded current : List String) : Decidable (CollisionFreeIn loaded current) :=
  inferInstanceAs (Decidable (∀ block ∈ findBlocks loaded, _))

variable {lines front run : List String} {own block other : Block} {at' : Interval}

/-! ## Copies of a block -/

theorem bufferLines_of_split {behind : List String} (split : front ++ run ++ behind = lines) :
    Patch.bufferLines lines (front.length + 1) (front.length + run.length) = run := by
  rw [Patch.bufferLines, Nat.add_sub_cancel, ← split, ← List.length_append, List.take_left,
    List.drop_left]

theorem Block.Marks.length_body (marks : block.Marks lines) :
    (block.body lines).length = block.endLine + 1 - block.startLine := by
  have := marks.start_pos
  have := marks.stop_le
  rw [Block.body, Patch.bufferLines, List.length_drop, List.length_take]
  omega

theorem Block.Marks.body_getElem? (marks : block.Marks lines) {line : Nat}
    (low : block.startLine ≤ line) (high : line ≤ block.endLine) :
    (block.body lines)[line - block.startLine]? = numbered? lines line := by
  have pos := marks.start_pos
  rw [Block.body, Patch.bufferLines, List.getElem?_drop, List.getElem?_take, if_pos (by omega),
    numbered?_eq (by omega)]
  congr 1
  omega

section Copy

variable {current : List String} (copy : front ++ block.body lines <+: current)

include copy

/-- The lines of a copy carry the markers that the lines of the block do. -/
theorem Block.Marks.opensAt_copy (marks : block.Marks lines) {line : Nat} (low : block.startLine ≤ line)
    (high : line ≤ block.endLine) (marker : Marker) :
    opensAt current marker (front.length + 1 + (line - block.startLine)) =
      opensAt lines marker line := by
  obtain ⟨behind, split⟩ := copy
  have length := marks.length_body
  have read : numbered? current (front.length + 1 + (line - block.startLine)) =
      (block.body lines)[line - block.startLine]? := by
    rw [numbered?_eq (by omega)]
    conv_lhs => rw [← split]
    rw [List.append_assoc, List.getElem?_append_right (by omega),
      List.getElem?_append_left (by omega)]
    congr 1
    omega
  rw [opensAt, opensAt, read, marks.body_getElem? low high]

/-- What a block holds in front of a line, its copy does too. -/
theorem Block.Marks.firstBetween?_copy (marks : block.Marks lines) {marker : Marker} {low line : Nat}
    (above : block.startLine ≤ low) (below : line ≤ block.endLine)
    (passed : low < line ∧ opensAt lines marker line = true ∧
      ∀ earlier, low < earlier → earlier < line → opensAt lines marker earlier = false) :
    firstBetween? current marker (front.length + 1 + (low - block.startLine))
        (front.length + (block.body lines).length + 1) =
      some (front.length + 1 + (line - block.startLine)) := by
  obtain ⟨after, opens, before⟩ := passed
  have length := marks.length_body
  refine firstBetween?_eq_some_iff.2 ⟨⟨by omega, by omega, ?_⟩, fun earlier above' below' => ?_⟩
  · rw [marks.opensAt_copy copy (by omega) below, opens]
  · have inside := before (earlier - (front.length + 1) + block.startLine) (by omega) (by omega)
    rw [← marks.opensAt_copy copy (by omega) (by omega)] at inside
    rw [← inside]
    congr 1
    omega

/-- A stretch with the lines of a block is a block, in whatever text it stands. -/
theorem exists_block_of_copy (known : block ∈ findBlocks lines) :
    ∃ other ∈ findBlocks current, other.startLine = front.length + 1 ∧
      other.endLine = front.length + (block.body lines).length ∧
      other.body current = block.body lines := by
  have marks := findBlocks_marks block known
  have length := marks.length_body
  have startMid := marks.start_lt_mid
  have midStop := marks.mid_lt_stop
  obtain ⟨opens, _, mid, stop, _⟩ := blockAt?_eq_some_iff.1 (mem_findBlocks_iff.1 known)
  obtain ⟨⟨_, _, opensMid⟩, beforeMid⟩ := firstBetween?_eq_some_iff.1 mid
  obtain ⟨⟨_, inWindow, opensStop⟩, beforeStop⟩ := firstBetween?_eq_some_iff.1 stop
  have inText : front.length + (block.body lines).length ≤ current.length := by
    rw [← List.length_append]
    exact copy.length_le
  -- the copy's window reaches at least to the end of the copy
  have reaches : front.length + (block.body lines).length + 1 ≤
      windowEnd current (front.length + 1) := by
    refine le_windowEnd (by omega) (firstBetween?_eq_none_iff.2 fun line above below => ?_)
    have clear := opensAt_of_lt_windowEnd
      (show block.startLine < line - (front.length + 1) + block.startLine by omega)
      (show _ < windowEnd lines block.startLine by omega)
    rw [← marks.opensAt_copy copy (by omega) (by omega)] at clear
    rw [← clear]
    congr 1
    omega
  have begins := marks.opensAt_copy copy (Nat.le_refl _) (by omega) .start
  have hasMid := marks.firstBetween?_copy copy (Nat.le_refl _) (by omega)
    ⟨startMid, opensMid, beforeMid⟩
  have hasStop := marks.firstBetween?_copy copy (Nat.le_of_lt startMid) (Nat.le_refl _)
    ⟨midStop, opensStop, beforeStop⟩
  rw [Nat.sub_self, Nat.add_zero] at begins hasMid
  refine ⟨⟨front.length + 1,
      firstBetween? current .base (front.length + 1)
        (front.length + 1 + (block.midLine - block.startLine)),
      front.length + 1 + (block.midLine - block.startLine),
      front.length + 1 + (block.endLine - block.startLine)⟩,
    mem_findBlocks_iff.2 (blockAt?_eq_some_iff.2 ⟨begins.trans opens, rfl,
      firstBetween?_mono reaches hasMid, firstBetween?_mono reaches hasStop, rfl⟩), rfl, ?_, ?_⟩
  · simp only
    omega
  · have last : front.length + 1 + (block.endLine - block.startLine) =
        front.length + (block.body lines).length := by
      omega
    obtain ⟨behind, split⟩ := copy
    simp only [Block.body, last] at split ⊢
    exact bufferLines_of_split split

end Copy

theorem eq_of_startLine_eq (known : block ∈ findBlocks lines) (known' : other ∈ findBlocks lines)
    (same : block.startLine = other.startLine) : block = other := by
  have found := mem_findBlocks_iff.1 known
  rw [same, mem_findBlocks_iff.1 known'] at found
  exact (Option.some.inj found).symm

theorem eq_of_interval_eq (known : block ∈ findBlocks lines) (known' : other ∈ findBlocks lines)
    (same : block.interval = other.interval) : block = other := by
  have pos := (findBlocks_marks block known).start_pos
  have pos' := (findBlocks_marks other known').start_pos
  have first := congrArg Interval.first same
  refine eq_of_startLine_eq known known' ?_
  simp only [Block.interval] at first
  omega

theorem FirstCopy.unique (isFirst : FirstCopy lines own block)
    (isFirst' : FirstCopy lines own other) : block = other := by
  rcases Nat.lt_trichotomy block.startLine other.startLine with before | same | behind
  · exact (isFirst'.first block isFirst.known before isFirst.visited isFirst.body).elim
  · exact eq_of_startLine_eq isFirst.known isFirst'.known same
  · exact (isFirst.first other isFirst'.known behind isFirst'.visited isFirst'.body).elim

/-! ## What a search answers -/

/-- A search answers no later than with a run that it comes to. -/
theorem Fingerprint.le_of_locate {print : Fingerprint} (visits : Visits lines front run)
    (same : ofLines run = print) (found : print.locate lines = some at') :
    at'.first ≤ front.length := by
  obtain ⟨⟨behind, rfl⟩, closed, isRun⟩ := visits
  rw [locate, List.append_assoc, locateFrom_append closed, locateFrom_run isRun, if_pos same] at found
  cases early : print.locateFrom 0 front with
  | none =>
    rw [early, Option.none_or, Option.some.injEq] at found
    exact found ▸ Nat.le_of_eq (Nat.zero_add _)
  | some earlier =>
    rw [early, Option.some_or, Option.some.injEq] at found
    obtain ⟨inner, run', ⟨⟨rest, split⟩, _, _⟩, _, place⟩ := exists_visits_of_locateFrom early
    have := congrArg List.length split
    simp only [List.length_append] at this
    rw [← found, place]
    simp only
    omega

/-- A run begins with a start marker and ends with an end marker. -/
theorem Visits.ends (visits : Visits lines front run) :
    opensAt lines .start (front.length + 1) = true ∧
      opensAt lines .stop (front.length + run.length) = true ∧ 2 ≤ run.length := by
  obtain ⟨⟨behind, split⟩, _, isRun⟩ := visits
  cases isRun with
  | @mk opening closing inner opens closes _ =>
    have length : front.length + (opening :: (inner ++ [closing])).length =
        (front ++ opening :: inner).length + 1 := by
      simp only [List.length_append, List.length_cons, List.length_nil]
      omega
    have first : numbered? lines (front.length + 1) = some opening := by
      rw [← split]
      simp [numbered?]
    have last : numbered? lines ((front ++ opening :: inner).length + 1) = some closing := by
      rw [← split]
      simp [numbered?]
    refine ⟨?_, ?_, by simp⟩
    · rw [opensAt, first]
      exact opens
    · rw [opensAt, length, last]
      exact closes

/-- A run that a search comes to has the text of a block if it has the block's fingerprint. -/
theorem Visits.joinLines_eq {current : List String} (visits : Visits current front run)
    (free : CollisionFreeIn lines current) (known : own ∈ findBlocks lines)
    (same : Fingerprint.ofLines run = Fingerprint.ofLines (own.body lines)) :
    Text.joinLines run = Text.joinLines (own.body lines) := by
  obtain ⟨behind, split⟩ := visits.isPrefix
  have whole := bufferLines_of_split split
  have inText : front.length + run.length ≤ current.length := by
    rw [← List.length_append]
    exact List.IsPrefix.length_le ⟨behind, split⟩
  obtain ⟨opens, closes, filled⟩ := visits.ends
  by_contra different
  have apart := free own known (front.length + 1) (List.mem_range'_1.2 ⟨by omega, by omega⟩)
    (front.length + run.length) (List.mem_range'_1.2 ⟨by omega, by omega⟩) (by omega) opens closes
  rw [whole] at apart
  exact apart different same

/-- What is found for a block is a run with the block's text. -/
theorem exists_run_of_locate {current : List String} (free : CollisionFreeIn lines current)
    (known : own ∈ findBlocks lines)
    (found : (Fingerprint.ofLines (own.body lines)).locate current = some at') :
    ∃ front run, Visits current front run ∧
      Text.joinLines run = Text.joinLines (own.body lines) ∧
      at' = ⟨front.length, front.length + run.length - 1⟩ := by
  obtain ⟨front, run, visits, same, place⟩ := Fingerprint.exists_visits_of_locateFrom found
  rw [Nat.zero_add] at place
  exact ⟨front, run, visits, visits.joinLines_eq free known same, place⟩

/-- Where no line has a newline in it, what is found for a block is a run with the block's lines. -/
theorem exists_visits_of_locate {current : List String} (free : CollisionFreeIn lines current)
    (single : ∀ line ∈ lines, '\n' ∉ line.toList) (single' : ∀ line ∈ current, '\n' ∉ line.toList)
    (known : own ∈ findBlocks lines)
    (found : (Fingerprint.ofLines (own.body lines)).locate current = some at') :
    ∃ front, Visits current front (own.body lines) ∧
      at' = ⟨front.length, front.length + (own.body lines).length - 1⟩ := by
  obtain ⟨front, run, visits, same, place⟩ := exists_run_of_locate free known found
  obtain ⟨behind, split⟩ := visits.isPrefix
  obtain ⟨_, _, filled⟩ := visits.ends
  have marks := findBlocks_marks own known
  have length := marks.length_body
  have startStop := marks.start_lt_stop
  have bodyInfix : own.body lines <:+: lines :=
    (List.drop_suffix _ _).isInfix.trans (List.take_prefix _ _).isInfix
  have runInfix : run <:+: current := ⟨front, behind, split⟩
  have copied : run = own.body lines :=
    Text.joinLines_inj (List.ne_nil_of_length_pos (by omega)) (List.ne_nil_of_length_pos (by omega))
      (fun text inside => single' text (runInfix.subset inside))
      (fun text inside => single text (bodyInfix.subset inside)) same
  subst copied
  exact ⟨front, visits, place⟩

/-- A search for a block answers with the block of that text that it comes to first, if it comes to
one. -/
theorem locate_eq_some_iff_firstCopy (free : CollisionFree lines)
    (single : ∀ line ∈ lines, '\n' ∉ line.toList) (known : own ∈ findBlocks lines) :
    (Fingerprint.ofLines (own.body lines)).locate lines = some at' ↔
      ∃ block, FirstCopy lines own block ∧ at' = block.interval := by
  have answers : ∀ {at' : Interval},
      (Fingerprint.ofLines (own.body lines)).locate lines = some at' →
        ∃ block, FirstCopy lines own block ∧ at' = block.interval := by
    intro at' found
    obtain ⟨front, visits, place⟩ := exists_visits_of_locate free single single known found
    obtain ⟨block, isBlock, startLine, endLine, body⟩ := exists_block_of_copy visits.isPrefix known
    have reached : block.Visited lines := by
      obtain ⟨behind, split⟩ := visits.isPrefix
      have before : lines.take (block.startLine - 1) = front := by
        rw [startLine, Nat.add_sub_cancel, ← split, List.append_assoc, List.take_left]
      rw [Block.Visited, before, body]
      exact visits
    refine ⟨block, ⟨isBlock, body, reached, fun other isOther before visited same => ?_⟩, ?_⟩
    · have least := Fingerprint.le_of_locate visited (congrArg _ same) found
      have pos := (findBlocks_marks other isOther).start_pos
      rw [place, List.length_take] at least
      simp only at least
      omega
    · rw [place, Block.interval, startLine, endLine, Nat.add_sub_cancel]
  constructor
  · exact answers
  · rintro ⟨block, isFirst, rfl⟩
    obtain ⟨found, reached⟩ := Option.isSome_iff_exists.1
      (Fingerprint.isSome_locate_iff.2 ⟨_, _, isFirst.visited, congrArg _ isFirst.body⟩)
    obtain ⟨other, isFirst', rfl⟩ := answers reached
    rw [reached, isFirst.unique isFirst']

/-! ## The numbers of a text just loaded -/

theorem exists_number_of_mem (known : block ∈ findBlocks lines) :
    ∃ number, numbered? (findBlocks lines) number = some block := by
  obtain ⟨i, read⟩ := List.mem_iff_getElem?.1 known
  exact ⟨i + 1, read⟩

/-- A block has one number. -/
theorem number_unique {number number' : Nat}
    (known : numbered? (findBlocks lines) number = some block)
    (known' : numbered? (findBlocks lines) number' = some block) : number = number' := by
  have distinct : (findBlocks lines).Nodup := by
    refine (findBlocks_pairwise lines).imp_of_mem fun {a b} isBlock _ before same => ?_
    have := (findBlocks_marks a isBlock).start_lt_stop
    rw [← same] at before
    omega
  have pos := numbered?_pos known
  have pos' := numbered?_pos known'
  have inside := numbered?_le known
  rw [numbered?_eq pos] at known
  rw [numbered?_eq pos'] at known'
  have same := (List.getElem?_inj (show number - 1 < _ by omega) distinct).1
    (known.trans known'.symm)
  omega

namespace Buffer

variable {text : String} {algorithm : Algorithm}

theorem prepare_loaded_eq_ok_iff (free : CollisionFree (Text.splitLines text)) {request : Request}
    (known : numbered? (findBlocks (Text.splitLines text)) request.block = some own) :
    ((ofContent text algorithm).prepare request).2 = .ok at' ↔
      ∃ block, FirstCopy (Text.splitLines text) own block ∧ at' = block.interval := by
  have isBlock := mem_of_numbered? known
  rw [prepare_ok_iff, ← locate_eq_some_iff_firstCopy free
    (fun _ => Text.notMem_of_mem_splitLines) isBlock,
    ← FingerprintIndex.locate_ofBlocks known]
  exact and_iff_right ⟨own, known⟩

theorem eq_interval_of_toldApart (free : CollisionFree (Text.splitLines text))
    (apart : ToldApart (Text.splitLines text)) {request : Request}
    (known : numbered? (findBlocks (Text.splitLines text)) request.block = some own)
    (prepared : ((ofContent text algorithm).prepare request).2 = .ok at') : at' = own.interval := by
  obtain ⟨block, isFirst, rfl⟩ := (prepare_loaded_eq_ok_iff free known).1 prepared
  rw [apart block isFirst.known isFirst.visited own (mem_of_numbered? known) isFirst.body.symm]

/-- All blocks with the text of a block that the search comes to are found at one place. -/
theorem exists_shared_place (free : CollisionFree (Text.splitLines text))
    (visited : block.Visited (Text.splitLines text)) :
    ∃ at', ∀ number choice other,
      numbered? (findBlocks (Text.splitLines text)) number = some other →
        other.body (Text.splitLines text) = block.body (Text.splitLines text) →
          ((ofContent text algorithm).prepare ⟨number, choice⟩).2 = .ok at' := by
  obtain ⟨at', reached⟩ := Option.isSome_iff_exists.1
    (Fingerprint.isSome_locate_iff.2 ⟨_, _, visited, rfl⟩)
  refine ⟨at', fun number choice other known same => ?_⟩
  have named : numbered? (findBlocks (Text.splitLines text)) (⟨number, choice⟩ : Request).block =
      some other := known
  rw [prepare_loaded_eq_ok_iff free named, ← locate_eq_some_iff_firstCopy free
    (fun _ => Text.notMem_of_mem_splitLines) (mem_of_numbered? known), same, reached]

/-- What a choice applied to a text just loaded replaces. -/
theorem apply_loaded (free : CollisionFree (Text.splitLines text)) {request : Request}
    {applied : Applied} (done : ((ofContent text algorithm).apply request).2 = .ok applied) :
    ∃ own block resolved, numbered? (findBlocks (Text.splitLines text)) request.block = some own ∧
      FirstCopy (Text.splitLines text) own block ∧
      (ofContent text algorithm).pool.resolve (ofContent text algorithm).setting request.block
        request.choice = .ok resolved ∧
      ((ofContent text algorithm).apply request).1.current = Patch.splice (Text.splitLines text)
        block.interval.first block.interval.lineCount resolved.lines := by
  obtain ⟨targeted, resolved, resolves⟩ := exists_apply_iff.1 ⟨applied, done⟩
  obtain ⟨at', prepared, reaches⟩ :=
    (exists_target_iff fun _ held => (List.not_mem_nil held).elim).1 targeted
  obtain ⟨⟨own, known⟩, located⟩ := prepare_ok_iff.1 prepared
  obtain ⟨block, isFirst, rfl⟩ := (prepare_loaded_eq_ok_iff free known).1 prepared
  have direct : ∀ index, request.choice ≠ .patch index := by
    intro index chosen
    rw [chosen] at reaches
    obtain ⟨patch, held, _⟩ := reaches
    cases held
  have named : (ofContent text algorithm).block request.block = .ok own := by
    rw [Buffer.block, known]
  obtain ⟨revised, _⟩ := apply_of_located direct named located resolves
  refine ⟨own, block, resolved, known, isFirst, resolves, ?_⟩
  rw [revised]
  rfl

/-- Directly after loading, a block given by number is looked for and found where the first block of
its text is that a search comes to. The numbers lead to the blocks they belong to exactly if no
block that the search comes to has its text a second time, and exactly then no two numbers lead to
one place. A choice that is applied replaces the lines found. -/
theorem prepare_loaded_iff (text : String) (algorithm : Algorithm)
    (free : CollisionFree (Text.splitLines text)) :
    let lines := Text.splitLines text
    let buffer := ofContent text algorithm
    (∀ request own at', numbered? (findBlocks lines) request.block = some own →
      ((buffer.prepare request).2 = .ok at' ↔
        ∃ block, FirstCopy lines own block ∧ at' = block.interval)) ∧
    ((∀ request own at', numbered? (findBlocks lines) request.block = some own →
      (buffer.prepare request).2 = .ok at' → at' = own.interval) ↔ ToldApart lines) ∧
    ((∀ first second at', first.block ≠ second.block → (buffer.prepare first).2 = .ok at' →
      (buffer.prepare second).2 ≠ .ok at') ↔ ToldApart lines) ∧
    ∀ request applied, (buffer.apply request).2 = .ok applied →
      ∃ own block resolved, numbered? (findBlocks lines) request.block = some own ∧
        FirstCopy lines own block ∧
        buffer.pool.resolve buffer.setting request.block request.choice = .ok resolved ∧
        (buffer.apply request).1.current =
          Patch.splice lines block.interval.first block.interval.lineCount resolved.lines := by
  intro lines buffer
  refine ⟨fun request own at' known => prepare_loaded_eq_ok_iff free known,
    ⟨fun own_always block known visited other isOther same => ?_,
      fun apart request own at' known => eq_interval_of_toldApart free apart known⟩,
    ⟨fun distinct block known visited other isOther same => ?_, fun apart => ?_⟩,
    fun request applied => apply_loaded free⟩
  · obtain ⟨at', answers⟩ := exists_shared_place free visited
    obtain ⟨number, named⟩ := exists_number_of_mem known
    obtain ⟨number', named'⟩ := exists_number_of_mem isOther
    have place : at' = block.interval :=
      own_always ⟨number, .side .ours⟩ block at' named (answers _ _ block named rfl)
    have place' : at' = other.interval :=
      own_always ⟨number', .side .ours⟩ other at' named' (answers _ _ other named' same)
    exact eq_of_interval_eq isOther known (place'.symm.trans place)
  · obtain ⟨at', answers⟩ := exists_shared_place free visited
    obtain ⟨number, named⟩ := exists_number_of_mem known
    obtain ⟨number', named'⟩ := exists_number_of_mem isOther
    by_contra different
    refine distinct ⟨number, .side .ours⟩ ⟨number', .side .ours⟩ at' (fun equal => different ?_)
      (answers _ _ block named rfl) (answers _ _ other named' same)
    rw [show number = number' from equal, named'] at named
    exact Option.some.inj named
  · intro first second at' different prepared prepared'
    obtain ⟨⟨own, known⟩, _⟩ := prepare_ok_iff.1 prepared
    obtain ⟨⟨own', known'⟩, _⟩ := prepare_ok_iff.1 prepared'
    have place := eq_interval_of_toldApart free apart known prepared
    have place' := eq_interval_of_toldApart free apart known' prepared'
    have same := eq_of_interval_eq (mem_of_numbered? known) (mem_of_numbered? known')
      (place.symm.trans place')
    subst same
    exact different (number_unique known known')

/-- One conflict twice. -/
def twins : String :=
  "<<<<<<<\na\n=======\nb\n>>>>>>>\n<<<<<<<\na\n=======\nb\n>>>>>>>"

/-- The number of the second twin leads to the first. -/
theorem prepare_twins : CollisionFree (Text.splitLines twins) ∧
    ((ofContent twins .lines).prepare ⟨2, .side .theirs⟩).2 = .ok ⟨0, 4⟩ := by
  have free : CollisionFree (Text.splitLines twins) := by decide +kernel
  have known : ⟨1, none, 3, 5⟩ ∈ findBlocks (Text.splitLines twins) := by decide +kernel
  have isFirst : FirstCopy (Text.splitLines twins) ⟨6, none, 8, 10⟩ ⟨1, none, 3, 5⟩ := by
    refine ⟨known, by decide +kernel, ⟨by decide +kernel, trivial, ?_⟩, fun other isOther before => ?_⟩
    · exact (isRun_body_iff known).2 (by decide +kernel)
    · exact absurd before (Nat.not_lt.2 (findBlocks_marks other isOther).start_pos)
  exact ⟨free, ((prepare_loaded_iff twins .lines free).1 ⟨2, .side .theirs⟩ ⟨6, none, 8, 10⟩ ⟨0, 4⟩
    (by decide +kernel)).2 ⟨_, isFirst, rfl⟩⟩

/-- Where one conflict stands twice, choosing for the second replaces the first. -/
theorem twins_apply_first :
    findBlocks (Text.splitLines twins) = [⟨1, none, 3, 5⟩, ⟨6, none, 8, 10⟩] ∧
      ((ofContent twins .lines).prepare ⟨2, .side .theirs⟩).2 = .ok ⟨0, 4⟩ ∧
      ((ofContent twins .lines).apply ⟨2, .side .theirs⟩).1.content =
        "b\n<<<<<<<\na\n=======\nb\n>>>>>>>" :=
  ⟨by decide +kernel, by decide +kernel, by decide +kernel⟩

end Buffer

end MergeConflict
