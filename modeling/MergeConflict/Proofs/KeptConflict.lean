import MergeConflict.Proofs.GivenLines
import MergeConflict.Proofs.Relocation

/-!
# A conflict that is kept

The label for keeping a conflict writes it anew from its sides, with bare markers, and applying it
puts the block's lines back with the markers cut bare. What stands there is one block again, so a
scan still counts it. But a block is looked for by the fingerprint of its lines as they were loaded,
and what followed the markers on their lines is not in the sides. So the block is found there
afterwards exactly if its markers had been bare from the first; otherwise only another copy of it,
behind its place, is found in its stead.

Main statement: `run_kept_conflict`.
-/

namespace MergeConflict

/-- Each marker line of a block is the marker and nothing else. -/
def Block.Bare (block : Block) (lines : List String) : Prop :=
  ∀ line ∈ block.markerLines, ∃ marker : Marker, numbered? lines line = some marker.text

variable {lines front behind : List String} {block own : Block} {at' : Interval}

/-! ## Markers cut bare -/

theorem Block.Marks.exists_opens (marks : block.Marks lines) {line : Nat}
    (inside : line ∈ block.markerLines) :
    ∃ text marker, numbered? lines line = some text ∧ Marker.opens marker text = true := by
  have carried : ∃ marker, markerAt lines line = some marker := by
    rcases mem_markerLines.1 inside with rfl | based | rfl | rfl
    · exact ⟨_, marks.start⟩
    · exact ⟨_, marks.base line based⟩
    · exact ⟨_, marks.mid⟩
    · exact ⟨_, marks.stop⟩
  obtain ⟨marker, here⟩ := carried
  obtain ⟨text, read, carries⟩ := Option.bind_eq_some_iff.1 here
  exact ⟨text, marker, read, Marker.ofLine?_eq_some.1 carries⟩

theorem Block.Marks.length_bareLines (marks : block.Marks lines) :
    (block.bareLines lines).length = block.lineCount := by
  rw [bareLines, bareFrom, List.length_mapIdx, marks.length_body, lineCount]

/-- A line of a block with its markers cut bare. -/
theorem Block.Marks.bareLines_getElem? (marks : block.Marks lines) {line : Nat}
    (low : block.startLine ≤ line) (high : line ≤ block.endLine) :
    (block.bareLines lines)[line - block.startLine]? = (numbered? lines line).map fun text =>
      if line ∈ block.markerLines then String.ofList (text.toList.take 7) else text := by
  rw [bareLines, bareFrom, List.getElem?_mapIdx, marks.body_getElem? low high,
    Nat.add_sub_cancel' low]

/-- Cutting the markers of a block bare leaves it as it is exactly if they are. -/
theorem Block.Marks.bareLines_eq_body_iff (marks : block.Marks lines) :
    block.bareLines lines = block.body lines ↔ block.Bare lines := by
  constructor
  · intro same line inside
    obtain ⟨low, high⟩ := marks.bounds inside
    obtain ⟨text, marker, read, opens⟩ := marks.exists_opens inside
    have cut := marks.bareLines_getElem? low high
    rw [same, marks.body_getElem? low high, read, Option.map_some, if_pos inside,
      Marker.take_of_opens opens] at cut
    exact ⟨marker, read.trans cut⟩
  · intro bare
    refine List.ext_getElem? fun i => ?_
    rcases Nat.lt_or_ge i block.lineCount with within | beyond
    · have count : block.lineCount = block.endLine + 1 - block.startLine := rfl
      have cut := marks.bareLines_getElem? (Nat.le_add_right block.startLine i) (by omega)
      have kept := marks.body_getElem? (Nat.le_add_right block.startLine i) (by omega)
      rw [Nat.add_sub_cancel_left] at cut kept
      rw [cut, kept]
      by_cases inside : block.startLine + i ∈ block.markerLines
      · obtain ⟨marker, read⟩ := bare _ inside
        have opens : marker.opens marker.text = true := by cases marker <;> decide
        rw [read, Option.map_some, if_pos inside, Marker.take_of_opens opens]
      · simp only [if_neg inside, Option.map_id']
    · rw [List.getElem?_eq_none (marks.length_bareLines.trans_le beyond),
        List.getElem?_eq_none (marks.length_body.trans_le beyond)]

/-- With its markers cut bare a block is closed. -/
theorem Block.Marks.closed_bareLines (marks : block.Marks lines) :
    Closed (block.bareLines lines) := by
  rw [← marks.conflictLines_sides, Sides.conflictLines]
  exact closed_concat (by decide)

/-- Wherever a block is put with its markers cut bare, a scan reports a block that it is the whole
of. -/
theorem exists_block_of_bareLines (known : own ∈ findBlocks lines) (front behind : List String) :
    ∃ again ∈ findBlocks (front ++ own.bareLines lines ++ behind),
      again.startLine = front.length + 1 ∧ again.endLine = front.length + own.lineCount ∧
      again.body (front ++ own.bareLines lines ++ behind) = own.bareLines lines := by
  have marks := findBlocks_marks own known
  have written := marks.conflictLines_sides
  have alone : (own.sides lines).conflictBlock ∈ findBlocks (own.sides lines).conflictLines := by
    rw [findBlocks_conflictLines (own.sides_readable known)]
    exact List.mem_singleton_self _
  have whole : (own.sides lines).conflictBlock.body (own.sides lines).conflictLines =
      own.bareLines lines := by
    rw [Block.body, Patch.bufferLines, Sides.conflictBlock, ← length_conflictLines,
      List.take_length, Nat.sub_self, List.drop_zero, written]
  have copied : front ++ (own.sides lines).conflictBlock.body (own.sides lines).conflictLines <+:
      front ++ own.bareLines lines ++ behind := by
    rw [whole]
    exact List.prefix_append _ _
  obtain ⟨again, inside, startLine, endLine, body⟩ := exists_block_of_copy copied alone
  rw [whole] at endLine body
  exact ⟨again, inside, startLine, marks.length_bareLines ▸ endLine, body⟩

/-- The lines of a conflict with bare markers can be read again. -/
theorem Block.unbroken_bareLines (single : Text.Unbroken lines) (known : own ∈ findBlocks lines) :
    Text.Unbroken (own.bareLines lines) := by
  rw [← (findBlocks_marks own known).conflictLines_sides]
  exact Sides.unbroken_conflictLines fun _ _ held => single.subset (Block.side_subset held)

/-- What is kept of a block are its lines with the markers cut bare. -/
theorem Block.splitLines_keep (single : Text.Unbroken lines) (known : own ∈ findBlocks lines)
    {content : String} (built : Label.keep.apply (own.sides lines) = .resolved content) :
    Text.splitLines content = own.bareLines lines := by
  have unbroken := own.unbroken_bareLines single known
  rw [← (findBlocks_marks own known).conflictLines_sides] at unbroken ⊢
  cases built
  exact Text.splitLines_joinLines Sides.conflictLines_ne_nil unbroken

/-! ## Looking for the block -/

/-- In its own lines with the markers cut bare a block is found exactly if the markers are bare and
no end marker stands in front of the middle one. -/
theorem isSome_locate_bareLines_iff
    (free : CollisionFreeIn lines (front ++ own.bareLines lines ++ behind)) (closed : Closed front)
    (single : Text.Unbroken lines) (known : own ∈ findBlocks lines) :
    ((Fingerprint.ofLines (own.body lines)).locate (own.bareLines lines)).isSome = true ↔
      own.Bare lines ∧ firstBetween? lines .stop own.startLine own.midLine = none := by
  have marks := findBlocks_marks own known
  have count : (own.body lines).length = (own.bareLines lines).length :=
    marks.length_body.trans marks.length_bareLines.symm
  rw [Fingerprint.isSome_locate_iff, ← marks.bareLines_eq_body_iff, ← isRun_body_iff known]
  constructor
  · rintro ⟨inner, run, ⟨⟨rest, split⟩, closedInner, isRun⟩, same⟩
    have visits : Visits (front ++ own.bareLines lines ++ behind) (front ++ inner) run :=
      ⟨⟨rest ++ behind, by rw [← split]; simp only [List.append_assoc]⟩,
        closed.append closedInner, isRun⟩
    have unbroken := own.unbroken_bareLines single known
    have bodyInfix : own.body lines <:+: lines :=
      (List.drop_suffix _ _).isInfix.trans (List.take_prefix _ _).isInfix
    obtain ⟨_, _, filled⟩ := visits.ends
    have startStop := marks.start_lt_stop
    have length := marks.length_body
    have copied : run = own.body lines := by
      refine Text.joinLines_inj (List.ne_nil_of_length_pos (by omega))
        (List.ne_nil_of_length_pos (by omega)) (unbroken.subset ?_)
        (single.subset bodyInfix.subset) (visits.joinLines_eq free known same)
      exact List.IsInfix.subset ⟨inner, rest, split⟩
    subst copied
    -- the run has as many lines as all of them, so there are none in front of it
    have lengths := congrArg List.length split
    rw [List.length_append, List.length_append, ← count] at lengths
    have noFront : inner = [] := List.eq_nil_of_length_eq_zero (by omega)
    have noRest : rest = [] := List.eq_nil_of_length_eq_zero (by omega)
    rw [noFront, noRest, List.nil_append, List.append_nil] at split
    exact ⟨split.symm, isRun⟩
  · rintro ⟨same, isRun⟩
    exact ⟨[], own.body lines, ⟨by rw [same]; exact List.prefix_rfl, trivial, isRun⟩, rfl⟩

/-- If that is so, all of the lines are found. -/
theorem locate_bareLines (known : own ∈ findBlocks lines) (bare : own.Bare lines)
    (noStop : firstBetween? lines .stop own.startLine own.midLine = none) :
    (Fingerprint.ofLines (own.body lines)).locate (own.bareLines lines) =
      some ⟨0, own.lineCount - 1⟩ := by
  have marks := findBlocks_marks own known
  have isRun := (isRun_body_iff known).2 noStop
  have here : (Fingerprint.ofLines (own.body lines)).locateFrom 0 (own.body lines ++ []) = _ :=
    Fingerprint.locateFrom_run isRun 0
  rw [List.append_nil, if_pos rfl, marks.length_body, Nat.zero_add] at here
  rw [marks.bareLines_eq_body_iff.2 bare]
  exact here

namespace Fingerprint

variable {print : Fingerprint}

/-- What is found stands behind closed lines in which nothing is found. -/
theorem exists_front_of_locate (found : print.locate lines = some at') :
    Closed (lines.take at'.first) ∧ print.locate (lines.take at'.first) = none := by
  obtain ⟨front, run, ⟨⟨behind, rfl⟩, closed, isRun⟩, same, rfl⟩ :=
    exists_visits_of_locateFrom found
  have taken : (front ++ run ++ behind).take (0 + front.length) = front := by
    rw [Nat.zero_add, List.append_assoc, List.take_left]
  simp only [taken]
  refine ⟨closed, ?_⟩
  by_contra early
  obtain ⟨place, early⟩ := Option.ne_none_iff_exists'.1 early
  rw [locate, List.append_assoc, locateFrom_append closed, ← locate, early, Option.some_or,
    Option.some.injEq] at found
  have := within_of_locate early
  have := congrArg Interval.first found
  simp only at this
  omega

/-- A search in other lines put behind a closed front that holds nothing of what is looked for. -/
theorem locate_behind {middle : List String} (closed : Closed front)
    (none_front : print.locate front = none) (closedMiddle : Closed middle) (rest : List String) :
    print.locate (front ++ middle ++ rest) =
      ((print.locate middle).map fun place => place.down front.length).or
        ((print.locate rest).map fun place => place.down (front.length + middle.length)) := by
  have moved := @locateFrom_add middle print 0 front.length
  have moved' := @locateFrom_add rest print 0 (front.length + middle.length)
  rw [locate] at none_front
  rw [locate, List.append_assoc, locateFrom_append closed, locateFrom_append closedMiddle,
    none_front, Option.none_or, Nat.add_assoc, moved, moved']
  rfl

end Fingerprint

/-! ## Keeping a conflict in a buffer -/

namespace Buffer

variable {buffer : Buffer} {algorithm : Algorithm} {number : Nat}

/-- A choice other than a patch is applied exactly if its block is found and there is something to
put in. -/
theorem exists_apply_iff_of_direct {choice : Choice} (direct : ∀ index, choice ≠ .patch index)
    (known : numbered? buffer.blocks number = some own)
    (offers : buffer.pool.Offers buffer.setting number choice) :
    (∃ applied, (buffer.apply ⟨number, choice⟩).2 = .ok applied) ↔
      (buffer.locate number).isSome = true := by
  constructor
  · intro done
    obtain ⟨⟨⟨_, _⟩, targeted⟩, _⟩ := exists_apply_iff.1 done
    obtain ⟨at', prepared, _⟩ := exists_place_of_target targeted
    exact Option.isSome_iff_exists.2 ⟨at', (prepare_ok_iff.1 prepared).2⟩
  · intro found
    obtain ⟨at', found⟩ := Option.isSome_iff_exists.1 found
    have known' : numbered? buffer.setting.blocks number = some own := known
    obtain ⟨resolved, resolves⟩ := (Pool.exists_resolve_iff known' choice).2 offers
    exact (apply_of_resolves direct known found ⟨resolved, resolves, rfl⟩).1

/-- What is offered for a block, a patch apart, is so for any text and any patches. -/
theorem offers_revise {choice : Choice} (direct : ∀ index, choice ≠ .patch index)
    (next : List String) (hint : Nat) :
    (buffer.revise next hint).pool.Offers (buffer.revise next hint).setting number choice ↔
      buffer.pool.Offers buffer.setting number choice := by
  cases choice with
  | patch index => exact absurd rfl (direct index)
  | side which => cases which <;> rfl
  | _ => rfl

/-- Keeping a block that is found puts its lines in its place, with the markers cut bare. -/
theorem apply_keep (rooted : buffer.Rooted lines algorithm) (single : Text.Unbroken lines)
    (known : numbered? (findBlocks lines) number = some own)
    (found : buffer.locate number = some at') {confidence : Binary64} {content : String}
    (held : buffer.pool.label? number = some ⟨.keep, confidence, content⟩)
    (built : Label.keep.apply (own.sides lines) = .resolved content) :
    (∃ applied, (buffer.apply ⟨number, .classifier⟩).2 = .ok applied) ∧
      (buffer.apply ⟨number, .classifier⟩).1 = buffer.revise
        (Patch.splice buffer.current at'.first at'.lineCount (own.bareLines lines))
        (at'.first + 1) := by
  have known' : numbered? buffer.blocks number = some own := rooted.blocks ▸ known
  have resolves : ∃ resolved, buffer.pool.resolve buffer.setting number .classifier =
      .ok resolved ∧ resolved.lines = Text.splitLines content :=
    Pool.exists_resolve_of_held known' (by rw [Pool.held?, held]; rfl)
  rw [own.splitLines_keep single (mem_of_numbered? known) built] at resolves
  have direct : ∀ index, Choice.classifier ≠ .patch index := by
    intro index
    exact Choice.noConfusion
  exact apply_of_resolves direct known' found resolves

/-- The text around a block that is found, with other lines in its place. -/
theorem splice_of_locate (found : buffer.locate number = some at') (middle : List String) :
    (buffer.current.take at'.first).length = at'.first ∧
      Patch.splice buffer.current at'.first at'.lineCount middle =
        buffer.current.take at'.first ++ middle ++ buffer.current.drop (at'.last + 1) := by
  have bounds : at'.first ≤ at'.last ∧ at'.last < buffer.current.length :=
    FingerprintIndex.within_of_locate found
  have past : at'.first + at'.lineCount = at'.last + 1 := by
    rw [Interval.lineCount]
    omega
  exact ⟨List.length_take_of_le (by omega), by rw [Patch.splice, past]⟩

/-- With its lines in its place cut bare, a block is found there or behind. -/
theorem locate_kept {after : Buffer} {behind : List String} (rooted : buffer.Rooted lines algorithm)
    (rooted' : after.Rooted lines algorithm)
    (known : numbered? (findBlocks lines) number = some own)
    (found : buffer.locate number = some at')
    (current : after.current = buffer.current.take at'.first ++ own.bareLines lines ++ behind) :
    after.locate number =
      (((Fingerprint.ofLines (own.body lines)).locate (own.bareLines lines)).map
        fun place => place.down at'.first).or
      (((Fingerprint.ofLines (own.body lines)).locate behind).map
        fun place => place.down (at'.first + own.lineCount)) := by
  have marks := findBlocks_marks own (mem_of_numbered? known)
  have front := (splice_of_locate found []).1
  rw [rooted.locate_eq known] at found
  obtain ⟨closed, none_front⟩ := Fingerprint.exists_front_of_locate found
  rw [rooted'.locate_eq known, current,
    Fingerprint.locate_behind closed none_front marks.closed_bareLines, front,
    marks.length_bareLines]

/-- Whatever has happened before, keeping a block that is found is applied, puts the block's lines
back with the markers cut bare, and leaves one block there that is counted as outstanding. If the
markers are bare in the file, and no end marker stands in front of the middle one, the block is
found where it was. If no other stretch has the block's fingerprint, it is found exactly then, or if
a copy of it is found behind its place; and any choice that there is for it, other than a patch, can
be applied exactly if it is found. -/
theorem run_kept_conflict (text : String) (algorithm : Algorithm) (moves : List Move)
    {number : Nat} {own : Block} {at' : Interval} {confidence : Binary64} {content : String}
    (known : numbered? (findBlocks (Text.splitLines text)) number = some own)
    (found : ((ofContent text algorithm).run moves).locate number = some at')
    (held : ((ofContent text algorithm).run moves).pool.label? number =
      some ⟨.keep, confidence, content⟩)
    (built : Label.keep.apply (own.sides (Text.splitLines text)) = .resolved content) :
    let lines := Text.splitLines text
    let before := (ofContent text algorithm).run moves
    let after := (before.apply ⟨number, .classifier⟩).1
    let behind := before.current.drop (at'.last + 1)
    ((∃ applied, (before.apply ⟨number, .classifier⟩).2 = .ok applied) ∧
      after.current = before.current.take at'.first ++ own.bareLines lines ++ behind) ∧
    (∃ again ∈ after.outstanding, again.startLine = at'.first + 1 ∧
      again.endLine = at'.first + own.lineCount ∧
      again.body after.current = own.bareLines lines) ∧
    (own.Bare lines → firstBetween? lines .stop own.startLine own.midLine = none →
      after.locate number = some ⟨at'.first, at'.first + own.lineCount - 1⟩) ∧
    (CollisionFreeIn lines after.current →
      ((after.locate number).isSome = true ↔
        (own.Bare lines ∧ firstBetween? lines .stop own.startLine own.midLine = none) ∨
          ((Fingerprint.ofBlock lines own).locate behind).isSome = true)) ∧
    ∀ choice, (∀ index, choice ≠ .patch index) →
      before.pool.Offers before.setting number choice →
      ((∃ applied, (after.apply ⟨number, choice⟩).2 = .ok applied) ↔
        (after.locate number).isSome = true) := by
  intro lines before after behind
  have rooted : before.Rooted lines algorithm := run_rooted _ algorithm moves
  have inside : own ∈ findBlocks lines := mem_of_numbered? known
  have single : Text.Unbroken lines := (Text.ofText_splitLines text).2
  have marks := findBlocks_marks own inside
  obtain ⟨applied, revised⟩ := apply_keep rooted single known found held built
  have after_eq : after = before.revise (Patch.splice before.current at'.first at'.lineCount
      (own.bareLines lines)) (at'.first + 1) := revised
  have rooted' : after.Rooted lines algorithm := by
    rw [after_eq]
    exact rooted.revise _ _
  obtain ⟨front, spliced⟩ := splice_of_locate found (own.bareLines lines)
  have current : after.current =
      before.current.take at'.first ++ own.bareLines lines ++ behind := by
    rw [after_eq]
    exact spliced
  have searched := locate_kept rooted rooted' known found current
  refine ⟨⟨applied, current⟩, ?_, fun bare noStop => ?_, fun free => ?_,
    fun choice direct offers => ?_⟩
  · obtain ⟨again, reported, startLine, endLine, body⟩ :=
      exists_block_of_bareLines inside (before.current.take at'.first) behind
    rw [← current] at reported body
    rw [front] at startLine endLine
    exact ⟨again, rooted'.outstanding ▸ reported, startLine, endLine, body⟩
  · have startStop := marks.start_lt_stop
    have filled : 0 < own.lineCount := Nat.sub_pos_of_lt (by omega)
    rw [searched, locate_bareLines inside bare noStop, Option.map_some, Option.some_or,
      Interval.down, Nat.zero_add, Nat.add_sub_assoc filled, Nat.add_comm]
  · have closed := (Fingerprint.exists_front_of_locate (rooted.locate_eq known ▸ found)).1
    rw [current] at free
    rw [searched, Option.isSome_or, Option.isSome_map, Option.isSome_map, Bool.or_eq_true,
      isSome_locate_bareLines_iff free closed single inside, marks.fingerprint]
  · have known' : numbered? after.blocks number = some own := rooted'.blocks ▸ known
    refine exists_apply_iff_of_direct direct known' ?_
    rw [after_eq]
    exact (offers_revise direct _ _).2 offers

/-- A conflict with bare markers that an edit has moved down by a line. -/
def movedBare : Buffer :=
  (ofContent "h\n<<<<<<<\na\n=======\nb\n>>>>>>>" .lines).run
    [.edit "new\nh\n<<<<<<<\na\n=======\nb\n>>>>>>>" 1,
      .commit (.label 1 ⟨.keep, .zero, "<<<<<<<\na\n=======\nb\n>>>>>>>"⟩)]

/-- It is kept, found where it was, and their side can be taken after all. -/
theorem movedBare_kept :
    movedBare.locate 1 = some ⟨2, 6⟩ ∧
      (movedBare.apply ⟨1, .classifier⟩).1.locate 1 = some ⟨2, 6⟩ ∧
      ∃ applied, ((movedBare.apply ⟨1, .classifier⟩).1.apply ⟨1, .side .theirs⟩).2 =
        .ok applied := by
  have known : numbered? (findBlocks (Text.splitLines "h\n<<<<<<<\na\n=======\nb\n>>>>>>>")) 1 =
      some ⟨2, none, 4, 6⟩ := by decide +kernel
  have found : movedBare.locate 1 = some ⟨2, 6⟩ := by decide +kernel
  have held : movedBare.pool.label? 1 =
      some ⟨.keep, .zero, "<<<<<<<\na\n=======\nb\n>>>>>>>"⟩ := by decide +kernel
  have built : Label.keep.apply ((⟨2, none, 4, 6⟩ : Block).sides
      (Text.splitLines "h\n<<<<<<<\na\n=======\nb\n>>>>>>>")) =
      .resolved "<<<<<<<\na\n=======\nb\n>>>>>>>" := by decide +kernel
  obtain ⟨_, _, again, _, later⟩ := run_kept_conflict _ .lines _ known found held built
  have bare : (⟨2, none, 4, 6⟩ : Block).Bare
      (Text.splitLines "h\n<<<<<<<\na\n=======\nb\n>>>>>>>") := by
    intro line inside
    have listed : line = 2 ∨ line = 4 ∨ line = 6 := by simpa [Block.markerLines] using inside
    rcases listed with rfl | rfl | rfl
    · exact ⟨.start, by decide +kernel⟩
    · exact ⟨.mid, by decide +kernel⟩
    · exact ⟨.stop, by decide +kernel⟩
  have kept := again bare (by decide +kernel)
  exact ⟨found, kept, (later (.side .theirs) nofun trivial).2 (by rw [kept]; rfl)⟩

/-- A conflict as a merge writes it, with names behind its outer markers. -/
def named : Buffer :=
  ((ofContent "<<<<<<< HEAD\na\n=======\nb\n>>>>>>> topic" .lines).commit
    (.label 1 ⟨.keep, .zero, "<<<<<<<\na\n=======\nb\n>>>>>>>"⟩)).1

/-- Keeping it takes the names away, and with them the block: it is still counted as outstanding,
and no choice finds it any more. -/
theorem named_lost :
    Label.keep.apply ((⟨1, none, 3, 5⟩ : Block).sides named.loaded) =
        .resolved "<<<<<<<\na\n=======\nb\n>>>>>>>" ∧
      named.locate 1 = some ⟨0, 4⟩ ∧
      (named.apply ⟨1, .classifier⟩).1.content = "<<<<<<<\na\n=======\nb\n>>>>>>>" ∧
      (named.apply ⟨1, .classifier⟩).1.outstanding = [⟨1, none, 3, 5⟩] ∧
      (named.apply ⟨1, .classifier⟩).1.locate 1 = none ∧
      ((named.apply ⟨1, .classifier⟩).1.apply ⟨1, .side .ours⟩).2.toOption = none := by
  decide +kernel

end Buffer

end MergeConflict
