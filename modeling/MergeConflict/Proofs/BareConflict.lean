import MergeConflict.Label
import MergeConflict.Proofs.BlockAddress
import MergeConflict.Proofs.TextView

/-!
# A conflict written anew from its sides

The sides of a block are the lines between its markers, so with bare markers between them they are
the block's lines again, less what follows the markers on their lines (`conflictLines_sides`).

A side may hold lines that begin with a marker, as long as a scan passes over them where they stand
(`Sides.Readable`). The sides of a block are of this kind, since the scan that has found the block
has passed over them. So a scan of the conflict written from them reports one block, which is the
whole of it (`findBlocks_conflictLines`).

Main statement: `Block.rebuild`.
-/

namespace MergeConflict

/-- No line begins with one of the markers. -/
def Spares (markers : List Marker) (lines : List String) : Prop :=
  ∀ line ∈ lines, ∀ marker ∈ markers, marker.opens line = false

/-- Each side spares the markers that would end it, or the conflict, where it stands. -/
structure Sides.Readable (sides : Sides) : Prop where
  ours : Spares [.start, .base, .mid] sides.ours
  base : ∀ lines ∈ sides.base, Spares [.start, .mid] lines
  theirs : Spares [.start, .stop] sides.theirs

/-- The block that a conflict with these sides and bare markers is. -/
def Sides.conflictBlock (sides : Sides) : Block where
  startLine := 1
  baseLine := sides.base.map fun _ => sides.ours.length + 2
  midLine := sides.ours.length + (sides.base.elim 0 fun base => base.length + 1) + 2
  endLine := sides.ours.length + (sides.base.elim 0 fun base => base.length + 1) +
    sides.theirs.length + 3

/-- Lines from line `line` on, those that carry a marker of the block being cut to the marker. -/
def Block.bareFrom (block : Block) (line : Nat) (lines : List String) : List String :=
  lines.mapIdx fun i text =>
    if line + i ∈ block.markerLines then String.ofList (text.toList.take 7) else text

/-- The lines of a block, those that carry its markers being cut to the marker. -/
def Block.bareLines (block : Block) (lines : List String) : List String :=
  block.bareFrom block.startLine (block.body lines)

variable {sides : Sides} {lines front rest : List String} {markers : List Marker}
  {block : Block} {line last : Nat}

/-! ## Reading the sides -/

/-- Lines that spare all markers a scan heeds leave it where it is. -/
theorem Scan.blocks_spared {scan : Scan} (spares : Spares markers front)
    (stays : ∀ marker ∉ markers, ∀ line, scan.step marker line = (scan, none)) (line : Nat) :
    scan.blocks line (front ++ rest) = scan.blocks (line + front.length) rest := by
  induction front generalizing line with
  | nil => rfl
  | cons text front ih =>
    have later := ih (fun other inside => spares other (List.mem_cons_of_mem _ inside)) (line + 1)
    rw [List.length_cons, Nat.add_comm front.length 1, ← Nat.add_assoc, ← later, List.cons_append]
    cases carries : Marker.ofLine? text with
    | none => rw [Scan.blocks, carries]
    | some marker =>
      refine Scan.blocks_cons carries (stays marker (fun heeded => ?_) line)
      have plain := spares text List.mem_cons_self marker heeded
      rw [Marker.ofLine?_eq_some.1 carries] at plain
      cases plain

theorem length_conflictLines : sides.conflictLines.length =
    sides.ours.length + (sides.base.elim 0 fun base => base.length + 1) +
      sides.theirs.length + 3 := by
  rw [Sides.conflictLines]
  cases sides.base with
  | none =>
    simp only [List.length_append, List.length_cons, List.length_nil, Option.elim_none]
    omega
  | some base =>
    simp only [List.length_append, List.length_cons, List.length_nil, Option.elim_some]
    omega

/-- A scan behind the middle marker reports the block at the end. -/
theorem Scan.blocks_theirs (spares : Spares [.start, .stop] front) (start : Nat)
    (base : Option Nat) (mid line : Nat) :
    (Scan.inTheirs start base mid).blocks line (front ++ [Marker.stop.text]) =
      [⟨start, base, mid, line + front.length⟩] := by
  have carries : Marker.ofLine? Marker.stop.text = some .stop := by decide
  rw [Scan.blocks_spared spares, Scan.blocks, carries]
  · rfl
  · intro marker unheeded line
    cases marker with
    | start => exact absurd List.mem_cons_self unheeded
    | stop => exact absurd (List.mem_cons_of_mem _ List.mem_cons_self) unheeded
    | base => rfl
    | mid => rfl

/-- A scan of a conflict with bare markers reports one block, which is the whole of it. -/
theorem findBlocks_conflictLines (readable : sides.Readable) :
    findBlocks sides.conflictLines = [sides.conflictBlock] := by
  obtain ⟨spareOurs, spareBase, spareTheirs⟩ := readable
  have carries (marker : Marker) : Marker.ofLine? marker.text = some marker := by
    cases marker <;> decide
  have readOurs (rest : List String) : Scan.outside.blocks 1
      (Marker.start.text :: (sides.ours ++ rest)) =
        (Scan.inOurs 1).blocks (2 + sides.ours.length) rest := by
    rw [Scan.blocks_cons (carries .start) rfl, Scan.blocks_spared spareOurs]
    intro marker unheeded line
    cases marker with
    | stop => rfl
    | _ => simp at unheeded
  rw [findBlocks, Sides.conflictBlock, Sides.conflictLines]
  cases held : sides.base with
  | none =>
    simp only [List.append_nil, List.cons_append, List.append_assoc, Option.map_none,
      Option.elim_none]
    rw [readOurs, Scan.blocks_cons (carries .mid) rfl, Scan.blocks_theirs spareTheirs]
    congr 2 <;> omega
  | some base =>
    have stays : ∀ marker ∉ [Marker.start, .mid], ∀ line,
        (Scan.inBase 1 (2 + sides.ours.length)).step marker line =
          (Scan.inBase 1 (2 + sides.ours.length), none) := by
      intro marker unheeded line
      cases marker with
      | base => rfl
      | stop => rfl
      | _ => simp at unheeded
    simp only [List.cons_append, List.append_assoc, Option.map_some, Option.elim_some]
    rw [readOurs, Scan.blocks_cons (carries .base) rfl,
      Scan.blocks_spared (spareBase base held) stays, Scan.blocks_cons (carries .mid) rfl,
      Scan.blocks_theirs spareTheirs]
    congr 2
    · congr 1
      omega
    · omega
    · omega

/-- What stands between two lines of a text. -/
theorem Block.between_of_split (front inside behind : List String) {opening closing : Nat}
    (split : lines = front ++ inside ++ behind) (opens : opening = front.length)
    (closes : closing = front.length + inside.length + 1) :
    between lines opening closing = inside := by
  subst opens closes split
  rw [between, if_pos ⟨by simp, by simp⟩, Nat.add_sub_cancel, ← List.length_append,
    List.take_left, List.drop_left]

/-- The sides of the conflict written from some sides are these. -/
theorem sides_conflictBlock : sides.conflictBlock.sides sides.conflictLines = sides := by
  obtain ⟨ours, base, theirs⟩ := sides
  cases base with
  | none =>
    generalize written : Sides.conflictLines ⟨ours, none, theirs⟩ = lines
    have readOurs : Block.between lines 1 (ours.length + 2) = ours :=
      Block.between_of_split [Marker.start.text] ours
        (Marker.mid.text :: theirs ++ [Marker.stop.text])
        (by simp [← written, Sides.conflictLines]) rfl (by simp; omega)
    have readTheirs : Block.between lines (ours.length + 2) (ours.length + theirs.length + 3) =
        theirs :=
      Block.between_of_split (Marker.start.text :: ours ++ [Marker.mid.text]) theirs
        [Marker.stop.text]
        (by simp [← written, Sides.conflictLines]) (by simp) (by simp; omega)
    exact congrArg₂ (Sides.mk · none ·) readOurs readTheirs
  | some base =>
    generalize written : Sides.conflictLines ⟨ours, some base, theirs⟩ = lines
    have readOurs : Block.between lines 1 (ours.length + 2) = ours :=
      Block.between_of_split [Marker.start.text] ours
        (Marker.base.text :: base ++ Marker.mid.text :: theirs ++ [Marker.stop.text])
        (by simp [← written, Sides.conflictLines]) rfl (by simp; omega)
    have readBase : Block.between lines (ours.length + 2) (ours.length + (base.length + 1) + 2) =
        base :=
      Block.between_of_split (Marker.start.text :: ours ++ [Marker.base.text]) base
        (Marker.mid.text :: theirs ++ [Marker.stop.text])
        (by simp [← written, Sides.conflictLines]) (by simp) (by simp; omega)
    have readTheirs : Block.between lines (ours.length + (base.length + 1) + 2)
        (ours.length + (base.length + 1) + theirs.length + 3) = theirs :=
      Block.between_of_split
        (Marker.start.text :: ours ++ Marker.base.text :: base ++ [Marker.mid.text]) theirs
        [Marker.stop.text]
        (by simp [← written, Sides.conflictLines]) (by simp; omega) (by simp; omega)
    rw [Block.sides, Sides.mk.injEq]
    exact ⟨readOurs, congrArg some readBase, readTheirs⟩

/-! ## The sides of a block -/

/-- The lines between two others, none of them of some kinds. -/
theorem Spares.between {opening closing : Nat}
    (none_in : ∀ marker ∈ markers, firstBetween? lines marker opening closing = none) :
    Spares markers (Block.between lines opening closing) := by
  intro text inside marker heeded
  rw [Block.between] at inside
  split at inside
  · have listed : text ∈ Patch.bufferLines lines (opening + 1) (closing - 1) := inside
    obtain ⟨line, low, high, read⟩ := exists_numbered_of_mem (Nat.succ_pos opening) listed
    have plain := firstBetween?_eq_none_iff.1 (none_in marker heeded) line (by omega) (by omega)
    rwa [opensAt, read] at plain
  · exact (List.not_mem_nil inside).elim

/-- The sides of a block are readable where they stand in its conflict. -/
theorem Block.sides_readable (known : block ∈ findBlocks lines) : (block.sides lines).Readable := by
  have marks := findBlocks_marks block known
  have startMid := marks.start_lt_mid
  have midStop := marks.mid_lt_stop
  obtain ⟨_, _, mid, stop, base⟩ := blockAt?_eq_some_iff.1 (mem_findBlocks_iff.1 known)
  obtain ⟨⟨_, _, _⟩, beforeMid⟩ := firstBetween?_eq_some_iff.1 mid
  obtain ⟨⟨_, inWindow, _⟩, beforeStop⟩ := firstBetween?_eq_some_iff.1 stop
  -- what the scan would have heeded between the markers of the block it has found, it has not met
  have noStart {opening closing : Nat} (low : block.startLine ≤ opening)
      (high : closing ≤ block.endLine) : firstBetween? lines .start opening closing = none :=
    firstBetween?_eq_none_iff.2 fun line above below => by
      have inWindow' : line < windowEnd lines block.startLine := by omega
      exact opensAt_of_lt_windowEnd (by omega) inWindow'
  have noMid {opening closing : Nat} (low : block.startLine ≤ opening)
      (high : closing ≤ block.midLine) : firstBetween? lines .mid opening closing = none :=
    firstBetween?_eq_none_iff.2 fun line above below => beforeMid line (by omega) (by omega)
  have noStop : firstBetween? lines .stop block.midLine block.endLine = none :=
    firstBetween?_eq_none_iff.2 beforeStop
  have noBase : firstBetween? lines .base block.startLine (block.baseLine.getD block.midLine) =
      none := by
    cases based : block.baseLine with
    | none => exact base.trans based
    | some line =>
      rw [based] at base
      exact firstBetween?_eq_none_iff.2 (firstBetween?_eq_some_iff.1 base).2
  have oursEnd : block.baseLine.getD block.midLine ≤ block.midLine := by
    cases based : block.baseLine with
    | none => exact Nat.le_refl _
    | some line => exact Nat.le_of_lt (marks.base_lt_mid line based)
  refine ⟨Spares.between fun marker heeded => ?_, fun side held => ?_,
    Spares.between fun marker heeded => ?_⟩
  · simp only [List.mem_cons, List.not_mem_nil, or_false] at heeded
    rcases heeded with rfl | rfl | rfl
    · exact noStart (Nat.le_refl _) (by omega)
    · exact noBase
    · exact noMid (Nat.le_refl _) oursEnd
  · obtain ⟨line, based, rfl⟩ := Option.map_eq_some_iff.1 held
    have startBase := marks.start_lt_base line based
    refine Spares.between fun marker heeded => ?_
    simp only [List.mem_cons, List.not_mem_nil, or_false] at heeded
    rcases heeded with rfl | rfl
    · exact noStart (by omega) (by omega)
    · exact noMid (by omega) (Nat.le_refl _)
  · simp only [List.mem_cons, List.not_mem_nil, or_false] at heeded
    rcases heeded with rfl | rfl
    · exact noStart (by omega) (Nat.le_refl _)
    · exact noStop

/-! ## The lines of a block -/

theorem Block.between_eq {opening closing : Nat} (apart : opening < closing)
    (inText : closing ≤ lines.length) :
    between lines opening closing = Patch.bufferLines lines (opening + 1) (closing - 1) := by
  rw [between, if_pos ⟨by omega, by omega⟩]
  rfl

/-- A marker line cut to the marker. -/
theorem Marker.take_of_opens {marker : Marker} {text : String} (opens : marker.opens text = true) :
    String.ofList (text.toList.take 7) = marker.text := by
  obtain ⟨behind, rfl⟩ := Marker.opens_iff.1 opens
  have seven : marker.text.toList.length = 7 := by cases marker <;> decide
  rw [String.toList_append, ← seven, List.take_left, String.ofList_toList]

theorem Block.bareFrom_cons (block : Block) (line : Nat) (text : String) (rest : List String) :
    block.bareFrom line (text :: rest) =
      (if line ∈ block.markerLines then String.ofList (text.toList.take 7) else text) ::
        block.bareFrom (line + 1) rest := by
  rw [bareFrom, List.mapIdx_cons, bareFrom, Nat.add_zero]
  simp only [Nat.add_assoc, Nat.add_comm 1]

/-- Lines that carry no marker of the block stay as they are. -/
theorem Block.bareFrom_plain
    (plain : ∀ other, line ≤ other → other < line + front.length → other ∉ block.markerLines) :
    block.bareFrom line (front ++ rest) = front ++ block.bareFrom (line + front.length) rest := by
  induction front generalizing line with
  | nil => rfl
  | cons text front ih =>
    have length : line + (text :: front).length = line + 1 + front.length := by
      rw [List.length_cons]
      omega
    rw [length] at plain ⊢
    rw [List.cons_append, bareFrom_cons, if_neg (plain line (Nat.le_refl _) (by omega)),
      ih fun other low high => plain other (by omega) high, List.cons_append]

/-- From one marker of a block to the next a side is read, and the marker is cut. -/
theorem Block.bareFrom_next {opening closing : Nat} {marker : Marker} (apart : opening < closing)
    (high : closing ≤ last)
    (plain : ∀ line, opening < line → line < closing → line ∉ block.markerLines)
    (marked : closing ∈ block.markerLines) (here : markerAt lines closing = some marker) :
    block.bareFrom (opening + 1) (Patch.bufferLines lines (opening + 1) last) =
      between lines opening closing ++
        marker.text :: block.bareFrom (closing + 1) (Patch.bufferLines lines (closing + 1) last) := by
  have inText : closing ≤ lines.length := markerAt_le here
  obtain ⟨text, read, carries⟩ := Option.bind_eq_some_iff.1 here
  have length : opening + 1 + (between lines opening closing).length = closing := by
    rw [between_eq apart inText, Patch.bufferLines, List.length_drop, List.length_take]
    omega
  rw [bufferLines_at read (Nat.succ_pos _) apart high, ← between_eq apart inText,
    bareFrom_plain (by rwa [length]), length, bareFrom_cons, if_pos marked,
    Marker.take_of_opens (Marker.ofLine?_eq_some.1 carries)]

/-- The conflict written from the sides of a block is the block with its markers cut bare. -/
theorem Block.Marks.conflictLines_sides (marks : block.Marks lines) :
    (block.sides lines).conflictLines = block.bareLines lines := by
  have pos := marks.start_pos
  have startMid := marks.start_lt_mid
  have midStop := marks.mid_lt_stop
  have plain {opening closing : Nat} (low : block.startLine ≤ opening)
      (high : closing ≤ block.endLine)
      (base : ∀ line ∈ block.baseLine, line ≤ opening ∨ closing ≤ line)
      (mid : block.midLine ≤ opening ∨ closing ≤ block.midLine) :
      ∀ line, opening < line → line < closing → line ∉ block.markerLines := by
    intro line above below marked
    rcases mem_markerLines.1 marked with rfl | based | rfl | rfl
    · omega
    · have := base line based
      omega
    · omega
    · omega
  -- the walk through the block goes from one marker to the next, the first time from the line
  -- above it
  have toStart := block.bareFrom_next (Nat.sub_one_lt_of_lt pos)
    (Nat.le_of_lt marks.start_lt_stop) (fun line above below => by omega)
    (mem_markerLines.2 (.inl rfl)) marks.start
  have toStop := block.bareFrom_next midStop (Nat.le_refl block.endLine)
    (plain (by omega) (Nat.le_refl _)
      (fun line based => .inl (Nat.le_of_lt (marks.base_lt_mid line based)))
      (.inl (Nat.le_refl _)))
    (mem_markerLines.2 (.inr (.inr (.inr rfl)))) marks.stop
  rw [between_eq (Nat.sub_one_lt_of_lt pos) (markerAt_le marks.start), Nat.sub_add_cancel pos,
    Patch.bufferLines_eq_nil (Nat.sub_one_lt_of_lt pos), List.nil_append] at toStart
  rw [Patch.bufferLines_eq_nil (Nat.lt_succ_self _)] at toStop
  have toMid {opening : Nat} := @bareFrom_next lines block block.endLine opening block.midLine .mid
  rw [bareLines, body, toStart, Sides.conflictLines]
  cases based : block.baseLine with
  | none =>
    have only : ∀ line ∈ block.baseLine, False := by simp [based]
    rw [toMid startMid (Nat.le_of_lt midStop) (plain (Nat.le_refl _) (Nat.le_of_lt midStop)
        (fun line inside => (only line inside).elim) (.inr (Nat.le_refl _)))
      (mem_markerLines.2 (.inr (.inr (.inl rfl)))) marks.mid, toStop]
    simp [sides, ours, Block.base, theirs, based, bareFrom]
  | some line =>
    have startBase := marks.start_lt_base line based
    have baseMid := marks.base_lt_mid line based
    have only : ∀ other ∈ block.baseLine, other = line := fun other inside =>
      Option.some.inj (Eq.trans (Eq.symm inside) based)
    rw [block.bareFrom_next startBase (by omega) (plain (Nat.le_refl _) (by omega)
          (fun other inside => .inr (Nat.le_of_eq (only other inside).symm)) (by omega))
        (mem_markerLines.2 (.inr (.inl based))) (marks.base line based),
      toMid baseMid (Nat.le_of_lt midStop) (plain (by omega) (by omega)
        (fun other inside => .inl (Nat.le_of_eq (only other inside))) (.inr (Nat.le_refl _)))
      (mem_markerLines.2 (.inr (.inr (.inl rfl)))) marks.mid, toStop]
    simp [sides, ours, Block.base, theirs, based, bareFrom]

/-! ## Written and read again -/

theorem Sides.unbroken_conflictLines (unbroken : ∀ which side, sides.get? which = some side →
    Text.Unbroken side) : Text.Unbroken sides.conflictLines := by
  have bare (marker : Marker) : Text.Unbroken [marker.text] := by
    intro text inside
    rw [List.mem_singleton.1 inside]
    cases marker <;> decide
  have ours := Text.unbroken_append.2 ⟨bare .start, unbroken .ours _ rfl⟩
  have theirs := Text.unbroken_append.2 ⟨bare .mid, unbroken .theirs _ rfl⟩
  have framed {base : List String} (unbroken : Text.Unbroken base) :
      Text.Unbroken (Marker.start.text :: sides.ours ++ base ++
        Marker.mid.text :: sides.theirs ++ [Marker.stop.text]) :=
    Text.unbroken_append.2 ⟨Text.unbroken_append.2
      ⟨Text.unbroken_append.2 ⟨ours, unbroken⟩, theirs⟩, bare .stop⟩
  rw [conflictLines]
  cases held : sides.base with
  | none => exact framed fun _ inside => (List.not_mem_nil inside).elim
  | some lines => exact framed (Text.unbroken_append.2 ⟨bare .base, unbroken .base _ held⟩)

theorem Sides.conflictLines_ne_nil : sides.conflictLines ≠ [] := by
  simp [conflictLines]

/-- The conflict written from the sides of a block of a text has the lines of the block, with the
markers cut bare. Read again it is one block, which is the whole of it and has the same sides. -/
theorem Block.rebuild {lines : List String} (single : Text.Unbroken lines) {block : Block}
    (known : block ∈ findBlocks lines) :
    let rebuilt := Text.splitLines (block.sides lines).conflictText
    (rebuilt = block.bareLines lines ∧ rebuilt.length = block.lineCount) ∧
    ∃ again, findBlocks rebuilt = [again] ∧
      again.startLine = 1 ∧ again.endLine = rebuilt.length ∧
      again.isThreeWay = block.isThreeWay ∧ again.sides rebuilt = block.sides lines := by
  intro rebuilt
  have marks := findBlocks_marks block known
  have written : rebuilt = (block.sides lines).conflictLines :=
    Text.splitLines_joinLines Sides.conflictLines_ne_nil
      (Sides.unbroken_conflictLines fun _ _ held => single.subset (side_subset held))
  have bare : rebuilt = block.bareLines lines := written.trans marks.conflictLines_sides
  refine ⟨⟨bare, ?_⟩, (block.sides lines).conflictBlock, ?_, rfl, ?_, ?_, ?_⟩
  · rw [bare, bareLines, bareFrom, List.length_mapIdx, marks.length_body, lineCount]
  · rw [written, findBlocks_conflictLines (block.sides_readable known)]
  · rw [written, length_conflictLines, Sides.conflictBlock]
  · rw [isThreeWay, isThreeWay, Sides.conflictBlock, sides, Block.base, Option.isSome_map,
      Option.isSome_map]
  · rw [written, sides_conflictBlock]

/-- A three-way block with an end marker on our side, a base marker in the base and a middle marker
on their side, and with words behind its own markers. -/
def crowded : List String :=
  ["head", "<<<<<<< HEAD", "a", ">>>>>>> no end", "||||||| old", "||||||| no base", "=======",
    "======= no middle", "b", ">>>>>>> branch", "tail"]

/-- Written anew, the markers that belong to the sides stay as they are. -/
theorem crowded_rebuilt :
    let block : Block := ⟨2, some 5, 7, 10⟩
    let rebuilt := Text.splitLines (block.sides crowded).conflictText
    rebuilt = ["<<<<<<<", "a", ">>>>>>> no end", "|||||||", "||||||| no base", "=======",
        "======= no middle", "b", ">>>>>>>"] ∧
      ∃ again, findBlocks rebuilt = [again] ∧ again.sides rebuilt = block.sides crowded := by
  intro block rebuilt
  have known : block ∈ findBlocks crowded := by decide +kernel
  have single : Text.Unbroken crowded := by decide +kernel
  obtain ⟨⟨bare, _⟩, again, found, _, _, _, same⟩ := Block.rebuild single known
  exact ⟨bare.trans (by decide +kernel), again, found, same⟩

end MergeConflict
