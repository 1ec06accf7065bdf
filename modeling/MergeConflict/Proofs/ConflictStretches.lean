import MergeConflict.Fingerprint
import MergeConflict.Proofs.BlockLayout
import MergeConflict.Proofs.PatchWeave

/-!
# Scanning a text stretch by stretch

A stretch of lines without markers leaves a scan, and the search for a fingerprint, where they were.
A search looks at the lines from a start marker to the next end marker in one piece (`IsRun`). A
stretch that is one whole conflict (`IsConflict`) is such a run, and a scan reports it as one block.
If every marker line of a text belongs to a block (`Covered`), the text is made of such stretches
only: its blocks are conflicts, and the lines in front of and behind them have no markers
(`Owned.isConflict`, `Owned.unmarked_front`).

Main statements: `length_blocks_weave` counts the blocks of a text in which some blocks have been
replaced, and `exists_lead` finds a block that has not been.
-/

namespace MergeConflict

/-- No line carries a marker. -/
def Unmarked (lines : List String) : Prop :=
  ∀ line ∈ lines, Marker.ofLine? line = none

instance (lines : List String) : Decidable (Unmarked lines) :=
  inferInstanceAs (Decidable (∀ line ∈ lines, Marker.ofLine? line = none))

/-- Read between a start marker and an end marker, the lines open their side and close none. -/
def ReadsToTheirs (lines : List String) : Prop :=
  ∀ start line rest, ∃ base mid, (Scan.inOurs start).blocks line (lines ++ rest) =
    (Scan.inTheirs start base mid).blocks (line + lines.length) rest

/-- The lines are one conflict from its start marker to its end marker. -/
inductive IsConflict : List String → Prop
  | mk {opening closing : String} {inner : List String} :
    Marker.ofLine? opening = some .start → Marker.ofLine? closing = some .stop →
    (∀ line ∈ inner, Marker.ofLine? line ≠ some .stop) → ReadsToTheirs inner →
    IsConflict (opening :: (inner ++ [closing]))

/-- The lines are a start marker line, those down to the next end marker line, and that line. -/
inductive IsRun : List String → Prop
  | mk {opening closing : String} {inner : List String} :
    Marker.start.opens opening = true → Marker.stop.opens closing = true →
    (∀ line ∈ inner, Marker.stop.opens line = false) → IsRun (opening :: (inner ++ [closing]))

/-- Between its ends a run has no end marker. -/
theorem isRun_iff {opening closing : String} {inner : List String} :
    IsRun (opening :: (inner ++ [closing])) ↔ Marker.start.opens opening = true ∧
      Marker.stop.opens closing = true ∧ ∀ line ∈ inner, Marker.stop.opens line = false := by
  constructor
  · intro run
    generalize whole : opening :: (inner ++ [closing]) = body at run
    cases run with
    | mk opens closes held =>
      obtain ⟨rfl, rest⟩ := List.cons.inj whole
      obtain ⟨rfl, last⟩ := List.append_inj' rest rfl
      cases last
      exact ⟨opens, closes, held⟩
  · rintro ⟨opens, closes, held⟩
    exact .mk opens closes held

theorem IsConflict.isRun {body : List String} (conflict : IsConflict body) : IsRun body := by
  cases conflict with
  | mk opens closes held _ =>
    refine .mk (Marker.ofLine?_eq_some.1 opens) (Marker.ofLine?_eq_some.1 closes)
      fun line inside => ?_
    rw [← Bool.not_eq_true, ← Marker.ofLine?_eq_some]
    exact held line inside

/-! ## Stretches of a scan -/

namespace Scan

variable {front rest : List String}

theorem blocks_unmarked (unmarked : Unmarked front) (scan : Scan) (line : Nat) :
    scan.blocks line (front ++ rest) = scan.blocks (line + front.length) rest := by
  induction front generalizing line with
  | nil => rfl
  | cons text front ih =>
    have later := ih (fun other inside => unmarked other (List.mem_cons_of_mem _ inside)) (line + 1)
    rw [List.cons_append, blocks, unmarked text List.mem_cons_self, List.length_cons,
      Nat.add_comm front.length 1, ← Nat.add_assoc]
    exact later

/-- A marker that closes no block moves the scan on. -/
theorem blocks_cons {text : String} {marker : Marker} {scan next : Scan} {line : Nat}
    (carries : Marker.ofLine? text = some marker) (step : scan.step marker line = (next, none)) :
    scan.blocks line (text :: rest) = next.blocks (line + 1) rest := by
  rw [blocks, carries]
  simp only [step]

/-- A conflict is reported as one block. -/
theorem blocks_conflict {body : List String} (conflict : IsConflict body) (line : Nat) :
    ∃ block, outside.blocks line (body ++ rest) =
      block :: outside.blocks (line + body.length) rest := by
  cases conflict with
  | @mk opening closing inner opens closes held reads =>
    obtain ⟨base, mid, read⟩ := reads line (line + 1) (closing :: rest)
    refine ⟨⟨line, base, mid, line + 1 + inner.length⟩, ?_⟩
    rw [List.cons_append, List.append_assoc, blocks_cons opens rfl]
    refine read.trans ?_
    rw [blocks, closes]
    simp only [step, List.length_cons, List.length_append, List.length_nil, Nat.zero_add]
    rw [show line + (inner.length + 1 + 1) = line + 1 + inner.length + 1 by omega]

end Scan

/-! ## Stretches of a search -/

namespace Fingerprint

variable {front rest : List String} {print : Fingerprint}

theorem locateFrom_unmarked (unmarked : Unmarked front) (position : Nat) :
    print.locateFrom position (front ++ rest) =
      print.locateFrom (position + front.length) rest := by
  induction front generalizing position with
  | nil => rfl
  | cons text front ih =>
    have later := ih (fun other inside => unmarked other (List.mem_cons_of_mem _ inside))
      (position + 1)
    have plain : ¬ Marker.start.opens text = true := fun opens => by
      have := unmarked text List.mem_cons_self
      rw [Marker.ofLine?_eq_some.2 opens] at this
      cases this
    rw [List.cons_append, locateFrom, if_neg plain, later, List.length_cons,
      Nat.add_comm front.length 1, ← Nat.add_assoc]

/-- A run is the stretch looked for or is passed over as a whole. -/
theorem locateFrom_run {body : List String} (run : IsRun body) (position : Nat) :
    print.locateFrom position (body ++ rest) =
      if ofLines body = print then some ⟨position, position + body.length - 1⟩
      else print.locateFrom (position + body.length) rest := by
  cases run with
  | @mk opening closing inner opens closes held =>
    have first : ((inner ++ [closing]) ++ rest).findIdx? Marker.stop.opens =
        some inner.length := by
      have front : inner.findIdx? Marker.stop.opens = none := List.findIdx?_eq_none_iff.2 held
      rw [List.append_assoc, List.findIdx?_append, front]
      simp [List.findIdx?_cons, closes]
    have taken : ((inner ++ [closing]) ++ rest).take (inner.length + 1) = inner ++ [closing] := by
      rw [List.take_append_of_le_length (by simp), List.take_of_length_le (by simp)]
    have dropped : ((inner ++ [closing]) ++ rest).drop (inner.length + 1) = rest :=
      List.drop_left' (by simp)
    have length : (opening :: (inner ++ [closing])).length = inner.length + 2 := by simp
    rw [List.cons_append, locateFrom, if_pos opens, first]
    simp only [taken, dropped, length]
    rw [show position + (inner.length + 2) - 1 = position + 1 + inner.length by omega,
      ← Nat.add_assoc]

end Fingerprint

/-! ## Reading a conflict -/

section Reading

variable {ours base theirs : List String} {opening middle : String}

theorem readsToTheirs_two (unmarkedOurs : Unmarked ours)
    (mid : Marker.ofLine? middle = some .mid) (unmarkedTheirs : Unmarked theirs) :
    ReadsToTheirs (ours ++ middle :: theirs) := by
  intro start line rest
  refine ⟨none, line + ours.length, ?_⟩
  rw [List.append_assoc, List.cons_append, Scan.blocks_unmarked unmarkedOurs,
    Scan.blocks_cons mid rfl, Scan.blocks_unmarked unmarkedTheirs]
  congr 1
  simp only [List.length_append, List.length_cons]
  omega

theorem readsToTheirs_three (unmarkedOurs : Unmarked ours)
    (opens : Marker.ofLine? opening = some .base) (unmarkedBase : Unmarked base)
    (mid : Marker.ofLine? middle = some .mid) (unmarkedTheirs : Unmarked theirs) :
    ReadsToTheirs ((ours ++ opening :: base) ++ middle :: theirs) := by
  intro start line rest
  refine ⟨some (line + ours.length), line + ours.length + 1 + base.length, ?_⟩
  rw [List.append_assoc, List.append_assoc, List.cons_append, List.cons_append,
    Scan.blocks_unmarked unmarkedOurs, Scan.blocks_cons opens rfl,
    Scan.blocks_unmarked unmarkedBase, Scan.blocks_cons mid rfl,
    Scan.blocks_unmarked unmarkedTheirs]
  congr 1
  simp only [List.length_append, List.length_cons]
  omega

end Reading

/-! ## The stretches of a text -/

/-- The lines of a block that carry its markers. -/
def Block.markerLines (block : Block) : List Nat :=
  block.startLine :: (block.baseLine.toList ++ [block.midLine, block.endLine])

/-- Every marker from line `cursor` on belongs to one of the blocks. -/
def Owned (lines : List String) (cursor : Nat) (blocks : List Block) : Prop :=
  ∀ line marker, cursor ≤ line → markerAt lines line = some marker →
    ∃ block ∈ blocks, line ∈ block.markerLines

/-- Every marker of a text belongs to one of its blocks. -/
def Covered (lines : List String) : Prop :=
  Owned lines 1 (findBlocks lines)

/-- It is enough to look at the lines that the text has. -/
theorem covered_iff {lines : List String} :
    Covered lines ↔ ∀ line ∈ List.range' 1 lines.length, (markerAt lines line).isSome = true →
      ∃ block ∈ findBlocks lines, line ∈ block.markerLines := by
  constructor
  · intro covered line inside marked
    obtain ⟨marker, here⟩ := Option.isSome_iff_exists.1 marked
    exact covered line marker (List.mem_range'_1.1 inside).1 here
  · intro listed line marker low here
    have high := markerAt_le here
    exact listed line (List.mem_range'_1.2 ⟨low, by omega⟩) (by rw [here]; rfl)

instance (lines : List String) : Decidable (Covered lines) :=
  decidable_of_iff _ covered_iff.symm

variable {lines : List String} {cursor : Nat} {block : Block} {blocks : List Block}

theorem Block.mem_markerLines {line : Nat} :
    line ∈ block.markerLines ↔ line = block.startLine ∨ block.baseLine = some line ∨
      line = block.midLine ∨ line = block.endLine := by
  rw [markerLines, List.mem_cons, List.mem_append, Option.mem_toList, List.mem_pair]

theorem Block.Marks.bounds (marks : block.Marks lines) {line : Nat}
    (inside : line ∈ block.markerLines) : block.startLine ≤ line ∧ line ≤ block.endLine := by
  have := marks.start_lt_mid
  have := marks.mid_lt_stop
  rcases Block.mem_markerLines.1 inside with rfl | base | rfl | rfl
  · omega
  · have := marks.start_lt_base line base
    have := marks.base_lt_mid line base
    omega
  · omega
  · omega

theorem exists_numbered_of_mem {first last : Nat} {text : String} (pos : 0 < first)
    (inside : text ∈ Patch.bufferLines lines first last) :
    ∃ line, first ≤ line ∧ line ≤ last ∧ numbered? lines line = some text := by
  obtain ⟨i, read⟩ := List.mem_iff_getElem?.1 inside
  rw [Patch.bufferLines, List.getElem?_drop, List.getElem?_take] at read
  split at read
  · refine ⟨first + i, by omega, by omega, ?_⟩
    rw [numbered?_eq (by omega), ← read]
    congr 1
    omega
  · cases read

/-- A stretch without marker lines is unmarked. -/
theorem unmarked_bufferLines {first last : Nat} (pos : 0 < first)
    (none_in : ∀ line, first ≤ line → line ≤ last → markerAt lines line = none) :
    Unmarked (Patch.bufferLines lines first last) := by
  intro text inside
  obtain ⟨line, low, high, read⟩ := exists_numbered_of_mem pos inside
  have none_here := none_in line low high
  rwa [markerAt, read] at none_here

/-- A stretch is cut in three at one of its lines. -/
theorem bufferLines_at {first last line : Nat} {text : String}
    (read : numbered? lines line = some text) (pos : 0 < first) (low : first ≤ line)
    (high : line ≤ last) :
    Patch.bufferLines lines first last = Patch.bufferLines lines first (line - 1) ++
      text :: Patch.bufferLines lines (line + 1) last := by
  have single : Patch.bufferLines lines line line = [text] := by
    rw [numbered?_eq (by omega)] at read
    obtain ⟨inside, here⟩ := List.getElem?_eq_some_iff.1 read
    rw [Patch.bufferLines, List.drop_take, List.drop_eq_getElem_cons inside, here,
      show line - (line - 1) = 1 by omega]
    rfl
  have front : Patch.bufferLines lines first (line - 1) ++
      Patch.bufferLines lines (line - 1 + 1) last = _ :=
    Patch.bufferLines_append (by omega) (by omega)
  have back : Patch.bufferLines lines line line ++ Patch.bufferLines lines (line + 1) last = _ :=
    Patch.bufferLines_append (by omega) high
  rw [single] at back
  rw [← front, Nat.sub_add_cancel (by omega), ← back]
  rfl

/-- Between two marker lines of a block that owns the markers in its lines there is no marker. -/
theorem Block.unmarked_between {first last : Nat}
    (own : ∀ line marker, block.startLine ≤ line → line ≤ block.endLine →
      markerAt lines line = some marker → line ∈ block.markerLines)
    (low : block.startLine < first) (high : last < block.endLine)
    (base : ∀ line ∈ block.baseLine, line < first ∨ last < line)
    (mid : block.midLine < first ∨ last < block.midLine) :
    Unmarked (Patch.bufferLines lines first last) := by
  refine unmarked_bufferLines (by omega) fun line above below => ?_
  by_contra marked
  obtain ⟨marker, here⟩ := Option.ne_none_iff_exists'.1 marked
  rcases Block.mem_markerLines.1 (own line marker (by omega) (by omega) here) with
    rfl | based | rfl | rfl
  · omega
  · have := base line based
    omega
  · omega
  · omega

/-- The lines of a block are its start marker, the lines between, and its end marker. -/
theorem Block.Marks.exists_bufferLines (marks : block.Marks lines) : ∃ opening closing,
    Marker.ofLine? opening = some .start ∧ Marker.ofLine? closing = some .stop ∧
      Patch.bufferLines lines block.startLine block.endLine = opening ::
        (Patch.bufferLines lines (block.startLine + 1) (block.endLine - 1) ++ [closing]) := by
  have pos := marks.start_pos
  have startStop := marks.start_lt_stop
  obtain ⟨opening, readStart, opens⟩ := Option.bind_eq_some_iff.1 marks.start
  obtain ⟨closing, readStop, closes⟩ := Option.bind_eq_some_iff.1 marks.stop
  refine ⟨opening, closing, opens, closes, ?_⟩
  rw [bufferLines_at readStart pos (Nat.le_refl _) (by omega), Patch.bufferLines_empty,
    bufferLines_at readStop (by omega) (by omega) (Nat.le_refl _),
    Patch.bufferLines_eq_nil (Nat.lt_succ_self block.endLine)]
  rfl

/-- A block that owns the markers in its lines is one conflict. -/
theorem Block.Marks.isConflict (marks : block.Marks lines)
    (own : ∀ line marker, block.startLine ≤ line → line ≤ block.endLine →
      markerAt lines line = some marker → line ∈ block.markerLines) :
    IsConflict (Patch.bufferLines lines block.startLine block.endLine) := by
  have startMid := marks.start_lt_mid
  have midStop := marks.mid_lt_stop
  obtain ⟨middle, readMid, mid⟩ := Option.bind_eq_some_iff.1 marks.mid
  obtain ⟨opening, closing, opens, closes, whole⟩ := marks.exists_bufferLines
  rw [whole]
  refine .mk opens closes (fun text inside stops => ?_) ?_
  · obtain ⟨line, low, high, read⟩ := exists_numbered_of_mem (by omega) inside
    have here : markerAt lines line = some .stop := by rw [markerAt, read]; exact stops
    rcases Block.mem_markerLines.1 (own line .stop (by omega) (by omega) here) with
      rfl | base | rfl | rfl
    · omega
    · cases here.symm.trans (marks.base line base)
    · cases here.symm.trans marks.mid
    · omega
  · rw [bufferLines_at readMid (by omega) (by omega) (by omega)]
    have theirs : Unmarked (Patch.bufferLines lines (block.midLine + 1) (block.endLine - 1)) :=
      block.unmarked_between own (by omega) (by omega)
        (fun line base => .inl (Nat.lt_succ_of_lt (marks.base_lt_mid line base))) (by omega)
    cases based : block.baseLine with
    | none =>
      refine readsToTheirs_two (block.unmarked_between own (by omega) (by omega)
        (fun line base => ?_) (by omega)) mid theirs
      rw [based] at base
      cases base
    | some base =>
      have startBase := marks.start_lt_base base based
      have baseMid := marks.base_lt_mid base based
      obtain ⟨opening, readBase, opens⟩ := Option.bind_eq_some_iff.1 (marks.base base based)
      have only : ∀ line ∈ block.baseLine, line = base := fun line other =>
        Option.some.inj (other.symm.trans based)
      rw [bufferLines_at readBase (by omega) (by omega) (by omega)]
      refine readsToTheirs_three (block.unmarked_between own (by omega) (by omega)
          (fun line other => ?_) (by omega)) opens
        (block.unmarked_between own (by omega) (by omega)
          (fun line other => ?_) (by omega)) mid theirs
      · rw [only line other]
        omega
      · rw [only line other]
        omega

namespace Owned

/-- In front of the first of the blocks there is no marker. -/
theorem unmarked_front (owned : Owned lines cursor (block :: blocks)) (pos : 0 < cursor)
    (marks : ∀ other ∈ block :: blocks, other.Marks lines)
    (apart : (block :: blocks).Pairwise fun a b => a.endLine < b.startLine) :
    Unmarked (Patch.bufferLines lines cursor (block.startLine - 1)) := by
  have startPos := (marks block List.mem_cons_self).start_pos
  have startStop := (marks block List.mem_cons_self).start_lt_stop
  refine unmarked_bufferLines pos fun line low high => ?_
  by_contra marked
  obtain ⟨marker, here⟩ := Option.ne_none_iff_exists'.1 marked
  obtain ⟨other, inside, member⟩ := owned line marker low here
  have bounds := (marks other inside).bounds member
  rcases List.mem_cons.1 inside with rfl | later
  · omega
  · have := (List.pairwise_cons.1 apart).1 other later
    omega

/-- The markers behind the first of the blocks belong to the others. -/
theorem tail (owned : Owned lines cursor (block :: blocks)) (low : cursor ≤ block.startLine)
    (marks : block.Marks lines) : Owned lines (block.endLine + 1) blocks := by
  have startStop := marks.start_lt_stop
  intro line marker behind here
  obtain ⟨other, inside, member⟩ := owned line marker (by omega) here
  rcases List.mem_cons.1 inside with rfl | later
  · have := (marks.bounds member).2
    omega
  · exact ⟨other, later, member⟩

/-- The first of the blocks is a conflict. -/
theorem isConflict (owned : Owned lines cursor (block :: blocks)) (low : cursor ≤ block.startLine)
    (marks : ∀ other ∈ block :: blocks, other.Marks lines)
    (apart : (block :: blocks).Pairwise fun a b => a.endLine < b.startLine) :
    IsConflict (Patch.bufferLines lines block.startLine block.endLine) := by
  refine (marks block List.mem_cons_self).isConflict fun line marker above below here => ?_
  obtain ⟨other, inside, member⟩ := owned line marker (by omega) here
  rcases List.mem_cons.1 inside with rfl | later
  · exact member
  · have := (List.pairwise_cons.1 apart).1 other later
    have := ((marks other inside).bounds member).1
    omega

/-- Behind the last block there is no marker. -/
theorem unmarked_rest (owned : Owned lines cursor []) (pos : 0 < cursor) :
    Unmarked (lines.drop (cursor - 1)) := by
  have rest : Patch.bufferLines lines cursor lines.length = lines.drop (cursor - 1) := by
    rw [Patch.bufferLines, List.take_length]
  rw [← rest]
  refine unmarked_bufferLines pos fun line low high => ?_
  by_contra marked
  obtain ⟨marker, here⟩ := Option.ne_none_iff_exists'.1 marked
  obtain ⟨other, inside, _⟩ := owned line marker low here
  cases inside

end Owned

/-! ## Texts in which blocks have been replaced -/

/-- The lines of a text that some patches leave standing carry no markers. -/
def Leads (lines : List String) : Nat → List Patch → Prop
  | cursor, [] => Unmarked (lines.drop (cursor - 1))
  | cursor, patch :: rest =>
    Unmarked (Patch.bufferLines lines cursor (patch.start - 1)) ∧ Leads lines patch.stop rest

/-- The blocks of a patched text are the conflicts among the lines written. -/
theorem length_blocks_weave {α : Type} {items : List α} {patch : α → Patch} {pending : α → Bool}
    (leads : Leads lines cursor (items.map patch))
    (texts : ∀ item ∈ items,
      if pending item then IsConflict (patch item).newLines else Unmarked (patch item).newLines)
    (line : Nat) :
    (Scan.outside.blocks line (Patch.weave lines cursor (items.map patch))).length =
      items.countP pending := by
  induction items generalizing cursor line with
  | nil =>
    have none_left : Scan.outside.blocks line (lines.drop (cursor - 1) ++ []) = [] :=
      Scan.blocks_unmarked leads .outside line
    rw [List.append_nil] at none_left
    exact congrArg List.length none_left
  | cons item items ih =>
    obtain ⟨lead, leads⟩ := leads
    have written := texts item List.mem_cons_self
    have later := ih leads fun other inside => texts other (List.mem_cons_of_mem _ inside)
    rw [List.map_cons, Patch.weave, Scan.blocks_unmarked lead]
    cases waits : pending item with
    | true =>
      rw [if_pos waits] at written
      obtain ⟨block, reported⟩ := Scan.blocks_conflict written
        (line + (Patch.bufferLines lines cursor ((patch item).start - 1)).length)
      rw [reported, List.length_cons, later, List.countP_cons_of_pos waits]
    | false =>
      rw [if_neg (by simp [waits])] at written
      rw [Scan.blocks_unmarked written, later, List.countP_cons_of_neg (by simp [waits])]

/-- What stands in front of one of the patches does not depend on the lines that patch writes, and a
search for a fingerprint passes it over, if none of the conflicts in it has the fingerprint. -/
theorem exists_lead {front behind : List Patch} {patch : Patch} {print : Fingerprint}
    (leads : Leads lines cursor (front ++ patch :: behind))
    (texts : ∀ other ∈ front, Unmarked other.newLines ∨
      IsConflict other.newLines ∧ Fingerprint.ofLines other.newLines ≠ print) :
    ∃ lead,
      (∀ text, Patch.weave lines cursor (front ++ { patch with newLines := text } :: behind) =
        lead ++ (text ++ Patch.weave lines patch.stop behind)) ∧
      ∀ position rest, print.locateFrom position (lead ++ rest) =
        print.locateFrom (position + lead.length) rest := by
  induction front generalizing cursor with
  | nil =>
    obtain ⟨lead, _⟩ := leads
    exact ⟨_, fun text => rfl, fun position rest => Fingerprint.locateFrom_unmarked lead position⟩
  | cons other front ih =>
    obtain ⟨lead, leads⟩ := leads
    obtain ⟨inner, woven, passed⟩ :=
      ih leads fun later inside => texts later (List.mem_cons_of_mem _ inside)
    refine ⟨Patch.bufferLines lines cursor (other.start - 1) ++ (other.newLines ++ inner),
      fun text => ?_, fun position rest => ?_⟩
    · rw [List.cons_append, Patch.weave, woven, List.append_assoc, List.append_assoc]
    · rw [List.append_assoc, List.append_assoc, Fingerprint.locateFrom_unmarked lead]
      rcases texts other List.mem_cons_self with plain | ⟨conflict, differs⟩
      · rw [Fingerprint.locateFrom_unmarked plain, passed]
        simp only [List.length_append, Nat.add_assoc]
      · rw [Fingerprint.locateFrom_run conflict.isRun, if_neg differs, passed]
        simp only [List.length_append, Nat.add_assoc]

end MergeConflict
