import MergeConflict.Proofs.BlockLayout

/-!
# Which blocks a text has

A start marker has a window: the lines behind it down to the next start marker, or down to the end
of the text. It opens a block exactly if the window holds a middle marker and, behind the first of
them, an end marker; the block's lines are the first ones of their kind (`blockAt?`). All other
markers are content.

A scan passes each line once and remembers the start marker it has seen last. `Scan.Reads` says what
it knows of that marker's window so far, and `Scan.due` is the block that is still to come from it.
One step either leaves the block due or reports it (`Scan.Reads.step`), so what is left to be
reported are the block due and those of the start markers ahead (`Scan.blocks_eq`).

Main statements: `findBlocks_eq_filterMap` and, block by block, `mem_findBlocks_iff`.
-/

namespace MergeConflict

/-- The line with a number begins with a marker's text. -/
def opensAt (lines : List String) (marker : Marker) (line : Nat) : Bool :=
  (numbered? lines line).any marker.opens

/-- The first line strictly between two others that begins with a marker's text. -/
def firstBetween? (lines : List String) (marker : Marker) (low high : Nat) : Option Nat :=
  (List.range' (low + 1) (high - low - 1)).find? (opensAt lines marker)

/-- The next line behind a start marker that is one too, or else the one past the last line. -/
def windowEnd (lines : List String) (start : Nat) : Nat :=
  (firstBetween? lines .start start (lines.length + 1)).getD (lines.length + 1)

/-- The block that a line opens: the line is a start marker, and its window holds a middle marker
and an end marker behind the first of these. -/
def blockAt? (lines : List String) (start : Nat) : Option Block :=
  if opensAt lines .start start then
    (firstBetween? lines .mid start (windowEnd lines start)).bind fun mid =>
      (firstBetween? lines .stop mid (windowEnd lines start)).map fun stop =>
        ⟨start, firstBetween? lines .base start mid, mid, stop⟩
  else none

variable {lines : List String} {marker : Marker} {low high line start : Nat}

/-! ## The first line of a kind -/

theorem opensAt_iff : opensAt lines marker line = true ↔ markerAt lines line = some marker := by
  rw [opensAt, markerAt, Option.any_eq_true, Option.bind_eq_some_iff]
  simp only [Marker.ofLine?_eq_some]

/-- A line begins with no other marker than its own. -/
theorem opensAt_of_markerAt {carried : Marker} (here : markerAt lines line = some carried) :
    opensAt lines marker line = decide (carried = marker) := by
  rw [Bool.eq_iff_iff, opensAt_iff, here, decide_eq_true_eq, Option.some_inj]

theorem opensAt_of_unmarked (here : markerAt lines line = none) :
    opensAt lines marker line = false := by
  rw [← Bool.not_eq_true, opensAt_iff, here]
  exact nofun

theorem firstBetween?_eq_some_iff : firstBetween? lines marker low high = some line ↔
    (low < line ∧ line < high ∧ opensAt lines marker line = true) ∧
      ∀ earlier, low < earlier → earlier < line → opensAt lines marker earlier = false := by
  rw [firstBetween?, List.find?_range'_eq_some, List.mem_range'_1]
  simp only [Bool.not_eq_true', Nat.add_one_le_iff]
  constructor
  · rintro ⟨opens, inside, first⟩
    exact ⟨⟨inside.1, by omega, opens⟩, first⟩
  · rintro ⟨⟨above, below, opens⟩, first⟩
    exact ⟨opens, ⟨above, by omega⟩, first⟩

theorem firstBetween?_eq_none_iff : firstBetween? lines marker low high = none ↔
    ∀ line, low < line → line < high → opensAt lines marker line = false := by
  rw [firstBetween?, List.find?_range'_eq_none]
  simp only [Bool.not_eq_true', Nat.add_one_le_iff]
  constructor
  · exact fun clear line above below => clear line above (by omega)
  · exact fun clear line above below => clear line above (by omega)

/-- Between two lines one behind the other there is none. -/
theorem firstBetween?_self (low : Nat) : firstBetween? lines marker low (low + 1) = none :=
  firstBetween?_eq_none_iff.2 fun line above below => by omega

/-- A line of another kind adds nothing. -/
theorem firstBetween?_succ (below : low < high) (plain : opensAt lines marker high = false) :
    firstBetween? lines marker low (high + 1) = firstBetween? lines marker low high := by
  rw [firstBetween?, show high + 1 - low - 1 = high - low - 1 + 1 by omega, List.range'_1_concat,
    List.find?_append, show low + 1 + (high - low - 1) = high by omega,
    List.find?_singleton, plain, if_neg Bool.false_ne_true, Option.or_none]
  rfl

/-- The first line of a kind is found once it comes. -/
theorem firstBetween?_succ_of_opens (below : low < high)
    (clear : firstBetween? lines marker low high = none)
    (opens : opensAt lines marker high = true) :
    firstBetween? lines marker low (high + 1) = some high :=
  firstBetween?_eq_some_iff.2
    ⟨⟨below, Nat.lt_succ_self high, opens⟩, firstBetween?_eq_none_iff.1 clear⟩

/-- A first line stays the first if lines are added behind. -/
theorem firstBetween?_mono {higher : Nat} (le : high ≤ higher)
    (found : firstBetween? lines marker low high = some line) :
    firstBetween? lines marker low higher = some line := by
  rw [firstBetween?_eq_some_iff] at found ⊢
  obtain ⟨⟨above, below, opens⟩, first⟩ := found
  exact ⟨⟨above, Nat.lt_of_lt_of_le below le, opens⟩, first⟩

/-! ## Windows -/

/-- A window ends at the next start marker. -/
theorem windowEnd_eq (below : start < line) (opens : opensAt lines .start line = true)
    (clear : firstBetween? lines .start start line = none) : windowEnd lines start = line := by
  have inText : line ≤ lines.length := markerAt_le (opensAt_iff.1 opens)
  have first : firstBetween? lines .start start (lines.length + 1) = some line :=
    firstBetween?_eq_some_iff.2
      ⟨⟨below, by omega, opens⟩, firstBetween?_eq_none_iff.1 clear⟩
  rw [windowEnd, first]
  rfl

/-- Without a further start marker a window ends with the text. -/
theorem windowEnd_of_clear (clear : firstBetween? lines .start start (lines.length + 1) = none) :
    windowEnd lines start = lines.length + 1 := by
  rw [windowEnd, clear]
  rfl

/-- A window reaches as far as there is no start marker. -/
theorem le_windowEnd (inText : high ≤ lines.length + 1)
    (clear : firstBetween? lines .start start high = none) : high ≤ windowEnd lines start := by
  cases next : firstBetween? lines .start start (lines.length + 1) with
  | none => rwa [windowEnd_of_clear next]
  | some line =>
    rw [windowEnd, next, Option.getD_some]
    obtain ⟨⟨above, _, opens⟩, _⟩ := firstBetween?_eq_some_iff.1 next
    by_contra below
    have := firstBetween?_eq_none_iff.1 clear line above (by omega)
    rw [opens] at this
    cases this

/-- There is no further start marker in a window. -/
theorem opensAt_of_lt_windowEnd (above : start < line) (below : line < windowEnd lines start) :
    opensAt lines .start line = false := by
  rw [windowEnd] at below
  cases next : firstBetween? lines .start start (lines.length + 1) with
  | none =>
    rw [next, Option.getD_none] at below
    exact firstBetween?_eq_none_iff.1 next line above below
  | some first =>
    rw [next, Option.getD_some] at below
    exact (firstBetween?_eq_some_iff.1 next).2 line above below

theorem blockAt?_of_not_start (plain : opensAt lines .start start = false) :
    blockAt? lines start = none := by
  rw [blockAt?, plain]
  rfl

theorem blockAt?_of_start (opens : opensAt lines .start start = true) :
    blockAt? lines start = (firstBetween? lines .mid start (windowEnd lines start)).bind fun mid =>
      (firstBetween? lines .stop mid (windowEnd lines start)).map fun stop =>
        ⟨start, firstBetween? lines .base start mid, mid, stop⟩ :=
  if_pos opens

/-! ## What a scan knows -/

namespace Scan

/-- What the scan remembers down to line `line` is what the window of its start marker holds. -/
def Reads (lines : List String) (line : Nat) : Scan → Prop
  | outside => True
  | inOurs start =>
    (start ≤ line ∧ opensAt lines .start start = true) ∧
      firstBetween? lines .start start (line + 1) = none ∧
      firstBetween? lines .base start (line + 1) = none ∧
      firstBetween? lines .mid start (line + 1) = none
  | inBase start base =>
    (start ≤ line ∧ opensAt lines .start start = true) ∧
      firstBetween? lines .start start (line + 1) = none ∧
      firstBetween? lines .base start (line + 1) = some base ∧
      firstBetween? lines .mid start (line + 1) = none
  | inTheirs start base mid =>
    (start ≤ line ∧ opensAt lines .start start = true) ∧
      firstBetween? lines .start start (line + 1) = none ∧
      firstBetween? lines .base start mid = base ∧
      firstBetween? lines .mid start (line + 1) = some mid ∧
      firstBetween? lines .stop mid (line + 1) = none

/-- The block that is still to come from the start marker the scan remembers. -/
def due (lines : List String) : Scan → List Block
  | outside => []
  | inOurs start => (blockAt? lines start).toList
  | inBase start _ => (blockAt? lines start).toList
  | inTheirs start _ _ => (blockAt? lines start).toList

variable {scan : Scan}

/-- Where the window ends no block is due. -/
theorem Reads.due_eq_nil (reads : scan.Reads lines line)
    (ends : ∀ start, start ≤ line → firstBetween? lines .start start (line + 1) = none →
      windowEnd lines start = line + 1) : scan.due lines = [] := by
  cases scan with
  | outside => rfl
  | inOurs start =>
    obtain ⟨⟨below, opens⟩, clear, _, mid⟩ := reads
    rw [due, blockAt?_of_start opens, ends start below clear, mid]
    rfl
  | inBase start base =>
    obtain ⟨⟨below, opens⟩, clear, _, mid⟩ := reads
    rw [due, blockAt?_of_start opens, ends start below clear, mid]
    rfl
  | inTheirs start base mid =>
    obtain ⟨⟨below, opens⟩, clear, _, mid, stop⟩ := reads
    rw [due, blockAt?_of_start opens, ends start below clear, mid, Option.bind_some, stop]
    rfl

/-- A line that the scan passes over changes nothing in what it knows. -/
theorem Reads.stay (reads : scan.Reads lines line)
    (passed : ∀ marker, markerAt lines (line + 1) = some marker →
      scan.step marker (line + 1) = (scan, none)) : scan.Reads lines (line + 1) := by
  have plain (marker : Marker) (heeded : scan.step marker (line + 1) ≠ (scan, none)) :
      opensAt lines marker (line + 1) = false := by
    rw [← Bool.not_eq_true, opensAt_iff]
    exact fun here => heeded (passed marker here)
  cases scan with
  | outside => trivial
  | inOurs start =>
    obtain ⟨⟨below, opens⟩, clear, base, mid⟩ := reads
    have within : start < line + 1 := Nat.lt_succ_of_le below
    have noStart := plain .start fun same => by cases same; omega
    exact ⟨⟨Nat.le_of_lt within, opens⟩, (firstBetween?_succ within noStart).trans clear,
      (firstBetween?_succ within (plain .base nofun)).trans base,
      (firstBetween?_succ within (plain .mid nofun)).trans mid⟩
  | inBase start base =>
    obtain ⟨⟨below, opens⟩, clear, first, mid⟩ := reads
    have within : start < line + 1 := Nat.lt_succ_of_le below
    exact ⟨⟨Nat.le_of_lt within, opens⟩,
      (firstBetween?_succ within (plain .start nofun)).trans clear,
      firstBetween?_mono (Nat.le_succ _) first,
      (firstBetween?_succ within (plain .mid nofun)).trans mid⟩
  | inTheirs start base mid =>
    obtain ⟨⟨below, opens⟩, clear, held, first, stop⟩ := reads
    have within : start < line + 1 := Nat.lt_succ_of_le below
    have inside : mid < line + 1 := (firstBetween?_eq_some_iff.1 first).1.2.1
    exact ⟨⟨Nat.le_of_lt within, opens⟩,
      (firstBetween?_succ within (plain .start nofun)).trans clear, held,
      firstBetween?_mono (Nat.le_succ _) first,
      (firstBetween?_succ inside (plain .stop nofun)).trans stop⟩

/-- A start marker opens a window of its own. -/
theorem reads_inOurs (here : markerAt lines line = some .start) :
    (inOurs line).Reads lines line :=
  ⟨⟨Nat.le_refl line, opensAt_iff.2 here⟩, firstBetween?_self line, firstBetween?_self line,
    firstBetween?_self line⟩

/-- The block that a scan reports is the one due. -/
theorem Reads.close {base : Option Nat} {mid : Nat}
    (reads : (inTheirs start base mid).Reads lines line)
    (here : markerAt lines (line + 1) = some .stop) :
    blockAt? lines start = some ⟨start, base, mid, line + 1⟩ := by
  obtain ⟨⟨below, opens⟩, clear, held, first, stop⟩ := reads
  have within : start < line + 1 := Nat.lt_succ_of_le below
  have inside : mid < line + 1 := (firstBetween?_eq_some_iff.1 first).1.2.1
  have inText : line + 1 ≤ lines.length := markerAt_le here
  have plain : opensAt lines .start (line + 1) = false := by
    rw [opensAt_of_markerAt here]
    rfl
  have reaches : line + 1 + 1 ≤ windowEnd lines start :=
    le_windowEnd (Nat.succ_le_succ inText) ((firstBetween?_succ within plain).trans clear)
  have closes := firstBetween?_succ_of_opens inside stop (opensAt_iff.2 here)
  rw [blockAt?_of_start opens, firstBetween?_mono (by omega) first, Option.bind_some,
    firstBetween?_mono reaches closes, held]
  rfl

/-- One step reports the block due or leaves it due, and a start marker's own block is due behind
it. -/
theorem Reads.step (reads : scan.Reads lines line) {marker : Marker}
    (here : markerAt lines (line + 1) = some marker) :
    (scan.step marker (line + 1)).1.Reads lines (line + 1) ∧
      scan.due lines ++ (blockAt? lines (line + 1)).toList =
        (scan.step marker (line + 1)).2.toList ++ (scan.step marker (line + 1)).1.due lines := by
  have kept (content : scan.step marker (line + 1) = (scan, none)) : scan.Reads lines (line + 1) :=
    reads.stay fun other carried => by rwa [← Option.some.inj (here.symm.trans carried)]
  have plain (other : Marker) (different : marker ≠ other) :
      opensAt lines other (line + 1) = false := by
    rw [opensAt_of_markerAt here]
    exact decide_eq_false different
  have own (different : marker ≠ .start) : blockAt? lines (line + 1) = none :=
    blockAt?_of_not_start (plain .start different)
  cases marker with
  | start =>
    have none_due : scan.due lines = [] := reads.due_eq_nil fun start below clear =>
      windowEnd_eq (Nat.lt_succ_of_le below) (opensAt_iff.2 here) clear
    refine ⟨reads_inOurs here, ?_⟩
    rw [none_due]
    rfl
  | base =>
    rw [own nofun, Option.toList_none, List.append_nil]
    cases scan with
    | inOurs start =>
      obtain ⟨⟨below, opens⟩, clear, base, mid⟩ := reads
      have within : start < line + 1 := Nat.lt_succ_of_le below
      exact ⟨⟨⟨Nat.le_of_lt within, opens⟩,
        (firstBetween?_succ within (plain .start nofun)).trans clear,
        firstBetween?_succ_of_opens within base (opensAt_iff.2 here),
        (firstBetween?_succ within (plain .mid nofun)).trans mid⟩, rfl⟩
    | _ => exact ⟨kept rfl, rfl⟩
  | mid =>
    rw [own nofun, Option.toList_none, List.append_nil]
    cases scan with
    | inOurs start =>
      obtain ⟨⟨below, opens⟩, clear, base, mid⟩ := reads
      have within : start < line + 1 := Nat.lt_succ_of_le below
      exact ⟨⟨⟨Nat.le_of_lt within, opens⟩,
        (firstBetween?_succ within (plain .start nofun)).trans clear, base,
        firstBetween?_succ_of_opens within mid (opensAt_iff.2 here), firstBetween?_self _⟩, rfl⟩
    | inBase start base =>
      obtain ⟨⟨below, opens⟩, clear, first, mid⟩ := reads
      have within : start < line + 1 := Nat.lt_succ_of_le below
      exact ⟨⟨⟨Nat.le_of_lt within, opens⟩,
        (firstBetween?_succ within (plain .start nofun)).trans clear, first,
        firstBetween?_succ_of_opens within mid (opensAt_iff.2 here), firstBetween?_self _⟩, rfl⟩
    | _ => exact ⟨kept rfl, rfl⟩
  | stop =>
    rw [own nofun, Option.toList_none, List.append_nil]
    cases scan with
    | inTheirs start base mid =>
      refine ⟨trivial, ?_⟩
      rw [due, reads.close here]
      rfl
    | _ => exact ⟨kept rfl, rfl⟩

/-- A scan reports the block due, then those of the start markers among the lines ahead. -/
theorem blocks_eq {rest : List String} {scan : Scan} {line : Nat} (reads : scan.Reads lines line)
    (here : lines.drop line = rest) (inText : line ≤ lines.length) :
    scan.blocks (line + 1) rest = scan.due lines ++
      (List.range' (line + 1) rest.length).filterMap (blockAt? lines) := by
  induction rest generalizing scan line with
  | nil =>
    have atEnd : line = lines.length := Nat.le_antisymm inText (List.drop_eq_nil_iff.1 here)
    have none_due : scan.due lines = [] := reads.due_eq_nil fun start _ clear => by
      rw [atEnd] at clear ⊢
      exact windowEnd_of_clear clear
    rw [none_due]
    rfl
  | cons text rest ih =>
    obtain ⟨read, beyond⟩ := numbered?_of_drop here
    have carried : markerAt lines (line + 1) = Marker.ofLine? text := by
      rw [markerAt, read, Option.bind_some]
    have later {next : Scan} (reads : next.Reads lines (line + 1)) :=
      ih reads beyond (numbered?_le read)
    have ahead : (List.range' (line + 1) (text :: rest).length).filterMap (blockAt? lines) =
        (blockAt? lines (line + 1)).toList ++
          (List.range' (line + 1 + 1) rest.length).filterMap (blockAt? lines) := by
      rw [List.length_cons, List.range'_succ, List.filterMap_cons]
      cases blockAt? lines (line + 1) <;> rfl
    rw [blocks, ahead]
    cases carries : Marker.ofLine? text with
    | none =>
      rw [carries] at carried
      have stays : scan.Reads lines (line + 1) := reads.stay fun other opens => by
        rw [carried] at opens
        cases opens
      rw [blockAt?_of_not_start (opensAt_of_unmarked carried)]
      exact later stays
    | some marker =>
      obtain ⟨moved, passed⟩ := reads.step (carried.trans carries)
      rw [← List.append_assoc, passed, List.append_assoc, ← later moved]
      rcases stepped : scan.step marker (line + 1) with ⟨next, closed⟩
      cases closed with
      | none => simp only [stepped, Option.toList_none, List.nil_append]
      | some block => simp only [stepped, Option.toList_some, List.singleton_append]

end Scan

/-- What a block is that a line opens. -/
theorem blockAt?_eq_some_iff {block : Block} : blockAt? lines start = some block ↔
    opensAt lines .start start = true ∧ block.startLine = start ∧
      firstBetween? lines .mid start (windowEnd lines start) = some block.midLine ∧
      firstBetween? lines .stop block.midLine (windowEnd lines start) = some block.endLine ∧
      firstBetween? lines .base start block.midLine = block.baseLine := by
  rw [blockAt?, Option.ite_none_right_eq_some, Option.bind_eq_some_iff]
  simp only [Option.map_eq_some_iff]
  constructor
  · rintro ⟨opens, mid, first, stop, closes, rfl⟩
    exact ⟨opens, rfl, first, closes, rfl⟩
  · rintro ⟨opens, rfl, first, closes, base⟩
    refine ⟨opens, _, first, _, closes, ?_⟩
    rw [base]

/-- A block of a text is the one that its start marker opens. -/
theorem mem_findBlocks_iff {block : Block} :
    block ∈ findBlocks lines ↔ blockAt? lines block.startLine = some block := by
  have reported : findBlocks lines = _ :=
    @Scan.blocks_eq lines lines .outside 0 trivial rfl (Nat.zero_le _)
  rw [reported, Scan.due, List.nil_append, List.mem_filterMap]
  constructor
  · rintro ⟨start, _, found⟩
    rwa [(blockAt?_eq_some_iff.1 found).2.1]
  · intro found
    have opens := opensAt_iff.1 (blockAt?_eq_some_iff.1 found).1
    have pos := markerAt_pos opens
    have le := markerAt_le opens
    exact ⟨block.startLine, List.mem_range'_1.2 ⟨by omega, by omega⟩, found⟩

/-- The blocks of a text are those that its lines open, in the order of the lines. -/
theorem findBlocks_eq_filterMap (lines : List String) :
    findBlocks lines = (List.range' 1 lines.length).filterMap (blockAt? lines) :=
  @Scan.blocks_eq lines lines .outside 0 trivial rfl (Nat.zero_le _)

/-- Of two start markers the second one opens the block. -/
example : findBlocks ["<<<<<<<", "<<<<<<< ours", "a", "|||||||", "=======", "b", ">>>>>>> theirs"] =
    [⟨2, some 4, 5, 7⟩] := by
  decide +kernel

end MergeConflict
