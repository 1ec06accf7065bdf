import Mathlib.Data.List.Basic
import MergeConflict.Block.Scan

/-!
# Where the conflict blocks of a text lie

A block that a scan reports names four lines of the text by number, and each of them carries the
marker it is named for (`Block.Marks`). The blocks of a text stand in order and share no line.

The invariant behind both is `Scan.Marked`: what a scan remembers are marker lines above the line
it has come to. One step keeps it (`Scan.Marked.step`), and a whole scan reports marked blocks that
begin no earlier than the block it was in (`Scan.blocks_marks`).

Main statements: `findBlocks_marks` and `findBlocks_pairwise`.
-/

namespace MergeConflict

namespace Marker

/-- A line begins with the text of one marker at most. -/
theorem eq_of_opens {first second : Marker} {line : String} (opens : first.opens line = true)
    (opens' : second.opens line = true) : first = second := by
  obtain ⟨rest, spelled⟩ := List.isPrefixOf_iff_prefix.1 opens
  obtain ⟨rest', spelled'⟩ := List.isPrefixOf_iff_prefix.1 opens'
  have heads := congrArg List.head? (spelled.trans spelled'.symm)
  cases first <;> cases second <;> first | rfl | simp [text] at heads

theorem ofLine?_eq_some {marker : Marker} {line : String} :
    ofLine? line = some marker ↔ marker.opens line = true := by
  constructor
  · intro carries
    unfold ofLine? at carries
    split at carries
    · cases carries; assumption
    · split at carries
      · cases carries; assumption
      · split at carries
        · cases carries; assumption
        · split at carries
          · cases carries; assumption
          · cases carries
  · intro opens
    unfold ofLine?
    cases marker <;> grind [eq_of_opens]

end Marker

/-- The marker of the line with a number, if the text has the line and the line has a marker. -/
def markerAt (lines : List String) (line : Nat) : Option Marker :=
  (numbered? lines line).bind Marker.ofLine?

theorem numbered?_pos {α : Type} {entries : List α} {line : Nat} {entry : α}
    (found : numbered? entries line = some entry) : 0 < line := by
  cases line with
  | zero => cases found
  | succ line => exact Nat.succ_pos line

theorem numbered?_le {α : Type} {entries : List α} {line : Nat} {entry : α}
    (found : numbered? entries line = some entry) : line ≤ entries.length := by
  cases line with
  | zero => cases found
  | succ line => exact (List.getElem?_eq_some_iff.1 found).1

theorem numbered?_eq {α : Type} {entries : List α} {line : Nat} (pos : 0 < line) :
    numbered? entries line = entries[line - 1]? := by
  cases line with
  | zero => cases pos
  | succ line => rfl

theorem mem_of_numbered? {α : Type} {entries : List α} {line : Nat} {entry : α}
    (found : numbered? entries line = some entry) : entry ∈ entries := by
  cases line with
  | zero => cases found
  | succ line => exact List.mem_of_getElem? found

theorem exists_numbered_iff {α : Type} {entries : List α} {line : Nat} :
    (∃ entry, numbered? entries line = some entry) ↔ 1 ≤ line ∧ line ≤ entries.length := by
  constructor
  · rintro ⟨entry, found⟩
    exact ⟨numbered?_pos found, numbered?_le found⟩
  · rintro ⟨low, high⟩
    exact ⟨_, (numbered?_eq low).trans (List.getElem?_eq_getElem (Nat.sub_one_lt_of_le low high))⟩

theorem numbered?_of_drop {α : Type} {entries rest : List α} {entry : α} {line : Nat}
    (here : entries.drop line = entry :: rest) :
    numbered? entries (line + 1) = some entry ∧ entries.drop (line + 1) = rest := by
  constructor
  · have := congrArg (·[0]?) here
    simpa [numbered?] using this
  · rw [← List.drop_drop, here]
    rfl

theorem markerAt_pos {lines : List String} {line : Nat} {marker : Marker}
    (found : markerAt lines line = some marker) : 0 < line := by
  obtain ⟨text, read, _⟩ := Option.bind_eq_some_iff.1 found
  exact numbered?_pos read

theorem markerAt_le {lines : List String} {line : Nat} {marker : Marker}
    (found : markerAt lines line = some marker) : line ≤ lines.length := by
  obtain ⟨text, read, _⟩ := Option.bind_eq_some_iff.1 found
  exact numbered?_le read

/-- The line numbers of a block are those of its markers, in order. -/
structure Block.Marks (lines : List String) (block : Block) : Prop where
  start : markerAt lines block.startLine = some .start
  base : ∀ line ∈ block.baseLine, markerAt lines line = some .base
  mid : markerAt lines block.midLine = some .mid
  stop : markerAt lines block.endLine = some .stop
  start_lt_base : ∀ line ∈ block.baseLine, block.startLine < line
  base_lt_mid : ∀ line ∈ block.baseLine, line < block.midLine
  start_lt_mid : block.startLine < block.midLine
  mid_lt_stop : block.midLine < block.endLine

namespace Block.Marks

variable {lines : List String} {block : Block}

theorem start_pos (marks : block.Marks lines) : 0 < block.startLine :=
  markerAt_pos marks.start

theorem start_lt_stop (marks : block.Marks lines) : block.startLine < block.endLine :=
  Nat.lt_trans marks.start_lt_mid marks.mid_lt_stop

theorem stop_le (marks : block.Marks lines) : block.endLine ≤ lines.length :=
  markerAt_le marks.stop

end Block.Marks

namespace Scan

/-- What the scan remembers at line `line` are marker lines above it, in order. -/
def Marked (lines : List String) (line : Nat) : Scan → Prop
  | outside => True
  | inOurs start => markerAt lines start = some .start ∧ start < line
  | inBase start base =>
    markerAt lines start = some .start ∧ markerAt lines base = some .base ∧
      start < base ∧ base < line
  | inTheirs start base mid =>
    markerAt lines start = some .start ∧ (∀ b ∈ base, markerAt lines b = some .base) ∧
      markerAt lines mid = some .mid ∧ (∀ b ∈ base, start < b ∧ b < mid) ∧ start < mid ∧ mid < line

/-- The first line a block can begin at that is reported from line `line` on. -/
def floor (line : Nat) : Scan → Nat
  | outside => line
  | inOurs start => start
  | inBase start _ => start
  | inTheirs start _ _ => start

variable {lines : List String} {line : Nat} {scan : Scan}

theorem Marked.floor_le (marked : scan.Marked lines line) : scan.floor line ≤ line := by
  cases scan with
  | outside => exact Nat.le_refl line
  | inOurs start => exact Nat.le_of_lt marked.2
  | inBase start base => exact Nat.le_of_lt (Nat.lt_trans marked.2.2.1 marked.2.2.2)
  | inTheirs start base mid =>
    exact Nat.le_of_lt (Nat.lt_trans marked.2.2.2.2.1 marked.2.2.2.2.2)

/-- A line without a marker changes nothing. -/
theorem Marked.skip (marked : scan.Marked lines line) : scan.Marked lines (line + 1) := by
  cases scan with
  | outside => trivial
  | inOurs start => exact ⟨marked.1, by have := marked.2; omega⟩
  | inBase start base =>
    obtain ⟨first, second, below, above⟩ := marked
    exact ⟨first, second, below, by omega⟩
  | inTheirs start base mid =>
    obtain ⟨first, second, third, between, below, above⟩ := marked
    exact ⟨first, second, third, between, below, by omega⟩

theorem Marked.floor_skip (marked : scan.Marked lines line) :
    scan.floor line ≤ scan.floor (line + 1) := by
  cases scan <;> simp [floor]

/-- A marker that closes no block moves the scan on. -/
theorem Marked.step (marked : scan.Marked lines line) {marker : Marker} {next : Scan}
    (found : markerAt lines line = some marker) (step : scan.step marker line = (next, none)) :
    next.Marked lines (line + 1) ∧ scan.floor line ≤ next.floor (line + 1) := by
  have floorLe := marked.floor_le
  have skipped := And.intro marked.skip marked.floor_skip
  cases marker with
  | start =>
    cases step
    exact ⟨⟨found, Nat.lt_succ_self line⟩, floorLe⟩
  | base =>
    cases scan with
    | inOurs start =>
      cases step
      exact ⟨⟨marked.1, found, marked.2, Nat.lt_succ_self line⟩, Nat.le_refl start⟩
    | _ => cases step; exact skipped
  | mid =>
    cases scan with
    | inOurs start =>
      cases step
      exact ⟨⟨marked.1, nofun, found, nofun, marked.2, Nat.lt_succ_self line⟩, Nat.le_refl start⟩
    | inBase start base =>
      cases step
      obtain ⟨first, second, below, above⟩ := marked
      refine ⟨⟨first, ?_, found, ?_, Nat.lt_trans below above, Nat.lt_succ_self line⟩,
        Nat.le_refl start⟩
      · intro b inside
        cases inside
        exact second
      · intro b inside
        cases inside
        exact ⟨below, above⟩
    | _ => cases step; exact skipped
  | stop =>
    cases scan with
    | inTheirs start base mid => cases step
    | _ => cases step; exact skipped

/-- A block is closed by an end marker alone, and its lines are those the scan remembers. -/
theorem Marked.close (marked : scan.Marked lines line) {marker : Marker} {next : Scan}
    {block : Block} (found : markerAt lines line = some marker)
    (step : scan.step marker line = (next, some block)) :
    next = outside ∧ block.Marks lines ∧ block.endLine = line ∧
      scan.floor line ≤ block.startLine := by
  cases marker with
  | stop =>
    cases scan with
    | inTheirs start base mid =>
      cases step
      obtain ⟨first, second, third, between, below, above⟩ := marked
      exact ⟨rfl, ⟨first, second, third, found, fun b inside => (between b inside).1,
        fun b inside => (between b inside).2, below, above⟩, rfl, Nat.le_refl start⟩
    | _ => cases step
  | _ => cases scan <;> cases step

/-- The blocks reported from a line on are marked, begin no earlier than the open one, and stand in
order. -/
theorem blocks_marks {rest : List String} :
    ∀ {scan : Scan} {line : Nat}, scan.Marked lines (line + 1) → lines.drop line = rest →
      (∀ block ∈ scan.blocks (line + 1) rest,
        block.Marks lines ∧ scan.floor (line + 1) ≤ block.startLine) ∧
      (scan.blocks (line + 1) rest).Pairwise fun a b => a.endLine < b.startLine := by
  induction rest with
  | nil =>
    intro scan line _ _
    exact ⟨fun _ reported => (List.not_mem_nil reported).elim, .nil⟩
  | cons text rest ih =>
    intro scan line marked here
    obtain ⟨found, beyond⟩ := numbered?_of_drop here
    rw [blocks]
    split
    · obtain ⟨later, apart⟩ := ih marked.skip beyond
      exact ⟨fun block reported => ⟨(later block reported).1,
        Nat.le_trans marked.floor_skip (later block reported).2⟩, apart⟩
    · next marker carried =>
      have carries : markerAt lines (line + 1) = some marker := by
        rw [markerAt, found]
        exact carried
      split
      · next next step =>
        obtain ⟨moved, floorLe⟩ := marked.step carries step
        obtain ⟨later, apart⟩ := ih moved beyond
        exact ⟨fun block reported => ⟨(later block reported).1,
          Nat.le_trans floorLe (later block reported).2⟩, apart⟩
      · next next closed step =>
        obtain ⟨rfl, marks, last, floorLe⟩ := marked.close carries step
        obtain ⟨later, apart⟩ := @ih outside (line + 1) trivial beyond
        have behind : ∀ block ∈ outside.blocks (line + 1 + 1) rest,
            closed.endLine < block.startLine := fun block reported => by
          have := (later block reported).2
          simp only [floor] at this
          omega
        refine ⟨fun block reported => ?_, .cons behind apart⟩
        rcases List.mem_cons.1 reported with rfl | reported
        · exact ⟨marks, floorLe⟩
        · have := marks.start_lt_stop
          have := behind block reported
          exact ⟨(later block reported).1, by omega⟩

end Scan

/-- Every block of a text names marker lines of the text. -/
theorem findBlocks_marks {lines : List String} :
    ∀ block ∈ findBlocks lines, block.Marks lines := fun block found =>
  ((@Scan.blocks_marks _ lines .outside 0 trivial rfl).1 block found).1

/-- The blocks of a text stand in order and share no line. -/
theorem findBlocks_pairwise (lines : List String) :
    (findBlocks lines).Pairwise fun a b => a.endLine < b.startLine :=
  (@Scan.blocks_marks _ lines .outside 0 trivial rfl).2

end MergeConflict
