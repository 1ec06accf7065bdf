import MergeConflict.Proofs.BlockGrammar
import MergeConflict.Proofs.ResolutionOrder
import MergeConflict.Proofs.StrayMarkers

/-!
# Which blocks a search finds

A search for a fingerprint passes from run to run, a run being the lines from a start marker to the
next end marker. It comes to a run exactly if the lines in front are closed: each start marker among
them has an end marker behind it among them. An unclosed one draws the run into its own.

A block is known by the fingerprint of its lines, but not every block is a run the search comes to:
a start marker left open in front of it hides it, and an end marker on its first two sides cuts it
short. In the text as loaded a block is found exactly if some run that the search comes to has its
fingerprint.

Main statements: `locateFrom_append`, `isSome_locate_iff`, `locate_loaded_iff`.
-/

namespace MergeConflict

/-- Every start marker line has an end marker line behind it. -/
def Closed : List String → Prop
  | [] => True
  | line :: rest =>
    (Marker.start.opens line = true → ∃ other ∈ rest, Marker.stop.opens other = true) ∧ Closed rest

instance Closed.decide : (lines : List String) → Decidable (Closed lines)
  | [] => isTrue trivial
  | line :: rest =>
    have := Closed.decide rest
    inferInstanceAs (Decidable ((Marker.start.opens line = true →
      ∃ other ∈ rest, Marker.stop.opens other = true) ∧ Closed rest))

/-- A search comes to `run`: it is a run, and the lines `front` in front of it are closed. -/
structure Visits (lines front run : List String) : Prop where
  isPrefix : front ++ run <+: lines
  closed : Closed front
  isRun : IsRun run

variable {front rest lines : List String} {print : Fingerprint} {at' : Interval}

/-! ## Closed stretches -/

theorem Closed.append (closed : Closed front) (closedRest : Closed rest) :
    Closed (front ++ rest) := by
  induction front with
  | nil => exact closedRest
  | cons line front ih =>
    obtain ⟨ends, closed⟩ := closed
    refine ⟨fun opens => ?_, ih closed⟩
    obtain ⟨other, inside, stops⟩ := ends opens
    exact ⟨other, List.mem_append_left _ inside, stops⟩

theorem Closed.of_append (closed : Closed (front ++ rest)) : Closed rest := by
  induction front with
  | nil => exact closed
  | cons line front ih => exact ih closed.2

/-- What ends in an end marker is closed, that line itself apart. -/
theorem closed_concat {closing : String} (stops : Marker.stop.opens closing = true) :
    Closed (front ++ [closing]) := by
  induction front with
  | nil =>
    refine ⟨fun opens => ?_, trivial⟩
    exact nomatch Marker.eq_of_opens opens stops
  | cons line front ih => exact ⟨fun _ => ⟨closing, by simp, stops⟩, ih⟩

theorem IsRun.closed {run : List String} (isRun : IsRun run) : Closed run := by
  cases isRun with
  | @mk opening closing inner _ stops _ => exact @closed_concat (opening :: inner) closing stops

/-- The first end marker behind a start marker ends its run. -/
theorem isRun_of_findIdx? {opening : String} {tail : List String} {inner : Nat}
    (opens : Marker.start.opens opening = true)
    (first : tail.findIdx? Marker.stop.opens = some inner) :
    IsRun (opening :: tail.take (inner + 1)) ∧
      (opening :: tail.take (inner + 1)).length = inner + 2 ∧
      opening :: tail = (opening :: tail.take (inner + 1)) ++ tail.drop (inner + 1) := by
  obtain ⟨inside, stops, before⟩ := List.findIdx?_eq_some_iff_getElem.1 first
  refine ⟨?_, by rw [List.length_cons, List.length_take_of_le inside],
    by rw [List.cons_append, List.take_append_drop]⟩
  rw [List.take_add_one, List.getElem?_eq_getElem inside]
  refine .mk opens stops fun line member => ?_
  obtain ⟨i, low, rfl⟩ := List.mem_take_iff_getElem.1 member
  exact Bool.not_eq_true _ ▸ before i (by omega)

/-! ## A search from run to run -/

namespace Fingerprint

/-- A search ends in a closed front or goes on behind it. -/
theorem locateFrom_append (closed : Closed front) (position : Nat) :
    print.locateFrom position (front ++ rest) =
      (print.locateFrom position front).or (print.locateFrom (position + front.length) rest) := by
  fun_induction locateFrom print position front with
  | case1 => rfl
  | case2 position line tail opens none_stops =>
    obtain ⟨other, inside, stops⟩ := closed.1 opens
    rw [List.findIdx?_eq_none_iff.1 none_stops other inside] at stops
    cases stops
  | case3 position line tail opens inner first same =>
    obtain ⟨isRun, length, cut⟩ := isRun_of_findIdx? opens first
    rw [cut, List.append_assoc, locateFrom_run isRun, if_pos same, length, Option.some_or]
    rw [show position + (inner + 2) - 1 = position + 1 + inner by omega]
  | case4 position line tail opens inner first differs ih =>
    obtain ⟨isRun, length, cut⟩ := isRun_of_findIdx? opens first
    rw [cut] at closed
    have behind : position + inner + 2 + (tail.drop (inner + 1)).length =
        position + (line :: tail).length := by
      rw [cut, List.length_append, length]
      omega
    rw [cut, List.append_assoc, locateFrom_run isRun, if_neg differs, length, ← Nat.add_assoc,
      ih closed.of_append, ← cut, behind]
  | case5 position line tail plain ih =>
    rw [List.cons_append, locateFrom, if_neg plain, ih closed.2, List.length_cons,
      Nat.add_comm tail.length 1, ← Nat.add_assoc]

/-- What a search finds is a run it has come to. -/
theorem exists_visits_of_locateFrom {position : Nat}
    (found : print.locateFrom position lines = some at') :
    ∃ front run, Visits lines front run ∧ ofLines run = print ∧
      at' = ⟨position + front.length, position + front.length + run.length - 1⟩ := by
  fun_induction locateFrom print position lines with
  | case1 => cases found
  | case2 position line tail opens none_stops => cases found
  | case3 position line tail opens inner first same =>
    obtain ⟨isRun, length, cut⟩ := isRun_of_findIdx? opens first
    refine ⟨[], _, ⟨⟨_, cut.symm⟩, trivial, isRun⟩, same, ?_⟩
    rw [← Option.some.inj found, length, Interval.mk.injEq, List.length_nil]
    omega
  | case4 position line tail opens inner first differs ih =>
    obtain ⟨isRun, length, cut⟩ := isRun_of_findIdx? opens first
    obtain ⟨front, run, ⟨⟨behind, split⟩, closed, isRun'⟩, same, rfl⟩ := ih found
    refine ⟨(line :: tail.take (inner + 1)) ++ front, run,
      ⟨⟨behind, ?_⟩, isRun.closed.append closed, isRun'⟩, same, ?_⟩
    · rw [List.append_assoc, List.append_assoc, ← List.append_assoc front, split, ← cut]
    · rw [List.length_append, length, Interval.mk.injEq]
      omega
  | case5 position line tail plain ih =>
    obtain ⟨front, run, ⟨⟨behind, split⟩, closed, isRun⟩, same, rfl⟩ := ih found
    refine ⟨line :: front, run,
      ⟨⟨behind, congrArg (line :: ·) split⟩, ⟨fun opens => absurd opens plain, closed⟩, isRun⟩,
      same, ?_⟩
    rw [List.length_cons, Interval.mk.injEq]
    omega

/-- A fingerprint is found exactly if a run that the search comes to has it. -/
theorem isSome_locate_iff : (print.locate lines).isSome = true ↔
    ∃ front run, Visits lines front run ∧ ofLines run = print := by
  constructor
  · intro found
    obtain ⟨at', found⟩ := Option.isSome_iff_exists.1 found
    obtain ⟨front, run, visits, same, _⟩ := exists_visits_of_locateFrom found
    exact ⟨front, run, visits, same⟩
  · rintro ⟨front, run, ⟨⟨behind, rfl⟩, closed, isRun⟩, same⟩
    rw [locate, List.append_assoc, locateFrom_append closed, locateFrom_run isRun, if_pos same,
      Option.isSome_or, Option.isSome_some, Bool.or_true]

/-- What is found has the fingerprint looked for. -/
theorem ofRange_of_locate (found : print.locate lines = some at') :
    ofRange lines at'.first at'.last = print := by
  obtain ⟨front, run, ⟨⟨behind, rfl⟩, _, isRun⟩, same, rfl⟩ := exists_visits_of_locateFrom found
  have filled : 0 < run.length := by
    cases isRun with
    | mk _ _ _ => exact Nat.succ_pos _
  have inside : (front ++ run ++ behind).take (front.length + run.length) = front ++ run :=
    List.take_left' (List.length_append ..)
  rw [ofRange]
  simp only [Nat.zero_add]
  rw [if_pos (by simp only [List.length_append]; omega), Nat.sub_add_cancel (by omega), inside,
    List.drop_left, same]

/-- What is found has a first line, and its last line is one of the text. -/
theorem within_of_locate (found : print.locate lines = some at') :
    at'.first ≤ at'.last ∧ at'.last < lines.length := by
  obtain ⟨front, run, ⟨⟨behind, rfl⟩, _, isRun⟩, _, rfl⟩ := exists_visits_of_locateFrom found
  cases isRun with
  | mk _ _ _ =>
    simp only [List.length_append, List.length_cons]
    omega

end Fingerprint

theorem FingerprintIndex.within_of_locate {index : FingerprintIndex} {number : Nat}
    (found : index.locate lines number = some at') :
    at'.first ≤ at'.last ∧ at'.last < lines.length := by
  obtain ⟨print, _, found⟩ := Option.bind_eq_some_iff.1 found
  exact Fingerprint.within_of_locate found

/-! ## The blocks of the text as loaded -/

/-- A block is a run exactly if no end marker stands in front of its middle marker. -/
theorem isRun_body_iff {block : Block} (known : block ∈ findBlocks lines) :
    IsRun (block.body lines) ↔
      firstBetween? lines .stop block.startLine block.midLine = none := by
  obtain ⟨_, _, mid, stop, _⟩ := blockAt?_eq_some_iff.1 (mem_findBlocks_iff.1 known)
  obtain ⟨⟨startMid, _, opensMid⟩, _⟩ := firstBetween?_eq_some_iff.1 mid
  obtain ⟨⟨midStop, _, _⟩, before⟩ := firstBetween?_eq_some_iff.1 stop
  obtain ⟨opening, closing, opens, closes, whole⟩ :=
    (findBlocks_marks block known).exists_bufferLines
  rw [Block.body, whole, isRun_iff, firstBetween?_eq_none_iff]
  constructor
  · rintro ⟨_, _, held⟩ line above below
    rw [← Bool.not_eq_true]
    intro stops
    obtain ⟨text, read, stops⟩ := (Option.any_eq_true ..).1 stops
    have inside : text ∈ Patch.bufferLines lines (block.startLine + 1) (block.endLine - 1) :=
      Patch.mem_bufferLines read (by omega) (by omega)
    rw [held text inside] at stops
    cases stops
  · intro clear
    refine ⟨Marker.ofLine?_eq_some.1 opens, Marker.ofLine?_eq_some.1 closes, fun text inside => ?_⟩
    obtain ⟨line, low, high, read⟩ := exists_numbered_of_mem (by omega) inside
    have plain : opensAt lines .stop line = false := by
      rcases Nat.lt_trichotomy line block.midLine with below | rfl | behind
      · exact clear line (by omega) below
      · exact opensAt_of_markerAt (opensAt_iff.1 opensMid)
      · exact before line behind (by omega)
    rwa [opensAt, read] at plain

/-- In the text as loaded a block is found exactly if a run that the search comes to has its
fingerprint. It comes to the block's own lines exactly if every start marker in front of them has
been closed and no end marker stands in front of the block's middle marker. -/
theorem locate_loaded_iff (lines : List String) (i : Fin (findBlocks lines).length) :
    (((FingerprintIndex.ofBlocks lines (findBlocks lines)).locate lines (i + 1)).isSome = true ↔
      ∃ front run, Visits lines front run ∧
        Fingerprint.ofLines run = Fingerprint.ofBlock lines (findBlocks lines)[i]) ∧
    (Visits lines (lines.take ((findBlocks lines)[i].startLine - 1))
        ((findBlocks lines)[i].body lines) ↔
      Closed (lines.take ((findBlocks lines)[i].startLine - 1)) ∧
        firstBetween? lines .stop (findBlocks lines)[i].startLine (findBlocks lines)[i].midLine =
          none) ∧
    ∀ at', (FingerprintIndex.ofBlocks lines (findBlocks lines)).locate lines (i + 1) = some at' →
      Fingerprint.ofRange lines at'.first at'.last =
        Fingerprint.ofBlock lines (findBlocks lines)[i] := by
  have inside : (findBlocks lines)[i] ∈ findBlocks lines := List.getElem_mem i.isLt
  have known : numbered? (findBlocks lines) (i + 1) = some (findBlocks lines)[i] :=
    List.getElem?_eq_getElem i.isLt
  have marks := findBlocks_marks _ inside
  have print := marks.fingerprint
  rw [FingerprintIndex.locate_ofBlocks known, print]
  refine ⟨Fingerprint.isSome_locate_iff, ?_, fun at' => Fingerprint.ofRange_of_locate⟩
  rw [← isRun_body_iff inside]
  constructor
  · exact fun visits => ⟨visits.closed, visits.isRun⟩
  · rintro ⟨closed, isRun⟩
    have startStop := marks.start_lt_stop
    refine ⟨?_, closed, isRun⟩
    rw [Block.body, Patch.take_append_bufferLines (by omega)]
    exact List.take_prefix _ _

/-- A block behind a start marker that was left open. -/
def leftOpen : List String :=
  ["<<<<<<<", "x", "<<<<<<<", "y", "=======", "z", ">>>>>>>"]

/-- A start marker left open hides the block behind it. -/
theorem leftOpen_hidden : findBlocks leftOpen = [⟨3, none, 5, 7⟩] ∧
    (FingerprintIndex.ofBlocks leftOpen (findBlocks leftOpen)).locate leftOpen 1 = none :=
  ⟨by decide +kernel, by decide +kernel⟩

end MergeConflict
