import MergeConflict.Proofs.BlockAddress

/-!
# Finding a block again after an edit elsewhere

A search does not depend on where a text begins (`locateFrom_add`), and it comes to the end of a
closed stretch whatever stands behind it (`locateFrom_append`). So closed lines that hold no run
with the fingerprint looked for are passed over as a whole, and only their number matters
(`locate_append_append`): other such lines in their place leave what is found in front where it was,
and move what is found behind by as many lines as there are more or fewer.

Main statement: `locate_replaced`.
-/

namespace MergeConflict

/-- The interval further down by some lines. -/
def Interval.down (at' : Interval) (count : Nat) : Interval :=
  ⟨at'.first + count, at'.last + count⟩

/-- No stretch from a start marker to the next end marker has the fingerprint. -/
def Fingerprint.Absent (print : Fingerprint) (lines : List String) : Prop :=
  ∀ start ∈ List.range' 1 lines.length, opensAt lines .start start = true →
    ∀ stop ∈ firstBetween? lines .stop start (lines.length + 1),
      ofLines (Patch.bufferLines lines start stop) ≠ print

instance (print : Fingerprint) (lines : List String) : Decidable (print.Absent lines) :=
  inferInstanceAs (Decidable (∀ start ∈ List.range' 1 lines.length, _))

variable {front middle rest lines run : List String} {print : Fingerprint} {at' : Interval}

/-- The end marker of a run is the next one behind its start marker. -/
theorem Visits.firstBetween?_eq (visits : Visits lines front run) :
    firstBetween? lines .stop (front.length + 1) (lines.length + 1) =
      some (front.length + run.length) := by
  obtain ⟨_, stops, filled⟩ := visits.ends
  have inText : front.length + run.length ≤ lines.length := by
    rw [← List.length_append]
    exact visits.isPrefix.length_le
  refine firstBetween?_eq_some_iff.2 ⟨⟨by omega, by omega, stops⟩, fun line above below => ?_⟩
  obtain ⟨⟨behind, split⟩, _, isRun⟩ := visits
  cases isRun with
  | @mk opening closing inner _ _ held =>
    simp only [List.length_cons, List.length_append, List.length_nil] at below
    have read : numbered? lines line = inner[line - (front.length + 2)]? := by
      rw [numbered?_eq (by omega), ← split, List.append_assoc,
        List.getElem?_append_right (by omega), List.cons_append, List.append_assoc,
        show line - 1 - front.length = line - (front.length + 2) + 1 by omega,
        List.getElem?_cons_succ, List.getElem?_append_left (by omega)]
    have within : line - (front.length + 2) < inner.length := by omega
    rw [opensAt, read, List.getElem?_eq_getElem within]
    exact held _ (List.getElem_mem within)

namespace Fingerprint

/-- A search answers by position, counted from wherever the text begins. -/
theorem locateFrom_add (position count : Nat) :
    print.locateFrom (position + count) lines =
      (print.locateFrom position lines).map fun at' => at'.down count := by
  fun_induction locateFrom print position lines with
  | case1 => rw [locateFrom, Option.map_none]
  | case2 position line tail opens none_stops =>
    rw [locateFrom, if_pos opens, none_stops, Option.map_none]
  | case3 position line tail opens inner first same =>
    rw [locateFrom, if_pos opens, first]
    simp only
    rw [if_pos same, Option.map_some, Interval.down, Option.some_inj, Interval.mk.injEq]
    exact ⟨rfl, by simp only; omega⟩
  | case4 position line tail opens inner first differs ih =>
    rw [locateFrom, if_pos opens, first]
    simp only
    rw [if_neg differs, ← ih]
    congr 1
    omega
  | case5 position line tail plain ih =>
    rw [locateFrom, if_neg plain, ← ih]
    congr 1
    omega

/-- A search comes to its end in lines that hold no run with the fingerprint. -/
theorem Absent.locateFrom_eq (absent : print.Absent lines) (position : Nat) :
    print.locateFrom position lines = none := by
  by_contra found
  obtain ⟨at', found⟩ := Option.ne_none_iff_exists'.1 found
  obtain ⟨front, run, visits, same, _⟩ := exists_visits_of_locateFrom found
  obtain ⟨opens, _, filled⟩ := visits.ends
  obtain ⟨behind, split⟩ := visits.isPrefix
  have inText : front.length + run.length ≤ lines.length := by
    rw [← List.length_append]
    exact visits.isPrefix.length_le
  refine absent (front.length + 1) (List.mem_range'_1.2 ⟨by omega, by omega⟩) opens
    (front.length + run.length) visits.firstBetween?_eq ?_
  rw [bufferLines_of_split split, same]

/-- Closed lines without the fingerprint count by their number only. -/
theorem locate_append_append (closed : Closed front) (closedMiddle : Closed middle)
    (absent : print.Absent middle) :
    print.locate (front ++ middle ++ rest) = (print.locate front).or
      ((print.locate rest).map fun at' => at'.down (front.length + middle.length)) := by
  have moved := @locateFrom_add rest print 0 (front.length + middle.length)
  rw [locate, List.append_assoc, locateFrom_append closed, locateFrom_append closedMiddle,
    absent.locateFrom_eq, Option.none_or, Nat.add_assoc, moved]
  rfl

/-- What is found begins with a start marker and ends with the next end marker. -/
theorem ends_of_locate (found : print.locate lines = some at') :
    opensAt lines .start (at'.first + 1) = true ∧
      firstBetween? lines .stop (at'.first + 1) (lines.length + 1) = some (at'.last + 1) := by
  obtain ⟨front, run, visits, _, rfl⟩ := exists_visits_of_locateFrom found
  obtain ⟨opens, _, filled⟩ := visits.ends
  simp only [Nat.zero_add]
  rw [Nat.sub_add_cancel (by omega)]
  exact ⟨opens, visits.firstBetween?_eq⟩

/-- Closed lines are put in the place of others behind a closed front, and neither hold a run with
the fingerprint looked for. Then nothing is found after that if nothing was before; what was found
in front is found where it was, and what was found behind is found that many lines further on, and
it was found nowhere else. And whatever a search finds in a text runs from a start marker to the
next end marker, and has the fingerprint. -/
theorem locate_replaced (print : Fingerprint) (front middle middle' rest : List String)
    (closed : Closed front) (closedMiddle : Closed middle) (closedMiddle' : Closed middle')
    (absent : print.Absent middle) (absent' : print.Absent middle') :
    let before := front ++ middle ++ rest
    let after := front ++ middle' ++ rest
    (print.locate before = none → print.locate after = none) ∧
    (∀ at', print.locate before = some at' →
      (at'.last < front.length ∧ print.locate after = some at') ∨
        (front.length + middle.length ≤ at'.first ∧
          print.locate after = some ⟨at'.first - middle.length + middle'.length,
            at'.last - middle.length + middle'.length⟩)) ∧
    ∀ lines at', print.locate lines = some at' →
      (opensAt lines .start (at'.first + 1) = true ∧
        firstBetween? lines .stop (at'.first + 1) (lines.length + 1) = some (at'.last + 1)) ∧
      ofRange lines at'.first at'.last = print := by
  intro before after
  have searched : print.locate before = _ := locate_append_append closed closedMiddle absent
  have searched' : print.locate after = _ := locate_append_append closed closedMiddle' absent'
  rw [searched, searched']
  refine ⟨fun none_found => ?_, fun at' found => ?_,
    fun lines at' found => ⟨ends_of_locate found, ofRange_of_locate found⟩⟩
  · obtain ⟨none_front, none_behind⟩ := Option.or_eq_none_iff.1 none_found
    rw [none_front, Option.map_eq_none_iff.1 none_behind]
    rfl
  · cases inFront : print.locate front with
    | some place =>
      rw [inFront, Option.some_or] at found
      rw [Option.some_or]
      cases found
      exact .inl ⟨(within_of_locate inFront).2, rfl⟩
    | none =>
      rw [inFront, Option.none_or] at found
      rw [Option.none_or]
      obtain ⟨place, behind, rfl⟩ := Option.map_eq_some_iff.1 found
      refine .inr ⟨Nat.le_add_left .., ?_⟩
      rw [behind, Option.map_some]
      simp only [Interval.down]
      congr 2 <;> omega

/-- The second of two conflicts is found four lines further up once the first has become one
line. -/
theorem locate_replaced_settled :
    let conflict := ["<<<<<<<", "x", "=======", "y", ">>>>>>>"]
    let other := ["<<<<<<<", "p", "=======", "q", ">>>>>>>"]
    let print := ofLines other
    (Closed ["a"] ∧ Closed conflict ∧ Closed ["x"]) ∧
      (print.Absent conflict ∧ print.Absent ["x"]) ∧
      print.locate (["a"] ++ conflict ++ "b" :: other) = some ⟨7, 11⟩ ∧
      print.locate (["a"] ++ ["x"] ++ "b" :: other) = some ⟨3, 7⟩ := by
  intro conflict other print
  have closed : Closed ["a"] ∧ Closed conflict ∧ Closed ["x"] := by decide
  have absent : print.Absent conflict ∧ print.Absent ["x"] := by decide +kernel
  have found : print.locate (["a"] ++ conflict ++ "b" :: other) = some ⟨7, 11⟩ := by
    decide +kernel
  refine ⟨closed, absent, found, ?_⟩
  obtain ⟨-, moves, -⟩ := locate_replaced print ["a"] conflict ["x"] ("b" :: other) closed.1
    closed.2.1 closed.2.2 absent.1 absent.2
  rcases moves _ found with ⟨inFront, -⟩ | ⟨-, moved⟩
  · exact absurd inFront (by decide)
  · exact moved

end Fingerprint

end MergeConflict
