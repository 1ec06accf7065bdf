import MergeConflict.Script
import MergeConflict.Text.Lines

/-!
The divide-and-conquer form of Myers' greedy difference algorithm.

What two texts share at both ends is kept. The rest is cut in two at the middle of a shortest edit
path, found by searching from both ends at once, and each half is compared on its own.
-/

namespace MergeConflict.Script

/-- Number of equal elements from positions `x` and `y` on. -/
def slide (old new : Array String) (x y : Nat) : Nat :=
  if _hx : x < old.size then
    if _hy : y < new.size then
      if old[x] = new[y] then slide old new (x + 1) (y + 1) + 1 else 0
    else 0
  else 0
termination_by old.size - x

/-- The furthest position reached on each diagonal, diagonal `k` being held at `k + bias`. -/
structure Frontier where
  bias : Nat
  reached : Array Nat

namespace Frontier

def start (depth : Nat) : Frontier :=
  ⟨depth, Array.replicate (2 * depth + 1) 0⟩

def get (frontier : Frontier) (k : Int) : Nat :=
  frontier.reached.getD (k + frontier.bias).toNat 0

def set (frontier : Frontier) (k : Int) (x : Nat) : Frontier :=
  { frontier with reached := frontier.reached.setIfInBounds (k + frontier.bias).toNat x }

/-- Where an edit path of length `d` enters diagonal `k`. -/
def entry (frontier : Frontier) (d : Nat) (k : Int) : Nat :=
  if k = -d ∨ (k ≠ d ∧ frontier.get (k - 1) < frontier.get (k + 1)) then frontier.get (k + 1)
  else frontier.get (k - 1) + 1

/-- The diagonals that paths of length `d` end on, the highest first. -/
def diagonals (d : Nat) : List Int :=
  (List.range (d + 1)).map fun (i : Nat) => (d : Int) - 2 * (i : Int)

end Frontier

/-- A search for the middle of an edit path ends with a cut or goes on with longer paths. -/
abbrev Search := Except (Nat × Nat)

/-- Paths of length `d` from the front; one that meets a path from the back gives the cut. -/
def searchForward (old new : Array String) (d : Nat) (backward forward : Frontier) :
    Search Frontier :=
  let delta : Int := (old.size : Int) - new.size
  (Frontier.diagonals d).foldlM (fun frontier k => do
    let x := frontier.entry d k
    let y := ((x : Int) - k).toNat
    let x' := x + slide old new x y
    if delta % 2 ≠ 0 ∧ (k - delta).natAbs + 1 ≤ d ∧ old.size ≤ x' + backward.get (delta - k) then
      throw (x, y)
    return frontier.set k x') forward

/-- Paths of length `d` from the back; `oldBack` and `newBack` are the texts reversed. -/
def searchBackward (oldBack newBack : Array String) (d : Nat) (forward backward : Frontier) :
    Search Frontier :=
  let delta : Int := (oldBack.size : Int) - newBack.size
  (Frontier.diagonals d).foldlM (fun frontier k => do
    let x := frontier.entry d k
    let y := ((x : Int) - k).toNat
    let more := slide oldBack newBack x y
    if delta % 2 = 0 ∧ (k - delta).natAbs ≤ d ∧
        oldBack.size ≤ x + more + forward.get (delta - k) then
      throw (oldBack.size - (x + more), newBack.size - (y + more))
    return frontier.set k (x + more)) backward

/-- Searches of growing length, `fuel` of them. -/
def searchFrom (old new oldBack newBack : Array String) (d : Nat) (forward backward : Frontier) :
    Nat → Search Unit
  | 0 => return
  | fuel + 1 => do
    let forward ← searchForward old new d backward forward
    let backward ← searchBackward oldBack newBack d forward backward
    searchFrom old new oldBack newBack (d + 1) forward backward fuel

/-- The middle of a shortest edit path as a position in either text. -/
def middle? (old new : List String) : Option (Nat × Nat) :=
  let depth := (old.length + new.length + 1) / 2 + 1
  let frontier := Frontier.start depth
  match searchFrom old.toArray new.toArray old.reverse.toArray new.reverse.toArray 0
      frontier frontier depth with
  | .error cut => some cut
  | .ok _ => none

/-- What two texts share at their ends, and what is left of either between. -/
structure Trimmed where
  lead : List String
  old : List String
  new : List String
  tail : List String

/-- What both texts begin with is taken off first. -/
def trim (old new : List String) : Trimmed :=
  let lead := Text.commonLead old new
  let oldRest := old.drop lead
  let newRest := new.drop lead
  let tail := Text.commonLead oldRest.reverse newRest.reverse
  { lead := old.take lead
    old := oldRest.take (oldRest.length - tail)
    new := newRest.take (newRest.length - tail)
    tail := oldRest.drop (oldRest.length - tail) }

theorem trim_length_le (old new : List String) :
    (trim old new).old.length + (trim old new).new.length ≤ old.length + new.length := by
  simp only [trim, List.length_take, List.length_drop]
  omega

/-- Everything old removed and everything new added. -/
def replaceAll (old new : List String) : Script :=
  single .removed old ++ single .added new

/-- A cut of two texts leaves something on each side of it. -/
def CutsBoth (old new : List String) (x y : Nat) : Prop :=
  0 < min x old.length + min y new.length ∧
    min x old.length + min y new.length < old.length + new.length

instance (old new : List String) (x y : Nat) : Decidable (CutsBoth old new x y) :=
  inferInstanceAs (Decidable (_ ∧ _))

/-- A script from `old` to `new` along a shortest edit path. -/
def myers (old new : List String) : Script :=
  let rest := trim old new
  let edits :=
    if rest.old.isEmpty ∨ rest.new.isEmpty then replaceAll rest.old rest.new
    else
      match middle? rest.old rest.new with
      | some (x, y) =>
        if _proper : CutsBoth rest.old rest.new x y then
          myers (rest.old.take x) (rest.new.take y) ++ myers (rest.old.drop x) (rest.new.drop y)
        else replaceAll rest.old rest.new
      | none => replaceAll rest.old rest.new
  single .equal rest.lead ++ edits ++ single .equal rest.tail
termination_by old.length + new.length
decreasing_by
  all_goals
    have := trim_length_le old new
    simp only [CutsBoth, rest] at _proper
    simp only [List.length_take, List.length_drop]
    omega

end MergeConflict.Script
