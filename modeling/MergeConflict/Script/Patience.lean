import MergeConflict.Script.Myers

/-!
Patience comparison: the lines that occur once in either text are matched first, both texts are
cut at the matches, and the pieces are compared one by one.
-/

namespace MergeConflict.Script

/-- The lines that occur exactly once, each with its position. -/
def uniqueLines (lines : List String) : List (Nat × String) :=
  (lines.zipIdx.map fun (line, i) => (i, line)).filter fun (_, line) => lines.count line == 1

/-- The positions that a script keeps, `old` and `new` being the positions of its lines. -/
def keptPositions (old new : List Nat) : Script → List (Nat × Nat)
  | [] => []
  | ⟨.equal, lines⟩ :: rest =>
    let n := lines.length
    (old.take n).zip (new.take n) ++ keptPositions (old.drop n) (new.drop n) rest
  | ⟨.removed, lines⟩ :: rest => keptPositions (old.drop lines.length) new rest
  | ⟨.added, lines⟩ :: rest => keptPositions old (new.drop lines.length) rest

/-- The matched positions of lines that are unique on both sides. -/
def anchors (old new : List String) : List (Nat × Nat) :=
  let oldUnique := uniqueLines old
  let newUnique := uniqueLines new
  keptPositions (oldUnique.map (·.1)) (newUnique.map (·.1))
    (myers (oldUnique.map (·.2)) (newUnique.map (·.2)))

/-- Compares piece by piece; `old` and `new` begin at positions `i` and `j`. -/
def betweenAnchors (i j : Nat) (old new : List String) : List (Nat × Nat) → Script
  | [] => myers old new
  | (x, y) :: rest =>
    myers (old.take (x - i)) (new.take (y - j)) ++
      betweenAnchors x y (old.drop (x - i)) (new.drop (y - j)) rest

/-- A script from `old` to `new` that keeps the matched unique lines. -/
def patience (old new : List String) : Script :=
  betweenAnchors 0 0 old new (anchors old new)

end MergeConflict.Script
