/-!
Tables keyed by block number: lists of entries in the order of their keys, one entry a key, so that
two tables with the same entries are the same list.
-/

namespace MergeConflict

abbrev Table (α : Type) := List (Nat × α)

namespace Table

variable {α : Type}

def get? (table : Table α) (key : Nat) : Option α :=
  List.lookup key table

/-- The table with an entry put in or replaced. -/
def insert (table : Table α) (key : Nat) (value : α) : Table α :=
  match table with
  | [] => [(key, value)]
  | (k, v) :: rest =>
    if key < k then (key, value) :: (k, v) :: rest
    else if key = k then (key, value) :: rest
    else (k, v) :: insert rest key value

end Table

end MergeConflict
