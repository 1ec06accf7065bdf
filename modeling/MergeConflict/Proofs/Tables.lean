import Mathlib.Data.List.Induction
import Mathlib.Data.List.Perm.Subperm
import MergeConflict.Table

/-!
# Tables keyed by block number

Insertion replaces what one key leads to and nothing else, and it keeps the keys in ascending order.
In that order a table is known by where its keys lead: two tables that no key tells apart are one
list. What a list of entries in any order holds under a key can be taken out of it, and the other keys
lead where they led.

Main statements: `get?_insert`, `Ordered.insert`, `Ordered.ext`, `get?_ofEntries_spec`.
-/

namespace MergeConflict.Table

variable {α β : Type} {table other : Table α} {key sought : Nat} {value : α}

/-- The keys ascend. -/
def Ordered (table : Table α) : Prop :=
  table.Pairwise fun a b => a.1 < b.1

theorem get?_cons (k : Nat) (v : α) (rest : Table α) (sought : Nat) :
    get? ((k, v) :: rest) sought = if sought = k then some v else get? rest sought := by
  by_cases same : sought = k
  · rw [if_pos same, same, get?, List.lookup_cons_self]
  · rw [if_neg same, get?, List.lookup_cons, beq_false_of_ne same, get?]

theorem get?_insert (table : Table α) (key : Nat) (value : α) (sought : Nat) :
    (table.insert key value).get? sought = if sought = key then some value else table.get? sought := by
  induction table with
  | nil => rw [insert, get?_cons]
  | cons entry rest ih =>
    obtain ⟨k, v⟩ := entry
    rw [insert]
    split
    · rw [get?_cons]
    · split
      · next same =>
        subst same
        rw [get?_cons, get?_cons]
        split
        · rfl
        · rfl
      · next different =>
        rw [get?_cons, get?_cons, ih]
        by_cases here : sought = k
        · rw [if_pos here, if_neg (here ▸ Ne.symm different), if_pos here]
        · rw [if_neg here, if_neg here]

theorem get?_map (f : α → β) (table : Table α) (sought : Nat) :
    get? (table.map fun (k, v) => (k, f v)) sought = (table.get? sought).map f := by
  induction table with
  | nil => rfl
  | cons entry rest ih =>
    obtain ⟨k, v⟩ := entry
    rw [List.map_cons, get?_cons, get?_cons, ih]
    split
    · rfl
    · rfl

/-! ## Tables in order -/

theorem ordered_nil : Ordered ([] : Table α) :=
  List.Pairwise.nil

theorem mem_insert {entry : Nat × α} (inside : entry ∈ table.insert key value) :
    entry = (key, value) ∨ entry ∈ table := by
  induction table with
  | nil => exact .inl (List.mem_singleton.1 inside)
  | cons first rest ih =>
    obtain ⟨k, v⟩ := first
    rw [insert] at inside
    split at inside
    · exact List.mem_cons.1 inside
    · split at inside
      · rcases List.mem_cons.1 inside with new | later
        · exact .inl new
        · exact .inr (List.mem_cons_of_mem _ later)
      · rcases List.mem_cons.1 inside with here | later
        · exact .inr (here ▸ List.mem_cons_self)
        · exact (ih later).imp_right (List.mem_cons_of_mem _)

theorem Ordered.insert (ordered : table.Ordered) (key : Nat) (value : α) :
    (table.insert key value).Ordered := by
  induction table with
  | nil => exact List.pairwise_singleton _ _
  | cons first rest ih =>
    obtain ⟨k, v⟩ := first
    obtain ⟨above, orderedRest⟩ := List.pairwise_cons.1 ordered
    rw [Table.insert]
    split
    · next before =>
      refine List.pairwise_cons.2 ⟨fun entry inside => ?_, ordered⟩
      rcases List.mem_cons.1 inside with rfl | later
      · exact before
      · exact Nat.lt_trans before (above entry later)
    · split
      · next same =>
        exact List.pairwise_cons.2 ⟨fun entry inside => same ▸ above entry inside, orderedRest⟩
      · next notBefore different =>
        refine List.pairwise_cons.2 ⟨fun entry inside => ?_, ih orderedRest⟩
        rcases mem_insert inside with rfl | old
        · exact Nat.lt_of_le_of_ne (Nat.le_of_not_lt notBefore) (Ne.symm different)
        · exact above entry old

theorem Ordered.map (ordered : table.Ordered) (f : α → β) :
    Ordered (table.map fun (k, v) => (k, f v)) :=
  List.pairwise_map.2 ordered

/-- A key below all of a table leads nowhere. -/
theorem get?_eq_none_of_lt (below : ∀ entry ∈ table, sought < entry.1) :
    table.get? sought = none :=
  List.lookup_eq_none_iff.2 fun entry inside => bne_iff_ne.2 (Nat.ne_of_lt (below entry inside))

/-- Tables in order that no key tells apart are one list. -/
theorem Ordered.ext (ordered : table.Ordered) (ordered' : other.Ordered)
    (same : ∀ sought, table.get? sought = other.get? sought) : table = other := by
  induction table generalizing other with
  | nil =>
    cases other with
    | nil => rfl
    | cons entry rest =>
      obtain ⟨k, v⟩ := entry
      have here := same k
      rw [get?_cons, if_pos rfl] at here
      cases here
  | cons entry rest ih =>
    obtain ⟨k, v⟩ := entry
    obtain ⟨above, orderedRest⟩ := List.pairwise_cons.1 ordered
    cases other with
    | nil =>
      have here := same k
      rw [get?_cons, if_pos rfl] at here
      cases here
    | cons entry' rest' =>
      obtain ⟨k', v'⟩ := entry'
      obtain ⟨above', orderedRest'⟩ := List.pairwise_cons.1 ordered'
      -- the lower of the two first keys would lead somewhere in one table only
      have sameKey : k = k' := by
        rcases Nat.lt_trichotomy k k' with low | equal | high
        · have here := same k
          rw [get?_cons, if_pos rfl, get?_cons, if_neg (Nat.ne_of_lt low), get?_eq_none_of_lt
            fun entry inside => Nat.lt_trans low (above' entry inside)] at here
          cases here
        · exact equal
        · have here := same k'
          rw [get?_cons, if_neg (Nat.ne_of_lt high), get?_cons, if_pos rfl, get?_eq_none_of_lt
            fun entry inside => Nat.lt_trans high (above entry inside)] at here
          cases here
      subst sameKey
      have sameValue := same k
      rw [get?_cons, if_pos rfl, get?_cons, if_pos rfl] at sameValue
      have sameRest : rest = rest' := by
        refine ih orderedRest orderedRest' fun sought => ?_
        have here := same sought
        rw [get?_cons, get?_cons] at here
        by_cases first : sought = k
        · subst first
          rw [get?_eq_none_of_lt above, get?_eq_none_of_lt above']
        · rwa [if_neg first, if_neg first] at here
      rw [Option.some.inj sameValue, sameRest]

/-! ## Entries put in one after the other -/

/-- The table into which some entries have been put, one after the other. -/
def ofEntries (entries : List (Nat × α)) : Table α :=
  entries.foldl (fun table entry => table.insert entry.1 entry.2) []

variable {entries order : List (Nat × α)} {entry : Nat × α}

theorem ofEntries_concat (entries : List (Nat × α)) (entry : Nat × α) :
    ofEntries (entries ++ [entry]) = (ofEntries entries).insert entry.1 entry.2 :=
  List.foldl_concat ..

theorem ordered_ofEntries (entries : List (Nat × α)) : (ofEntries entries).Ordered := by
  induction entries using List.reverseRecOn with
  | nil => exact ordered_nil
  | append_singleton entries entry ih =>
    rw [ofEntries_concat]
    exact ih.insert _ _

/-- A key that is in use leads to an entry, and no other key leads anywhere. -/
theorem get?_ofEntries_spec (entries : List (Nat × α)) (key : Nat) :
    (∃ value, (ofEntries entries).get? key = some value ∧ (key, value) ∈ entries) ∨
      (ofEntries entries).get? key = none ∧ key ∉ entries.map Prod.fst := by
  induction entries using List.reverseRecOn with
  | nil => exact .inr ⟨rfl, List.not_mem_nil⟩
  | append_singleton entries entry ih =>
    rw [ofEntries_concat, get?_insert]
    by_cases own : key = entry.1
    · rw [if_pos own]
      exact .inl ⟨entry.2, rfl, List.mem_append_right _ (List.mem_singleton.2 (own ▸ rfl))⟩
    · rw [if_neg own]
      refine ih.imp (fun ⟨value, leads, inside⟩ => ⟨value, leads, ?_⟩) fun ⟨nowhere, unused⟩ =>
        ⟨nowhere, ?_⟩
      · exact List.mem_append_left _ inside
      · simpa only [List.map_append, List.map_singleton, List.mem_append, List.mem_singleton,
          not_or] using ⟨unused, own⟩

theorem mem_of_get?_ofEntries (leads : (ofEntries entries).get? key = some value) :
    (key, value) ∈ entries := by
  rcases get?_ofEntries_spec entries key with ⟨value', leads', inside⟩ | ⟨nowhere, -⟩
  · cases leads.symm.trans leads'
    exact inside
  · cases nowhere.symm.trans leads

theorem isSome_get?_ofEntries_iff :
    ((ofEntries entries).get? key).isSome = true ↔ key ∈ entries.map Prod.fst := by
  rcases get?_ofEntries_spec entries key with ⟨value, leads, inside⟩ | ⟨nowhere, unused⟩
  · rw [leads]
    exact iff_of_true rfl (List.mem_map.2 ⟨_, inside, rfl⟩)
  · rw [nowhere]
    exact iff_of_false Bool.false_ne_true unused

/-- When entries with one key are equal, any of them leads to what any key leads to. -/
theorem get?_ofEntries_of_mem (agree : ∀ a ∈ entries, ∀ b ∈ entries, a.1 = b.1 → a = b)
    (inside : (key, value) ∈ entries) : (ofEntries entries).get? key = some value := by
  rcases get?_ofEntries_spec entries key with ⟨value', leads, inside'⟩ | ⟨-, unused⟩
  · cases agree _ inside _ inside' rfl
    exact leads
  · exact (unused (List.mem_map.2 ⟨_, inside, rfl⟩)).elim

/-- When entries with one key are equal, their order does not matter. -/
theorem ofEntries_eq_of_perm (agree : ∀ a ∈ entries, ∀ b ∈ entries, a.1 = b.1 → a = b)
    (perm : order.Perm entries) : ofEntries order = ofEntries entries := by
  have agree' : ∀ a ∈ order, ∀ b ∈ order, a.1 = b.1 → a = b := fun a inside b inside' =>
    agree a (perm.mem_iff.1 inside) b (perm.mem_iff.1 inside')
  refine (ordered_ofEntries order).ext (ordered_ofEntries entries) fun key => ?_
  rcases get?_ofEntries_spec entries key with ⟨value, leads, inside⟩ | ⟨nowhere, unused⟩
  · rw [leads]
    exact get?_ofEntries_of_mem agree' (perm.mem_iff.2 inside)
  · rw [nowhere, ← Option.not_isSome_iff_eq_none, isSome_get?_ofEntries_iff,
      (perm.map Prod.fst).mem_iff]
    exact unused

theorem mem_keys_iff : key ∈ table.map Prod.fst ↔ (table.get? key).isSome = true := by
  induction table with
  | nil => exact iff_of_false List.not_mem_nil Bool.false_ne_true
  | cons entry rest ih =>
    obtain ⟨k, v⟩ := entry
    rw [List.map_cons, List.mem_cons, get?_cons, ih]
    by_cases here : key = k
    · rw [if_pos here]
      exact iff_of_true (.inl here) rfl
    · rw [if_neg here]
      exact or_iff_right here

/-- There are as many keys in the table as entries were put in exactly if no two had the same. -/
theorem length_ofEntries_eq_iff :
    (ofEntries entries).length = entries.length ↔ (entries.map Prod.fst).Nodup := by
  have once : ((ofEntries entries).map Prod.fst).Nodup :=
    List.pairwise_map.2 ((ordered_ofEntries entries).imp Nat.ne_of_lt)
  have same (key : Nat) :
      key ∈ (ofEntries entries).map Prod.fst ↔ key ∈ entries.map Prod.fst :=
    mem_keys_iff.trans isSome_get?_ofEntries_iff
  have within : ((ofEntries entries).map Prod.fst).Subperm (entries.map Prod.fst) :=
    once.subperm fun key => (same key).1
  constructor
  · intro length
    have enough : (entries.map Prod.fst).length ≤ ((ofEntries entries).map Prod.fst).length := by
      rw [List.length_map, List.length_map]
      exact Nat.le_of_eq length.symm
    exact (within.perm_of_length_le enough).nodup_iff.1 once
  · intro distinct
    have back := (distinct.subperm fun key => (same key).2).length_le
    have forth := within.length_le
    rw [List.length_map, List.length_map] at back forth
    exact Nat.le_antisymm forth back

/-! ## Entries in any order -/

section Entries

variable {κ : Type} [DecidableEq κ] [BEq κ] [LawfulBEq κ] {k l : κ}

theorem lookup_filter_self (entries : List (κ × α)) (k : κ) :
    (entries.filter fun entry => entry.1 ≠ k).lookup k = none := by
  rw [List.lookup_eq_none_iff]
  intro entry inside
  have apart : entry.1 ≠ k := of_decide_eq_true (List.mem_filter.1 inside).2
  exact bne_iff_ne.2 apart.symm

theorem lookup_filter_of_ne (entries : List (κ × α)) (apart : l ≠ k) :
    (entries.filter fun entry => entry.1 ≠ k).lookup l = entries.lookup l := by
  induction entries with
  | nil => rfl
  | cons entry entries ih =>
    by_cases dropped : entry.1 = k
    · have differs : (l == entry.1) = false := by rwa [dropped, beq_eq_false_iff_ne]
      rw [List.filter_cons_of_neg (by simpa using dropped), ih, List.lookup_cons, differs]
    · rw [List.filter_cons_of_pos (by simpa using dropped), List.lookup_cons, List.lookup_cons, ih]

end Entries

end MergeConflict.Table
