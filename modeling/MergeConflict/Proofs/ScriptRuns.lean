import Mathlib.Data.List.Chain
import Mathlib.Data.List.Dedup
import MergeConflict.Proofs.ScriptSpelling

/-!
# The runs that a comparison reports

A comparison works on sequences of which it only asks whether two elements are equal: the lines
themselves, or numbers that stand for them (`interned`). Its operations name the elements by their
positions and tile both sequences in order (`Tiles`). The lines at these positions are put together
to runs, and a run that has the tag of the one in front is joined to it (`reported`).

Whatever operations tile the sequences and match only equal elements, the runs are a normal script
(`Normal`) that spells both texts. For numbers this rests on `interned` giving two lines one number
only if they are equal, which it does for up to 2^32 different lines: the numbers have 32 bits.

Main statement: `diff_normal`.
-/

namespace MergeConflict

/-- The lines of a run one by one. -/
def Run.changes (run : Run) : Script :=
  run.lines.map fun line => ⟨run.tag, [line]⟩

namespace Script

/-- No run is empty, and neighbours differ in tag. -/
structure Normal (script : Script) : Prop where
  filled : ∀ run ∈ script, run.lines ≠ []
  alternating : script.IsChain fun a b => a.tag ≠ b.tag

/-! ## Normal scripts -/

theorem normal_nil : Normal [] :=
  ⟨fun _ inside => (List.not_mem_nil inside).elim, .nil⟩

theorem normal_cons {run : Run} {script : Script} : Normal (run :: script) ↔
    run.lines ≠ [] ∧ (∀ next ∈ script.head?, run.tag ≠ next.tag) ∧ script.Normal := by
  constructor
  · rintro ⟨filled, alternating⟩
    obtain ⟨differs, rest⟩ := List.isChain_cons.1 alternating
    obtain ⟨first, others⟩ := List.forall_mem_cons.1 filled
    exact ⟨first, differs, others, rest⟩
  · rintro ⟨first, differs, others, rest⟩
    exact ⟨List.forall_mem_cons.2 ⟨first, others⟩, List.isChain_cons.2 ⟨differs, rest⟩⟩

/-- Lines in front of a normal script, which begins with another tag. -/
theorem Normal.single_append {script : Script} (normal : script.Normal) {tag : Tag}
    (differs : ∀ next ∈ script.head?, tag ≠ next.tag) (lines : List String) :
    Normal (single tag lines ++ script) := by
  unfold single
  split
  · exact normal
  · next nonempty =>
    exact normal_cons.2 ⟨by simpa using nonempty, differs, normal⟩

theorem tag_of_mem_head?_single {tag : Tag} {lines : List String} {rest : Script} {run : Run}
    (first : run ∈ (single tag lines ++ rest).head?) : run.tag = tag ∨ run ∈ rest.head? := by
  unfold single at first
  split at first
  · exact .inr first
  · rw [List.singleton_append, List.head?_cons, Option.mem_some] at first
    exact .inl (congrArg Run.tag first.symm)

theorem Normal.reverse {script : Script} (normal : script.Normal) : Normal script.reverse where
  filled run inside := normal.filled run (List.mem_reverse.1 inside)
  alternating := List.isChain_reverse.2 (normal.alternating.imp fun _ _ => Ne.symm)

theorem tag_of_mem_head?_keep {lines : List String} (nonempty : lines ≠ []) {script : Script}
    {run : Run} (first : run ∈ (keep lines script).head?) : run.tag = .equal := by
  unfold keep at first
  split at first
  · rw [List.head?_cons, Option.mem_some] at first
    exact congrArg Run.tag first.symm
  · rw [single, if_neg (by simpa using nonempty), List.singleton_append, List.head?_cons,
      Option.mem_some] at first
    exact congrArg Run.tag first.symm

theorem Normal.keep {script : Script} (normal : script.Normal) (lines : List String) :
    Normal (keep lines script) := by
  unfold Script.keep
  split
  · obtain ⟨filled, differs, rest⟩ := normal_cons.1 normal
    exact normal_cons.2 ⟨by simp [filled], differs, rest⟩
  · next other =>
    refine normal.single_append (fun next first same => ?_) lines
    cases script with
    | nil => cases first
    | cons run rest =>
      rw [List.head?_cons, Option.mem_some] at first
      subst first
      exact other run.lines rest (by rw [same])

/-- What is gathered between two kept stretches is a normal script. -/
theorem gather_normal (removed added : List String) (script : Script) :
    (gather removed added script).Normal := by
  -- removals in front of additions, in front of what begins with kept lines
  have between {rest : Script} (normal : rest.Normal)
      (kept : ∀ next ∈ rest.head?, next.tag = .equal) (removed added : List String) :
      Normal (single .removed removed ++ (single .added added ++ rest)) := by
    refine (normal.single_append (fun next first => ?_) added).single_append (fun next first => ?_)
      removed
    · rw [kept next first]
      decide
    · rcases tag_of_mem_head?_single first with same | later
      · rw [same]
        decide
      · rw [kept next later]
        decide
  fun_induction gather removed added script with
  | case1 removed added =>
    have ends : ∀ next ∈ ([] : Script).head?, next.tag = .equal := fun next first =>
      (Option.not_mem_none next first).elim
    simpa using between normal_nil ends removed added
  | case2 _ _ _ _ ih => exact ih
  | case3 _ _ _ _ ih => exact ih
  | case4 _ _ _ _ _ ih => exact ih
  | case5 removed added lines _ nonempty ih =>
    have filled : lines ≠ [] := by simpa using nonempty
    exact between (ih.keep lines) (fun _ => tag_of_mem_head?_keep filled) removed added

/-! ## Putting runs together -/

/-- A further run behind `runs`, the latest of which stands first. -/
def extend (runs : Script) (run : Run) : Script :=
  match runs with
  | [] => single run.tag run.lines
  | latest :: rest =>
    if latest.tag = run.tag then ⟨latest.tag, latest.lines ++ run.lines⟩ :: rest
    else single run.tag run.lines ++ latest :: rest

theorem Normal.extend {runs : Script} (normal : runs.Normal) (run : Run) :
    Normal (runs.extend run) := by
  unfold Script.extend
  split
  · have first : ∀ next ∈ ([] : Script).head?, run.tag ≠ next.tag := fun next first =>
      (Option.not_mem_none next first).elim
    simpa using normal_nil.single_append first run.lines
  · next latest rest =>
    split
    · obtain ⟨filled, differs, others⟩ := normal_cons.1 normal
      exact normal_cons.2 ⟨by simp [filled], differs, others⟩
    · next other =>
      refine normal.single_append (fun next first => ?_) run.lines
      rw [List.head?_cons, Option.mem_some] at first
      exact first ▸ Ne.symm other

theorem Normal.foldl_extend {runs : Script} (normal : runs.Normal) (more : Script) :
    Normal (more.foldl Script.extend runs) := by
  induction more generalizing runs with
  | nil => exact normal
  | cons run more ih => exact ih (normal.extend run)

/-- The runs put together spell what they spelled apart. -/
theorem spells_extend (runs : Script) (run : Run) :
    Spells (runs.extend run).reverse (oldLines (runs.reverse ++ [run]))
      (newLines (runs.reverse ++ [run])) := by
  unfold extend
  split
  · constructor <;> simp
  · next latest rest =>
    split
    · next same => constructor <;> simp [← same] <;> split <;> simp
    · constructor <;> simp

theorem spells_foldl_extend (runs more : Script) :
    Spells (more.foldl extend runs).reverse (oldLines (runs.reverse ++ more))
      (newLines (runs.reverse ++ more)) := by
  induction more generalizing runs with
  | nil => exact ⟨by rw [List.append_nil, List.foldl_nil], by rw [List.append_nil, List.foldl_nil]⟩
  | cons run more ih =>
    obtain ⟨old, new⟩ := spells_extend runs run
    obtain ⟨oldAll, newAll⟩ := ih (runs.extend run)
    constructor
    · rw [List.foldl_cons, oldAll, oldLines_append, old, ← oldLines_append, ← List.append_cons]
    · rw [List.foldl_cons, newAll, newLines_append, new, ← newLines_append, ← List.append_cons]

/-- The runs of a normal script stay apart. -/
theorem Normal.foldl_extend_eq {script : Script} (normal : script.Normal) {runs : Script}
    (differs : ∀ latest ∈ runs.head?, ∀ next ∈ script.head?, latest.tag ≠ next.tag) :
    script.foldl Script.extend runs = script.reverse ++ runs := by
  induction script generalizing runs with
  | nil => rfl
  | cons run script ih =>
    obtain ⟨filled, after, others⟩ := normal_cons.1 normal
    have added : runs.extend run = run :: runs := by
      have alone : single run.tag run.lines = [run] := if_neg (by simpa using filled)
      unfold Script.extend
      split
      · exact alone
      · next latest rest =>
        rw [if_neg (differs latest rfl run rfl), alone, List.singleton_append]
    rw [List.foldl_cons, added, ih others fun latest first => ?_, List.reverse_cons,
      List.append_assoc, List.singleton_append]
    rw [List.head?_cons, Option.mem_some] at first
    exact first ▸ after

/-- It is the same to put a run behind others at once or line by line. -/
theorem foldl_extend_changes (runs : Script) (run : Run) :
    run.changes.foldl extend runs = runs.extend run := by
  obtain ⟨tag, lines⟩ := run
  induction lines using List.reverseRecOn with
  | nil =>
    cases runs with
    | nil => rfl
    | cons latest rest =>
      rw [Run.changes, List.map_nil, List.foldl_nil, extend]
      simp [single]
  | append_singleton lines line ih =>
    rw [Run.changes] at ih ⊢
    rw [List.map_append, List.foldl_append, ih, List.map_singleton, List.foldl_cons, List.foldl_nil]
    cases runs with
    | nil => cases lines <;> simp [extend, single]
    | cons latest rest =>
      by_cases same : latest.tag = tag
      · simp [extend, same]
      · cases lines <;> simp [extend, single, same]

/-! ## Operations on positions -/

/-- What a comparison does with the elements at some positions, `old` and `new` being positions in
the one sequence and the other. -/
inductive Op where
  | keep (old new length : Nat)
  | delete (old length : Nat)
  | insert (new length : Nat)
  | replace (old oldLength new newLength : Nat)

/-- `count` elements from a position on. -/
def slice {α : Type} (items : List α) (position count : Nat) : List α :=
  (items.drop position).take count

/-- The operations go through both sequences from two positions on to their ends, and keep only
elements that are equal. -/
inductive Tiles {α : Type} (old new : List α) : Nat → Nat → List Op → Prop
  | done : Tiles old new old.length new.length []
  | keep {i j n : Nat} {ops : List Op} : slice old i n = slice new j n →
    Tiles old new (i + n) (j + n) ops → Tiles old new i j (.keep i j n :: ops)
  | delete {i j n : Nat} {ops : List Op} :
    Tiles old new (i + n) j ops → Tiles old new i j (.delete i n :: ops)
  | insert {i j n : Nat} {ops : List Op} :
    Tiles old new i (j + n) ops → Tiles old new i j (.insert j n :: ops)
  | replace {i j m n : Nat} {ops : List Op} :
    Tiles old new (i + m) (j + n) ops → Tiles old new i j (.replace i m j n :: ops)

/-- The lines that an operation is about. -/
def Op.runs (old new : List String) : Op → Script
  | .keep i _ n => [⟨.equal, slice old i n⟩]
  | .delete i n => [⟨.removed, slice old i n⟩]
  | .insert j n => [⟨.added, slice new j n⟩]
  | .replace i m j n => [⟨.removed, slice old i m⟩, ⟨.added, slice new j n⟩]

theorem slice_append_drop {α : Type} (items : List α) (i n : Nat) :
    slice items i n ++ items.drop (i + n) = items.drop i := by
  rw [slice, ← List.drop_drop, List.take_append_drop]

theorem slice_map {α β : Type} (symbol : α → β) (items : List α) (i n : Nat) :
    slice (items.map symbol) i n = (slice items i n).map symbol := by
  rw [slice, slice, List.map_take, List.map_drop]

theorem slice_subset {α : Type} (items : List α) (i n : Nat) : slice items i n ⊆ items :=
  fun _ inside => List.mem_of_mem_drop (List.mem_of_mem_take inside)

/-- What operations on the lines themselves are about spells both texts. -/
theorem Tiles.spells {old new : List String} {i j : Nat} {ops : List Op}
    (tiles : Tiles old new i j ops) :
    Spells (ops.flatMap (Op.runs old new)) (old.drop i) (new.drop j) := by
  induction tiles with
  | done => constructor <;> simp
  | @keep i j n ops same _ ih =>
    have here : Spells [⟨.equal, slice old i n⟩] (slice old i n) (slice new j n) :=
      ⟨by simp, by simp [same]⟩
    simpa only [List.flatMap_cons, Op.runs, slice_append_drop] using here.append ih
  | @delete i j n ops _ ih =>
    have here : Spells [⟨.removed, slice old i n⟩] (slice old i n) [] := ⟨by simp, by simp⟩
    simpa only [List.flatMap_cons, Op.runs, slice_append_drop, List.nil_append] using here.append ih
  | @insert i j n ops _ ih =>
    have here : Spells [⟨.added, slice new j n⟩] [] (slice new j n) := ⟨by simp, by simp⟩
    simpa only [List.flatMap_cons, Op.runs, slice_append_drop, List.nil_append] using here.append ih
  | @replace i j m n ops _ ih =>
    have here : Spells [⟨.removed, slice old i m⟩, ⟨.added, slice new j n⟩] (slice old i m)
        (slice new j n) := ⟨by simp, by simp⟩
    simpa only [List.flatMap_cons, Op.runs, slice_append_drop] using here.append ih

/-- Operations on lines do for whatever stands for the lines. -/
theorem Tiles.map {α β : Type} {old new : List α} {i j : Nat} {ops : List Op}
    (tiles : Tiles old new i j ops) (symbol : α → β) :
    Tiles (old.map symbol) (new.map symbol) i j ops := by
  induction tiles with
  | done => simpa using (Tiles.done : Tiles (old.map symbol) (new.map symbol) _ _ [])
  | keep same _ ih => exact .keep (by rw [slice_map, slice_map, same]) ih
  | delete _ ih => exact .delete ih
  | insert _ ih => exact .insert ih
  | replace _ ih => exact .replace ih

/-- Lists are told apart by what stands for their elements, if that tells the elements apart. -/
theorem eq_of_map_eq {α β : Type} {symbol : α → β} {first second : List α}
    (apart : ∀ a ∈ first, ∀ b ∈ second, symbol a = symbol b → a = b)
    (same : first.map symbol = second.map symbol) : first = second := by
  induction first generalizing second with
  | nil => exact (List.map_eq_nil_iff.1 same.symm).symm
  | cons a first ih =>
    cases second with
    | nil => cases same
    | cons b second =>
      obtain ⟨head, tail⟩ := List.cons.inj same
      rw [apart a List.mem_cons_self b List.mem_cons_self head, ih (fun a insideA b insideB =>
        apart a (List.mem_cons_of_mem _ insideA) b (List.mem_cons_of_mem _ insideB)) tail]

/-- Operations on what stands for lines do for the lines, if it tells them apart. -/
theorem Tiles.of_map {α β : Type} {old new : List α} {symbol : α → β} {i j : Nat} {ops : List Op}
    (tiles : Tiles (old.map symbol) (new.map symbol) i j ops)
    (apart : ∀ a ∈ old, ∀ b ∈ new, symbol a = symbol b → a = b) : Tiles old new i j ops := by
  induction tiles with
  | done => simpa using (Tiles.done : Tiles old new _ _ [])
  | @keep i j n ops same _ ih =>
    rw [slice_map, slice_map] at same
    refine .keep (eq_of_map_eq (fun a insideA b insideB => ?_) same) ih
    exact apart a (slice_subset _ _ _ insideA) b (slice_subset _ _ _ insideB)
  | delete _ ih => exact .delete ih
  | insert _ ih => exact .insert ih
  | replace _ ih => exact .replace ih

/-- Operations that go through the runs of a script. -/
def ops (i j : Nat) : Script → List Op
  | [] => []
  | ⟨.equal, lines⟩ :: rest =>
    .keep i j lines.length :: ops (i + lines.length) (j + lines.length) rest
  | ⟨.removed, lines⟩ :: rest => .delete i lines.length :: ops (i + lines.length) j rest
  | ⟨.added, lines⟩ :: rest => .insert j lines.length :: ops i (j + lines.length) rest

theorem slice_of_drop {α : Type} {items front rest : List α} {i : Nat} (low : i ≤ items.length)
    (here : items.drop i = front ++ rest) : slice items i front.length = front ∧
      items.drop (i + front.length) = rest ∧ i + front.length ≤ items.length := by
  refine ⟨?_, ?_, ?_⟩
  · rw [slice, here, List.take_left]
  · rw [← List.drop_drop, here, List.drop_left]
  · have := congrArg List.length here
    rw [List.length_drop, List.length_append] at this
    omega

/-- A script between what is left of two texts is what its operations are about. -/
theorem tiles_ops {old new : List String} {script : Script} :
    ∀ {i j : Nat}, i ≤ old.length → j ≤ new.length → old.drop i = script.oldLines →
      new.drop j = script.newLines → Tiles old new i j (script.ops i j) ∧
        (script.ops i j).flatMap (Op.runs old new) = script := by
  induction script with
  | nil =>
    intro i j lowOld lowNew oldRest newRest
    have oldEnd : i = old.length := Nat.le_antisymm lowOld (List.drop_eq_nil_iff.1 oldRest)
    have newEnd : j = new.length := Nat.le_antisymm lowNew (List.drop_eq_nil_iff.1 newRest)
    subst oldEnd newEnd
    exact ⟨.done, rfl⟩
  | cons run script ih =>
    intro i j lowOld lowNew oldRest newRest
    obtain ⟨tag, lines⟩ := run
    cases tag with
    | equal =>
      obtain ⟨cut, beyond, within⟩ :=
        slice_of_drop lowOld (show old.drop i = lines ++ oldLines script by simpa using oldRest)
      obtain ⟨cut', beyond', within'⟩ :=
        slice_of_drop lowNew (show new.drop j = lines ++ newLines script by simpa using newRest)
      obtain ⟨tiles, same⟩ := ih within within' beyond beyond'
      refine ⟨.keep (cut.trans cut'.symm) tiles, ?_⟩
      rw [ops, List.flatMap_cons, same, Op.runs, cut, List.singleton_append]
    | removed =>
      obtain ⟨cut, beyond, within⟩ :=
        slice_of_drop lowOld (show old.drop i = lines ++ oldLines script by simpa using oldRest)
      obtain ⟨tiles, same⟩ := ih within lowNew beyond (by simpa using newRest)
      refine ⟨.delete tiles, ?_⟩
      rw [ops, List.flatMap_cons, same, Op.runs, cut, List.singleton_append]
    | added =>
      obtain ⟨cut, beyond, within⟩ :=
        slice_of_drop lowNew (show new.drop j = lines ++ newLines script by simpa using newRest)
      obtain ⟨tiles, same⟩ := ih lowOld within (by simpa using oldRest) beyond
      refine ⟨.insert tiles, ?_⟩
      rw [ops, List.flatMap_cons, same, Op.runs, cut, List.singleton_append]

end Script

/-! ## Symbols for lines -/

/-- The symbols given to lines so far, the latest first. A symbol is the number of those given
before it, as far as a word of 32 bits holds that. -/
abbrev Symbols := List (String × UInt32)

namespace Symbols

/-- The symbol of a line, a new one if the line has none yet. -/
def intern (symbols : Symbols) (line : String) : Symbols × UInt32 :=
  match symbols.lookup line with
  | some symbol => (symbols, symbol)
  | none => ((line, .ofNat symbols.length) :: symbols, .ofNat symbols.length)

/-- The symbols of some lines, one line after the other. -/
def internAll (symbols : Symbols) : List String → Symbols × List UInt32
  | [] => (symbols, [])
  | line :: rest =>
    let (known, symbol) := symbols.intern line
    let (all, others) := internAll known rest
    (all, symbol :: others)

/-- The symbol that a line has, or zero. -/
def of (symbols : Symbols) (line : String) : UInt32 :=
  (symbols.lookup line).getD 0

/-- The lines are known once each, and their symbols count up. -/
inductive Counted : Symbols → Prop
  | nil : Counted []
  | cons {symbols : Symbols} {line : String} : Counted symbols → line ∉ symbols.map Prod.fst →
    Counted ((line, .ofNat symbols.length) :: symbols)

variable {symbols : Symbols}

theorem lookup_eq_some_iff (counted : symbols.Counted) {line : String} {symbol : UInt32} :
    symbols.lookup line = some symbol ↔ (line, symbol) ∈ symbols := by
  induction counted with
  | nil => simp
  | @cons symbols new _ fresh ih =>
    rw [List.lookup_cons, List.mem_cons]
    by_cases same : line = new
    · subst same
      have other : (line, symbol) ∉ symbols := fun inside =>
        fresh (List.mem_map.2 ⟨_, inside, rfl⟩)
      simp [other, eq_comm]
    · rw [beq_false_of_ne same, ih]
      simp [same]

theorem Counted.nodup (counted : symbols.Counted) : (symbols.map Prod.fst).Nodup := by
  induction counted with
  | nil => exact List.nodup_nil
  | cons _ fresh ih => exact List.nodup_cons.2 ⟨fresh, ih⟩

/-- The symbols that some lines have been given are those that the lines have. -/
theorem Counted.eq_map_of (counted : symbols.Counted) {lines : List String} {given : List UInt32}
    (known : List.Forall₂ (fun line symbol => (line, symbol) ∈ symbols) lines given) :
    given = lines.map symbols.of ∧ ∀ line ∈ lines, (line, symbols.of line) ∈ symbols := by
  induction known with
  | nil => exact ⟨rfl, fun _ inside => (List.not_mem_nil inside).elim⟩
  | @cons line symbol lines given inside _ ih =>
    have same : symbols.of line = symbol := by
      rw [of, (lookup_eq_some_iff counted).2 inside, Option.getD_some]
    exact ⟨by rw [List.map_cons, same, ← ih.1], List.forall_mem_cons.2 ⟨same ▸ inside, ih.2⟩⟩

theorem exists_number_of_mem (counted : symbols.Counted) {entry : String × UInt32}
    (inside : entry ∈ symbols) : ∃ number < symbols.length, entry.2 = .ofNat number := by
  induction counted with
  | nil => cases inside
  | @cons symbols line _ _ ih =>
    rw [List.length_cons]
    rcases List.mem_cons.1 inside with rfl | earlier
    · exact ⟨symbols.length, Nat.lt_succ_self _, rfl⟩
    · obtain ⟨number, low, same⟩ := ih earlier
      exact ⟨number, Nat.lt_succ_of_lt low, same⟩

/-- As long as there are words for all numbers, a symbol belongs to one line. -/
theorem eq_of_mem_of_mem (counted : symbols.Counted) (few : symbols.length ≤ UInt32.size)
    {a b : String} {symbol : UInt32} (insideA : (a, symbol) ∈ symbols)
    (insideB : (b, symbol) ∈ symbols) : a = b := by
  induction counted with
  | nil => cases insideA
  | @cons symbols line counted _ ih =>
    rw [List.length_cons] at few
    -- the latest symbol is none of the earlier ones
    have latest {other : String} (inside : (other, symbol) ∈ symbols)
        (same : symbol = .ofNat symbols.length) : False := by
      obtain ⟨number, low, given⟩ := exists_number_of_mem counted inside
      have := congrArg UInt32.toNat (same.symm.trans given)
      rw [UInt32.toNat_ofNat_of_lt' (by omega), UInt32.toNat_ofNat_of_lt' (by omega)] at this
      omega
    rcases List.mem_cons.1 insideA with sameA | earlierA
    · rcases List.mem_cons.1 insideB with sameB | earlierB
      · rw [(Prod.mk.inj sameA).1, (Prod.mk.inj sameB).1]
      · exact (latest earlierB (Prod.mk.inj sameA).2).elim
    · rcases List.mem_cons.1 insideB with sameB | earlierB
      · exact (latest earlierA (Prod.mk.inj sameB).2).elim
      · exact ih (by omega) earlierA earlierB

theorem intern_spec (counted : symbols.Counted) (line : String) :
    (symbols.intern line).1.Counted ∧ symbols <:+ (symbols.intern line).1 ∧
      (line, (symbols.intern line).2) ∈ (symbols.intern line).1 ∧
      (symbols.intern line).1.map Prod.fst ⊆ line :: symbols.map Prod.fst := by
  unfold intern
  cases found : symbols.lookup line with
  | some symbol =>
    exact ⟨counted, List.suffix_refl _, (lookup_eq_some_iff counted).1 found,
      List.subset_cons_self _ _⟩
  | none =>
    have fresh : line ∉ symbols.map Prod.fst := fun known => by
      obtain ⟨entry, inside, rfl⟩ := List.mem_map.1 known
      rw [(lookup_eq_some_iff counted).2 inside] at found
      cases found
    exact ⟨.cons counted fresh, List.suffix_cons _ _, List.mem_cons_self, List.Subset.refl _⟩

/-- The symbols of some lines are those that the lines have in the end. -/
theorem internAll_spec (lines : List String) : ∀ {symbols : Symbols}, symbols.Counted →
    (symbols.internAll lines).1.Counted ∧ symbols <:+ (symbols.internAll lines).1 ∧
      List.Forall₂ (fun line symbol => (line, symbol) ∈ (symbols.internAll lines).1) lines
        (symbols.internAll lines).2 ∧
      (symbols.internAll lines).1.map Prod.fst ⊆ lines ++ symbols.map Prod.fst := by
  induction lines with
  | nil => exact fun counted => ⟨counted, List.suffix_refl _, .nil, List.Subset.refl _⟩
  | cons line rest ih =>
    intro symbols counted
    obtain ⟨known, grown, mine, heads⟩ := intern_spec counted line
    obtain ⟨all, grown', others, heads'⟩ := ih known
    refine ⟨all, grown.trans grown', .cons (grown'.subset mine) others, ?_⟩
    intro head inside
    rcases List.mem_append.1 (heads' inside) with later | earlier
    · exact List.mem_append_left _ (List.mem_cons_of_mem _ later)
    · rcases List.mem_cons.1 (heads earlier) with rfl | before
      · exact List.mem_append_left _ List.mem_cons_self
      · exact List.mem_append_right _ before

end Symbols

namespace Script

/-- Both texts by symbols, one symbol for each line whichever text it is in. -/
def interned (old new : List String) : List UInt32 × List UInt32 :=
  let (known, oldSymbols) := Symbols.internAll [] old
  (oldSymbols, (Symbols.internAll known new).2)

/-- A symbol stands for one line in either text, as long as there are words for all lines. -/
theorem exists_interned_eq (old new : List String) : ∃ symbol : String → UInt32,
    interned old new = (old.map symbol, new.map symbol) ∧
      ((old ++ new).dedup.length ≤ UInt32.size →
        ∀ a ∈ old, ∀ b ∈ new, symbol a = symbol b → a = b) := by
  obtain ⟨counted, -, oldKnown, oldHeads⟩ := Symbols.internAll_spec old .nil
  obtain ⟨all, grown, newKnown, newHeads⟩ := Symbols.internAll_spec new counted
  have oldKnown := oldKnown.imp fun _ _ inside => grown.subset inside
  generalize final : (Symbols.internAll (Symbols.internAll [] old).1 new).1 = symbols at *
  obtain ⟨oldSame, oldInside⟩ := all.eq_map_of oldKnown
  obtain ⟨newSame, newInside⟩ := all.eq_map_of newKnown
  refine ⟨symbols.of, ?_, fun few a insideA b insideB same => ?_⟩
  · rw [← oldSame, ← newSame]
    rfl
  · have heads : symbols.map Prod.fst ⊆ (old ++ new).dedup := by
      intro line inside
      rw [List.mem_dedup, List.mem_append]
      rcases List.mem_append.1 (newHeads inside) with later | earlier
      · exact .inr later
      · exact .inl (by simpa using oldHeads earlier)
    have count := all.nodup.length_le_of_subset heads
    rw [List.length_map] at count
    exact Symbols.eq_of_mem_of_mem all (Nat.le_trans count few) (oldInside a insideA)
      (same ▸ newInside b insideB)

/-! ## The runs of a comparison -/

/-- The operations are a comparison's: one by `lines` compares the lines themselves, one by `tokens`
their symbols. -/
def Compares (old new : List String) (ops : List Op) : Algorithm → Prop
  | .lines => Tiles old new 0 0 ops
  | .tokens => Tiles (interned old new).1 (interned old new).2 0 0 ops

/-- What is reported of a comparison: the lines that its operations are about, put together line by
line or operation by operation. -/
def reported (algorithm : Algorithm) (old new : List String) (ops : List Op) : Script :=
  let runs := ops.flatMap (Op.runs old new)
  let parts := match algorithm with
    | .lines => runs.flatMap Run.changes
    | .tokens => runs
  (parts.foldl extend []).reverse

theorem reported_eq (algorithm : Algorithm) (old new : List String) (ops : List Op) :
    reported algorithm old new ops = ((ops.flatMap (Op.runs old new)).foldl extend []).reverse := by
  cases algorithm with
  | lines =>
    rw [reported]
    simp only [List.foldl_flatMap, foldl_extend_changes]
  | tokens => rfl

/-- A comparison's operations go through the lines themselves, as long as there are symbols for all
lines. -/
theorem Compares.tiles {algorithm : Algorithm} {old new : List String} {ops : List Op}
    (compares : Compares old new ops algorithm)
    (few : algorithm = .tokens → (old ++ new).dedup.length ≤ UInt32.size) :
    Tiles old new 0 0 ops := by
  cases algorithm with
  | lines => exact compares
  | tokens =>
    obtain ⟨symbol, same, apart⟩ := exists_interned_eq old new
    rw [Compares, same] at compares
    exact compares.of_map (apart (few rfl))

theorem Tiles.compares {old new : List String} {ops : List Op} (tiles : Tiles old new 0 0 ops)
    (algorithm : Algorithm) : Compares old new ops algorithm := by
  cases algorithm with
  | lines => exact tiles
  | tokens =>
    obtain ⟨symbol, same, -⟩ := exists_interned_eq old new
    rw [Compares, same]
    exact tiles.map symbol

/-- A comparison by either algorithm is a normal script that spells both texts. It is what is
reported of operations that tile the compared sequences, and whatever operations tile these and keep
only equal elements, what is reported of them is a normal script that spells both texts. Where
symbols are compared, this last part is said of texts that have no more than 2^32 different lines
together, which is as many as there are symbols. -/
theorem diff_normal (algorithm : Algorithm) (old new : List String) :
    ((diff algorithm old new).Spells old new ∧ (diff algorithm old new).Normal) ∧
    (∃ ops, Compares old new ops algorithm ∧
      reported algorithm old new ops = diff algorithm old new) ∧
    ∀ ops, Compares old new ops algorithm →
      (algorithm = .tokens → (old ++ new).dedup.length ≤ UInt32.size) →
        (reported algorithm old new ops).Spells old new ∧
          (reported algorithm old new ops).Normal := by
  have spells := diff_spells algorithm old new
  have normal : (diff algorithm old new).Normal := gather_normal [] [] _
  refine ⟨⟨spells, normal⟩, ?_, fun ops compares few => ?_⟩
  · obtain ⟨tiles, same⟩ := tiles_ops (Nat.zero_le _) (Nat.zero_le _) spells.1.symm spells.2.symm
    refine ⟨_, tiles.compares algorithm, ?_⟩
    rw [reported_eq, same, normal.foldl_extend_eq (fun _ first => by cases first),
      List.append_nil, List.reverse_reverse]
  · have spelled := (compares.tiles few).spells
    have joined := spells_foldl_extend [] (ops.flatMap (Op.runs old new))
    rw [List.reverse_nil, List.nil_append, spelled.1, spelled.2] at joined
    rw [reported_eq]
    exact ⟨joined, (normal_nil.foldl_extend _).reverse⟩

end Script

end MergeConflict
