import MergeConflict.Proofs.ReconcileWeave

/-!
# Comparing and reconciling with checked arithmetic

The definitions of the library subtract naturals, and a difference that would be negative is zero
there; they pick entries by position, and a position beyond the end gives nothing. Here the same
steps are written so that either is a fault: a result is `none` if some difference would be negative
or some position lies outside its list. There is a check at every subtraction and at every access by
position; sums are not checked, as no line number exceeds the length of a text by more than one.

A fault never comes up: hunks and blocks begin at line 1 or later, the last line of a group is not
in front of its first, and its members are positions of hunks. So each step is its unchecked form.

Main statements: `between_eq_some` and `reconcile_eq_some`.
-/

namespace MergeConflict.Checked

/-! ## Checked steps -/

/-- The difference of two numbers; a negative one is a fault. -/
def sub (a b : Nat) : Option Nat :=
  if b ≤ a then some (a - b) else none

/-- The last of `offset` lines from line `start` on. -/
def lastLine (start offset : Nat) : Option Nat :=
  sub (start + offset) 1

/-- The items that pass a test. -/
def keep {α : Type} (test : α → Option Bool) : List α → Option (List α)
  | [] => some []
  | item :: rest => do
    let passed ← test item
    let others ← keep test rest
    return if passed then item :: others else others

/-- The hunk ends at line `least` or later and changes more than white space. -/
def counts (least : Nat) (hunk : Hunk) : Option Bool := do
  let last ← lastLine hunk.start hunk.offset
  return decide (least ≤ last) && !hunk.isBlank

/-- The hunks between two texts that count. -/
def between (old new : List String) (least : Nat) (algorithm : Algorithm) : Option (List Hunk) :=
  keep (counts least) (Hunk.collect 1 none (Script.diff algorithm old new))

/-- The hunk has a line in the block. -/
def meets (block : Block) (hunk : Hunk) : Option Bool := do
  let last ← lastLine hunk.start hunk.offset
  return block.intersects hunk.start last

/-- A span of lines, widened over the hunk at a position. -/
def widen (hunks : List Hunk) (span : Nat × Nat) (i : Nat) : Option (Nat × Nat) := do
  let hunk ← hunks[i]?
  let last ← lastLine hunk.start hunk.offset
  return (min span.1 hunk.start, max span.2 last)

/-- The group of one block and the hunks that meet it, if any do. -/
def group (hunks : List Hunk) (block : Block) : Option (Option Patch.Group) := do
  let met ← keep (fun entry => meets block entry.1) hunks.zipIdx
  if met.isEmpty then return none
  else
    let members := met.map (·.2)
    let span ← members.foldlM (widen hunks) (block.startLine, block.endLine)
    return some ⟨members, span.1, span.2⟩

/-- The buffer lines `first..last`, as far as there are any. -/
def bufferLines (buffer : List String) (first last : Nat) : Option (List String) := do
  let position ← sub first 1
  return (buffer.take last).drop position

/-- The buffer lines from line `cursor` on that stand in front of line `line`. -/
def copied (buffer : List String) (cursor line : Nat) : Option (List String) :=
  if cursor < line then do
    let before ← sub line 1
    bufferLines buffer cursor before
  else some []

/-- The new lines from line `cursor` on. -/
def fill (buffer : List String) (last cursor : Nat) : List Hunk → Option (List String)
  | [] => if cursor ≤ last then bufferLines buffer cursor last else some []
  | hunk :: rest => do
    let front ← copied buffer cursor hunk.start
    let others ← fill buffer last (max cursor (hunk.start + hunk.offset)) rest
    return front ++ (hunk.newLines ++ others)

/-- The patch over a group's lines. -/
def patch (buffer : List String) (hunks : List Hunk) (group : Patch.Group) : Option Patch := do
  let members ← group.members.mapM (hunks[·]?)
  let ordered := members.mergeSort fun a b => decide (a.start ≤ b.start)
  let lines ← fill buffer group.last group.first ordered
  let span ← sub group.last group.first
  return ⟨group.first, span + 1, lines⟩

/-- The patches of some hunks over a buffer with these blocks. -/
def reconcile (buffer : List String) (hunks : List Hunk) (blocks : List Block) :
    Option (List Patch) := do
  let found ← blocks.mapM (group hunks)
  let groups := (found.filterMap id).foldl Patch.Group.push []
  let wide ← groups.reverse.mapM (patch buffer hunks)
  let single := hunks.zipIdx.filter fun (_, i) => !groups.any (·.members.contains i)
  return Patch.sort (wide ++ single.map (Patch.ofHunk ·.1))

/-! ## No fault in lists -/

section Lists

variable {α β : Type}

theorem sub_eq_some {a b : Nat} (le : b ≤ a) : sub a b = some (a - b) :=
  if_pos le

theorem lastLine_eq_some {start offset : Nat} (pos : 0 < start) :
    lastLine start offset = some (start + offset - 1) :=
  sub_eq_some (Nat.le_trans pos (Nat.le_add_right ..))

theorem keep_eq_some {test : α → Option Bool} {plain : α → Bool} {items : List α}
    (same : ∀ item ∈ items, test item = some (plain item)) :
    keep test items = some (items.filter plain) := by
  induction items with
  | nil => rfl
  | cons item rest ih =>
    rw [keep, same item List.mem_cons_self, ih fun other inside =>
      same other (List.mem_cons_of_mem _ inside), List.filter_cons]
    rfl

theorem mapM_eq_some {step : α → Option β} {plain : α → β} {items : List α}
    (same : ∀ item ∈ items, step item = some (plain item)) :
    items.mapM step = some (items.map plain) := by
  induction items with
  | nil => rfl
  | cons item rest ih =>
    rw [List.mapM_cons, same item List.mem_cons_self, ih fun other inside =>
      same other (List.mem_cons_of_mem _ inside)]
    rfl

theorem foldlM_eq_some {step : β → α → Option β} {plain : β → α → β} {items : List α}
    (same : ∀ item ∈ items, ∀ state, step state item = some (plain state item)) (state : β) :
    items.foldlM step state = some (items.foldl plain state) := by
  induction items generalizing state with
  | nil => rfl
  | cons item rest ih =>
    rw [List.foldlM_cons, same item List.mem_cons_self]
    exact ih (fun other inside => same other (List.mem_cons_of_mem _ inside)) _

theorem mapM_getElem?_eq_some {entries : List α} {positions : List Nat}
    (inside : ∀ i ∈ positions, i < entries.length) :
    positions.mapM (entries[·]?) = some (positions.filterMap (entries[·]?)) := by
  induction positions with
  | nil => rfl
  | cons i rest ih =>
    obtain ⟨entry, here⟩ : ∃ entry, entries[i]? = some entry :=
      ⟨_, List.getElem?_eq_getElem (inside i List.mem_cons_self)⟩
    rw [List.mapM_cons, here, ih fun j later => inside j (List.mem_cons_of_mem _ later),
      List.filterMap_cons_some here]
    rfl

end Lists

/-! ## No fault in a comparison -/

variable {lines : List String} {hunks : List Hunk} {blocks : List Block}

theorem between_eq_some (old new : List String) (least : Nat) (algorithm : Algorithm) :
    between old new least algorithm = some (Hunk.between old new least algorithm) := by
  refine keep_eq_some fun hunk inside => ?_
  obtain ⟨laid, -⟩ := Hunk.laid_collect_one (Script.diff_keptNonempty algorithm old new)
  rw [counts, lastLine_eq_some (laid.pos hunk inside)]
  rfl

theorem foldlM_widen_eq_some {entries : List (Hunk × Nat)}
    (known : ∀ entry ∈ entries, hunks[entry.2]? = some entry.1)
    (pos : ∀ hunk ∈ hunks, 0 < hunk.start) (span : Nat × Nat) :
    (entries.map (·.2)).foldlM (widen hunks) span =
      some (entries.foldl (fun first entry => min first entry.1.start) span.1,
        entries.foldl (fun last entry => max last entry.1.lastLine) span.2) := by
  induction entries generalizing span with
  | nil => rfl
  | cons entry rest ih =>
    have found := known entry List.mem_cons_self
    rw [List.map_cons, List.foldlM_cons, widen, found]
    simp only [Option.bind_eq_bind, Option.bind_some,
      lastLine_eq_some (pos entry.1 (List.mem_of_getElem? found))]
    exact ih (fun other inside => known other (List.mem_cons_of_mem _ inside)) _

theorem group_eq_some (pos : ∀ hunk ∈ hunks, 0 < hunk.start) (block : Block) :
    group hunks block = some (Patch.Group.ofBlock? hunks block) := by
  have met : keep (fun entry => meets block entry.1) hunks.zipIdx =
      some (hunks.zipIdx.filter fun entry =>
        block.intersects entry.1.start entry.1.lastLine) := by
    refine keep_eq_some fun entry inside => ?_
    rw [meets, lastLine_eq_some (pos entry.1 (List.fst_mem_of_mem_zipIdx inside))]
    rfl
  rw [group, met, Patch.Group.ofBlock?]
  simp only [Option.bind_eq_bind, Option.bind_some]
  split
  · rfl
  · rw [foldlM_widen_eq_some (fun entry inside =>
      List.mem_zipIdx_iff_getElem?.1 (List.mem_of_mem_filter inside)) pos]
    rfl

/-! ## No fault in reconciling -/

theorem bufferLines_eq_some {first : Nat} (pos : 0 < first) (buffer : List String) (last : Nat) :
    bufferLines buffer first last = some (Patch.bufferLines buffer first last) := by
  rw [bufferLines, sub_eq_some pos]
  rfl

theorem copied_eq_some {cursor line : Nat} (low : 0 < cursor) (pos : 0 < line)
    (buffer : List String) : copied buffer cursor line =
      some (if cursor < line then Patch.bufferLines buffer cursor (line - 1) else []) := by
  rw [copied]
  split
  · rw [sub_eq_some pos]
    exact bufferLines_eq_some low ..
  · rfl

theorem fill_eq_some {buffer : List String} {last cursor : Nat} (low : 0 < cursor)
    (pos : ∀ hunk ∈ hunks, 0 < hunk.start) :
    fill buffer last cursor hunks = some (Patch.Group.fill buffer last cursor hunks) := by
  induction hunks generalizing cursor with
  | nil =>
    rw [fill, Patch.Group.fill, bufferLines_eq_some low]
    split
    · rfl
    · rfl
  | cons hunk rest ih =>
    rw [fill, copied_eq_some low (pos hunk List.mem_cons_self),
      ih (Nat.lt_of_lt_of_le low (Nat.le_max_left ..)) fun other inside =>
        pos other (List.mem_cons_of_mem _ inside)]
    rfl

theorem patch_eq_some {length : Nat} {group : Patch.Group}
    (sound : Patch.Group.Sound length hunks group) (pos : ∀ hunk ∈ hunks, 0 < hunk.start)
    (buffer : List String) : patch buffer hunks group = some (group.patch buffer hunks) := by
  have members : group.members.mapM (hunks[·]?) = some (group.members.filterMap (hunks[·]?)) := by
    refine mapM_getElem?_eq_some fun i inside => ?_
    obtain ⟨hunk, found, _⟩ := (sound.mem_members i).1 inside
    exact (List.getElem?_eq_some_iff.1 found).1
  have filled := @fill_eq_some
    ((group.members.filterMap (hunks[·]?)).mergeSort fun a b => decide (a.start ≤ b.start))
    buffer group.last group.first sound.pos fun hunk inside => by
      obtain ⟨i, _, found⟩ := List.mem_filterMap.1 (List.mem_mergeSort.1 inside)
      exact pos hunk (List.mem_of_getElem? found)
  rw [patch, members]
  simp only [Option.bind_eq_bind, Option.bind_some, filled, sub_eq_some sound.first_le]
  rw [Patch.Group.patch, Nat.succ_sub sound.first_le]
  rfl

theorem reconcile_eq_some (laid : Hunk.Laid lines 1 hunks)
    (marks : ∀ block ∈ blocks, block.Marks lines)
    (apart : blocks.Pairwise fun a b => a.endLine < b.startLine) :
    reconcile lines hunks blocks = some (Patch.reconcile lines hunks blocks) := by
  obtain ⟨_, chain⟩ := Patch.Group.ofBlocks_chain laid marks apart
  have found : blocks.mapM (group hunks) = some (blocks.map (Patch.Group.ofBlock? hunks)) :=
    mapM_eq_some fun block _ => group_eq_some laid.pos block
  have groups : ((blocks.map (Patch.Group.ofBlock? hunks)).filterMap id).foldl
      Patch.Group.push [] = Patch.Group.ofBlocks hunks blocks := by
    rw [List.filterMap_map]
    rfl
  have wide : (Patch.Group.ofBlocks hunks blocks).reverse.mapM (patch lines hunks) =
      some ((Patch.Group.ofBlocks hunks blocks).reverse.map (Patch.Group.patch lines hunks)) :=
    mapM_eq_some fun group inside =>
      patch_eq_some (chain.sound group (List.mem_reverse.1 inside)) laid.pos lines
  rw [reconcile, found]
  simp only [Option.bind_eq_bind, Option.bind_some, groups, wide]
  rfl

end MergeConflict.Checked
