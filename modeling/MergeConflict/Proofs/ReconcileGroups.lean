import MergeConflict.Proofs.BlockLayout
import MergeConflict.Proofs.HunkLayout

/-!
# The groups that hunks fall into

`Patch.Group.ofBlocks` folds the blocks of a buffer into groups of hunks. Each group spans some
lines of the buffer, no hunk straddles an end of the span, and the members of the group are exactly
the hunks that meet it (`Group.Sound`). So a group is known by its span alone, and the positions it
lists carry no further information.

The invariant of the fold is `Group.Chain`: the groups so far are sound, stand in order, and begin
in front of the blocks still to come. Main statements: `ofBlocks_chain`, and `ofBlocks_induction`
for whatever else the fold keeps.
-/

namespace MergeConflict

/-- The hunk replaces some of the lines `first..last`, or inserts between two of them. -/
def Hunk.meets (first last : Nat) (hunk : Hunk) : Bool :=
  decide (first < hunk.stop) && decide (hunk.start ≤ last)

theorem Hunk.meets_iff {first last : Nat} {hunk : Hunk} :
    hunk.meets first last = true ↔ first < hunk.stop ∧ hunk.start ≤ last := by
  simp [meets]

/-- A hunk meets a block as it meets the block's lines. -/
theorem Block.intersects_eq_meets {block : Block} {hunk : Hunk} (pos : 0 < hunk.start) :
    block.intersects hunk.start hunk.lastLine = hunk.meets block.startLine block.endLine := by
  rw [Bool.eq_iff_iff, Hunk.meets_iff]
  simp only [intersects, Bool.and_eq_true, decide_eq_true_eq]
  rw [Hunk.lastLine, Hunk.stop]
  omega

/-- Of two hunks of a text one ends before the other begins. -/
theorem Hunk.Laid.apart_or {lines : List String} {cursor : Nat} {hunks : List Hunk}
    (laid : Laid lines cursor hunks) {a b : Hunk} (insideA : a ∈ hunks) (insideB : b ∈ hunks) :
    a = b ∨ a.stop < b.start ∨ b.stop < a.start :=
  eq_or_of_pairwise laid.apart insideA insideB

namespace Patch.Group

/-- The group spans lines of the buffer, no hunk straddles an end of the span, and its members are
the hunks that meet it. -/
structure Sound (length : Nat) (hunks : List Hunk) (group : Group) : Prop where
  pos : 0 < group.first
  first_le : group.first ≤ group.last
  last_le : group.last ≤ length
  nodup : group.members.Nodup
  mem_members : ∀ i, i ∈ group.members ↔
    ∃ hunk, hunks[i]? = some hunk ∧ hunk.meets group.first group.last = true
  contains : ∀ hunk ∈ hunks, hunk.meets group.first group.last = true →
    group.first ≤ hunk.start ∧ hunk.stop ≤ group.last + 1
  inhabited : ∃ hunk ∈ hunks, hunk.meets group.first group.last = true

/-! ## The least and the greatest of some numbers -/

theorem foldl_min_spec {α : Type} (value : α → Nat) (items : List α) (start : Nat) :
    items.foldl (fun least item => min least (value item)) start ≤ start ∧
      (∀ item ∈ items, items.foldl (fun least item => min least (value item)) start ≤ value item) ∧
      (items.foldl (fun least item => min least (value item)) start = start ∨
        ∃ item ∈ items, items.foldl (fun least item => min least (value item)) start = value item) := by
  induction items generalizing start with
  | nil => simp
  | cons item items ih =>
    obtain ⟨low, all, attained⟩ := ih (min start (value item))
    simp only [List.foldl_cons, List.mem_cons, forall_eq_or_imp, exists_eq_or_imp]
    refine ⟨by omega, ⟨by omega, all⟩, ?_⟩
    rcases attained with same | later
    · omega
    · exact .inr (.inr later)

theorem foldl_max_spec {α : Type} (value : α → Nat) (items : List α) (start : Nat) :
    start ≤ items.foldl (fun most item => max most (value item)) start ∧
      (∀ item ∈ items, value item ≤ items.foldl (fun most item => max most (value item)) start) ∧
      (items.foldl (fun most item => max most (value item)) start = start ∨
        ∃ item ∈ items, items.foldl (fun most item => max most (value item)) start = value item) := by
  induction items generalizing start with
  | nil => simp
  | cons item items ih =>
    obtain ⟨high, all, attained⟩ := ih (max start (value item))
    simp only [List.foldl_cons, List.mem_cons, forall_eq_or_imp, exists_eq_or_imp]
    refine ⟨by omega, ⟨by omega, all⟩, ?_⟩
    rcases attained with same | later
    · omega
    · exact .inr (.inr later)

/-! ## The group of one block -/

/-- The span of a block's group reaches just as far as the block and the hunks that meet it. -/
structure Spans (hunks : List Hunk) (block : Block) (group : Group) : Prop where
  mem_members : ∀ i, i ∈ group.members ↔
    ∃ hunk, hunks[i]? = some hunk ∧ hunk.meets block.startLine block.endLine = true
  nodup : group.members.Nodup
  inhabited : ∃ hunk ∈ hunks, hunk.meets block.startLine block.endLine = true
  first_le : group.first ≤ block.startLine
  le_last : block.endLine ≤ group.last
  contains : ∀ hunk ∈ hunks, hunk.meets block.startLine block.endLine = true →
    group.first ≤ hunk.start ∧ hunk.stop ≤ group.last + 1
  first_attained : group.first = block.startLine ∨
    ∃ hunk ∈ hunks, hunk.meets block.startLine block.endLine = true ∧ group.first = hunk.start
  last_attained : group.last = block.endLine ∨
    ∃ hunk ∈ hunks, hunk.meets block.startLine block.endLine = true ∧ group.last + 1 = hunk.stop

/-- The positions of some hunks, picked by what the hunks are. -/
theorem mem_positions {hunks : List Hunk} {pick : Hunk → Bool} {i : Nat} :
    i ∈ (hunks.zipIdx.filter fun entry => pick entry.1).map (·.2) ↔
      ∃ hunk, hunks[i]? = some hunk ∧ pick hunk = true := by
  simp only [List.mem_map, List.mem_filter, Prod.exists, List.mem_zipIdx_iff_getElem?]
  constructor
  · rintro ⟨hunk, j, ⟨found, picked⟩, rfl⟩
    exact ⟨hunk, found, picked⟩
  · rintro ⟨hunk, found, picked⟩
    exact ⟨hunk, i, ⟨found, picked⟩, rfl⟩

theorem nodup_positions (hunks : List Hunk) (pick : Hunk × Nat → Bool) :
    ((hunks.zipIdx.filter pick).map (·.2)).Nodup := by
  have all : (hunks.zipIdx.map (·.2)).Nodup := by
    rw [List.zipIdx_map_snd]
    exact List.nodup_range'
  exact all.sublist (List.filter_sublist.map _)

/-- The hunks that a block's group is made of. -/
theorem met_eq {hunks : List Hunk} (pos : ∀ hunk ∈ hunks, 0 < hunk.start) (block : Block) :
    (hunks.zipIdx.filter fun entry => block.intersects entry.1.start entry.1.lastLine) =
      hunks.zipIdx.filter fun entry => entry.1.meets block.startLine block.endLine :=
  List.filter_congr fun entry inside =>
    Block.intersects_eq_meets (pos entry.1 (List.fst_mem_of_mem_zipIdx inside))

/-- A block has no group if no hunk meets it. -/
theorem ofBlock?_eq_none {hunks : List Hunk} (pos : ∀ hunk ∈ hunks, 0 < hunk.start)
    {block : Block} :
    ofBlock? hunks block = none ↔
      ∀ hunk ∈ hunks, hunk.meets block.startLine block.endLine = false := by
  have none_met : (hunks.zipIdx.filter fun entry =>
        entry.1.meets block.startLine block.endLine).isEmpty = true ↔
      ∀ hunk ∈ hunks, hunk.meets block.startLine block.endLine = false := by
    rw [List.isEmpty_iff, List.filter_eq_nil_iff]
    constructor
    · intro clear hunk inside
      obtain ⟨i, at'⟩ := List.mem_iff_getElem?.1 inside
      simpa using clear (hunk, i) (List.mem_zipIdx_iff_getElem?.2 at')
    · intro clear entry inside
      simp [clear entry.1 (List.fst_mem_of_mem_zipIdx inside)]
  rw [← none_met]
  unfold ofBlock?
  simp only [met_eq pos]
  split
  · next empty => simp [empty]
  · next some_met => simp [some_met]

theorem ofBlock?_spans {hunks : List Hunk} (pos : ∀ hunk ∈ hunks, 0 < hunk.start) {block : Block}
    {group : Group} (found : ofBlock? hunks block = some group) : Spans hunks block group := by
  unfold ofBlock? at found
  simp only [met_eq pos] at found
  split at found
  · cases found
  · next some_met =>
    injection found with found
    let met := hunks.zipIdx.filter fun entry => entry.1.meets block.startLine block.endLine
    have mem_met {hunk : Hunk} (inside : hunk ∈ hunks)
        (meets : hunk.meets block.startLine block.endLine = true) :
        ∃ entry ∈ met, entry.1 = hunk := by
      obtain ⟨i, at'⟩ := List.mem_iff_getElem?.1 inside
      exact ⟨(hunk, i), List.mem_filter.2 ⟨List.mem_zipIdx_iff_getElem?.2 at', meets⟩, rfl⟩
    have of_met {entry : Hunk × Nat} (inside : entry ∈ met) :
        entry.1 ∈ hunks ∧ entry.1.meets block.startLine block.endLine = true :=
      ⟨List.fst_mem_of_mem_zipIdx (List.mem_filter.1 inside).1, (List.mem_filter.1 inside).2⟩
    obtain ⟨low, least, lowAttained⟩ :=
      foldl_min_spec (fun entry : Hunk × Nat => entry.1.start) met block.startLine
    obtain ⟨high, most, highAttained⟩ :=
      foldl_max_spec (fun entry : Hunk × Nat => entry.1.lastLine) met block.endLine
    have fields : group.members = met.map (·.2) ∧
        group.first = met.foldl (fun least entry => min least entry.1.start) block.startLine ∧
        group.last = met.foldl (fun most entry => max most entry.1.lastLine) block.endLine := by
      subst found
      exact ⟨rfl, rfl, rfl⟩
    obtain ⟨members, first, last⟩ := fields
    rw [← first] at low least lowAttained
    rw [← last] at high most highAttained
    refine ⟨fun i => ?_, ?_, ?_, low, high, fun hunk inside meets => ?_, ?_, ?_⟩
    · rw [members]
      exact mem_positions
    · rw [members]
      exact nodup_positions hunks _
    · obtain ⟨entry, rest, cons⟩ := List.exists_cons_of_ne_nil (l := met) (by simpa [met] using some_met)
      have head : entry ∈ met := cons ▸ List.mem_cons_self
      exact ⟨entry.1, of_met head⟩
    · obtain ⟨entry, inMet, rfl⟩ := mem_met inside meets
      have := least entry inMet
      have := most entry inMet
      rw [Hunk.lastLine] at this
      rw [Hunk.stop]
      omega
    · rcases lowAttained with same | ⟨entry, inMet, same⟩
      · exact .inl same
      · exact .inr ⟨entry.1, (of_met inMet).1, (of_met inMet).2, same⟩
    · rcases highAttained with same | ⟨entry, inMet, same⟩
      · exact .inl same
      · have := pos entry.1 (of_met inMet).1
        refine .inr ⟨entry.1, (of_met inMet).1, (of_met inMet).2, ?_⟩
        rw [same, Hunk.lastLine, Hunk.stop]
        omega

section Fold

variable {lines : List String} {hunks : List Hunk} (laid : Hunk.Laid lines 1 hunks)

include laid

/-- A hunk that does not meet the block lies clear of the whole span: had the span been widened
over it, the widening hunk would touch it. -/
theorem Spans.meets_iff {block : Block} {group : Group} (spans : Spans hunks block group)
    {hunk : Hunk} (inside : hunk ∈ hunks) :
    hunk.meets group.first group.last = true ↔
      hunk.meets block.startLine block.endLine = true := by
  have := spans.first_le
  have := spans.le_last
  constructor
  · intro meets
    by_contra clear
    rw [Hunk.meets_iff] at meets clear
    rcases Nat.lt_or_ge block.startLine hunk.stop with reaches | before
    · rcases spans.last_attained with same | ⟨other, otherIn, otherMeets, same⟩
      · omega
      · rw [Hunk.meets_iff] at otherMeets
        rcases laid.apart_or inside otherIn with rfl | clears | clears
        · omega
        · have : other.start ≤ other.stop := Nat.le_add_right ..
          have : hunk.start ≤ hunk.stop := Nat.le_add_right ..
          omega
        · omega
    · rcases spans.first_attained with same | ⟨other, otherIn, otherMeets, same⟩
      · omega
      · rw [Hunk.meets_iff] at otherMeets
        rcases laid.apart_or inside otherIn with rfl | clears | clears
        · omega
        · omega
        · have : hunk.start ≤ hunk.stop := Nat.le_add_right ..
          omega
  · intro meets
    rw [Hunk.meets_iff] at meets ⊢
    omega

theorem Spans.sound {block : Block} {group : Group} (spans : Spans hunks block group)
    (marks : block.Marks lines) : Sound lines.length hunks group := by
  have := spans.first_le
  have := spans.le_last
  have := marks.start_lt_stop
  refine ⟨?_, by omega, ?_, spans.nodup, fun i => ?_, fun hunk inside meets => ?_, ?_⟩
  · rcases spans.first_attained with same | ⟨hunk, inside, _, same⟩
    · exact same ▸ marks.start_pos
    · exact same ▸ (laid.sits hunk inside).2.pos
  · rcases spans.last_attained with same | ⟨hunk, inside, _, same⟩
    · exact same ▸ marks.stop_le
    · have := (laid.sits hunk inside).2.stop_le
      omega
  · rw [spans.mem_members]
    constructor
    · rintro ⟨hunk, at', meets⟩
      exact ⟨hunk, at', (spans.meets_iff laid (List.mem_of_getElem? at')).2 meets⟩
    · rintro ⟨hunk, at', meets⟩
      exact ⟨hunk, at', (spans.meets_iff laid (List.mem_of_getElem? at')).1 meets⟩
  · exact spans.contains hunk inside ((spans.meets_iff laid inside).1 meets)
  · obtain ⟨hunk, inside, meets⟩ := spans.inhabited
    exact ⟨hunk, inside, (spans.meets_iff laid inside).2 meets⟩

omit laid in
/-- Groups that share a hunk overlap. -/
theorem Sound.overlap {length : Nat} {earlier later : Group} (sound : Sound length hunks earlier)
    (sound' : Sound length hunks later) (meets : earlier.meets later = true) :
    later.first ≤ earlier.last := by
  rw [Group.meets, Bool.or_eq_true, decide_eq_true_eq, List.any_eq_true] at meets
  rcases meets with ⟨i, inLater, inEarlier⟩ | overlap
  · rw [List.contains_iff_mem] at inEarlier
    obtain ⟨hunk, at', meets⟩ := (sound.mem_members i).1 inEarlier
    obtain ⟨_, at'', meets'⟩ := (sound'.mem_members i).1 inLater
    cases at'.symm.trans at''
    have inside := List.mem_of_getElem? at'
    have := (sound'.contains hunk inside meets').1
    have := (Hunk.meets_iff.1 meets).2
    omega
  · exact overlap

omit laid in
/-- The union of two groups that overlap is a group. -/
theorem Sound.union {length : Nat} {earlier later : Group} (sound : Sound length hunks earlier)
    (sound' : Sound length hunks later) (overlap : later.first ≤ earlier.last)
    (overlap' : earlier.first ≤ later.last) : Sound length hunks (earlier.union later) := by
  have := sound.first_le
  have := sound'.first_le
  have either {hunk : Hunk} :
      hunk.meets (earlier.union later).first (earlier.union later).last = true ↔
        hunk.meets earlier.first earlier.last = true ∨
          hunk.meets later.first later.last = true := by
    have : hunk.start ≤ hunk.stop := Nat.le_add_right ..
    simp only [Hunk.meets_iff, Group.union]
    omega
  refine ⟨?_, ?_, ?_, ?_, fun i => ?_, fun hunk inside meets => ?_, ?_⟩
  · exact Nat.lt_min.2 ⟨sound.pos, sound'.pos⟩
  · exact Nat.le_trans (Nat.min_le_left ..) (Nat.le_trans sound.first_le (Nat.le_max_left ..))
  · exact Nat.max_le.2 ⟨sound.last_le, sound'.last_le⟩
  · refine List.nodup_append.2 ⟨sound.nodup, sound'.nodup.filter _, ?_⟩
    rintro i inEarlier _ inLater rfl
    simp [inEarlier] at inLater
  · have split : i ∈ (earlier.union later).members ↔ i ∈ earlier.members ∨ i ∈ later.members := by
      by_cases known : i ∈ earlier.members <;> simp [Group.union, known]
    rw [split, sound.mem_members, sound'.mem_members]
    simp only [either]
    constructor
    · rintro (⟨hunk, at', meets⟩ | ⟨hunk, at', meets⟩)
      · exact ⟨hunk, at', .inl meets⟩
      · exact ⟨hunk, at', .inr meets⟩
    · rintro ⟨hunk, at', meets | meets⟩
      · exact .inl ⟨hunk, at', meets⟩
      · exact .inr ⟨hunk, at', meets⟩
  · simp only [Group.union]
    rcases either.1 meets with meets | meets
    · have := sound.contains hunk inside meets
      omega
    · have := sound'.contains hunk inside meets
      omega
  · obtain ⟨hunk, inside, meets⟩ := sound.inhabited
    exact ⟨hunk, inside, either.2 (.inl meets)⟩

/-! ## Folding the blocks -/

/-- The groups so far, the latest first: they are sound, stand in order, and begin in front of line
`bound`. -/
structure Chain (length : Nat) (hunks : List Hunk) (bound : Nat) (groups : List Group) : Prop where
  sound : ∀ group ∈ groups, Sound length hunks group
  apart : groups.Pairwise fun later earlier => earlier.last < later.first
  below : ∀ group ∈ groups, group.first < bound

/-- A group behind a chain is joined to its latest group or stands behind all of it. -/
theorem Chain.push {block : Block} {group : Group} {groups : List Group}
    (chain : Chain lines.length hunks block.startLine groups) (marks : block.Marks lines)
    (spans : Spans hunks block group) :
    Chain lines.length hunks block.endLine (push groups group) := by
  have sound := spans.sound laid marks
  have starts := spans.first_le
  have stops := spans.le_last
  have length := marks.start_lt_stop
  cases groups with
  | nil =>
    refine ⟨fun other inside => ?_, List.pairwise_singleton _ _, fun other inside => ?_⟩
    · rw [List.mem_singleton.1 inside]
      exact sound
    · rw [List.mem_singleton.1 inside]
      omega
  | cons latest rest =>
    have latestSound := chain.sound latest List.mem_cons_self
    have latestBelow := chain.below latest List.mem_cons_self
    have latestFirst := latestSound.first_le
    obtain ⟨behind, apart⟩ := List.pairwise_cons.1 chain.apart
    have soundRest : ∀ other ∈ rest, Sound lines.length hunks other := fun other inside =>
      chain.sound other (List.mem_cons_of_mem _ inside)
    have belowRest : ∀ other ∈ rest, other.first < block.endLine := fun other inside =>
      Nat.lt_trans (chain.below other (List.mem_cons_of_mem _ inside)) length
    rw [Group.push]
    split
    · next meets =>
      have overlap := latestSound.overlap sound meets
      -- a hunk that widens the new group over the latest one meets the latest one
      have starts' : latest.first ≤ group.first := by
        rcases spans.first_attained with same | ⟨hunk, inside, meets, same⟩
        · omega
        · rw [Hunk.meets_iff] at meets
          have := latestSound.contains hunk inside (Hunk.meets_iff.2 (by omega))
          omega
      have joined := latestSound.union sound overlap (by omega)
      refine ⟨fun other inside => ?_, .cons (fun other inside => ?_) apart, fun other inside => ?_⟩
      · rcases List.mem_cons.1 inside with rfl | later
        · exact joined
        · exact soundRest other later
      · have := behind other inside
        simp only [Group.union]
        omega
      · rcases List.mem_cons.1 inside with rfl | later
        · simp only [Group.union]
          omega
        · exact belowRest other later
    · next clear =>
      have clears : latest.last < group.first := by
        simp only [Group.meets, Bool.or_eq_true, decide_eq_true_eq, not_or] at clear
        omega
      refine ⟨fun other inside => ?_, .cons (fun other inside => ?_) chain.apart,
        fun other inside => ?_⟩
      · rcases List.mem_cons.1 inside with rfl | later
        · exact sound
        · exact chain.sound other later
      · rcases List.mem_cons.1 inside with rfl | later
        · exact clears
        · have := behind other later
          omega
      · rcases List.mem_cons.1 inside with rfl | later
        · omega
        · have := chain.below other later
          omega

omit laid in
theorem Chain.mono {length bound higher : Nat} {groups : List Group}
    (chain : Chain length hunks bound groups) (le : bound ≤ higher) :
    Chain length hunks higher groups :=
  ⟨chain.sound, chain.apart, fun group inside => Nat.lt_of_lt_of_le (chain.below group inside) le⟩

/-- What holds of no groups, and stays when the group of a block is put behind a chain, holds of the
groups of all blocks; and these are a chain. -/
theorem ofBlocks_induction {blocks : List Block} (marks : ∀ block ∈ blocks, block.Marks lines)
    (apart : blocks.Pairwise fun a b => a.endLine < b.startLine) {motive : List Group → Prop}
    (none : motive [])
    (joins : ∀ block ∈ blocks, ∀ {group groups}, Chain lines.length hunks block.startLine groups →
      Spans hunks block group → motive groups → motive (push groups group)) :
    (∃ bound, Chain lines.length hunks bound (ofBlocks hunks blocks)) ∧
      motive (ofBlocks hunks blocks) := by
  have fold : ∀ (rest : List Block) (groups : List Group) (bound : Nat),
      (∀ block ∈ rest, block ∈ blocks ∧ bound ≤ block.startLine) →
      rest.Pairwise (fun a b => a.endLine < b.startLine) →
      Chain lines.length hunks bound groups → motive groups →
      (∃ bound, Chain lines.length hunks bound
        ((rest.filterMap (ofBlock? hunks)).foldl push groups)) ∧
        motive ((rest.filterMap (ofBlock? hunks)).foldl push groups) := by
    intro rest
    induction rest with
    | nil => exact fun groups bound _ _ chain holds => ⟨⟨bound, chain⟩, holds⟩
    | cons block rest ih =>
      intro groups bound listed apart chain holds
      obtain ⟨inside, low⟩ := listed block List.mem_cons_self
      obtain ⟨behind, apart⟩ := List.pairwise_cons.1 apart
      have listedRest : ∀ other ∈ rest, other ∈ blocks ∧ block.endLine ≤ other.startLine :=
        fun other within => ⟨(listed other (List.mem_cons_of_mem _ within)).1,
          Nat.le_of_lt (behind other within)⟩
      cases found : ofBlock? hunks block with
      | none =>
        rw [List.filterMap_cons_none found]
        refine ih groups block.endLine listedRest apart (chain.mono ?_) holds
        exact Nat.le_trans low (Nat.le_of_lt (marks block inside).start_lt_stop)
      | some group =>
        have spans := ofBlock?_spans laid.pos found
        rw [List.filterMap_cons_some found]
        exact ih (push groups group) block.endLine listedRest apart
          ((chain.mono low).push laid (marks block inside) spans)
          (joins block inside (chain.mono low) spans holds)
  exact fold blocks [] 0 (fun block inside => ⟨inside, Nat.zero_le _⟩) apart
    ⟨fun _ inside => (List.not_mem_nil inside).elim, .nil,
      fun _ inside => (List.not_mem_nil inside).elim⟩ none

/-- The groups of all blocks are sound and stand in order. -/
theorem ofBlocks_chain {blocks : List Block} (marks : ∀ block ∈ blocks, block.Marks lines)
    (apart : blocks.Pairwise fun a b => a.endLine < b.startLine) :
    ∃ bound, Chain lines.length hunks bound (ofBlocks hunks blocks) :=
  (ofBlocks_induction laid marks apart (motive := fun _ => True) trivial
    fun _ _ _ _ _ _ _ => trivial).1

omit laid in
/-- A group put behind others is spanned by one of the groups that result, and so are they. -/
theorem exists_push_spanning {groups : List Group} {group member : Group}
    (inside : member = group ∨ member ∈ groups) :
    ∃ other ∈ push groups group, other.first ≤ member.first ∧ member.last ≤ other.last := by
  have self (within : member ∈ push groups group) :
      ∃ other ∈ push groups group, other.first ≤ member.first ∧ member.last ≤ other.last :=
    ⟨member, within, Nat.le_refl _, Nat.le_refl _⟩
  cases groups with
  | nil =>
    rcases inside with rfl | inside
    · exact self List.mem_cons_self
    · cases inside
  | cons latest rest =>
    rw [push] at self ⊢
    split at self
    · rename_i meets
      rw [if_pos meets]
      have joined {span : Group} (part : span = latest ∨ span = group) :
          (latest.union group).first ≤ span.first ∧ span.last ≤ (latest.union group).last := by
        simp only [Group.union]
        rcases part with rfl | rfl <;> omega
      rcases inside with rfl | inside
      · exact ⟨_, List.mem_cons_self, joined (.inr rfl)⟩
      · rcases List.mem_cons.1 inside with rfl | later
        · exact ⟨_, List.mem_cons_self, joined (.inl rfl)⟩
        · exact self (List.mem_cons_of_mem _ later)
    · rename_i clear
      rw [if_neg clear]
      rcases inside with rfl | inside
      · exact self List.mem_cons_self
      · exact self (List.mem_cons_of_mem _ inside)

omit laid in
/-- The groups of single blocks are spanned by those of all blocks. -/
theorem exists_foldl_push_spanning {parts groups : List Group} {member : Group}
    (inside : member ∈ parts ∨ member ∈ groups) :
    ∃ other ∈ parts.foldl push groups, other.first ≤ member.first ∧ member.last ≤ other.last := by
  induction parts generalizing groups member with
  | nil =>
    rcases inside with inside | inside
    · cases inside
    · exact ⟨member, inside, Nat.le_refl _, Nat.le_refl _⟩
  | cons part parts ih =>
    have here : member ∈ parts ∨ member = part ∨ member ∈ groups := by
      rw [List.mem_cons] at inside
      tauto
    rcases here with later | now
    · exact ih (.inl later)
    · obtain ⟨joined, within, low, high⟩ := exists_push_spanning now
      obtain ⟨other, found, low', high'⟩ := ih (.inr within)
      exact ⟨other, found, Nat.le_trans low' low, Nat.le_trans high high'⟩

/-- A block that a hunk meets lies inside the span of a group. -/
theorem exists_ofBlocks_spanning {blocks : List Block} {block : Block} (inside : block ∈ blocks)
    {hunk : Hunk} (member : hunk ∈ hunks)
    (meets : hunk.meets block.startLine block.endLine = true) :
    ∃ group ∈ ofBlocks hunks blocks,
      group.first ≤ block.startLine ∧ block.endLine ≤ group.last := by
  have some_met : ofBlock? hunks block ≠ none := fun none_met => by
    simp [(ofBlock?_eq_none laid.pos).1 none_met hunk member] at meets
  obtain ⟨group, found⟩ := Option.ne_none_iff_exists'.1 some_met
  have spans := ofBlock?_spans laid.pos found
  have part : group ∈ blocks.filterMap (ofBlock? hunks) :=
    List.mem_filterMap.2 ⟨block, inside, found⟩
  obtain ⟨other, found, low, high⟩ := @exists_foldl_push_spanning _ [] _ (.inl part)
  exact ⟨other, found, Nat.le_trans low spans.first_le, Nat.le_trans spans.le_last high⟩

end Fold

end Patch.Group

end MergeConflict
