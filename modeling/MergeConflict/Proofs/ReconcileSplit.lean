import MergeConflict.Proofs.ReconcileWeave

/-!
# Reconciling a front part and the rest

Hunks that stand in order can be reconciled in two parts, those in front and those behind, provided
no block is met by hunks of both parts (`Uncut`). The groups of the parts are then the groups of the
whole: the positions that the second part's groups list are further on by the length of the first
(`Group.shift`), and no group of one part reaches a group of the other.

Main statement: `reconcile_append`.
-/

namespace MergeConflict.Patch

/-- No block is met both by one of the hunks in front and by one of those behind. -/
def Uncut (front behind : List Hunk) (blocks : List Block) : Prop :=
  ∀ block ∈ blocks, ∀ a ∈ front, ∀ b ∈ behind,
    a.meets block.startLine block.endLine = true → b.meets block.startLine block.endLine = false

instance (front behind : List Hunk) (blocks : List Block) :
    Decidable (Uncut front behind blocks) :=
  inferInstanceAs (Decidable (∀ block ∈ blocks, ∀ a ∈ front, ∀ b ∈ behind, _ → _))

namespace Group

/-- The group in a list that has `count` further hunks in front. -/
def shift (count : Nat) (group : Group) : Group :=
  { group with members := group.members.map (count + ·) }

variable {front behind : List Hunk} {block : Block} {count : Nat}

/-! ## Shifted groups -/

theorem meets_shift (earlier later : Group) :
    (earlier.shift count).meets (later.shift count) = earlier.meets later := by
  simp only [meets, shift, List.any_map]
  congr 2
  funext i
  rw [Bool.eq_iff_iff]
  simp

theorem union_shift (earlier later : Group) :
    (earlier.shift count).union (later.shift count) = (earlier.union later).shift count := by
  simp only [union, shift, List.map_append, List.filter_map, Group.mk.injEq, and_true]
  congr 2
  refine List.filter_congr fun i _ => ?_
  rw [Bool.eq_iff_iff]
  simp

theorem push_shift (groups : List Group) (group : Group) :
    push (groups.map (shift count)) (group.shift count) =
      (push groups group).map (shift count) := by
  cases groups with
  | nil => rfl
  | cons latest rest =>
    rw [List.map_cons, push, push, meets_shift, union_shift]
    split <;> rfl

theorem foldl_push_shift (parts groups : List Group) :
    (parts.map (shift count)).foldl push (groups.map (shift count)) =
      (parts.foldl push groups).map (shift count) := by
  induction parts generalizing groups with
  | nil => rfl
  | cons part parts ih => rw [List.map_cons, List.foldl_cons, List.foldl_cons, push_shift, ih]

/-- Groups that meet none of some others are folded behind those as on their own. -/
theorem foldl_push_append {parts base : List Group}
    (clear : ∀ part ∈ parts, ∀ group ∈ base, group.meets part = false) (groups : List Group) :
    parts.foldl push (groups ++ base) = parts.foldl push groups ++ base := by
  induction parts generalizing groups with
  | nil => rfl
  | cons part parts ih =>
    have apart : push (groups ++ base) part = push groups part ++ base := by
      cases groups with
      | nil =>
        cases base with
        | nil => rfl
        | cons latest rest =>
          simp [push, clear part List.mem_cons_self latest List.mem_cons_self]
      | cons latest rest =>
        simp only [push, List.cons_append]
        split <;> rfl
    rw [List.foldl_cons, List.foldl_cons, apart,
      ih fun other inside => clear other (List.mem_cons_of_mem _ inside)]

/-! ## The groups of single blocks -/

theorem ofBlock?_append_left
    (clear : ∀ hunk ∈ behind, block.intersects hunk.start hunk.lastLine = false) :
    ofBlock? (front ++ behind) block = ofBlock? front block := by
  have none_met : ((behind.zipIdx (0 + front.length)).filter fun entry =>
      block.intersects entry.1.start entry.1.lastLine) = [] := by
    refine List.filter_eq_nil_iff.2 fun entry inside => ?_
    simp [clear entry.1 (List.fst_mem_of_mem_zipIdx inside)]
  simp only [ofBlock?, List.zipIdx_append, List.filter_append, none_met, List.append_nil]

theorem ofBlock?_append_right
    (clear : ∀ hunk ∈ front, block.intersects hunk.start hunk.lastLine = false) :
    ofBlock? (front ++ behind) block = (ofBlock? behind block).map (shift front.length) := by
  have none_met : (front.zipIdx.filter fun entry =>
      block.intersects entry.1.start entry.1.lastLine) = [] := by
    refine List.filter_eq_nil_iff.2 fun entry inside => ?_
    simp [clear entry.1 (List.fst_mem_of_mem_zipIdx inside)]
  simp only [ofBlock?, List.zipIdx_append, List.filter_append, none_met, List.nil_append,
    Nat.zero_add]
  rw [List.zipIdx_eq_map_add, List.filter_map]
  simp only [List.isEmpty_map, List.foldl_map, List.map_map, Function.comp_def]
  split
  · rfl
  · simp [shift, Function.comp_def]

/-! ## The ends of groups -/

/-- A group ends where the group of a single block ends, and begins where one begins. -/
theorem exists_ends_of_mem_foldl_push {parts groups : List Group} {group : Group}
    (inside : group ∈ parts.foldl push groups) :
    (∃ part, (part ∈ parts ∨ part ∈ groups) ∧ part.first = group.first) ∧
      ∃ part, (part ∈ parts ∨ part ∈ groups) ∧ part.last = group.last := by
  induction parts generalizing groups with
  | nil => exact ⟨⟨group, .inr inside, rfl⟩, group, .inr inside, rfl⟩
  | cons part parts ih =>
    -- an end of a group that `push` makes is an end of the new group or of an earlier one
    have pushed {other : Group} (within : other ∈ push groups part) :
        (∃ origin, (origin = part ∨ origin ∈ groups) ∧ origin.first = other.first) ∧
          ∃ origin, (origin = part ∨ origin ∈ groups) ∧ origin.last = other.last := by
      have same (known : other = part ∨ other ∈ groups) :
          (∃ origin, (origin = part ∨ origin ∈ groups) ∧ origin.first = other.first) ∧
            ∃ origin, (origin = part ∨ origin ∈ groups) ∧ origin.last = other.last :=
        ⟨⟨other, known, rfl⟩, other, known, rfl⟩
      cases groups with
      | nil => exact same (.inl (List.mem_singleton.1 within))
      | cons latest rest =>
        rw [push] at within
        split at within
        · rcases List.mem_cons.1 within with rfl | later
          · constructor
            · rcases Nat.le_total latest.first part.first with le | le
              · exact ⟨latest, .inr List.mem_cons_self, (Nat.min_eq_left le).symm⟩
              · exact ⟨part, .inl rfl, (Nat.min_eq_right le).symm⟩
            · rcases Nat.le_total latest.last part.last with le | le
              · exact ⟨part, .inl rfl, (Nat.max_eq_right le).symm⟩
              · exact ⟨latest, .inr List.mem_cons_self, (Nat.max_eq_left le).symm⟩
          · exact same (.inr (List.mem_cons_of_mem _ later))
        · exact same (List.mem_cons.1 within)
    have origins {origin : Group} (known : origin = part ∨ origin ∈ groups) :
        origin ∈ part :: parts ∨ origin ∈ groups :=
      known.imp (fun same => List.mem_cons.2 (.inl same)) id
    obtain ⟨⟨starts, fromStarts, first⟩, ends, fromEnds, last⟩ := ih inside
    constructor
    · rcases fromStarts with later | now
      · exact ⟨starts, .inl (List.mem_cons_of_mem _ later), first⟩
      · obtain ⟨⟨origin, known, same⟩, _⟩ := pushed now
        exact ⟨origin, origins known, same.trans first⟩
    · rcases fromEnds with later | now
      · exact ⟨ends, .inl (List.mem_cons_of_mem _ later), last⟩
      · obtain ⟨_, origin, known, same⟩ := pushed now
        exact ⟨origin, origins known, same.trans last⟩

end Group

/-! ## The groups of both parts -/

section Parts

variable {lines : List String} {front behind : List Hunk} {blocks : List Block}
  (laid : Hunk.Laid lines 1 (front ++ behind)) (uncut : Uncut front behind blocks)

include laid

theorem stop_lt_start {a b : Hunk} (inFront : a ∈ front) (inBehind : b ∈ behind) :
    a.stop < b.start :=
  (List.pairwise_append.1 laid.apart).2.2 a inFront b inBehind

theorem pos_of_laid {hunk : Hunk} (inside : hunk ∈ front ∨ hunk ∈ behind) : 0 < hunk.start :=
  (laid.sits hunk (List.mem_append.2 inside)).2.pos

include uncut

/-- A block that a hunk in front meets ends in front of the hunks behind. -/
theorem endLine_lt_start {block : Block} (inside : block ∈ blocks) {a b : Hunk}
    (inFront : a ∈ front) (inBehind : b ∈ behind)
    (meets : a.meets block.startLine block.endLine = true) : block.endLine < b.start := by
  have clear := uncut block inside a inFront b inBehind meets
  have := stop_lt_start laid inFront inBehind
  have : b.start ≤ b.stop := Nat.le_add_right ..
  rw [Hunk.meets_iff] at meets
  rw [← Bool.not_eq_true, Hunk.meets_iff] at clear
  omega

/-- A block that a hunk behind meets begins behind the hunks in front. -/
theorem stop_le_startLine {block : Block} (inside : block ∈ blocks) {a b : Hunk}
    (inFront : a ∈ front) (inBehind : b ∈ behind)
    (meets : b.meets block.startLine block.endLine = true) : a.stop ≤ block.startLine := by
  have clear : ¬ a.meets block.startLine block.endLine = true := fun met => by
    simp [uncut block inside a inFront b inBehind met] at meets
  have := stop_lt_start laid inFront inBehind
  have : a.start ≤ a.stop := Nat.le_add_right ..
  rw [Hunk.meets_iff] at meets clear
  omega

/-- The group of a block that hunks in front meet ends in front of the hunks behind. -/
theorem last_lt_start {block : Block} (inside : block ∈ blocks) {group : Group}
    (spans : Group.Spans front block group) {b : Hunk} (inBehind : b ∈ behind) :
    group.last < b.start := by
  rcases spans.last_attained with same | ⟨hunk, member, _, same⟩
  · obtain ⟨a, inFront, meets⟩ := spans.inhabited
    exact same ▸ endLine_lt_start laid uncut inside inFront inBehind meets
  · have := stop_lt_start laid member inBehind
    omega

/-- The group of a block that hunks behind meet begins behind the hunks in front. -/
theorem stop_le_first {block : Block} (inside : block ∈ blocks) {group : Group}
    (spans : Group.Spans behind block group) {a : Hunk} (inFront : a ∈ front) :
    a.stop ≤ group.first := by
  rcases spans.first_attained with same | ⟨hunk, member, _, same⟩
  · obtain ⟨b, inBehind, meets⟩ := spans.inhabited
    exact same ▸ stop_le_startLine laid uncut inside inFront inBehind meets
  · exact same ▸ Nat.le_of_lt (stop_lt_start laid inFront member)

variable (apart : blocks.Pairwise fun a b => a.endLine < b.startLine)

include apart

/-- A block that a hunk in front meets stands in front of those that hunks behind meet. -/
theorem endLine_lt_startLine {block other : Block} (inside : block ∈ blocks)
    (inside' : other ∈ blocks) {a b : Hunk} (inFront : a ∈ front) (inBehind : b ∈ behind)
    (meets : a.meets block.startLine block.endLine = true)
    (meets' : b.meets other.startLine other.endLine = true) :
    block.endLine < other.startLine := by
  have := stop_lt_start laid inFront inBehind
  rcases eq_or_of_pairwise apart inside inside' with rfl | clear | clear
  · simp [uncut block inside a inFront b inBehind meets] at meets'
  · exact clear
  · rw [Hunk.meets_iff] at meets meets'
    omega

/-- No group of a block in front reaches the group of a block behind. -/
theorem last_lt_first {block other : Block} (inside : block ∈ blocks) (inside' : other ∈ blocks)
    {earlier later : Group} (spans : Group.Spans front block earlier)
    (spans' : Group.Spans behind other later) : earlier.last < later.first := by
  obtain ⟨a, inFront, meets⟩ := spans.inhabited
  obtain ⟨b, inBehind, meets'⟩ := spans'.inhabited
  rcases spans'.first_attained with same | ⟨hunk, member, _, same⟩
  · rcases spans.last_attained with same' | ⟨hunk, member, _, same'⟩
    · rw [same, same']
      exact endLine_lt_startLine laid uncut apart inside inside' inFront inBehind meets meets'
    · have := stop_le_startLine laid uncut inside' member inBehind meets'
      omega
  · exact same ▸ last_lt_start laid uncut inside spans member

/-- The groups of single blocks are those of the hunks in front, then those of the others. -/
theorem filterMap_ofBlock?_append :
    blocks.filterMap (Group.ofBlock? (front ++ behind)) =
      blocks.filterMap (Group.ofBlock? front) ++
        (blocks.filterMap (Group.ofBlock? behind)).map (Group.shift front.length) := by
  have posFront : ∀ hunk ∈ front, 0 < hunk.start := fun _ member => pos_of_laid laid (.inl member)
  have posBehind : ∀ hunk ∈ behind, 0 < hunk.start := fun _ member =>
    pos_of_laid laid (.inr member)
  induction blocks with
  | nil => rfl
  | cons block rest ih =>
    have later := ih (fun other within => uncut other (List.mem_cons_of_mem _ within))
      (List.pairwise_cons.1 apart).2
    cases found : Group.ofBlock? behind block with
    | none =>
      have clear := (Group.ofBlock?_eq_none posBehind).1 found
      have same : Group.ofBlock? (front ++ behind) block = Group.ofBlock? front block :=
        Group.ofBlock?_append_left fun hunk member =>
          (Block.intersects_eq_meets (posBehind hunk member)).trans (clear hunk member)
      rw [List.filterMap_cons_none found, List.filterMap_cons, List.filterMap_cons, same, later]
      split <;> rfl
    | some group =>
      obtain ⟨b, inBehind, meets⟩ := (Group.ofBlock?_spans posBehind found).inhabited
      have clear : ∀ other ∈ block :: rest, Group.ofBlock? front other = none := by
        intro other within
        refine (Group.ofBlock?_eq_none posFront).2 fun a inFront => ?_
        by_contra met
        rw [Bool.not_eq_false] at met
        rcases List.mem_cons.1 within with rfl | later
        · simp [uncut other within a inFront b inBehind met] at meets
        · have := (List.pairwise_cons.1 apart).1 other later
          have := stop_lt_start laid inFront inBehind
          rw [Hunk.meets_iff] at met meets
          omega
      have same : Group.ofBlock? (front ++ behind) block =
          some (group.shift front.length) := by
        rw [Group.ofBlock?_append_right fun hunk member => ?_, found]
        · rfl
        · exact (Block.intersects_eq_meets (posFront hunk member)).trans
            ((Group.ofBlock?_eq_none posFront).1 (clear block List.mem_cons_self) hunk member)
      have none_front : rest.filterMap (Group.ofBlock? front) = [] :=
        List.filterMap_eq_nil_iff.2 fun other within =>
          clear other (List.mem_cons_of_mem _ within)
      rw [List.filterMap_cons_some same, List.filterMap_cons_some found,
        List.filterMap_cons_none (clear block List.mem_cons_self), later, none_front]
      rfl

/-- The groups of all blocks are those of the hunks in front and, later ones first, those of the
others in front of them. -/
theorem ofBlocks_append (marks : ∀ block ∈ blocks, block.Marks lines) :
    Group.ofBlocks (front ++ behind) blocks =
      (Group.ofBlocks behind blocks).map (Group.shift front.length) ++
        Group.ofBlocks front blocks := by
  have posFront : ∀ hunk ∈ front, 0 < hunk.start := fun _ member => pos_of_laid laid (.inl member)
  have posBehind : ∀ hunk ∈ behind, 0 < hunk.start := fun _ member =>
    pos_of_laid laid (.inr member)
  obtain ⟨_, chain⟩ :=
    Group.ofBlocks_chain (laid.sublist (List.sublist_append_left front behind)) marks apart
  have clear : ∀ part ∈ (blocks.filterMap (Group.ofBlock? behind)).map (Group.shift front.length),
      ∀ group ∈ Group.ofBlocks front blocks, group.meets part = false := by
    intro part within group inside
    obtain ⟨later, found, rfl⟩ := List.mem_map.1 within
    obtain ⟨other, inside', found⟩ := List.mem_filterMap.1 found
    obtain ⟨_, earlier, known, same⟩ := Group.exists_ends_of_mem_foldl_push inside
    obtain ⟨block, within, found'⟩ := List.mem_filterMap.1 (known.resolve_right List.not_mem_nil)
    have reach := last_lt_first laid uncut apart within inside'
      (Group.ofBlock?_spans posFront found') (Group.ofBlock?_spans posBehind found)
    rw [same] at reach
    rw [Group.meets, Bool.or_eq_false_iff, List.any_eq_false]
    refine ⟨fun position listed shared => ?_, decide_eq_false (Nat.not_le.2 reach)⟩
    obtain ⟨i, _, rfl⟩ := List.mem_map.1 listed
    obtain ⟨hunk, at', _⟩ := ((chain.sound group inside).mem_members _).1
      (List.contains_iff_mem.1 shared)
    have := (List.getElem?_eq_some_iff.1 at').1
    omega
  rw [Group.ofBlocks, filterMap_ofBlock?_append laid uncut apart, List.foldl_append]
  refine (Group.foldl_push_append clear []).trans ?_
  exact congrArg (· ++ _) (Group.foldl_push_shift _ [])

end Parts

/-! ## Arranging both parts -/

variable {lines : List String} {front behind : List Hunk}

theorem arrange_shift (count : Nat) (hunks : List Hunk) (groups : List Group) :
    arrange lines hunks (groups.map (Group.shift count)) = arrange lines hunks groups := by
  induction groups generalizing hunks with
  | nil => rfl
  | cons group groups ih =>
    rw [List.map_cons, arrange, arrange, ih]
    rfl

/-- Hunks in front of a group are all before it. -/
theorem Group.split_of_before {hunks : List Hunk} {group : Group} (span : group.first ≤ group.last)
    (clear : ∀ hunk ∈ hunks, hunk.stop ≤ group.first) :
    group.before hunks = hunks ∧ group.inside hunks = [] ∧ group.behind hunks = [] := by
  refine ⟨List.filter_eq_self.2 (by simpa using clear), List.filter_eq_nil_iff.2 ?_,
    List.filter_eq_nil_iff.2 ?_⟩ <;> intro hunk member
  · rw [Hunk.meets_iff]
    have := clear hunk member
    omega
  · have : hunk.start ≤ hunk.stop := Nat.le_add_right ..
    have := clear hunk member
    rw [decide_eq_true_eq]
    omega

/-- Hunks behind a group are all behind it. -/
theorem Group.split_of_behind {hunks : List Hunk} {group : Group} (span : group.first ≤ group.last)
    (clear : ∀ hunk ∈ hunks, group.last < hunk.start) :
    group.before hunks = [] ∧ group.inside hunks = [] ∧ group.behind hunks = hunks := by
  refine ⟨List.filter_eq_nil_iff.2 ?_, List.filter_eq_nil_iff.2 ?_,
    List.filter_eq_self.2 (by simpa using clear)⟩ <;> intro hunk member
  · have : hunk.start ≤ hunk.stop := Nat.le_add_right ..
    have := clear hunk member
    rw [decide_eq_true_eq]
    omega
  · rw [Hunk.meets_iff]
    have := clear hunk member
    omega

theorem Group.split_append (front behind : List Hunk) (group : Group) :
    group.before (front ++ behind) = group.before front ++ group.before behind ∧
      group.inside (front ++ behind) = group.inside front ++ group.inside behind ∧
        group.behind (front ++ behind) = group.behind front ++ group.behind behind :=
  ⟨List.filter_append .., List.filter_append .., List.filter_append ..⟩

/-- Groups in front take only the hunks in front, and groups behind only those behind. -/
theorem arrange_append {earlier later : List Group}
    (ends : ∀ group ∈ earlier, group.first ≤ group.last ∧ ∀ b ∈ behind, group.last < b.start)
    (starts : ∀ group ∈ later, group.first ≤ group.last ∧ ∀ a ∈ front, a.stop ≤ group.first) :
    arrange lines (front ++ behind) (earlier ++ later) =
      arrange lines front earlier ++ arrange lines behind later := by
  induction earlier generalizing front with
  | nil =>
    cases later with
    | nil => exact List.map_append
    | cons group rest =>
      obtain ⟨span, clear⟩ := starts group List.mem_cons_self
      obtain ⟨before, inside, beyond⟩ := Group.split_append front behind group
      obtain ⟨all, none, none'⟩ := Group.split_of_before span clear
      rw [all] at before
      rw [none, List.nil_append] at inside
      rw [none', List.nil_append] at beyond
      calc arrange lines (front ++ behind) (group :: rest)
          = (group.before (front ++ behind)).map ofHunk ++
              (group.over lines (group.inside (front ++ behind)) ::
                arrange lines (group.behind (front ++ behind)) rest) := rfl
        _ = front.map ofHunk ++ arrange lines behind (group :: rest) := by
          rw [before, inside, beyond, List.map_append, List.append_assoc, arrange]
  | cons group rest ih =>
    obtain ⟨span, clear⟩ := ends group List.mem_cons_self
    obtain ⟨before, inside, beyond⟩ := Group.split_append front behind group
    obtain ⟨none, none', all⟩ := Group.split_of_behind span clear
    rw [none, List.append_nil] at before
    rw [none', List.append_nil] at inside
    rw [all] at beyond
    have starts' : ∀ other ∈ later, other.first ≤ other.last ∧
        ∀ a ∈ group.behind front, a.stop ≤ other.first := fun other within =>
      ⟨(starts other within).1, fun a member =>
        (starts other within).2 a (Group.mem_behind member).1⟩
    rw [List.cons_append, arrange, before, inside, beyond,
      ih (fun other within => ends other (List.mem_cons_of_mem _ within)) starts', arrange,
      List.append_assoc, List.cons_append]

/-- Hunks that leave no block cut are reconciled part by part. -/
theorem reconcile_append {blocks : List Block} (laid : Hunk.Laid lines 1 (front ++ behind))
    (uncut : Uncut front behind blocks) (marks : ∀ block ∈ blocks, block.Marks lines)
    (apart : blocks.Pairwise fun a b => a.endLine < b.startLine) :
    reconcile lines (front ++ behind) blocks =
      reconcile lines front blocks ++ reconcile lines behind blocks := by
  have laidFront := laid.sublist (List.sublist_append_left front behind)
  have laidBehind := laid.sublist (List.sublist_append_right front behind)
  have orderedFront := ordered_ofBlocks laidFront marks apart
  have orderedBehind := ordered_ofBlocks laidBehind marks apart
  rw [reconcile_eq_arrange laid marks apart, reconcile_eq_arrange laidFront marks apart,
    reconcile_eq_arrange laidBehind marks apart, ofBlocks_append laid uncut apart marks,
    List.reverse_append, ← List.map_reverse]
  refine (arrange_append (fun group inside => ⟨(orderedFront.span group inside).2.1, ?_⟩)
    fun group inside => ?_).trans ?_
  · intro b inBehind
    obtain ⟨_, part, known, same⟩ :=
      Group.exists_ends_of_mem_foldl_push (List.mem_reverse.1 inside)
    obtain ⟨block, within, found⟩ := List.mem_filterMap.1 (known.resolve_right List.not_mem_nil)
    rw [← same]
    exact last_lt_start laid uncut within (Group.ofBlock?_spans
      (fun _ member => pos_of_laid laid (.inl member)) found) inBehind
  · obtain ⟨origin, member, rfl⟩ := List.mem_map.1 inside
    refine ⟨(orderedBehind.span origin member).2.1, fun a inFront => ?_⟩
    obtain ⟨⟨part, known, same⟩, _⟩ :=
      Group.exists_ends_of_mem_foldl_push (List.mem_reverse.1 member)
    obtain ⟨block, within, found⟩ := List.mem_filterMap.1 (known.resolve_right List.not_mem_nil)
    have := stop_le_first laid uncut within (Group.ofBlock?_spans
      (fun _ member => pos_of_laid laid (.inr member)) found) inFront
    exact same ▸ this
  · rw [arrange_shift]

end MergeConflict.Patch
