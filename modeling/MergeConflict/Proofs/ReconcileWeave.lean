import MergeConflict.Proofs.ReconcileGroups

/-!
# What reconciling leaves of the hunks

`Patch.reconcile` turns hunks into patches: one over the whole span of each group, the hunks that
meet no block as they are. `arrange` lists the same patches in the order of the lines they replace,
going from group to group; the list that `reconcile` sorts is a permutation of it
(`perm_arrange`), so it is what `reconcile` returns (`reconcile_eq_arrange`).

Main statements: `laid_reconcile`, by which the patches lie in the buffer one behind the other,
`weave_reconcile`, by which they change the buffer as the hunks on their own would, and
`exists_hunk_of_mem_reconcile`, by which each of them takes in a hunk.
-/

namespace MergeConflict

/-- A list whose members with a property stand in front is those members, then the others. -/
theorem filter_append_filter_not {α : Type} (front : α → Bool) {items : List α}
    (sorted : items.Pairwise fun a b => front b = true → front a = true) :
    items.filter front ++ items.filter (fun item => !front item) = items := by
  induction items with
  | nil => rfl
  | cons item items ih =>
    obtain ⟨first, rest⟩ := List.pairwise_cons.1 sorted
    cases kept : front item with
    | true =>
      rw [List.filter_cons_of_pos kept, List.filter_cons_of_neg (by simp [kept]),
        List.cons_append, ih rest]
    | false =>
      have behind : ∀ other ∈ items, front other = false := fun other inside => by
        by_contra ahead
        simp [first other inside (by simpa using ahead)] at kept
      rw [List.filter_eq_nil_iff.2 (by simpa [kept] using behind),
        List.filter_eq_self.2 (by simpa [kept] using behind), List.nil_append]

namespace Patch

/-- The patch over a group's span, the hunks inside it being known. -/
def Group.over (lines : List String) (group : Group) (inside : List Hunk) : Patch :=
  ⟨group.first, group.last + 1 - group.first, Group.fill lines group.last group.first inside⟩

/-- The hunks that meet the span of a group. -/
def Group.inside (group : Group) (hunks : List Hunk) : List Hunk :=
  hunks.filter (Hunk.meets group.first group.last)

/-- The hunks in front of a group's span. -/
def Group.before (group : Group) (hunks : List Hunk) : List Hunk :=
  hunks.filter fun hunk => decide (hunk.stop ≤ group.first)

/-- The hunks behind a group's span. -/
def Group.behind (group : Group) (hunks : List Hunk) : List Hunk :=
  hunks.filter fun hunk => decide (group.last < hunk.start)

/-- The patches of some hunks in the order of the lines they replace, the groups being given in
order. -/
def arrange (lines : List String) (hunks : List Hunk) : List Group → List Patch
  | [] => hunks.map ofHunk
  | group :: rest =>
    (group.before hunks).map ofHunk ++
      (group.over lines (group.inside hunks) :: arrange lines (group.behind hunks) rest)

/-- No hunk straddles an end of the group's span. -/
def Group.Holds (hunks : List Hunk) (group : Group) : Prop :=
  ∀ hunk ∈ hunks, hunk.meets group.first group.last = true →
    group.first ≤ hunk.start ∧ hunk.stop ≤ group.last + 1

/-- Groups in order, from line `cursor` on, none of which has a hunk across an end of it. -/
structure Group.Ordered (length cursor : Nat) (hunks : List Hunk) (groups : List Group) : Prop where
  holds : ∀ group ∈ groups, group.Holds hunks
  span : ∀ group ∈ groups, cursor ≤ group.first ∧ group.first ≤ group.last ∧ group.last ≤ length
  apart : groups.Pairwise fun earlier later => earlier.last < later.first

variable {lines : List String} {cursor : Nat} {hunks : List Hunk} {group : Group}
  {groups : List Group}

/-! ## Cutting the hunks at a group -/

/-- Hunks in order fall into those in front of a group, those inside and those behind. -/
theorem Group.split (laid : Hunk.Laid lines cursor hunks) (span : group.first ≤ group.last) :
    group.before hunks ++ (group.inside hunks ++ group.behind hunks) = hunks := by
  have outside := filter_append_filter_not (fun hunk => decide (hunk.stop ≤ group.first)) <|
    laid.apart.imp fun {a b} clear => by
      have : b.start ≤ b.stop := Nat.le_add_right ..
      simp only [decide_eq_true_eq]
      omega
  have rest := laid.apart.filter fun hunk => !decide (hunk.stop ≤ group.first)
  have within := filter_append_filter_not (fun hunk => decide (hunk.start ≤ group.last)) <|
    rest.imp fun {a b} clear => by
      have : a.start ≤ a.stop := Nat.le_add_right ..
      simp only [decide_eq_true_eq]
      omega
  rw [List.filter_filter, List.filter_filter] at within
  rw [Group.before, Group.inside, Group.behind]
  refine (congrArg _ (Eq.trans ?_ within)).trans outside
  congr 1
  · refine List.filter_congr fun hunk _ => ?_
    rw [Bool.eq_iff_iff, Hunk.meets_iff]
    simp only [Bool.and_eq_true, decide_eq_true_eq, Bool.not_eq_true', decide_eq_false_iff_not]
    omega
  · refine List.filter_congr fun hunk _ => ?_
    have : hunk.start ≤ hunk.stop := Nat.le_add_right ..
    rw [Bool.eq_iff_iff]
    simp only [Bool.and_eq_true, decide_eq_true_eq, Bool.not_eq_true', decide_eq_false_iff_not]
    omega

theorem Group.mem_before {hunk : Hunk} (within : hunk ∈ group.before hunks) :
    hunk ∈ hunks ∧ hunk.stop ≤ group.first := by
  simpa [Group.before] using within

theorem Group.mem_inside {hunk : Hunk} (within : hunk ∈ group.inside hunks) :
    hunk ∈ hunks ∧ hunk.meets group.first group.last = true := by
  simpa [Group.inside] using within

theorem Group.mem_behind {hunk : Hunk} (within : hunk ∈ group.behind hunks) :
    hunk ∈ hunks ∧ group.last < hunk.start := by
  simpa [Group.behind] using within

/-- Behind the first of some groups in order stand the others. -/
theorem Group.Ordered.tail (ordered : Group.Ordered lines.length cursor hunks (group :: groups)) :
    Group.Ordered lines.length (group.last + 1) (group.behind hunks) groups where
  holds other within hunk behind :=
    ordered.holds other (List.mem_cons_of_mem _ within) hunk (Group.mem_behind behind).1
  span other within :=
    ⟨(List.pairwise_cons.1 ordered.apart).1 other within,
      (ordered.span other (List.mem_cons_of_mem _ within)).2⟩
  apart := (List.pairwise_cons.1 ordered.apart).2

theorem Group.laid_behind (laid : Hunk.Laid lines cursor hunks) :
    Hunk.Laid lines (group.last + 1) (group.behind hunks) where
  sits hunk within := ⟨(Group.mem_behind within).2, (laid.sits hunk (Group.mem_behind within).1).2⟩
  apart := laid.apart.sublist List.filter_sublist

/-- The hunks inside a group's span lie in it. -/
theorem Group.laid_inside (laid : Hunk.Laid lines cursor hunks) (held : group.Holds hunks) :
    Hunk.Laid lines group.first (group.inside hunks) where
  sits hunk within :=
    have ⟨member, meets⟩ := Group.mem_inside within
    ⟨(held hunk member meets).1, (laid.sits hunk member).2⟩
  apart := laid.apart.sublist List.filter_sublist

/-! ## The same change -/

/-- Two walks that go on alike behind some patches are alike. -/
theorem weave_append_congr {front one other : List Patch}
    (alike : ∀ line, line = cursor ∨ (∃ patch ∈ front, line = patch.stop) →
      weave lines line one = weave lines line other) :
    weave lines cursor (front ++ one) = weave lines cursor (front ++ other) := by
  induction front generalizing cursor with
  | nil => exact alike cursor (.inl rfl)
  | cons patch front ih =>
    rw [List.cons_append, List.cons_append, weave, weave, ih fun line reached => ?_]
    refine alike line (.inr ?_)
    rcases reached with rfl | ⟨later, within, rfl⟩
    · exact ⟨patch, List.mem_cons_self, rfl⟩
    · exact ⟨later, List.mem_cons_of_mem _ within, rfl⟩

/-- The lines copied in front of a hunk; none if the hunk begins right here. -/
theorem copied_lines {line : Nat} (le : cursor ≤ line) :
    (if cursor < line then bufferLines lines cursor (line - 1) else []) =
      bufferLines lines cursor (line - 1) := by
  split
  · rfl
  · rw [show line = cursor by omega, bufferLines_empty]

/-- The lines that `Group.fill` collects are the walk over the hunks up to line `last`. -/
theorem weave_fill {last : Nat} {rest : List Patch} (laid : Hunk.Laid lines cursor hunks)
    (le : cursor ≤ last + 1) (held : ∀ hunk ∈ hunks, hunk.stop ≤ last + 1)
    (behind : ∀ patch ∈ rest, last + 1 ≤ patch.start) :
    weave lines cursor (hunks.map ofHunk ++ rest) =
      Group.fill lines last cursor hunks ++ weave lines (last + 1) rest := by
  induction hunks generalizing cursor with
  | nil =>
    rw [List.map_nil, List.nil_append, weave_cut (last + 1) le (Nat.succ_pos last) behind, Group.fill,
      ← copied_lines le]
    simp only [Nat.lt_succ_iff, Nat.add_sub_cancel]
  | cons hunk hunks ih =>
    have low := (laid.sits hunk List.mem_cons_self).1
    have length : hunk.start ≤ hunk.start + hunk.offset := Nat.le_add_right ..
    have later := ih laid.tail (held hunk List.mem_cons_self)
      fun other within => held other (List.mem_cons_of_mem _ within)
    rw [List.map_cons, List.cons_append, weave, Group.fill, copied_lines low,
      Nat.max_eq_right (Nat.le_trans low length), List.append_assoc, List.append_assoc]
    exact congrArg (fun tail => _ ++ (_ ++ tail)) later

/-- Going from group to group changes the buffer as the hunks on their own do. -/
theorem weave_arrange (laid : Hunk.Laid lines cursor hunks) (pos : 0 < cursor)
    (ordered : Group.Ordered lines.length cursor hunks groups) :
    weave lines cursor (arrange lines hunks groups) = weave lines cursor (hunks.map ofHunk) := by
  induction groups generalizing cursor hunks with
  | nil => rfl
  | cons group groups ih =>
    obtain ⟨low, span, high⟩ := ordered.span group List.mem_cons_self
    have held := ordered.holds group List.mem_cons_self
    have later := ih (Group.laid_behind laid) (Nat.succ_pos group.last) ordered.tail
    have insideLaid := Group.laid_inside laid held
    have beyond : ∀ patch ∈ (group.behind hunks).map ofHunk, group.last + 1 ≤ patch.start :=
      fun patch within => by
        obtain ⟨hunk, found, rfl⟩ := List.mem_map.1 within
        exact (Group.mem_behind found).2
    have filled := weave_fill insideLaid (by omega)
      (fun hunk within => (held hunk (Group.mem_inside within).1 (Group.mem_inside within).2).2)
      beyond
    have starts : ∀ patch ∈ (group.inside hunks).map ofHunk ++ (group.behind hunks).map ofHunk,
        group.first ≤ patch.start := fun patch within => by
      rcases List.mem_append.1 within with within | within
      · obtain ⟨hunk, found, rfl⟩ := List.mem_map.1 within
        exact (insideLaid.sits hunk found).1
      · have := beyond patch within
        omega
    have stops : (group.over lines (group.inside hunks)).stop = group.last + 1 := by
      simp only [stop, Group.over]
      omega
    have parts : hunks.map ofHunk = (group.before hunks).map ofHunk ++
        ((group.inside hunks).map ofHunk ++ (group.behind hunks).map ofHunk) := by
      rw [← List.map_append, ← List.map_append, Group.split laid span]
    rw [arrange, parts]
    refine weave_append_congr fun line reached => ?_
    have reaches : line ≤ group.first := by
      rcases reached with rfl | ⟨patch, within, rfl⟩
      · exact low
      · obtain ⟨hunk, found, rfl⟩ := List.mem_map.1 within
        exact (Group.mem_before found).2
    rw [weave_cut group.first reaches (by omega) starts, filled, weave, stops, later]
    rfl

/-! ## The layout of the patches -/

/-- The patches, going from group to group, stand one behind the other. -/
theorem laid_arrange (laid : Hunk.Laid lines cursor hunks)
    (ordered : Group.Ordered lines.length cursor hunks groups) :
    Laid lines.length cursor (arrange lines hunks groups) := by
  induction groups generalizing cursor hunks with
  | nil => exact laid.patches Hunk.newLines
  | cons group groups ih =>
    obtain ⟨low, span, high⟩ := ordered.span group List.mem_cons_self
    have later := ih (Group.laid_behind laid) ordered.tail
    have front : Laid lines.length cursor ((group.before hunks).map ofHunk) :=
      Hunk.Laid.patches (laid.sublist List.filter_sublist) Hunk.newLines
    have starts : (group.over lines (group.inside hunks)).start = group.first := rfl
    have stops : (group.over lines (group.inside hunks)).stop = group.last + 1 := by
      simp only [stop, Group.over]
      omega
    have length : (group.over lines (group.inside hunks)).offset = group.last + 1 - group.first :=
      rfl
    have overAhead : ∀ patch ∈ arrange lines (group.behind hunks) groups,
        Ahead (group.over lines (group.inside hunks)) patch := fun patch within => by
      have := (later.within patch within).1
      rw [Ahead, starts, stops]
      omega
    have frontAhead : ∀ patch ∈ (group.before hunks).map ofHunk,
        Ahead patch (group.over lines (group.inside hunks)) := fun patch within => by
      obtain ⟨hunk, found, rfl⟩ := List.mem_map.1 within
      have ends : hunk.start + hunk.offset ≤ group.first := (Group.mem_before found).2
      rw [Ahead, starts, length]
      simp only [stop, ofHunk]
      omega
    refine ⟨fun patch within => ?_, List.pairwise_append.2
      ⟨front.apart, .cons overAhead later.apart, fun patch within other inside => ?_⟩⟩
    · rw [arrange, List.mem_append, List.mem_cons] at within
      rcases within with within | rfl | within
      · exact front.within patch within
      · rw [starts, stops]
        omega
      · exact ⟨Nat.le_trans (by omega) (later.within patch within).1,
          (later.within patch within).2⟩
    · rcases List.mem_cons.1 inside with rfl | inside
      · exact frontAhead patch within
      · have ends := (frontAhead patch within).1
        have := (later.within other inside).1
        have : patch.start ≤ patch.stop := Nat.le_add_right ..
        rw [starts] at ends
        rw [Ahead]
        omega

/-! ## The list that is sorted -/

/-- Group by group the same patches come out as from all groups first and the other hunks after. -/
theorem perm_arrange (laid : Hunk.Laid lines cursor hunks)
    (ordered : Group.Ordered lines.length cursor hunks groups) :
    (groups.map (fun group => group.over lines (group.inside hunks)) ++
      (hunks.filter fun hunk => !groups.any fun group =>
        hunk.meets group.first group.last).map ofHunk).Perm (arrange lines hunks groups) := by
  induction groups generalizing cursor hunks with
  | nil => simp [arrange]
  | cons group groups ih =>
    obtain ⟨low, span, high⟩ := ordered.span group List.mem_cons_self
    have apart := (List.pairwise_cons.1 ordered.apart).1
    have later := ih (Group.laid_behind laid) ordered.tail
    have same : groups.map (fun other => other.over lines (other.inside (group.behind hunks))) =
        groups.map fun other => other.over lines (other.inside hunks) := by
      refine List.map_congr_left fun other within => congrArg _ ?_
      have := apart other within
      rw [Group.inside, Group.behind, List.filter_filter, Group.inside]
      refine List.filter_congr fun hunk inside => ?_
      by_cases meets : hunk.meets other.first other.last = true
      · have held := ordered.holds other (List.mem_cons_of_mem _ within) hunk inside meets
        simp only [meets, Bool.true_and, decide_eq_true_eq]
        omega
      · simp [meets]
    have single : (hunks.filter fun hunk => !(group :: groups).any fun other =>
          hunk.meets other.first other.last) =
        group.before hunks ++ (group.behind hunks).filter fun hunk =>
          !groups.any fun other => hunk.meets other.first other.last := by
      conv_lhs => rw [← Group.split laid span]
      rw [List.filter_append, List.filter_append]
      have front : ∀ hunk ∈ group.before hunks, (!(group :: groups).any fun other =>
          hunk.meets other.first other.last) = true := fun hunk within => by
        have ends := (Group.mem_before within).2
        simp only [Bool.not_eq_true', List.any_eq_false, Hunk.meets_iff, List.mem_cons]
        rintro other (rfl | later)
        · omega
        · have := apart other later
          omega
      have taken : ∀ hunk ∈ group.inside hunks, ¬ (!(group :: groups).any fun other =>
          hunk.meets other.first other.last) = true := fun hunk within => by
        simp [(Group.mem_inside within).2]
      have beyond : ∀ hunk ∈ group.behind hunks, (!(group :: groups).any fun other =>
          hunk.meets other.first other.last) = !groups.any fun other =>
            hunk.meets other.first other.last := fun hunk within => by
        have clear : hunk.meets group.first group.last = false := by
          rw [← Bool.not_eq_true, Hunk.meets_iff]
          have := (Group.mem_behind within).2
          omega
        rw [List.any_cons, clear, Bool.false_or]
      rw [List.filter_eq_self.2 front, List.filter_eq_nil_iff.2 taken, List.nil_append,
        List.filter_congr beyond]
    rw [single, List.map_append, arrange, List.map_cons, ← same]
    exact List.perm_append_comm_assoc .. |>.trans (.append_left _ (.cons _ later))

/-- The members of a group, taken from the list by position, are the hunks that meet its span. -/
theorem Group.Sound.members_perm {length : Nat} (sound : Group.Sound length hunks group) :
    (group.members.filterMap (hunks[·]?)).Perm (group.inside hunks) := by
  have positions : group.members.Perm
      ((hunks.zipIdx.filter fun entry => entry.1.meets group.first group.last).map (·.2)) := by
    refine (List.perm_ext_iff_of_nodup sound.nodup (Group.nodup_positions hunks _)).2 fun i => ?_
    rw [sound.mem_members, Group.mem_positions]
  refine (positions.filterMap _).trans (.of_eq ?_)
  have taken : (hunks.zipIdx.filter fun entry =>
        entry.1.meets group.first group.last).filterMap (hunks[·.2]?) =
      (hunks.zipIdx.filter fun entry => entry.1.meets group.first group.last).map (·.1) := by
    rw [← List.filterMap_eq_map]
    refine List.filterMap_congr fun entry within => ?_
    exact List.mem_zipIdx_iff_getElem?.1 (List.mem_filter.1 within).1
  rw [List.filterMap_map]
  refine taken.trans ?_
  rw [Group.inside]
  conv_rhs => rw [← List.zipIdx_map_fst 0 hunks, List.filter_map]
  rfl

/-- The patch of a group is made of the hunks that meet its span. -/
theorem Group.Sound.patch_eq {length : Nat} (sound : Group.Sound length hunks group)
    (laid : Hunk.Laid lines cursor hunks) :
    group.patch lines hunks = group.over lines (group.inside hunks) := by
  have starts : (group.inside hunks).Pairwise fun a b => a.start < b.start :=
    (laid.apart.sublist List.filter_sublist).imp fun {a b} clear =>
      Nat.lt_of_le_of_lt (Nat.le_add_right ..) clear
  have sorted : (group.members.filterMap (hunks[·]?)).mergeSort
      (fun a b => decide (a.start ≤ b.start)) = group.inside hunks := by
    have perm := (List.mergeSort_perm (group.members.filterMap (hunks[·]?))
      fun a b => decide (a.start ≤ b.start)).trans sound.members_perm
    have antisymm : ∀ a b : Hunk, a ∈ (group.members.filterMap (hunks[·]?)).mergeSort
          (fun a b => decide (a.start ≤ b.start)) → b ∈ group.inside hunks →
        decide (a.start ≤ b.start) = true → decide (b.start ≤ a.start) = true → a = b := by
      intro a b insideA insideB le ge
      have : a.start ≤ a.stop ∧ b.start ≤ b.stop := ⟨Nat.le_add_right .., Nat.le_add_right ..⟩
      rw [decide_eq_true_eq] at le ge
      rcases laid.apart_or (Group.mem_inside (perm.subset insideA)).1 (Group.mem_inside insideB).1
        with same | clear | clear
      · exact same
      · omega
      · omega
    refine List.Perm.eq_of_pairwise antisymm (List.pairwise_mergeSort (fun a b c => ?_)
      (fun a b => ?_) _) (starts.imp fun lt => decide_eq_true (Nat.le_of_lt lt)) perm
    · simp only [decide_eq_true_eq]
      exact Nat.le_trans
    · simpa using Nat.le_total a.start b.start
  rw [Group.patch, sorted, Group.over]

/-- The hunks that are members of no group are those that meet none. -/
theorem single_eq {length : Nat} (sound : ∀ group ∈ groups, Group.Sound length hunks group) :
    ((hunks.zipIdx.filter fun entry => !groups.any (·.members.contains entry.2)).map
        (ofHunk ·.1)) =
      (hunks.filter fun hunk => !groups.any fun group =>
        hunk.meets group.first group.last).map ofHunk := by
  have same : ∀ entry ∈ hunks.zipIdx, (!groups.any (·.members.contains entry.2)) =
      !groups.any fun group => entry.1.meets group.first group.last := fun entry within => by
    have at' := List.mem_zipIdx_iff_getElem?.1 within
    have each (group : Group) (inside : group ∈ groups) :
        group.members.contains entry.2 = entry.1.meets group.first group.last := by
      rw [Bool.eq_iff_iff, List.contains_iff_mem, (sound group inside).mem_members]
      simp [at']
    congr 1
    rw [Bool.eq_iff_iff, List.any_eq_true, List.any_eq_true]
    exact exists_congr fun group => and_congr_right fun inside => by rw [each group inside]
  rw [List.filter_congr same]
  conv_rhs => rw [← List.zipIdx_map_fst 0 hunks, List.filter_map, List.map_map]
  rfl

/-! ## The patches of a buffer -/

/-- A patch is that of a group, or a hunk as it is. -/
theorem of_mem_reconcile {blocks : List Block} {patch : Patch}
    (within : patch ∈ reconcile lines hunks blocks) :
    (∃ group ∈ Group.ofBlocks hunks blocks, patch = group.patch lines hunks) ∨
      ∃ hunk ∈ hunks, patch = ofHunk hunk := by
  rcases List.mem_append.1 ((List.mergeSort_perm _ _).subset within) with grouped | single
  · obtain ⟨group, inside, rfl⟩ := List.mem_map.1 grouped
    exact .inl ⟨group, List.mem_reverse.1 inside, rfl⟩
  · obtain ⟨entry, found, rfl⟩ := List.mem_map.1 single
    exact .inr ⟨entry.1, List.fst_mem_of_mem_zipIdx (List.mem_filter.1 found).1, rfl⟩

theorem Group.patch_mem_reconcile {blocks : List Block}
    (known : group ∈ Group.ofBlocks hunks blocks) :
    group.patch lines hunks ∈ reconcile lines hunks blocks :=
  (List.mergeSort_perm _ _).symm.subset <| List.mem_append_left _ <|
    List.mem_map.2 ⟨group, List.mem_reverse.2 known, rfl⟩

section Reconcile

variable {blocks : List Block} (laid : Hunk.Laid lines 1 hunks)
  (marks : ∀ block ∈ blocks, block.Marks lines)
  (apart : blocks.Pairwise fun a b => a.endLine < b.startLine)

include laid marks apart

/-- The groups of all blocks, in order. -/
theorem ordered_ofBlocks :
    Group.Ordered lines.length 1 hunks (Group.ofBlocks hunks blocks).reverse := by
  obtain ⟨_, chain⟩ := Group.ofBlocks_chain laid marks apart
  refine ⟨fun group inside => ?_, fun group inside => ?_, List.pairwise_reverse.2 chain.apart⟩
  · exact (chain.sound group (List.mem_reverse.1 inside)).contains
  · have sound := chain.sound group (List.mem_reverse.1 inside)
    exact ⟨sound.pos, sound.first_le, sound.last_le⟩

/-- Reconciling goes from group to group. -/
theorem reconcile_eq_arrange :
    reconcile lines hunks blocks =
      arrange lines hunks (Group.ofBlocks hunks blocks).reverse := by
  obtain ⟨_, chain⟩ := Group.ofBlocks_chain laid marks apart
  have ordered := ordered_ofBlocks laid marks apart
  have patches : (Group.ofBlocks hunks blocks).reverse.map (Group.patch lines hunks) =
      (Group.ofBlocks hunks blocks).reverse.map fun group =>
        group.over lines (group.inside hunks) :=
    List.map_congr_left fun group inside =>
      (chain.sound group (List.mem_reverse.1 inside)).patch_eq laid
  have perm := perm_arrange laid ordered
  rw [← patches] at perm
  simp only [List.any_reverse] at perm
  rw [← single_eq chain.sound] at perm
  exact sort_eq_of_perm perm (laid_arrange laid ordered).apart

/-- The patches stand in the buffer one behind the other. -/
theorem laid_reconcile : Laid lines.length 1 (reconcile lines hunks blocks) := by
  rw [reconcile_eq_arrange laid marks apart]
  exact laid_arrange laid (ordered_ofBlocks laid marks apart)

/-- The patches change the buffer as the hunks on their own do. -/
theorem weave_reconcile :
    weave lines 1 (reconcile lines hunks blocks) = weave lines 1 (hunks.map ofHunk) := by
  rw [reconcile_eq_arrange laid marks apart]
  exact weave_arrange laid Nat.one_pos (ordered_ofBlocks laid marks apart)

/-- Applied all together, the patches change the buffer as the hunks on their own do. -/
theorem applyAll_eq_weave_hunks :
    applyAll lines (reconcile lines hunks blocks) = weave lines 1 (hunks.map ofHunk) := by
  rw [applyAll_eq_weave (laid_reconcile laid marks apart), weave_reconcile laid marks apart]

/-- Every patch takes in a hunk. -/
theorem exists_hunk_of_mem_reconcile {patch : Patch}
    (within : patch ∈ reconcile lines hunks blocks) :
    ∃ hunk ∈ hunks, patch.start ≤ hunk.start ∧ hunk.stop ≤ patch.stop := by
  obtain ⟨_, chain⟩ := Group.ofBlocks_chain laid marks apart
  rcases of_mem_reconcile within with ⟨group, known, rfl⟩ | ⟨hunk, member, rfl⟩
  · have sound := chain.sound group known
    obtain ⟨hunk, member, meets⟩ := sound.inhabited
    have held := sound.contains hunk member meets
    have := sound.first_le
    refine ⟨hunk, member, held.1, ?_⟩
    simp only [stop, Group.patch]
    omega
  · exact ⟨hunk, member, Nat.le_refl _, Nat.le_refl _⟩

end Reconcile

end Patch

end MergeConflict
