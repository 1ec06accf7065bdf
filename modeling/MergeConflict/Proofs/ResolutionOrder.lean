import Mathlib.Data.List.Induction
import MergeConflict.Proofs.BufferMoves
import MergeConflict.Proofs.ConflictStretches

/-!
# Resolving the blocks of a text in any order

The blocks that choices refer to are those of the text as loaded, and a block is found again by its
fingerprint, wherever the choices before have moved it. `partly` is the text in which the blocks in
a list of numbers have been replaced. In it every other block is found where it stands
(`located_partly`), and applying a choice to it replaces that block too (`Resolving.apply`).

So after any choices in any order the buffer holds the text with the blocks chosen for replaced
(`run_partly`). Main statement: `resolve_in_any_order`.
-/

namespace MergeConflict

/-- The lines of a block, its markers included. -/
def Block.body (block : Block) (lines : List String) : List String :=
  Patch.bufferLines lines block.startLine block.endLine

/-- The blocks of a text with their numbers. -/
def numberedBlocks (lines : List String) : List (Block × Nat) :=
  (findBlocks lines).zipIdx 1

/-- The patch that writes some lines in the place of a block. -/
def Block.over (text : Block × Nat → List String) (entry : Block × Nat) : Patch :=
  ⟨entry.1.startLine, entry.1.lineCount, text entry⟩

/-- The lines in the place of a block once the blocks in `done` have been replaced. -/
def standing (lines : List String) (replacement : Nat → List String) (done : List Nat)
    (entry : Block × Nat) : List String :=
  if entry.2 ∈ done then replacement entry.2 else entry.1.body lines

/-- A text with the blocks in `done` replaced. -/
def partly (lines : List String) (replacement : Nat → List String) (done : List Nat) :
    List String :=
  Patch.weave lines 1 ((numberedBlocks lines).map (Block.over (standing lines replacement done)))

/-- A text with each block replaced. -/
def replaced (lines : List String) (replacement : Nat → List String) : List String :=
  Patch.weave lines 1 ((numberedBlocks lines).map (Block.over fun entry => replacement entry.2))

variable {lines : List String} {replacement : Nat → List String} {done : List Nat}

/-! ## Numbers -/

theorem numbered?_map {α β : Type} (f : α → β) (entries : List α) (number : Nat) :
    numbered? (entries.map f) number = (numbered? entries number).map f := by
  cases number with
  | zero => rfl
  | succ i => exact List.getElem?_map

theorem mem_numberedBlocks {block : Block} {number : Nat} :
    (block, number) ∈ numberedBlocks lines ↔ numbered? (findBlocks lines) number = some block := by
  rw [numberedBlocks, List.mem_zipIdx_iff_le_and_getElem?_sub]
  cases number with
  | zero => simp [numbered?]
  | succ i => simp [numbered?]

theorem numberedBlocks_fst (lines : List String) :
    (numberedBlocks lines).map (·.1) = findBlocks lines :=
  List.zipIdx_map_fst 1 _

theorem numberedBlocks_snd (lines : List String) :
    (numberedBlocks lines).map (·.2) = List.range' 1 (findBlocks lines).length :=
  List.zipIdx_map_snd 1 _

theorem numberedBlocks_marks :
    ∀ entry ∈ numberedBlocks lines, entry.1.Marks lines ∧ 1 ≤ entry.1.startLine := by
  intro entry inside
  have known : entry.1 ∈ findBlocks lines := by
    rw [← numberedBlocks_fst lines]
    exact List.mem_map_of_mem inside
  exact ⟨findBlocks_marks entry.1 known, (findBlocks_marks entry.1 known).start_pos⟩

theorem numberedBlocks_apart (lines : List String) :
    (numberedBlocks lines).Pairwise fun a b => a.1.endLine < b.1.startLine := by
  have apart := findBlocks_pairwise lines
  rw [← numberedBlocks_fst] at apart
  exact List.pairwise_map.1 apart

/-- No other block has the number of a block. -/
theorem number_ne_of_split {block : Block} {number : Nat} {front later : List (Block × Nat)}
    (split : numberedBlocks lines = front ++ (block, number) :: later) :
    ∀ entry, entry ∈ front ∨ entry ∈ later → entry.2 ≠ number := by
  have unique : ((numberedBlocks lines).map (·.2)).Nodup := by
    rw [numberedBlocks_snd]
    exact List.nodup_range'
  rw [split, List.map_append, List.map_cons, List.nodup_append, List.nodup_cons] at unique
  obtain ⟨_, ⟨notLater, _⟩, clear⟩ := unique
  rintro entry (inside | inside)
  · exact clear entry.2 (List.mem_map_of_mem inside) number List.mem_cons_self
  · exact fun same => notLater (List.mem_map.2 ⟨entry, inside, same⟩)

/-- Behind the patch over a block the text goes on behind the block. -/
theorem Block.Marks.stop_over {entry : Block × Nat} (marks : entry.1.Marks lines)
    (text : Block × Nat → List String) : (Block.over text entry).stop = entry.1.endLine + 1 := by
  have := marks.start_lt_stop
  simp only [Patch.stop, Block.over, Block.lineCount]
  omega

/-- The fingerprint of a block is that of its lines. -/
theorem Block.Marks.fingerprint {block : Block} (marks : block.Marks lines) :
    Fingerprint.ofBlock lines block = Fingerprint.ofLines (block.body lines) := by
  have := marks.start_lt_stop
  have := marks.stop_le
  rw [Fingerprint.ofBlock, Fingerprint.ofRange, if_pos (by omega), Nat.sub_add_cancel (by omega)]
  rfl

/-- A block given by number is looked for by the fingerprint of its lines. -/
theorem FingerprintIndex.locate_ofBlocks {block : Block} {number : Nat}
    (known : numbered? (findBlocks lines) number = some block) (current : List String) :
    (ofBlocks lines (findBlocks lines)).locate current number =
      (Fingerprint.ofLines (block.body lines)).locate current := by
  have inside : block ∈ findBlocks lines := mem_of_numbered? known
  rw [locate, get?, ofBlocks, numbered?_map, known, Option.map_some, Option.bind_some,
    (findBlocks_marks block inside).fingerprint]

theorem Buffer.Rooted.locate_eq {buffer : Buffer} {algorithm : Algorithm} {block : Block}
    {number : Nat} (rooted : buffer.Rooted lines algorithm)
    (known : numbered? (findBlocks lines) number = some block) :
    buffer.locate number = (Fingerprint.ofLines (block.body lines)).locate buffer.current := by
  rw [Buffer.locate, rooted.prints, FingerprintIndex.locate_ofBlocks known]

/-! ## The stretches of a partly resolved text -/

/-- The patches over blocks that own all markers leave no marker standing. -/
theorem Owned.leads {entries : List (Block × Nat)} {cursor : Nat}
    (owned : Owned lines cursor (entries.map (·.1))) (pos : 0 < cursor)
    (marks : ∀ entry ∈ entries, entry.1.Marks lines ∧ cursor ≤ entry.1.startLine)
    (apart : entries.Pairwise fun a b => a.1.endLine < b.1.startLine)
    (text : Block × Nat → List String) :
    Leads lines cursor (entries.map (Block.over text)) ∧
      ∀ entry ∈ entries, IsConflict (entry.1.body lines) := by
  induction entries generalizing cursor with
  | nil => exact ⟨owned.unmarked_rest pos, fun _ inside => (List.not_mem_nil inside).elim⟩
  | cons entry entries ih =>
    obtain ⟨behind, apartRest⟩ := List.pairwise_cons.1 apart
    obtain ⟨own, low⟩ := marks entry List.mem_cons_self
    have marksAll : ∀ block ∈ (entry :: entries).map (·.1), block.Marks lines := by
      intro block inside
      obtain ⟨other, member, rfl⟩ := List.mem_map.1 inside
      exact (marks other member).1
    have apartAll : ((entry :: entries).map (·.1)).Pairwise fun a b => a.endLine < b.startLine :=
      List.pairwise_map.2 apart
    have later := ih (owned.tail low own) (Nat.succ_pos _)
      (fun other inside => ⟨(marks other (List.mem_cons_of_mem _ inside)).1, behind other inside⟩)
      apartRest
    have stops := own.stop_over text
    refine ⟨⟨owned.unmarked_front pos marksAll apartAll, stops ▸ later.1⟩, fun other inside => ?_⟩
    rcases List.mem_cons.1 inside with rfl | inside
    · exact owned.isConflict low marksAll apartAll
    · exact later.2 other inside

/-- Blocks that stand as they are leave the text as it is. -/
theorem weave_body {entries : List (Block × Nat)} {cursor : Nat} (pos : 0 < cursor)
    (marks : ∀ entry ∈ entries, entry.1.Marks lines ∧ cursor ≤ entry.1.startLine)
    (apart : entries.Pairwise fun a b => a.1.endLine < b.1.startLine) :
    Patch.weave lines cursor (entries.map (Block.over fun entry => entry.1.body lines)) =
      lines.drop (cursor - 1) := by
  induction entries generalizing cursor with
  | nil => rfl
  | cons entry entries ih =>
    obtain ⟨behind, apart⟩ := List.pairwise_cons.1 apart
    obtain ⟨own, low⟩ := marks entry List.mem_cons_self
    have startStop := own.start_lt_stop
    have stops := own.stop_over fun entry => entry.1.body lines
    have later := ih (Nat.succ_pos entry.1.endLine)
      (fun other inside => ⟨(marks other (List.mem_cons_of_mem _ inside)).1, behind other inside⟩)
      apart
    rw [List.map_cons, Patch.weave, stops, later]
    have kept : entry.1.body lines ++ lines.drop entry.1.endLine =
        lines.drop (entry.1.startLine - 1) := Patch.bufferLines_append_drop (by omega)
    have lead : Patch.bufferLines lines cursor (entry.1.startLine - 1) ++
        lines.drop (entry.1.startLine - 1) = lines.drop (cursor - 1) :=
      Patch.bufferLines_append_drop (by omega)
    rw [← lead, ← kept]
    rfl

theorem partly_nil (lines : List String) (replacement : Nat → List String) :
    partly lines replacement [] = lines :=
  weave_body Nat.one_pos numberedBlocks_marks (numberedBlocks_apart lines)

theorem partly_all {order : List Nat}
    (perm : order.Perm (List.range' 1 (findBlocks lines).length)) :
    partly lines replacement order = replaced lines replacement := by
  rw [partly, replaced]
  congr 1
  refine List.map_congr_left fun entry inside => ?_
  have taken : entry.2 ∈ order := by
    rw [perm.mem_iff, ← numberedBlocks_snd]
    exact List.mem_map_of_mem inside
  simp only [Block.over, standing, if_pos taken]

section Covered

variable (covered : Covered lines)

include covered

theorem leads_partly (text : Block × Nat → List String) :
    Leads lines 1 ((numberedBlocks lines).map (Block.over text)) ∧
      ∀ entry ∈ numberedBlocks lines, IsConflict (entry.1.body lines) := by
  have owned : Owned lines 1 ((numberedBlocks lines).map (·.1)) := by
    rw [numberedBlocks_fst]
    exact covered
  exact owned.leads Nat.one_pos numberedBlocks_marks (numberedBlocks_apart lines) text

/-- As many blocks are outstanding as have not been replaced. -/
theorem length_findBlocks_partly (unmarked : ∀ number ∈ done, Unmarked (replacement number)) :
    (findBlocks (partly lines replacement done)).length =
      (List.range' 1 (findBlocks lines).length).countP fun number => decide (number ∉ done) := by
  obtain ⟨leads, conflicts⟩ := leads_partly covered (standing lines replacement done)
  have texts : ∀ entry ∈ numberedBlocks lines, if decide (entry.2 ∉ done) then
      IsConflict (Block.over (standing lines replacement done) entry).newLines else
      Unmarked (Block.over (standing lines replacement done) entry).newLines := by
    intro entry inside
    by_cases replaced : entry.2 ∈ done
    · rw [if_neg (by simpa using replaced)]
      have written : (Block.over (standing lines replacement done) entry).newLines =
          replacement entry.2 := if_pos replaced
      exact written ▸ unmarked entry.2 replaced
    · rw [if_pos (by simpa using replaced)]
      have written : (Block.over (standing lines replacement done) entry).newLines =
          entry.1.body lines := if_neg replaced
      exact written ▸ conflicts entry inside
  rw [findBlocks, partly, length_blocks_weave leads texts, ← numberedBlocks_snd, List.countP_map]
  rfl

/-- A block that has not been replaced is found where it stands, and its lines and the replacement
are all that the texts before and after differ in. -/
theorem located_partly (unmarked : ∀ number ∈ done, Unmarked (replacement number))
    (distinct : (findBlocks lines).Pairwise fun a b =>
      Fingerprint.ofLines (a.body lines) ≠ Fingerprint.ofLines (b.body lines))
    {block : Block} {number : Nat} (known : numbered? (findBlocks lines) number = some block)
    (waits : number ∉ done) :
    ∃ lead behind, partly lines replacement done = lead ++ (block.body lines ++ behind) ∧
      partly lines replacement (done ++ [number]) = lead ++ (replacement number ++ behind) ∧
      (Fingerprint.ofLines (block.body lines)).locate (partly lines replacement done) =
        some ⟨lead.length, lead.length + (block.body lines).length - 1⟩ := by
  obtain ⟨leads, conflicts⟩ := leads_partly covered (standing lines replacement done)
  obtain ⟨front, later, split⟩ := List.append_of_mem (mem_numberedBlocks.2 known)
  have conflict := conflicts (block, number) (split ▸ List.mem_append_right _ List.mem_cons_self)
  have others := number_ne_of_split split
  have prints : ∀ entry ∈ front,
      Fingerprint.ofLines (entry.1.body lines) ≠ Fingerprint.ofLines (block.body lines) := by
    rw [← numberedBlocks_fst, split, List.map_append, List.map_cons] at distinct
    exact fun entry inside => (List.pairwise_append.1 distinct).2.2 entry.1
      (List.mem_map_of_mem inside) block List.mem_cons_self
  have texts : ∀ patch ∈ front.map (Block.over (standing lines replacement done)),
      Unmarked patch.newLines ∨ IsConflict patch.newLines ∧
        Fingerprint.ofLines patch.newLines ≠ Fingerprint.ofLines (block.body lines) := by
    intro patch written
    obtain ⟨entry, inside, rfl⟩ := List.mem_map.1 written
    rw [Block.over, standing]
    split_ifs with replaced
    · exact .inl (unmarked entry.2 replaced)
    · exact .inr ⟨conflicts entry (split ▸ List.mem_append_left _ inside), prints entry inside⟩
  rw [split, List.map_append, List.map_cons] at leads
  obtain ⟨lead, woven, passed⟩ := exists_lead leads texts
  have same : ∀ entry, entry ∈ front ∨ entry ∈ later →
      Block.over (standing lines replacement (done ++ [number])) entry =
        Block.over (standing lines replacement done) entry := fun entry inside => by
    simp only [Block.over, standing, List.mem_append, List.mem_singleton, others entry inside,
      or_false]
  have before : partly lines replacement done = lead ++ (block.body lines ++
      Patch.weave lines (Block.over (standing lines replacement done) (block, number)).stop
        (later.map (Block.over (standing lines replacement done)))) := by
    have own : standing lines replacement done (block, number) = block.body lines := if_neg waits
    rw [partly, split, List.map_append, List.map_cons, ← woven, Block.over, own]
  refine ⟨lead, _, before, ?_, ?_⟩
  · have own : standing lines replacement (done ++ [number]) (block, number) =
        replacement number := if_pos (by simp)
    rw [partly, split, List.map_append, List.map_cons, ← woven,
      List.map_congr_left fun entry inside => same entry (.inl inside),
      List.map_congr_left fun entry inside => same entry (.inr inside), Block.over, own]
    rfl
  · rw [before, Fingerprint.locate, passed, Fingerprint.locateFrom_run conflict.isRun, if_pos rfl,
      Nat.zero_add]

end Covered

/-! ## Applying the choices -/

/-- What a choice other than a patch stands for does not depend on the current patches. -/
theorem Pool.resolve_congr {choice : Choice} (direct : ∀ index, choice ≠ .patch index)
    (pool : Pool) (setting : Setting) (patches : List Patch) (number : Nat) :
    pool.resolve { setting with patches } number choice = pool.resolve setting number choice := by
  cases choice with
  | patch index => exact absurd rfl (direct index)
  | _ => rfl

/-- Splicing over a stretch of a text exchanges that stretch. -/
theorem Patch.splice_middle (lead stretch behind text : List String) :
    splice (lead ++ (stretch ++ behind)) lead.length stretch.length text =
      lead ++ (text ++ behind) := by
  rw [splice, List.take_left, ← List.drop_drop, List.drop_left, List.drop_left, List.append_assoc]

namespace Buffer

/-- The buffer has the candidates of `start`, and its text is that of the file with the blocks in
`done` replaced. -/
structure Resolving (lines : List String) (algorithm : Algorithm) (replacement : Nat → List String)
    (start : Buffer) (done : List Nat) (buffer : Buffer) : Prop where
  rooted : buffer.Rooted lines algorithm
  current : buffer.current = partly lines replacement done
  pool : buffer.pool = start.pool
  initialPatches : buffer.initialPatches = start.initialPatches

variable {algorithm : Algorithm} {start buffer : Buffer} {number : Nat} {choice : Choice}
  {resolved : Resolved}

/-- A choice for a block that has not been replaced yet replaces it. -/
theorem Resolving.apply (covered : Covered lines)
    (resolving : Resolving lines algorithm replacement start done buffer)
    (rooted : start.Rooted lines algorithm)
    (unmarked : ∀ number ∈ done, Unmarked (replacement number))
    (distinct : (findBlocks lines).Pairwise fun a b =>
      Fingerprint.ofLines (a.body lines) ≠ Fingerprint.ofLines (b.body lines))
    (low : 1 ≤ number) (high : number ≤ (findBlocks lines).length) (waits : number ∉ done)
    (direct : ∀ index, choice ≠ .patch index)
    (resolves : start.pool.resolve start.setting number choice = .ok resolved)
    (writes : resolved.lines = replacement number) :
    Resolving lines algorithm replacement start (done ++ [number])
        (buffer.apply ⟨number, choice⟩).1 ∧
      (buffer.apply ⟨number, choice⟩).2 =
        .ok ⟨(buffer.apply ⟨number, choice⟩).1.transition .apply, ⟨number, choice⟩,
          resolved.audit⟩ := by
  have inside : number - 1 < (findBlocks lines).length := by omega
  have known : numbered? (findBlocks lines) number = some (findBlocks lines)[number - 1] := by
    rw [numbered?_eq low, List.getElem?_eq_getElem inside]
  have marks := findBlocks_marks _ (List.getElem_mem inside)
  obtain ⟨lead, behind, before, after, found⟩ :=
    located_partly covered unmarked distinct known waits
  have named : buffer.block number = .ok (findBlocks lines)[number - 1] := by
    rw [Buffer.block, resolving.rooted.blocks, known]
  have located : buffer.locate number = some ⟨lead.length,
      lead.length + ((findBlocks lines)[number - 1].body lines).length - 1⟩ := by
    rw [resolving.rooted.locate_eq known, resolving.current, found]
  have resolves' : buffer.pool.resolve buffer.setting number choice = .ok resolved := by
    have setting : buffer.setting = { start.setting with patches := buffer.patches } := by
      simp only [Buffer.setting, resolving.rooted.loaded, resolving.rooted.blocks, rooted.loaded,
        rooted.blocks, resolving.initialPatches]
    rw [resolving.pool, setting, Pool.resolve_congr direct, resolves]
  have direct : ∀ index, (⟨number, choice⟩ : Request).choice ≠ .patch index := direct
  obtain ⟨revised, result⟩ := apply_of_located direct named located resolves'
  have filled : 0 < ((findBlocks lines)[number - 1].body lines).length := by
    have startStop := marks.start_lt_stop
    have stopLe := marks.stop_le
    rw [Block.body, Patch.bufferLines, List.length_drop, List.length_take]
    omega
  have spliced : Patch.splice buffer.current lead.length
      (lead.length + ((findBlocks lines)[number - 1].body lines).length - 1 + 1 - lead.length)
      resolved.lines = partly lines replacement (done ++ [number]) := by
    rw [show lead.length + ((findBlocks lines)[number - 1].body lines).length - 1 + 1 -
      lead.length = ((findBlocks lines)[number - 1].body lines).length by omega,
      resolving.current, before, after, writes, Patch.splice_middle]
  refine ⟨?_, result⟩
  rw [revised]
  exact ⟨resolving.rooted.revise _ _, spliced, resolving.pool, resolving.initialPatches⟩

/-- The moves that apply the choices for some blocks. -/
def applying (choice : Nat → Choice) (numbers : List Nat) : List Move :=
  numbers.map fun number => .apply ⟨number, choice number⟩

variable {choice : Nat → Choice} {resolved : Nat → Resolved}

/-- Once the choices for some blocks are applied, these blocks are replaced. -/
theorem run_partly (covered : Covered lines)
    (rooted : start.Rooted lines algorithm) (loaded : start.current = lines)
    (distinct : (findBlocks lines).Pairwise fun a b =>
      Fingerprint.ofLines (a.body lines) ≠ Fingerprint.ofLines (b.body lines))
    (available : ∀ number, 1 ≤ number → number ≤ (findBlocks lines).length →
      (∀ index, choice number ≠ .patch index) ∧
      start.pool.resolve start.setting number (choice number) = .ok (resolved number) ∧
      Unmarked (resolved number).lines)
    (nodup : done.Nodup)
    (known : ∀ number ∈ done, 1 ≤ number ∧ number ≤ (findBlocks lines).length) :
    Resolving lines algorithm (fun number => (resolved number).lines) start done
      (start.run (applying choice done)) := by
  induction done using List.reverseRecOn with
  | nil => exact ⟨rooted, loaded.trans (partly_nil lines _).symm, rfl, rfl⟩
  | append_singleton done number ih =>
    obtain ⟨nodup, _, waits⟩ := List.nodup_append.1 nodup
    have earlier : ∀ other ∈ done, 1 ≤ other ∧ other ≤ (findBlocks lines).length :=
      fun other inside => known other (List.mem_append_left _ inside)
    obtain ⟨low, high⟩ := known number (List.mem_append_right _ List.mem_cons_self)
    obtain ⟨direct, resolves, _⟩ := available number low high
    have resolving := ih nodup earlier
    rw [applying, List.map_append, List.map_cons, List.map_nil, run_concat]
    exact (resolving.apply covered rooted (fun other inside =>
      (available other (earlier other inside).1 (earlier other inside).2).2.2) distinct low high
      (fun inside => waits number inside number List.mem_cons_self rfl) direct resolves rfl).1

/-- Of blocks taken in some order those are outstanding that are still to come. -/
theorem Resolving.length_outstanding {order rest : List Nat} (covered : Covered lines)
    (resolving : Resolving lines algorithm replacement start done buffer)
    (unmarked : ∀ number ∈ done, Unmarked (replacement number))
    (perm : order.Perm (List.range' 1 (findBlocks lines).length)) (split : order = done ++ rest) :
    buffer.outstanding.length = rest.length := by
  have nodup : (done ++ rest).Nodup := split ▸ perm.nodup_iff.2 List.nodup_range'
  have apart := (List.nodup_append.1 nodup).2.2
  have gone : done.countP (fun number => decide (number ∉ done)) = 0 :=
    List.countP_eq_zero.2 fun number inside => by simpa using inside
  have left : rest.countP (fun number => decide (number ∉ done)) = rest.length :=
    List.countP_eq_length.2 fun number inside => by
      simpa using fun earlier => apart number earlier number inside rfl
  rw [resolving.rooted.outstanding, resolving.current,
    length_findBlocks_partly covered unmarked, ← perm.countP_eq, split, List.countP_append, gone,
    left, Nat.zero_add]

/-- Take a text whose markers all belong to its blocks and whose blocks differ from each other, and
for each block a choice that resolves to lines without markers. In whatever order the choices are
applied, each one succeeds, one block less is outstanding after it, and in the end none is, with each
block of the text replaced by the lines chosen for it. -/
theorem resolve_in_any_order (lines : List String) (algorithm : Algorithm) (moves : List Move)
    (choice : Nat → Choice) (resolved : Nat → Resolved)
    (loaded : ((ofLines lines algorithm).run moves).current = lines) (covered : Covered lines)
    (different : (findBlocks lines).Pairwise fun a b =>
      Text.joinLines (a.body lines) ≠ Text.joinLines (b.body lines))
    (collisionFree : ∀ a ∈ findBlocks lines, ∀ b ∈ findBlocks lines,
      Fingerprint.ofLines (a.body lines) = Fingerprint.ofLines (b.body lines) →
        Text.joinLines (a.body lines) = Text.joinLines (b.body lines))
    (available : ∀ number, 1 ≤ number → number ≤ (findBlocks lines).length →
      (∀ index, choice number ≠ .patch index) ∧
      ((ofLines lines algorithm).run moves).pool.resolve
        ((ofLines lines algorithm).run moves).setting number (choice number) =
          .ok (resolved number) ∧
      Unmarked (resolved number).lines)
    (order : List Nat) (perm : order.Perm (List.range' 1 (findBlocks lines).length)) :
    (∀ done number rest, order = done ++ number :: rest →
      ∃ applied,
        ((((ofLines lines algorithm).run moves).run (applying choice done)).apply
          ⟨number, choice number⟩).2 = .ok applied ∧
        applied.transition.outstanding + 1 =
          (((ofLines lines algorithm).run moves).run (applying choice done)).outstanding.length) ∧
    (((ofLines lines algorithm).run moves).run (applying choice order)).outstanding = [] ∧
    (((ofLines lines algorithm).run moves).run (applying choice order)).current =
      replaced lines fun number => (resolved number).lines := by
  have rooted := run_rooted lines algorithm moves
  have distinct : (findBlocks lines).Pairwise fun a b =>
      Fingerprint.ofLines (a.body lines) ≠ Fingerprint.ofLines (b.body lines) :=
    different.imp_of_mem fun insideA insideB differs same =>
      differs (collisionFree _ insideA _ insideB same)
  have known {done rest : List Nat} (split : order = done ++ rest) :
      ∀ number ∈ done, 1 ≤ number ∧ number ≤ (findBlocks lines).length := fun number inside => by
    have listed := perm.subset (split ▸ List.mem_append_left rest inside)
    rw [List.mem_range'_1] at listed
    omega
  have unmarked {done rest : List Nat} (split : order = done ++ rest) :
      ∀ number ∈ done, Unmarked (resolved number).lines := fun number inside =>
    (available number (known split number inside).1 (known split number inside).2).2.2
  have nodup {done rest : List Nat} (split : order = done ++ rest) : done.Nodup :=
    (List.nodup_append.1 (split ▸ perm.nodup_iff.2 List.nodup_range')).1
  have state {done rest : List Nat} (split : order = done ++ rest) :=
    run_partly covered rooted loaded distinct available (nodup split) (known split)
  refine ⟨fun done number rest split => ?_, ?_, ?_⟩
  · have split' : order = (done ++ [number]) ++ rest := by simp [split]
    have before := state split
    obtain ⟨low, high⟩ := known split' number (List.mem_append_right _ List.mem_cons_self)
    have waits : number ∉ done := fun inside =>
      (List.nodup_append.1 (nodup split')).2.2 number inside number List.mem_cons_self rfl
    obtain ⟨direct, resolves, _⟩ := available number low high
    obtain ⟨after, result⟩ := before.apply covered rooted (unmarked split) distinct low high waits
      direct resolves rfl
    refine ⟨_, result, ?_⟩
    have left := after.length_outstanding covered (unmarked split') perm split'
    rw [before.length_outstanding covered (unmarked split) perm split, List.length_cons, ← left]
    rfl
  · have none_left := (state (List.append_nil order).symm).length_outstanding covered
      (unmarked (List.append_nil order).symm) perm (List.append_nil order).symm
    exact List.length_eq_zero_iff.1 none_left
  · rw [(state (List.append_nil order).symm).current, partly_all perm]

/-- Two blocks with a line between them. -/
def separated : List String :=
  ["<<<<<<<", "a", "=======", "b", ">>>>>>>", "m", "<<<<<<<", "c", "=======", "d", ">>>>>>>"]

/-- Our side for the first block, theirs for the others. -/
def oursThenTheirs (number : Nat) : Choice :=
  .side (if number = 1 then .ours else .theirs)

/-- The second block is resolved first, and the first one is still found. -/
theorem separated_backwards :
    ((ofLines separated .lines).run (applying oursThenTheirs [2, 1])).current = ["a", "m", "d"] := by
  have blocks : findBlocks separated = [⟨1, none, 3, 5⟩, ⟨7, none, 9, 11⟩] := by decide +kernel
  have available : ∀ number, 1 ≤ number → number ≤ (findBlocks separated).length →
      (∀ index, oursThenTheirs number ≠ .patch index) ∧
      ((ofLines separated .lines).run []).pool.resolve ((ofLines separated .lines).run []).setting
        number (oursThenTheirs number) = .ok (if number = 1
          then ⟨["a"], "a", ⟨"ours", "a", "", "", ""⟩⟩
          else ⟨["d"], "d", ⟨"theirs", "d", "", "", ""⟩⟩) ∧
      Unmarked (if number = 1 then (⟨["a"], "a", ⟨"ours", "a", "", "", ""⟩⟩ : Resolved)
        else ⟨["d"], "d", ⟨"theirs", "d", "", "", ""⟩⟩).lines := by
    intro number low high
    rw [blocks] at high
    have either : number = 1 ∨ number = 2 := by
      simp only [List.length_cons, List.length_nil] at high
      omega
    rcases either with rfl | rfl
    · exact ⟨nofun, rfl, by decide +kernel⟩
    · exact ⟨nofun, rfl, by decide +kernel⟩
  have backwards := resolve_in_any_order separated .lines [] oursThenTheirs
    (fun number => if number = 1 then ⟨["a"], "a", ⟨"ours", "a", "", "", ""⟩⟩
      else ⟨["d"], "d", ⟨"theirs", "d", "", "", ""⟩⟩)
    rfl (by decide +kernel) (by decide +kernel) (by decide +kernel) available [2, 1]
    (by rw [blocks]; decide)
  exact backwards.2.2.trans (by decide +kernel)

end Buffer

end MergeConflict
