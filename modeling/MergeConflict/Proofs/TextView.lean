import MergeConflict.Proofs.ApplyOutcome
import MergeConflict.Proofs.DerivedState
import MergeConflict.Proofs.PoolLog
import MergeConflict.Proofs.StrayMarkers
import MergeConflict.Proofs.VersionHistory

/-!
# The text of a buffer and its lines

A buffer is kept by lines, and shown and edited as one text. Cutting the text gives the lines back
exactly if there is a line, and no line has a newline in it (`splitLines_joinLines_eq_iff`). A file
and an edit come as texts, so their lines are of this kind; what a choice puts in need not be. A
side without lines can leave a buffer without any, and a patch can write a line of the reference
that has a newline in it. Nothing else parts the text from the lines.

Main statement: `run_matches_iff`.
-/

namespace MergeConflict

namespace Text

/-- No line has a newline in it. -/
def Unbroken (lines : List String) : Prop :=
  ∀ line ∈ lines, '\n' ∉ line.toList

instance (lines : List String) : Decidable (Unbroken lines) :=
  inferInstanceAs (Decidable (∀ line ∈ lines, _))

/-- The lines are those that some text is cut into. -/
def OfText (lines : List String) : Prop :=
  lines ≠ [] ∧ Unbroken lines

variable {lines more : List String}

theorem unbroken_append : Unbroken (lines ++ more) ↔ Unbroken lines ∧ Unbroken more :=
  List.forall_mem_append

theorem Unbroken.subset (unbroken : Unbroken more) (sub : lines ⊆ more) : Unbroken lines :=
  fun line inside => unbroken line (sub inside)

theorem ofText_splitLines (text : String) : OfText (splitLines text) :=
  ⟨splitLines_ne_nil text, fun _ => notMem_of_mem_splitLines⟩

/-- The text of some lines is cut into these lines exactly if they are those of a text. -/
theorem splitLines_joinLines_eq_iff : splitLines (joinLines lines) = lines ↔ OfText lines := by
  constructor
  · intro same
    rw [← same]
    exact ofText_splitLines _
  · exact fun ⟨filled, unbroken⟩ => splitLines_joinLines filled unbroken

end Text

/-! ## Lines that patches write -/

/-- A hunk puts in lines of the text that its script leads to. -/
theorem Hunk.newLines_subset_of_mem_collect {line : Nat} {pending : Option Hunk} {script : Script}
    {hunk : Hunk} (inside : hunk ∈ collect line pending script) :
    hunk.newLines ⊆ (pending.map newLines).getD [] ++ script.newLines := by
  have started (pending : Option Hunk) (line : Nat) :
      (pending.getD ⟨line, 0, [], []⟩).newLines = (pending.map newLines).getD [] := by
    cases pending with
    | none => rfl
    | some hunk => rfl
  induction script generalizing line pending with
  | nil =>
    obtain rfl := Option.mem_toList.1 inside
    exact List.subset_append_left _ _
  | cons first rest ih =>
    obtain ⟨tag, lines⟩ := first
    rw [Script.newLines_cons]
    cases tag with
    | equal =>
      rcases List.mem_append.1 inside with now | later
      · obtain rfl := Option.mem_toList.1 now
        exact List.subset_append_left _ _
      · have behind : hunk.newLines ⊆ Script.newLines rest := by simpa using ih later
        exact fun text member => by simp [behind member]
    | removed =>
      have behind := ih inside
      simpa [started] using behind
    | added =>
      have behind := ih inside
      simpa [started] using behind

theorem Hunk.newLines_subset_of_mem_between {old new : List String} {least : Nat}
    {algorithm : Algorithm} {hunk : Hunk} (inside : hunk ∈ between old new least algorithm) :
    hunk.newLines ⊆ new := by
  have behind := newLines_subset_of_mem_collect (List.mem_of_mem_filter inside)
  rwa [(Script.diff_spells algorithm old new).2] at behind

namespace Patch

variable {current reference : List String} {anchor : Nat} {algorithm : Algorithm}

theorem mem_of_mem_weave {lines : List String} {cursor : Nat} {patches : List Patch} {line : String}
    (inside : line ∈ weave lines cursor patches) :
    line ∈ lines ∨ ∃ patch ∈ patches, line ∈ patch.newLines := by
  induction patches generalizing cursor with
  | nil => exact .inl (List.mem_of_mem_drop inside)
  | cons patch patches ih =>
    rw [weave, List.mem_append, List.mem_append] at inside
    rcases inside with copied | written | later
    · exact .inl (List.mem_of_mem_take (List.mem_of_mem_drop copied))
    · exact .inr ⟨patch, List.mem_cons_self, written⟩
    · rcases ih later with copied | ⟨other, member, written⟩
      · exact .inl copied
      · exact .inr ⟨other, List.mem_cons_of_mem _ member, written⟩

/-- A patch writes lines of the buffer and of the reference. -/
theorem newLines_subset_of_mem_found {patch : Patch}
    (inside : patch ∈ found current reference anchor algorithm) :
    patch.newLines ⊆ current ++ reference := by
  intro line written
  have laid := Hunk.laid_between current reference anchor algorithm
  have woven : line ∈ weave current 1 (found current reference anchor algorithm) :=
    (newLines_infix_weave inside).subset written
  rw [found, weave_reconcile laid findBlocks_marks (findBlocks_pairwise current)] at woven
  rcases mem_of_mem_weave woven with copied | ⟨patch, member, written⟩
  · exact List.mem_append_left _ copied
  · obtain ⟨hunk, between, rfl⟩ := List.mem_map.1 member
    exact List.mem_append_right _ (Hunk.newLines_subset_of_mem_between between written)

/-- The lines that a splice leaves are those of a text if the choice puts in lines without newlines
and does not put nothing in the place of everything. -/
theorem ofText_splice_iff {lines replacement : List String} (ofText : Text.OfText lines)
    (position count : Nat) :
    Text.OfText (splice lines position count replacement) ↔
      (position = 0 → lines.length ≤ count → replacement ≠ []) ∧ Text.Unbroken replacement := by
  obtain ⟨filled, unbroken⟩ := ofText
  have front : Text.Unbroken (lines.take position) := unbroken.subset (List.take_subset _ _)
  have behind : Text.Unbroken (lines.drop (position + count)) :=
    unbroken.subset (List.drop_subset _ _)
  have empty : splice lines position count replacement = [] ↔
      position = 0 ∧ lines.length ≤ count ∧ replacement = [] := by
    rw [splice, List.append_eq_nil_iff, List.append_eq_nil_iff, List.take_eq_nil_iff,
      List.drop_eq_nil_iff]
    constructor
    · rintro ⟨⟨rfl | none, rfl⟩, all⟩
      · exact ⟨rfl, by rwa [Nat.zero_add] at all, rfl⟩
      · exact (filled none).elim
    · rintro ⟨rfl, all, rfl⟩
      exact ⟨⟨.inl rfl, rfl⟩, by rwa [Nat.zero_add]⟩
  rw [Text.OfText, Ne, empty, not_and, splice, Text.unbroken_append, Text.unbroken_append]
  simp only [not_and, front, behind, true_and, and_true]

end Patch

/-! ## Lines that a choice puts in -/

theorem Block.between_subset {lines : List String} {opening closing : Nat} :
    between lines opening closing ⊆ lines := by
  rw [between]
  split
  · exact fun _ inside => List.mem_of_mem_take (List.mem_of_mem_drop inside)
  · exact List.nil_subset lines

/-- The sides of a block are lines of the text. -/
theorem Block.side_subset {block : Block} {which : Side} {lines side : List String}
    (held : (block.sides lines).get? which = some side) : side ⊆ lines := by
  cases which with
  | base =>
    obtain ⟨_, _, rfl⟩ := Option.map_eq_some_iff.1 held
    exact between_subset
  | _ =>
    cases held
    exact between_subset

/-- Only a patch can put in a line with a newline. -/
theorem Pool.unbroken_of_resolve {pool : Pool} {setting : Setting} {number : Nat} {choice : Choice}
    {resolved : Resolved} (loaded : Text.Unbroken setting.loaded)
    (resolves : pool.resolve setting number choice = .ok resolved) :
    Text.Unbroken resolved.lines ∨ ∃ index patch, choice = .patch index ∧
      setting.patches[index]? = some patch ∧ resolved.lines = patch.newLines := by
  obtain ⟨_, ⟨_, _, side, _⟩ | ⟨index, patch, chosen, held, lines, _⟩ | lines⟩ :=
    resolve_lines resolves
  · exact .inl (loaded.subset (Block.side_subset side))
  · exact .inr ⟨index, patch, chosen, held, lines⟩
  · rw [lines]
    exact .inl (Text.ofText_splitLines _).2

/-- A reference comes from a report. -/
theorem Pool.merged_of_merged_commit {pool : Pool} {update : Update} {reference : List String}
    (merged : (pool.commit update).merged = some reference) :
    pool.merged = some reference ∨
      ∃ report, update = .heuristic report ∧ report.merged = some reference := by
  by_cases own : update.source = .heuristic
  · cases update with
    | heuristic report =>
      rw [commit] at merged
      simp only at merged
      split at merged
      · exact .inl merged
      · exact .inr ⟨report, rfl, (referenceOf_eq_some_iff.1 merged).1⟩
    | heuristicStarted => cases merged
    | heuristicTimedOut => exact .inl merged
    | heuristicFailed => cases merged
    | _ => cases own
  · obtain ⟨-, -, same, -⟩ := commit_agrees own pool
    rw [same] at merged
    exact .inl merged

namespace Buffer

/-- The lines that are held are those of the text that is shown. -/
def Matches (buffer : Buffer) : Prop :=
  Text.splitLines buffer.content = buffer.current

instance (buffer : Buffer) : Decidable buffer.Matches :=
  inferInstanceAs (Decidable (_ = _))

/-- The choice, if it is applied, does not put nothing in the place of the whole text, and if it is
a patch, no line that it writes has a newline in it. -/
def LeavesLines (buffer : Buffer) (request : Request) : Prop :=
  ∀ position count resolved, (buffer.target request).2 = .ok (position, count) →
    buffer.pool.resolve buffer.setting request.block request.choice = .ok resolved →
    (position = 0 → buffer.current.length ≤ count → resolved.lines ≠ []) ∧
      ∀ index, request.choice = .patch index → Text.Unbroken resolved.lines

/-- The references that the moves put in have no newline inside a line. -/
def UnbrokenReferences (moves : List Move) : Prop :=
  ∀ report, .commit (.heuristic report) ∈ moves →
    ∀ reference ∈ report.merged, Text.Unbroken reference

variable {buffer : Buffer}

theorem matches_iff : buffer.Matches ↔ Text.OfText buffer.current :=
  Text.splitLines_joinLines_eq_iff

/-- Putting in the text that is shown is no change exactly if the lines are those of that text. -/
theorem edit_content_iff (buffer : Buffer) (hint : Nat) :
    buffer.edit buffer.content hint = (buffer, none) ↔ buffer.Matches := by
  rw [edit, Matches]
  split
  · next same => exact iff_of_true rfl same
  · next changed =>
    refine iff_of_false (fun unchanged => ?_) changed
    exact Option.some_ne_none _ (congrArg Prod.snd unchanged)

/-! ## Versions -/

/-- What holds of the file as loaded and of every text holds of all versions if it holds of those
that choices make. -/
theorem forall_versions_move {holds : List String → Prop} (loaded : holds buffer.loaded)
    (edited : ∀ content, holds (Text.splitLines content))
    (versions : ∀ version ∈ buffer.history.versions, holds version) (move : Move)
    (chosen : ∀ request applied, move = .apply request → (buffer.apply request).2 = .ok applied →
      holds (buffer.apply request).1.current) :
    ∀ version ∈ (buffer.move move).history.versions, holds version := by
  have recorded {next : List String} (new : holds next) :
      ∀ version ∈ (buffer.history.record next).versions, holds version := by
    intro version inside
    rcases List.mem_append.1 inside with earlier | last
    · exact versions version (List.mem_of_mem_take earlier)
    · rw [List.mem_singleton.1 last]
      exact new
  rw [move_history]
  cases move with
  | apply request =>
    rw [historyAfter]
    split
    · next after applied outcome =>
      have made := chosen request applied rfl (congrArg Prod.snd outcome)
      rw [outcome] at made
      exact recorded made
    · exact versions
  | edit content hint =>
    rw [historyAfter]
    split
    · exact versions
    · exact recorded (edited content)
  | reset =>
    intro version inside
    rw [List.mem_singleton.1 inside]
    exact loaded
  | _ => exact versions

theorem current_mem_versions (buffer : Buffer) : buffer.current ∈ buffer.history.versions :=
  List.mem_of_getElem? (history_current buffer)

theorem ofText_loaded (text : String) (algorithm : Algorithm) (moves : List Move) :
    Text.OfText ((ofContent text algorithm).run moves).loaded := by
  have loaded : ((ofContent text algorithm).run moves).loaded = Text.splitLines text :=
    (run_rooted (Text.splitLines text) algorithm moves).loaded
  rw [loaded]
  exact Text.ofText_splitLines text

/-- If every choice leaves lines of a text, all versions are lines of texts. -/
theorem run_ofText (text : String) (algorithm : Algorithm) (moves : List Move)
    (leaves : ∀ done request rest, moves = done ++ .apply request :: rest →
      ((ofContent text algorithm).run done).LeavesLines request) :
    ∀ version ∈ ((ofContent text algorithm).run moves).history.versions, Text.OfText version := by
  induction moves using List.reverseRecOn with
  | nil =>
    intro version inside
    rw [List.mem_singleton.1 inside]
    exact Text.ofText_splitLines text
  | append_singleton moves move ih =>
    have versions := ih fun done request rest taken =>
      leaves done request (rest ++ [move]) (by simp [taken])
    have loaded := ofText_loaded text algorithm moves
    rw [run_concat]
    refine forall_versions_move loaded Text.ofText_splitLines versions move
      fun request applied chosen done => ?_
    obtain ⟨position, count, resolved, targeted, resolves, -⟩ := exists_revise_of_apply done
    obtain ⟨filled, patched⟩ :=
      leaves moves request [] (by rw [chosen]) position count resolved targeted resolves
    rw [current_apply targeted resolves, Patch.ofText_splice_iff (versions _ (current_mem_versions _))]
    refine ⟨filled, ?_⟩
    rcases Pool.unbroken_of_resolve loaded.2 resolves with unbroken | ⟨index, _, isPatch, _, _⟩
    · exact unbroken
    · exact patched index isPatch

/-! ## References without newlines -/

/-- No line that is held, now or in another version, in the reference or in a patch, has a newline
in it. -/
structure Unbroken (buffer : Buffer) : Prop where
  versions : ∀ version ∈ buffer.history.versions, Text.Unbroken version
  merged : ∀ reference ∈ buffer.pool.merged, Text.Unbroken reference
  patches : ∀ patch ∈ buffer.patches, Text.Unbroken patch.newLines

/-- A patch that a move leaves was there before, or writes lines of the new text and of the
reference. -/
theorem Passage.mem_patches {before after : Buffer} (passage : Passage before after) {patch : Patch}
    (inside : patch ∈ after.patches) : patch ∈ before.patches ∨
      ∃ reference, after.pool.merged = some reference ∧
        patch.newLines ⊆ after.current ++ reference := by
  cases passage with
  | still located pool same => exact .inl inside
  | whole current undoStack redoStack located pool initialPatches =>
    change patch ∈ (refresh _ 0).patches at inside
    rw [patches_refresh_zero] at inside
    cases merged : pool.merged with
    | none =>
      simp only [merged] at inside
      exact (List.not_mem_nil inside).elim
    | some reference =>
      simp only [merged] at inside
      exact .inr ⟨reference, merged, Patch.newLines_subset_of_mem_found inside⟩
  | revised next hint =>
    cases merged : before.pool.merged with
    | none =>
      rw [revise, patches_refresh_of_merged_eq_none (before.push next) hint merged] at inside
      exact (List.not_mem_nil inside).elim
    | some reference =>
      rw [patches_revise before next hint merged] at inside
      rcases mem_patchesFrom inside with found | kept
      · exact .inr ⟨reference, merged, Patch.newLines_subset_of_mem_found found⟩
      · exact .inl (List.mem_of_mem_filter kept)

theorem Unbroken.move (unbroken : buffer.Unbroken) (loaded : Text.Unbroken buffer.loaded)
    (move : Move) (given : ∀ report, move = .commit (.heuristic report) →
      ∀ reference ∈ report.merged, Text.Unbroken reference) : (buffer.move move).Unbroken := by
  obtain ⟨versions, merged, patches⟩ := unbroken
  have versions' : ∀ version ∈ (buffer.move move).history.versions, Text.Unbroken version := by
    refine forall_versions_move loaded (fun content => (Text.ofText_splitLines content).2) versions
      move fun request applied chosen done => ?_
    obtain ⟨position, count, resolved, targeted, resolves, -⟩ := exists_revise_of_apply done
    have shown := versions _ (current_mem_versions buffer)
    have put : Text.Unbroken resolved.lines := by
      rcases Pool.unbroken_of_resolve loaded resolves with unbroken | ⟨index, patch, _, held, lines⟩
      · exact unbroken
      · rw [lines]
        exact patches patch (List.mem_of_getElem? held)
    rw [current_apply targeted resolves, Patch.splice, Text.unbroken_append, Text.unbroken_append]
    exact ⟨⟨shown.subset (List.take_subset _ _), put⟩, shown.subset (List.drop_subset _ _)⟩
  have merged' : ∀ reference ∈ (buffer.move move).pool.merged, Text.Unbroken reference := by
    intro reference held
    rw [move_pool] at held
    cases made : move.update? with
    | none =>
      rw [made] at held
      exact merged reference held
    | some update =>
      rw [made] at held
      rcases Pool.merged_of_merged_commit held with before | ⟨report, rfl, brought⟩
      · exact merged reference before
      · exact given report (update?_eq_some_iff.1 made) reference brought
  refine ⟨versions', merged', fun patch inside => ?_⟩
  rcases (move_passage buffer move).mem_patches inside with before | ⟨reference, held, subset⟩
  · exact patches patch before
  · exact Text.Unbroken.subset (Text.unbroken_append.2
      ⟨versions' _ (current_mem_versions _), merged' reference held⟩) subset

/-- With references that have no newline inside a line, no line that is held ever has one. -/
theorem run_unbroken (text : String) (algorithm : Algorithm) (moves : List Move)
    (references : UnbrokenReferences moves) :
    ((ofContent text algorithm).run moves).Unbroken := by
  induction moves using List.reverseRecOn with
  | nil =>
    refine ⟨fun version inside => ?_, nofun, nofun⟩
    rw [List.mem_singleton.1 inside]
    exact (Text.ofText_splitLines text).2
  | append_singleton moves move ih =>
    have before := ih fun report inside => references report (List.mem_append_left _ inside)
    rw [run_concat]
    refine before.move (ofText_loaded text algorithm moves).2 move fun report given => ?_
    exact references report (by rw [given]; simp)

/-! ## Text and lines along a run -/

/-- Putting in the text that is shown is no change exactly where the text is cut into the lines that
are held. Along a run it always is exactly if every choice that is applied leaves lines of a text:
it does not put nothing in the place of the whole text, and as a patch it writes no newline inside a
line. Where no reference has a newline inside a line, text and lines part only in a buffer without
lines. -/
theorem run_matches_iff (text : String) (algorithm : Algorithm) (moves : List Move) :
    let buffer := (ofContent text algorithm).run moves
    (∀ hint, buffer.edit buffer.content hint = (buffer, none) ↔ buffer.Matches) ∧
    ((∀ done rest, moves = done ++ rest → ((ofContent text algorithm).run done).Matches) ↔
      ∀ done request rest, moves = done ++ .apply request :: rest →
        ((ofContent text algorithm).run done).LeavesLines request) ∧
    (UnbrokenReferences moves → (buffer.Matches ↔ buffer.current ≠ [])) := by
  intro buffer
  refine ⟨edit_content_iff buffer, ⟨fun always done request rest taken => ?_,
    fun leaves done rest taken => ?_⟩, fun references => ?_⟩
  · intro position count resolved targeted resolves
    have before := always done (.apply request :: rest) taken
    have after := always (done ++ [.apply request]) rest (by simp [taken])
    rw [run_concat, matches_iff, move, current_apply targeted resolves,
      Patch.ofText_splice_iff (matches_iff.1 before)] at after
    exact ⟨after.1, fun _ _ => after.2⟩
  · refine matches_iff.2 (run_ofText text algorithm done ?_ _ (current_mem_versions _))
    exact fun first request between split => leaves first request (between ++ rest) (by
      simp [taken, split])
  · have unbroken := (run_unbroken text algorithm moves references).versions _
      (current_mem_versions buffer)
    rw [matches_iff]
    exact and_iff_left unbroken

/-! ## A buffer without lines -/

/-- One block with nothing on either side. -/
def hollow : Buffer :=
  ofContent "<<<<<<<\n=======\n>>>>>>>" .lines

/-- Our side, which has no lines. -/
def takeNothing : Request :=
  ⟨1, .side .ours⟩

/-- A buffer left without lines by a side that has none. -/
def hollowed : Buffer :=
  hollow.run [.apply takeNothing]

/-- The text of a buffer without lines is the empty one, which has a line. So putting it in again is
a change, and makes a version. -/
theorem hollow_parted :
    hollowed.current = [] ∧ ¬ hollowed.Matches ∧
      (hollowed.edit hollowed.content 0).1.history =
        ⟨[["<<<<<<<", "=======", ">>>>>>>"], [], [""]], 2⟩ := by
  have known : hollow.block 1 = .ok ⟨1, none, 2, 3⟩ := rfl
  have found : hollow.locate 1 = some ⟨0, 2⟩ := by decide +kernel
  have direct : ∀ index, takeNothing.choice ≠ .patch index := nofun
  have settled : hollowed = hollow.revise [] 1 :=
    (apply_of_located direct known found rfl).1
  rw [settled]
  decide +kernel

end Buffer

end MergeConflict
