import MergeConflict.Engine.Response
import MergeConflict.Proofs.AppliedChoice
import MergeConflict.Proofs.BareConflict
import MergeConflict.Proofs.PoolLog

/-!
# Lines on their way through the pool

An engine gives lines, the pool holds a text, and a choice puts in the lines of that text. Each
source writes the text in its own way: the heuristic joins the lines, the predictor ends each of
them, and the classifier's labels join two sides by one more newline. All the same what is held is
the lines joined, and cutting it gives them back. Only a list without lines is lost: its text is the
empty one, and this has one line (`Text.filled`). So it is as one empty line that it is put in,
while the choice of a side that has no lines puts in none.

Main statement: `run_given_lines`.
-/

namespace MergeConflict

/-- The lines that the text of some lines has: no lines have the text of an empty one. -/
def Text.filled (lines : List String) : List String :=
  if lines = [] then [""] else lines

/-- A resolution of an answer in the terms of a pool. -/
def AnsweredResolution.resolution (answered : AnsweredResolution) : Resolution :=
  ⟨numberOf answered.index, answered.note, answered.confidence, answered.label,
    Text.joinLines answered.code⟩

/-- Of the resolutions of an answer for the block with a number, the first of the most confident. -/
def HeuristicAnswer.Best (answer : HeuristicAnswer) (number : Nat) (best : AnsweredResolution) :
    Prop :=
  ∃ before behind, (answer.resolutions.filter fun r => numberOf r.index = number) =
      before ++ best :: behind ∧
    (∀ r ∈ before, r.confidence.rank < best.confidence.rank) ∧
    ∀ r ∈ behind, r.confidence.rank ≤ best.confidence.rank

/-- The side of a block in a question for an edit script. -/
def ScriptRequest.field (request : ScriptRequest) : Side → String
  | .ours => request.ours
  | .base => request.base
  | .theirs => request.theirs

/-- A prediction stands for some lines: it lists them, or it is the text of a side that has them, as
it was in the question. -/
inductive ScriptData.Spells : ScriptData → List String → Prop
  | lines (lines : List String) : Spells (.lines lines) lines
  | echo (sides : Sides) (which : Side) (side : List String) : sides.get? which = some side →
    Spells (.text ((ScriptRequest.ofSides sides).field which)) side

/-- The lists of lines that a label takes from the sides, one behind the other. -/
def Label.pieces (sides : Sides) : Label → List (List String)
  | ours => [sides.ours]
  | theirs => [sides.theirs]
  | both => [sides.ours, sides.theirs]
  | keep => [sides.conflictLines]
  | combine => []

/-- The side that a label takes, if it takes one. -/
def Label.side? : Label → Option Side
  | ours => some .ours
  | theirs => some .theirs
  | _ => none

/-- The text that is held for a choice in a block given by number. -/
def Pool.held? (pool : Pool) (number : Nat) : Choice → Option String
  | .heuristic => (pool.bestResolution? number).map Resolution.content
  | .classifier => (pool.label? number).map LabelCandidate.content
  | .editScript =>
    if pool.batchPending then none
    else
      match pool.script? number with
      | some (.resolvable text) => some text
      | _ => none
  | .history rank => ((pool.historyOf number)[rank]?).map HistoryCandidate.content
  | _ => none

/-- The request is applied and puts lines in the place of an interval. -/
def Buffer.Puts (buffer : Buffer) (request : Request) (at' : Interval) (lines : List String) :
    Prop :=
  (∃ applied, (buffer.apply request).2 = .ok applied) ∧
    (buffer.apply request).1.current = Patch.splice buffer.current at'.first at'.lineCount lines

/-- The request puts in lines that are given in pieces, a piece without lines as one empty line. So
they are as given exactly if there is no such piece. -/
structure Buffer.PutsPieces (buffer : Buffer) (request : Request) (at' : Interval)
    (pieces : List (List String)) : Prop where
  filled : buffer.Puts request at' (pieces.flatMap Text.filled)
  exact_iff : buffer.Puts request at' pieces.flatten ↔ ∀ piece ∈ pieces, piece ≠ []

/-! ## Lines and their text -/

namespace Text

variable {lines : List String} {pieces : List (List String)}

theorem filled_of_ne_nil (filled : lines ≠ []) : Text.filled lines = lines :=
  if_neg filled

theorem filled_ne_nil : filled lines ≠ [] := by
  rw [filled]
  split
  · exact List.cons_ne_nil _ _
  · assumption

theorem joinLines_filled : joinLines (filled lines) = joinLines lines := by
  rw [filled]
  split
  · next none =>
    rw [none]
    rfl
  · rfl

theorem filled_eq_iff : filled lines = lines ↔ lines ≠ [] :=
  ⟨fun same none => filled_ne_nil (same.trans none), filled_of_ne_nil⟩

theorem unbroken_filled (unbroken : Unbroken lines) : Unbroken (filled lines) := by
  rw [filled]
  split
  · exact fun line inside => by simp [List.mem_singleton.1 inside]
  · exact unbroken

/-- What is joined is cut into the lines it has, no lines into an empty one. -/
theorem splitLines_joinLines_eq_filled (unbroken : Unbroken lines) :
    splitLines (joinLines lines) = filled lines := by
  rw [← joinLines_filled]
  exact splitLines_joinLines filled_ne_nil (unbroken_filled unbroken)

/-- Pieces that are joined are cut into the lines they have, none having no lines. -/
theorem splitLines_joinLines_pieces (some_piece : pieces ≠ [])
    (unbroken : ∀ piece ∈ pieces, Unbroken piece) :
    splitLines (joinLines (pieces.flatMap filled)) = pieces.flatMap filled := by
  refine splitLines_joinLines (fun none => ?_) fun line inside => ?_
  · obtain ⟨piece, member⟩ := List.exists_mem_of_ne_nil _ some_piece
    exact filled_ne_nil (List.flatMap_eq_nil_iff.1 none piece member)
  · obtain ⟨piece, member, held⟩ := List.mem_flatMap.1 inside
    exact unbroken_filled (unbroken piece member) line held

theorem flatten_length_le : pieces.flatten.length ≤ (pieces.flatMap filled).length := by
  induction pieces with
  | nil => exact Nat.le_refl _
  | cons piece pieces ih =>
    rw [List.flatten_cons, List.flatMap_cons, List.length_append, List.length_append, filled]
    split
    · next none =>
      rw [none, List.length_nil]
      omega
    · omega

theorem flatMap_filled_eq_iff : pieces.flatMap filled = pieces.flatten ↔
    ∀ piece ∈ pieces, piece ≠ [] := by
  induction pieces with
  | nil => simp
  | cons piece pieces ih =>
    rw [List.flatMap_cons, List.flatten_cons, List.forall_mem_cons, ← ih]
    cases piece with
    | nil =>
      -- one line more than the pieces have cannot be made up for
      refine iff_of_false (fun same => ?_) fun filled => filled.1 rfl
      have longer := congrArg List.length same
      have := @flatten_length_le pieces
      simp only [filled, if_pos, List.length_append, List.length_cons, List.length_nil] at longer
      omega
    | cons line rest =>
      rw [filled_of_ne_nil (List.cons_ne_nil _ _), List.append_right_inj]
      exact (and_iff_right (List.cons_ne_nil _ _)).symm

/-- Lines that are each ended, less the last newline, are the lines joined. -/
theorem dropFinalNewline_terminateLines :
    dropFinalNewline (terminateLines lines) = joinLines lines := by
  rw [dropFinalNewline_eq_iff, terminateLines]
  split
  · next none =>
    rw [List.isEmpty_iff.1 none]
    exact .inr ⟨rfl, fun front same => by simpa using congrArg String.toList same⟩
  · exact .inl rfl

end Text

/-! ## The text that each source holds -/

section Sources

variable {pool : Pool} {number : Nat}

/-- The most confident item stands first, and of several the first that was given. -/
theorem Ranked.of_best {α : Type} {confidence : α → Binary64} {before behind : List α} {best : α}
    (below : ∀ a ∈ before, (confidence a).rank < (confidence best).rank)
    (within : ∀ a ∈ behind, (confidence a).rank ≤ (confidence best).rank) :
    Pool.byConfidence confidence (before ++ best :: behind) =
      best :: Pool.byConfidence confidence (before ++ behind) := by
  have others : Ranked confidence (before ++ behind) _ := .byConfidence confidence _
  refine (Ranked.byConfidence confidence _).unique ⟨?_, ?_, fun rank => ?_⟩
  · exact (others.perm.cons best).trans List.perm_middle.symm
  · refine List.pairwise_cons.2 ⟨fun a inside => ?_, others.descending⟩
    rcases List.mem_append.1 (others.perm.mem_iff.1 inside) with front | back
    · exact Int.le_of_lt (below a front)
    · exact within a back
  · rw [List.filter_cons, others.stable, List.filter_append, List.filter_append, List.filter_cons]
    split
    · next level =>
      have none_before : (before.filter fun a => (confidence a).rank = rank) = [] :=
        List.filter_eq_nil_iff.2 fun a inside same => by
          have := below a inside
          simp only [decide_eq_true_eq] at level same
          omega
      rw [none_before]
      rfl
    · rfl

/-- The text of a heuristic answer is that of its best resolution, joined. -/
theorem Pool.held?_heuristic {answer : HeuristicAnswer} {best : AnsweredResolution}
    (isBest : answer.Best number best) :
    (pool.commit (.heuristic answer.report)).held? number .heuristic =
      some (Text.joinLines best.code) := by
  obtain ⟨before, behind, own, below, within⟩ := isBest
  have resolutions : (pool.commit (.heuristic answer.report)).resolutions =
      (pool.withResolutions answer.report.resolutions).resolutions := by
    rw [commit]
    simp only
    split
    · rfl
    · rfl
  have ranked : (groupByBlock answer.report.resolutions).get? number = some
      (before.map AnsweredResolution.resolution ++
        best.resolution :: behind.map AnsweredResolution.resolution) := by
    refine get?_groupByBlock_eq_some_iff.2
      ⟨List.append_ne_nil_of_right_ne_nil _ (List.cons_ne_nil _ _), ?_⟩
    rw [← List.map_cons, ← List.map_append, ← own, HeuristicAnswer.report, List.filter_map]
    rfl
  rw [held?, bestResolution?, resolutions, withResolutions, Table.get?_map, ranked, Option.map_some,
    Ranked.of_best, Option.bind_some, List.head?_cons, Option.map_some]
  · rfl
  · intro r inside
    obtain ⟨given, held, rfl⟩ := List.mem_map.1 inside
    exact below given held
  · intro r inside
    obtain ⟨given, held, rfl⟩ := List.mem_map.1 inside
    exact within given held

/-- The text of a script that comes while its batch is the latest, less the newline at its end. -/
theorem Pool.held?_script (text : String) :
    ((pool.commit (.script pool.batch number (.resolvable text))).commit
      (.batchFinished pool.batch)).held? number .editScript =
        some (Text.dropFinalNewline text) := by
  have taken : pool.commit (.script pool.batch number (.resolvable text)) =
      { pool with
        scripts := pool.scripts.insert number (.resolvable (Text.dropFinalNewline text)) } :=
    if_pos rfl
  have finished : ((pool.commit (.script pool.batch number (.resolvable text))).commit
      (.batchFinished pool.batch)) =
        { pool with
          scripts := pool.scripts.insert number (.resolvable (Text.dropFinalNewline text))
          batchPending := false } := by
    rw [taken]
    exact if_pos rfl
  rw [finished, held?, script?, Table.get?_insert, if_pos rfl]
  rfl

/-- A prediction that stands for some lines is held as these, joined. -/
theorem ScriptAnswer.outcome_of_spells {answer : ScriptAnswer} {data : ScriptData}
    {lines : List String} (successful : answer.successful = true) (given : answer.data = some data)
    (spells : data.Spells lines) :
    ∃ text, answer.outcome = .resolvable text ∧ Text.dropFinalNewline text = Text.joinLines lines := by
  rw [outcome, if_pos successful, given]
  cases spells with
  | lines lines => exact ⟨_, rfl, Text.dropFinalNewline_terminateLines⟩
  | echo sides which side held =>
    refine ⟨_, rfl, ?_⟩
    have field : (ScriptRequest.ofSides sides).field which = Text.terminateLines lines := by
      cases which with
      | base =>
        have based : sides.base = some lines := held
        rw [ScriptRequest.field, ScriptRequest.ofSides, based, Option.getD_some]
      | _ =>
        cases held
        rfl
    rw [field, Text.dropFinalNewline_terminateLines]

theorem Pool.held?_label (candidate : LabelCandidate) :
    (pool.commit (.label number candidate)).held? number .classifier = some candidate.content := by
  rw [held?, label?, commit, Table.get?_insert, if_pos rfl]
  rfl

/-- What a label makes of the sides are the pieces that it takes, joined. -/
theorem Label.content_eq {label : Label} {sides : Sides} {content : String}
    (resolved : label.apply sides = .resolved content) :
    label.pieces sides ≠ [] ∧
      content = Text.joinLines ((label.pieces sides).flatMap Text.filled) := by
  cases label with
  | combine => cases resolved
  | both =>
    cases resolved
    refine ⟨List.cons_ne_nil _ _, ?_⟩
    have joined : Text.joinLines (Text.filled sides.ours ++ Text.filled sides.theirs) =
        Text.joinLines (Text.filled sides.ours) ++ "\n" ++
          Text.joinLines (Text.filled sides.theirs) :=
      String.intercalate_append_of_ne_nil Text.filled_ne_nil Text.filled_ne_nil
    rw [pieces, List.flatMap_cons, List.flatMap_cons, List.flatMap_nil, List.append_nil, joined,
      Text.joinLines_filled, Text.joinLines_filled]
  | _ =>
    cases resolved
    refine ⟨List.cons_ne_nil _ _, Eq.symm ?_⟩
    rw [pieces, List.flatMap_cons, List.flatMap_nil, List.append_nil]
    exact Text.joinLines_filled

/-- A label that takes a side takes nothing else. -/
theorem Label.pieces_of_side? {label : Label} {sides : Sides} {which : Side} {side : List String}
    (takes : label.side? = some which) (held : sides.get? which = some side) :
    label.pieces sides = [side] := by
  cases label with
  | ours =>
    cases takes
    cases held
    rfl
  | theirs =>
    cases takes
    cases held
    rfl
  | _ => cases takes

theorem Label.unbroken_pieces {label : Label} {sides : Sides}
    (unbroken : ∀ which side, sides.get? which = some side → Text.Unbroken side) :
    ∀ piece ∈ label.pieces sides, Text.Unbroken piece := by
  have ours := unbroken .ours _ rfl
  have theirs := unbroken .theirs _ rfl
  cases label with
  | ours => exact List.forall_mem_singleton.2 ours
  | theirs => exact List.forall_mem_singleton.2 theirs
  | both => exact List.forall_mem_cons.2 ⟨ours, List.forall_mem_singleton.2 theirs⟩
  | keep => exact List.forall_mem_singleton.2 (Sides.unbroken_conflictLines unbroken)
  | combine => nofun

end Sources

theorem Patch.splice_inj {lines first second : List String} {position count : Nat} :
    splice lines position count first = splice lines position count second ↔ first = second := by
  rw [splice, splice, List.append_left_inj, List.append_right_inj]

/-- A choice whose text is held resolves to the lines of the text. -/
theorem Pool.exists_resolve_of_held {pool : Pool} {setting : Setting} {number : Nat} {own : Block}
    {choice : Choice} {text : String} (known : numbered? setting.blocks number = some own)
    (held : pool.held? number choice = some text) :
    ∃ resolved, pool.resolve setting number choice = .ok resolved ∧
      resolved.lines = Text.splitLines text := by
  rw [resolve, bind_block_of_known known]
  cases choice with
  | side which => cases held
  | patch index => cases held
  | heuristic =>
    obtain ⟨best, given, rfl⟩ := Option.map_eq_some_iff.1 held
    simp only [given]
    exact ⟨_, rfl, rfl⟩
  | classifier =>
    obtain ⟨candidate, given, rfl⟩ := Option.map_eq_some_iff.1 held
    simp only [given]
    exact ⟨_, rfl, rfl⟩
  | editScript =>
    rw [held?] at held
    split at held
    · cases held
    · next settled =>
      split at held
      · next given =>
        cases held
        simp only [given, settled]
        exact ⟨_, rfl, rfl⟩
      · cases held
  | history rank =>
    obtain ⟨candidate, given, rfl⟩ := Option.map_eq_some_iff.1 held
    simp only [given]
    exact ⟨_, rfl, rfl⟩

/-- The choice of a side resolves to the lines of the side. -/
theorem Pool.exists_resolve_of_side {pool : Pool} {setting : Setting} {number : Nat} {own : Block}
    {which : Side} {side : List String} (known : numbered? setting.blocks number = some own)
    (held : (own.sides setting.loaded).get? which = some side) :
    ∃ resolved, pool.resolve setting number (.side which) = .ok resolved ∧
      resolved.lines = side := by
  rw [resolve, bind_block_of_known known]
  simp only [held]
  exact ⟨_, rfl, rfl⟩

namespace Buffer

variable {buffer : Buffer} {number : Nat} {at' : Interval} {pieces : List (List String)}

/-- A block that is known and found stays so when a result is put in. -/
theorem located_commit {own : Block} (known : numbered? buffer.blocks number = some own)
    (found : buffer.locate number = some at') (update : Update) :
    numbered? (buffer.commit update).1.blocks number = some own ∧
      (buffer.commit update).1.locate number = some at' := by
  obtain ⟨current, _, blocks, prints⟩ := commit_frame buffer update
  exact ⟨blocks ▸ known, by rw [locate, prints, current]; exact found⟩

/-- A choice that stands for some lines revises the text where its block is found. -/
theorem apply_of_resolves {own : Block} {choice : Choice} {lines : List String}
    (direct : ∀ index, choice ≠ .patch index)
    (known : numbered? buffer.blocks number = some own) (found : buffer.locate number = some at')
    (resolves : ∃ resolved, buffer.pool.resolve buffer.setting number choice = .ok resolved ∧
      resolved.lines = lines) :
    (∃ applied, (buffer.apply ⟨number, choice⟩).2 = .ok applied) ∧
      (buffer.apply ⟨number, choice⟩).1 = buffer.revise
        (Patch.splice buffer.current at'.first at'.lineCount lines) (at'.first + 1) := by
  obtain ⟨resolved, resolves, rfl⟩ := resolves
  have known' : buffer.block (Request.mk number choice).block = .ok own := by rw [block, known]
  obtain ⟨revised, applied⟩ := apply_of_located direct known' found resolves
  exact ⟨⟨_, applied⟩, revised⟩

theorem puts_of_resolves {own : Block} {choice : Choice} {lines : List String}
    (direct : ∀ index, choice ≠ .patch index)
    (known : numbered? buffer.blocks number = some own) (found : buffer.locate number = some at')
    (resolves : ∃ resolved, buffer.pool.resolve buffer.setting number choice = .ok resolved ∧
      resolved.lines = lines) :
    buffer.Puts ⟨number, choice⟩ at' lines := by
  obtain ⟨applied, revised⟩ := apply_of_resolves direct known found resolves
  refine ⟨applied, ?_⟩
  rw [revised]
  rfl

/-- Different lines are not put in by one choice. -/
theorem Puts.iff_eq {request : Request} {lines more : List String}
    (puts : buffer.Puts request at' lines) : buffer.Puts request at' more ↔ lines = more := by
  refine ⟨fun puts' => ?_, fun same => same ▸ puts⟩
  exact Patch.splice_inj.1 (puts.2.symm.trans puts'.2)

/-- Pieces whose text is held are put in where their block is found. -/
theorem putsPieces_of_held {own : Block} {choice : Choice}
    (known : numbered? buffer.blocks number = some own) (found : buffer.locate number = some at')
    (held : buffer.pool.held? number choice =
      some (Text.joinLines (pieces.flatMap Text.filled)))
    (some_piece : pieces ≠ []) (unbroken : ∀ piece ∈ pieces, Text.Unbroken piece) :
    buffer.PutsPieces ⟨number, choice⟩ at' pieces := by
  have direct : ∀ index, choice ≠ .patch index := by
    rintro index rfl
    cases held
  have resolves : ∃ resolved, buffer.pool.resolve buffer.setting number choice = .ok resolved ∧ _ :=
    Pool.exists_resolve_of_held known held
  rw [Text.splitLines_joinLines_pieces some_piece unbroken] at resolves
  have filled := puts_of_resolves direct known found resolves
  exact ⟨filled, filled.iff_eq.trans Text.flatMap_filled_eq_iff⟩

/-- Lines whose text is held are put in where their block is found. -/
theorem putsLines_of_held {own : Block} {choice : Choice} {lines : List String}
    (known : numbered? buffer.blocks number = some own) (found : buffer.locate number = some at')
    (held : buffer.pool.held? number choice = some (Text.joinLines lines))
    (unbroken : Text.Unbroken lines) : buffer.PutsPieces ⟨number, choice⟩ at' [lines] := by
  refine putsPieces_of_held known found ?_ (List.cons_ne_nil _ _) ?_
  · rw [held, List.flatMap_singleton, Text.joinLines_filled]
  · exact List.forall_mem_singleton.2 unbroken

/-- A choice whose text is that of a side leaves what the choice of the side does, exactly if the
side has lines. -/
theorem apply_eq_iff_of_held {own : Block} {choice : Choice} {which : Side} {side : List String}
    (known : numbered? buffer.blocks number = some own) (found : buffer.locate number = some at')
    (held : buffer.pool.held? number choice = some (Text.joinLines side))
    (unbroken : Text.Unbroken side) (own_side : (own.sides buffer.loaded).get? which = some side) :
    buffer.Puts ⟨number, .side which⟩ at' side ∧
      ((buffer.apply ⟨number, choice⟩).1 = (buffer.apply ⟨number, .side which⟩).1 ↔
        side ≠ []) := by
  have direct : ∀ index, choice ≠ .patch index := by
    rintro index rfl
    cases held
  have resolves : ∃ resolved, buffer.pool.resolve buffer.setting number choice = .ok resolved ∧ _ :=
    Pool.exists_resolve_of_held known held
  have resolves' : ∃ resolved, buffer.pool.resolve buffer.setting number (.side which) =
      .ok resolved ∧ _ := Pool.exists_resolve_of_side known own_side
  rw [Text.splitLines_joinLines_eq_filled unbroken] at resolves
  have direct' : ∀ index, Choice.side which ≠ .patch index := nofun
  have puts := puts_of_resolves direct known found resolves
  have puts' := puts_of_resolves direct' known found resolves'
  refine ⟨puts', fun same => ?_, fun filled => ?_⟩
  · have spliced := puts.2
    rw [same, puts'.2, Patch.splice_inj] at spliced
    exact Text.filled_eq_iff.1 spliced.symm
  · rw [(apply_of_resolves direct known found resolves).2,
      (apply_of_resolves direct' known found resolves').2, Text.filled_of_ne_nil filled]

/-- Whatever has happened before, lines without a newline that are given for a block which is found
are put in by the choice they are given for: by the heuristic's, the lines of its best resolution;
by the predictor's, those that it lists or sends back as it was sent them; and by the classifier's,
the sides that its label takes. Only a list without lines comes out as one empty line. So a label
that takes one side does what the choice of the side does, exactly if that has lines. -/
theorem run_given_lines (text : String) (algorithm : Algorithm) (moves : List Move) {number : Nat}
    {own : Block} {at' : Interval}
    (known : numbered? (findBlocks (Text.splitLines text)) number = some own)
    (found : ((ofContent text algorithm).run moves).locate number = some at') :
    let buffer := (ofContent text algorithm).run moves
    let sides := own.sides (Text.splitLines text)
    (∀ (answer : HeuristicAnswer) (best : AnsweredResolution), answer.Best number best →
      Text.Unbroken best.code →
      (buffer.commit (.heuristic answer.report)).1.PutsPieces ⟨number, .heuristic⟩ at'
        [best.code]) ∧
    (∀ (answer : ScriptAnswer) (data : ScriptData) (lines : List String),
      answer.successful = true → answer.data = some data → data.Spells lines →
      Text.Unbroken lines →
      let given := (buffer.commit (.script buffer.pool.batch number answer.outcome)).1
      (given.commit (.batchFinished buffer.pool.batch)).1.PutsPieces ⟨number, .editScript⟩ at'
        [lines]) ∧
    ∀ (label : Label) (confidence : Binary64) (content : String),
      label.apply sides = .resolved content →
      let given := (buffer.commit (.label number ⟨label, confidence, content⟩)).1
      given.PutsPieces ⟨number, .classifier⟩ at' (label.pieces sides) ∧
      ∀ which side, label.side? = some which → sides.get? which = some side →
        given.Puts ⟨number, .side which⟩ at' side ∧
          ((given.apply ⟨number, .classifier⟩).1 = (given.apply ⟨number, .side which⟩).1 ↔
            side ≠ []) := by
  intro buffer sides
  have rooted : buffer.Rooted (Text.splitLines text) algorithm := run_rooted _ algorithm moves
  have known' : numbered? buffer.blocks number = some own := rooted.blocks ▸ known
  have unbroken : ∀ which side, sides.get? which = some side → Text.Unbroken side :=
    fun _ _ held => (Text.ofText_splitLines text).2.subset (Block.side_subset held)
  refine ⟨fun answer best isBest unbroken => ?_, fun answer data lines successful held spells
    unbroken => ?_, fun label confidence content resolved => ?_⟩
  · obtain ⟨known, found⟩ := located_commit known' found (.heuristic answer.report)
    refine putsLines_of_held known found ?_ unbroken
    rw [commit_pool, Pool.held?_heuristic isBest]
  · obtain ⟨text, outcome, trimmed⟩ := ScriptAnswer.outcome_of_spells successful held spells
    intro given
    obtain ⟨known, found⟩ := located_commit known' found
      (.script buffer.pool.batch number answer.outcome)
    obtain ⟨known, found⟩ := located_commit known found (.batchFinished buffer.pool.batch)
    refine putsLines_of_held known found ?_ unbroken
    rw [commit_pool, commit_pool, outcome, Pool.held?_script, trimmed]
  · intro given
    obtain ⟨known, found⟩ := located_commit known' found
      (.label number ⟨label, confidence, content⟩)
    obtain ⟨some_piece, joined⟩ := Label.content_eq resolved
    have loaded : given.loaded = Text.splitLines text :=
      (commit_frame buffer _).2.1.trans rooted.loaded
    have puts : given.PutsPieces ⟨number, .classifier⟩ at' (label.pieces sides) := by
      refine putsPieces_of_held known found ?_ some_piece ?_
      · rw [commit_pool, Pool.held?_label, joined]
      · exact Label.unbroken_pieces unbroken
    refine ⟨puts, fun which side takes own_side => ?_⟩
    refine apply_eq_iff_of_held known found ?_ (unbroken which side own_side) (loaded ▸ own_side)
    rw [commit_pool, Pool.held?_label, joined, Label.pieces_of_side? takes own_side,
      List.flatMap_singleton, Text.joinLines_filled]

/-- A conflict between lines that one side has and no lines. -/
def oneSided : String :=
  "h\n<<<<<<<\n=======\nb\n>>>>>>>\nt"

/-- The conflict has moved down by a line. Lines that are not none come through as they are, and
between our side, which has none, and theirs an empty line stands for it. -/
theorem oneSided_given :
    let buffer := (ofContent oneSided .lines).run [.edit ("new\n" ++ oneSided) 1]
    let answer : HeuristicAnswer := ⟨false, [⟨0, "", .zero, "", ["x", "", ""]⟩], none, none⟩
    let echo : ScriptAnswer := ⟨true, some (.text "b\n"), ""⟩
    let given := (buffer.commit (.script 0 1 echo.outcome)).1
    (buffer.commit (.heuristic answer.report)).1.Puts ⟨1, .heuristic⟩ ⟨2, 5⟩ ["x", "", ""] ∧
      (given.commit (.batchFinished 0)).1.Puts ⟨1, .editScript⟩ ⟨2, 5⟩ ["b"] ∧
      (buffer.commit (.label 1 ⟨.both, .zero, "\nb"⟩)).1.Puts ⟨1, .classifier⟩ ⟨2, 5⟩ ["", "b"] := by
  intro buffer answer echo given
  have known : numbered? (findBlocks (Text.splitLines oneSided)) 1 = some ⟨2, none, 3, 5⟩ := by
    decide +kernel
  have found : buffer.locate 1 = some ⟨2, 5⟩ := by decide +kernel
  obtain ⟨heuristic, script, label⟩ := run_given_lines oneSided .lines _ known found
  have isBest : answer.Best 1 ⟨0, "", .zero, "", ["x", "", ""]⟩ := ⟨[], [], by decide, nofun, nofun⟩
  have echoed : (ScriptData.text "b\n").Spells ["b"] :=
    .echo ⟨[], none, ["b"]⟩ .theirs ["b"] rfl
  have unbroken : Text.Unbroken ["x", "", ""] ∧ Text.Unbroken ["b"] := by decide +kernel
  exact ⟨(heuristic answer _ isBest unbroken.1).filled,
    (script echo _ _ rfl rfl echoed unbroken.2).filled,
    (label .both .zero "\nb" (by decide +kernel)).1.filled⟩

/-- A label that takes our side, a resolution without lines and a prediction without lines leave an
empty line where the choice of our side leaves nothing. -/
theorem oneSided_blank :
    let buffer := ofContent oneSided .lines
    let labelled := (buffer.commit (.label 1 ⟨.ours, .zero, ""⟩)).1
    let answer : HeuristicAnswer := ⟨false, [⟨0, "", .zero, "", []⟩], none, none⟩
    let prediction : ScriptAnswer := ⟨true, some (.lines []), ""⟩
    Label.ours.apply ((⟨2, none, 3, 5⟩ : Block).sides buffer.loaded) = .resolved "" ∧
      (labelled.apply ⟨1, .side .ours⟩).1.current = ["h", "t"] ∧
      (labelled.apply ⟨1, .classifier⟩).1.current = ["h", "", "t"] ∧
      ((buffer.commit (.heuristic answer.report)).1.apply ⟨1, .heuristic⟩).1.current =
        ["h", "", "t"] ∧
      (((buffer.commit (.script 0 1 prediction.outcome)).1.commit (.batchFinished 0)).1.apply
        ⟨1, .editScript⟩).1.current = ["h", "", "t"] := by
  decide +kernel

end Buffer

end MergeConflict
