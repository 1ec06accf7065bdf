import Mathlib.Data.List.DropRight
import MergeConflict.Pool
import MergeConflict.Proofs.Tables
import MergeConflict.Proofs.TextLines

/-!
# The pool as a reading of its log

The pool is kept update by update. Here it is read off the whole log of updates instead: for every
source it is said what the updates of that source amount to (`Tells`), with no word about how they
are worked in. What counts is for the most part what came last, and came behind the last update that
clears.

The pool that the updates build is the only one that reflects their log, so the order in which the
updates of different sources come does not matter.

Main statement: `foldl_commit_eq_iff`.
-/

namespace MergeConflict

/-! ## Items in order of confidence -/

/-- The given items in descending order of confidence, equals as they were given. -/
structure Ranked {α : Type} (confidence : α → Binary64) (given ranked : List α) : Prop where
  perm : ranked.Perm given
  descending : ranked.Pairwise fun a b => (confidence b).rank ≤ (confidence a).rank
  stable : ∀ rank, ranked.filter (fun a => (confidence a).rank = rank) =
    given.filter fun a => (confidence a).rank = rank

namespace Ranked

variable {α : Type} {confidence : α → Binary64} {given ranked other : List α}

theorem byConfidence (confidence : α → Binary64) (given : List α) :
    Ranked confidence given (Pool.byConfidence confidence given) := by
  have trans (a b c : α) (first : decide ((confidence b).rank ≤ (confidence a).rank) = true)
      (second : decide ((confidence c).rank ≤ (confidence b).rank) = true) :
      decide ((confidence c).rank ≤ (confidence a).rank) = true :=
    decide_eq_true (Int.le_trans (of_decide_eq_true second) (of_decide_eq_true first))
  have total (a b : α) : (decide ((confidence b).rank ≤ (confidence a).rank) ||
      decide ((confidence a).rank ≤ (confidence b).rank)) = true := by
    rw [Bool.or_eq_true, decide_eq_true_iff, decide_eq_true_iff]
    exact Int.le_total _ _
  have perm := List.mergeSort_perm given fun a b => decide ((confidence b).rank ≤ (confidence a).rank)
  refine ⟨perm, ?_, fun rank => ?_⟩
  · exact (List.pairwise_mergeSort trans total given).imp of_decide_eq_true
  · -- the items of one rank are in order as they stand, and sorting leaves those as they are
    have level : (given.filter fun a => (confidence a).rank = rank).Pairwise
        fun a b => decide ((confidence b).rank ≤ (confidence a).rank) = true := by
      refine List.pairwise_of_forall_mem_list fun a inside b inside' => decide_eq_true ?_
      exact Int.le_of_eq ((of_decide_eq_true (List.mem_filter.1 inside').2).trans
        (of_decide_eq_true (List.mem_filter.1 inside).2).symm)
    have kept := (List.sublist_mergeSort trans total level List.filter_sublist).filter
      fun a => decide ((confidence a).rank = rank)
    rw [List.filter_filter] at kept
    simp only [Bool.and_self] at kept
    exact (kept.eq_of_length (perm.filter _).length_eq.symm).symm

theorem eq_nil_iff (isRanked : Ranked confidence given ranked) : ranked = [] ↔ given = [] := by
  rw [← List.length_eq_zero_iff, isRanked.perm.length_eq, List.length_eq_zero_iff]

/-- There is one such order. -/
theorem unique (isRanked : Ranked confidence given ranked)
    (isRanked' : Ranked confidence given other) : ranked = other := by
  have same : ∀ rank, ranked.filter (fun a => (confidence a).rank = rank) =
      other.filter fun a => (confidence a).rank = rank :=
    fun rank => (isRanked.stable rank).trans (isRanked'.stable rank).symm
  have descending := isRanked.descending
  have descending' := isRanked'.descending
  have perm := isRanked.perm.trans isRanked'.perm.symm
  clear isRanked isRanked'
  induction ranked generalizing other with
  | nil => exact perm.nil_eq
  | cons first rest ih =>
    cases other with
    | nil => exact perm.eq_nil
    | cons first' rest' =>
      obtain ⟨above, inside⟩ := List.pairwise_cons.1 descending
      obtain ⟨above', inside'⟩ := List.pairwise_cons.1 descending'
      have rank : (confidence first).rank = (confidence first').rank := by
        apply Int.le_antisymm
        · rcases List.mem_cons.1 (perm.subset List.mem_cons_self) with rfl | later
          · exact Int.le_refl _
          · exact above' first later
        · rcases List.mem_cons.1 (perm.symm.subset List.mem_cons_self) with rfl | later
          · exact Int.le_refl _
          · exact above first' later
      have heads := same (confidence first).rank
      rw [List.filter_cons, if_pos (decide_eq_true rfl), List.filter_cons,
        if_pos (decide_eq_true rank.symm)] at heads
      obtain ⟨rfl, _⟩ := List.cons.inj heads
      refine congrArg _ (ih (fun rank => ?_) inside inside' perm.cons_inv)
      have tails := same rank
      rw [List.filter_cons, List.filter_cons] at tails
      split at tails
      · exact (List.cons.inj tails).2
      · exact tails

end Ranked

/-! ## What an update gives -/

namespace Update

variable {α : Type} {log : List Update} {update : Update}

/-- What the last update gives of those that give something. -/
def last? (gives : Update → Option α) (log : List Update) : Option α :=
  (log.filterMap gives).getLast?

/-- The updates behind the last one that clears. -/
def since (clears : Update → Bool) (log : List Update) : List Update :=
  log.rtakeWhile fun update => !clears update

/-- How far the heuristic source has come with an update. -/
def status? : Update → Option HeuristicStatus
  | heuristicStarted => some .pending
  | heuristic report => some (if report.pending then .pending else .ready)
  | heuristicTimedOut => some .timedOut
  | heuristicFailed => some .failed
  | _ => none

def report? : Update → Option Report
  | heuristic report => some report
  | _ => none

/-- A final report. -/
def answer? : Update → Option Report
  | heuristic report => if report.pending then none else some report
  | _ => none

def clearsHeuristic : Update → Bool
  | heuristicStarted => true
  | heuristicFailed => true
  | _ => false

def labelFor? (block : Nat) : Update → Option LabelCandidate
  | label number candidate => if number = block then some candidate else none
  | _ => none

def clearsLabels : Update → Bool
  | labelsCleared => true
  | _ => false

def batch? : Update → Option UInt64
  | batchStarted batch => some batch
  | _ => none

def startsBatch (update : Update) : Bool :=
  update.batch?.isSome

def outcomeFor? (batch : UInt64) (block : Nat) : Update → Option ScriptOutcome
  | script own number outcome => if own = batch ∧ number = block then some outcome else none
  | _ => none

def historyFor? (block : Nat) : Update → Option (List HistoryCandidate)
  | history number candidates => if number = block then some candidates else none
  | _ => none

@[simp] theorem last?_nil (gives : Update → Option α) : last? gives [] = none :=
  rfl

@[simp] theorem last?_concat (gives : Update → Option α) (log : List Update) (update : Update) :
    last? gives (log ++ [update]) = (gives update).or (last? gives log) := by
  rw [last?, last?, List.filterMap_append]
  cases given : gives update with
  | none => rw [List.filterMap_cons_none given, List.filterMap_nil, List.append_nil, Option.none_or]
  | some a =>
    rw [List.filterMap_cons_some given, List.filterMap_nil, List.getLast?_concat, Option.some_or]

theorem last?_concat_of_none {gives : Update → Option α} (nothing : gives update = none) :
    last? gives (log ++ [update]) = last? gives log := by
  rw [last?_concat, nothing, Option.none_or]

theorem last?_concat_of_some {gives : Update → Option α} {a : α} (given : gives update = some a) :
    last? gives (log ++ [update]) = some a := by
  rw [last?_concat, given, Option.some_or]

theorem since_concat_of_clears {clears : Update → Bool} (cleared : clears update = true) :
    since clears (log ++ [update]) = [] := by
  rw [since, List.rtakeWhile_concat_neg]
  rw [cleared]
  exact Bool.false_ne_true

theorem since_concat_of_keeps {clears : Update → Bool} (kept : clears update = false) :
    since clears (log ++ [update]) = since clears log ++ [update] := by
  rw [since, List.rtakeWhile_concat_pos, since]
  rw [kept]
  rfl

end Update

/-! ## What a log tells about each part of a pool -/

namespace Pool

open Update

/-- The resolutions given, block by block, each block's in order of confidence. -/
structure Groups (given : List Resolution) (table : Table (List Resolution)) : Prop where
  ordered : table.Ordered
  lists : ∀ block list, table.get? block = some list ↔
    list ≠ [] ∧ Ranked Resolution.confidence (given.filter fun r => r.block = block) list

/-- The resolutions of the last report since the heuristic source was cleared. -/
def reported (log : List Update) : List Resolution :=
  ((last? report? (since clearsHeuristic log)).map Report.resolutions).getD []

/-- The last final report since the heuristic source was cleared. -/
def answered? (log : List Update) : Option Report :=
  last? answer? (since clearsHeuristic log)

/-- What the updates of the heuristic source amount to. -/
structure HeuristicTells (log : List Update) (pool : Pool) : Prop where
  status : pool.status = (last? status? log).getD .idle
  resolutions : Groups (reported log) pool.resolutions
  merged : ∀ lines, pool.merged = some lines ↔
    ∃ report ∈ answered? log,
      report.merged = some lines ∧ lines ≠ [] ∧ report.patchesEmpty = false
  noPatches : pool.noPatches = true ↔ (∃ report, report ∈ answered? log) ∧ pool.merged = none

/-- The last label of each block since the labels were cleared. -/
structure ClassifierTells (log : List Update) (pool : Pool) : Prop where
  ordered : pool.labels.Ordered
  labels : ∀ block, pool.labels.get? block = last? (labelFor? block) (since clearsLabels log)

/-- An outcome less one newline at the end of its text. -/
def Trims : ScriptOutcome → ScriptOutcome → Prop
  | .resolvable text, .resolvable kept =>
    text = kept ++ "\n" ∨ text = kept ∧ ∀ front, text ≠ front ++ "\n"
  | .unresolvable, .unresolvable => True
  | _, _ => False

/-- What the latest batch has come to. Updates of other batches are passed over. -/
structure EditScriptTells (log : List Update) (pool : Pool) : Prop where
  batch : pool.batch = (last? batch? log).getD 0
  batchPending : pool.batchPending = true ↔
    (∃ batch, batch ∈ last? batch? log) ∧ .batchFinished pool.batch ∉ since startsBatch log
  ordered : pool.scripts.Ordered
  scripts : ∀ block outcome, pool.scripts.get? block = some outcome ↔
    ∃ given ∈ last? (outcomeFor? pool.batch block) (since startsBatch log), Trims given outcome

/-- The last history of each block, as far as its candidates are worth keeping. -/
structure HistoryTells (log : List Update) (pool : Pool) : Prop where
  ordered : pool.history.Ordered
  lists : ∀ block list, pool.history.get? block = some list ↔
    ∃ candidates ∈ last? (historyFor? block) log,
      Ranked HistoryCandidate.confidence ((candidates.take historyDepth).filter fun candidate =>
        candidate.confidence.isPositive && candidate.content != "") list

/-- The log of one source tells what the pool holds of that source. -/
def Tells : Source → List Update → Pool → Prop
  | .heuristic => HeuristicTells
  | .classifier => ClassifierTells
  | .editScript => EditScriptTells
  | .history => HistoryTells

/-- The updates of a source. -/
def logOf (log : List Update) (source : Source) : List Update :=
  log.filter fun update => update.source = source

/-- The pool holds what the updates of each source amount to. -/
def Reflects (log : List Update) (pool : Pool) : Prop :=
  ∀ source, Tells source (logOf log source) pool

/-- Two pools hold the same of a source. -/
def Agrees : Source → Pool → Pool → Prop
  | .heuristic, a, b =>
    a.status = b.status ∧ a.resolutions = b.resolutions ∧ a.merged = b.merged ∧
      a.noPatches = b.noPatches
  | .classifier, a, b => a.labels = b.labels
  | .editScript, a, b => a.batchPending = b.batchPending ∧ a.batch = b.batch ∧ a.scripts = b.scripts
  | .history, a, b => a.history = b.history

variable {log : List Update} {pool other : Pool} {update : Update} {source : Source}

/-! ## One source alone -/

theorem ext_of_agrees (agrees : ∀ source, Agrees source pool other) : pool = other := by
  obtain ⟨status, resolutions, merged, noPatches⟩ := agrees .heuristic
  obtain ⟨batchPending, batch, scripts⟩ := agrees .editScript
  have labels := agrees .classifier
  have history := agrees .history
  cases pool
  cases other
  simp only [Pool.mk.injEq]
  exact ⟨status, resolutions, merged, noPatches, labels, batchPending, batch, scripts, history⟩

theorem commit_heuristic (own : update.source = .heuristic) (pool : Pool) :
    ∃ status resolutions merged noPatches,
      pool.commit update = { pool with status, resolutions, merged, noPatches } := by
  cases update with
  | heuristicStarted => exact ⟨_, _, _, _, rfl⟩
  | heuristic report =>
    rw [commit]
    simp only
    split
    · exact ⟨_, _, _, _, rfl⟩
    · exact ⟨_, _, _, _, rfl⟩
  | heuristicTimedOut => exact ⟨_, _, _, _, rfl⟩
  | heuristicFailed => exact ⟨_, _, _, _, rfl⟩
  | _ => cases own

theorem commit_classifier (own : update.source = .classifier) (pool : Pool) :
    ∃ labels, pool.commit update = { pool with labels } := by
  cases update with
  | labelsCleared => exact ⟨_, rfl⟩
  | label block candidate => exact ⟨_, rfl⟩
  | _ => cases own

theorem commit_editScript (own : update.source = .editScript) (pool : Pool) :
    ∃ batchPending batch scripts, pool.commit update = { pool with batchPending, batch, scripts } := by
  cases update with
  | batchStarted batch => exact ⟨_, _, _, rfl⟩
  | script batch block outcome =>
    rw [commit]
    split
    · exact ⟨_, _, _, rfl⟩
    · exact ⟨_, _, _, rfl⟩
  | batchFinished batch =>
    rw [commit]
    split
    · exact ⟨_, _, _, rfl⟩
    · exact ⟨_, _, _, rfl⟩
  | _ => cases own

theorem commit_history (own : update.source = .history) (pool : Pool) :
    ∃ history, pool.commit update = { pool with history } := by
  cases update with
  | history block candidates => exact ⟨_, rfl⟩
  | _ => cases own

/-- An update changes nothing of another source. -/
theorem commit_agrees (foreign : update.source ≠ source) (pool : Pool) :
    Agrees source (pool.commit update) pool := by
  rcases origin : update.source with _ | _ | _ | _
  · obtain ⟨_, _, _, _, changed⟩ := commit_heuristic origin pool
    rw [changed]
    cases source with
    | heuristic => exact (foreign origin).elim
    | classifier => rfl
    | editScript => exact ⟨rfl, rfl, rfl⟩
    | history => rfl
  · obtain ⟨_, changed⟩ := commit_classifier origin pool
    rw [changed]
    cases source with
    | heuristic => exact ⟨rfl, rfl, rfl, rfl⟩
    | classifier => exact (foreign origin).elim
    | editScript => exact ⟨rfl, rfl, rfl⟩
    | history => rfl
  · obtain ⟨_, _, _, changed⟩ := commit_editScript origin pool
    rw [changed]
    cases source with
    | heuristic => exact ⟨rfl, rfl, rfl, rfl⟩
    | classifier => rfl
    | editScript => exact (foreign origin).elim
    | history => rfl
  · obtain ⟨_, changed⟩ := commit_history origin pool
    rw [changed]
    cases source with
    | heuristic => exact ⟨rfl, rfl, rfl, rfl⟩
    | classifier => rfl
    | editScript => exact ⟨rfl, rfl, rfl⟩
    | history => exact (foreign origin).elim

theorem Agrees.refl (source : Source) (pool : Pool) : Agrees source pool pool := by
  cases source with
  | heuristic => exact ⟨rfl, rfl, rfl, rfl⟩
  | classifier => rfl
  | editScript => exact ⟨rfl, rfl, rfl⟩
  | history => rfl

theorem Agrees.trans {third : Pool} (agrees : Agrees source pool other)
    (agrees' : Agrees source other third) : Agrees source pool third := by
  cases source with
  | heuristic =>
    obtain ⟨status, resolutions, merged, noPatches⟩ := agrees
    obtain ⟨status', resolutions', merged', noPatches'⟩ := agrees'
    exact ⟨status.trans status', resolutions.trans resolutions', merged.trans merged',
      noPatches.trans noPatches'⟩
  | classifier => exact Eq.trans agrees agrees'
  | editScript =>
    obtain ⟨batchPending, batch, scripts⟩ := agrees
    obtain ⟨batchPending', batch', scripts'⟩ := agrees'
    exact ⟨batchPending.trans batchPending', batch.trans batch', scripts.trans scripts'⟩
  | history => exact Eq.trans agrees agrees'

theorem Agrees.symm (agrees : Agrees source pool other) : Agrees source other pool := by
  cases source with
  | heuristic =>
    obtain ⟨status, resolutions, merged, noPatches⟩ := agrees
    exact ⟨status.symm, resolutions.symm, merged.symm, noPatches.symm⟩
  | classifier => exact Eq.symm agrees
  | editScript =>
    obtain ⟨batchPending, batch, scripts⟩ := agrees
    exact ⟨batchPending.symm, batch.symm, scripts.symm⟩
  | history => exact Eq.symm agrees

/-- What an update makes of a source depends on what was there of this source alone. -/
theorem Agrees.commit (agrees : Agrees source pool other) (update : Update) :
    Agrees source (pool.commit update) (other.commit update) := by
  by_cases own : update.source = source
  · subst own
    cases update with
    | heuristic report =>
      obtain ⟨status, resolutions, merged, noPatches⟩ := agrees
      rw [Pool.commit, Pool.commit]
      cases report.pending with
      | true => exact ⟨rfl, rfl, merged, noPatches⟩
      | false => exact ⟨rfl, rfl, rfl, rfl⟩
    | heuristicTimedOut => exact ⟨rfl, agrees.2⟩
    | label block candidate => exact congrArg (Table.insert · block candidate) agrees
    | script batch block outcome =>
      obtain ⟨batchPending, batch', scripts⟩ := agrees
      rw [Pool.commit, Pool.commit, batch']
      split
      · exact ⟨batchPending, rfl, congrArg (Table.insert · block (trimOutcome outcome)) scripts⟩
      · exact ⟨batchPending, batch', scripts⟩
    | batchFinished batch =>
      obtain ⟨batchPending, batch', scripts⟩ := agrees
      rw [Pool.commit, Pool.commit, batch']
      split
      · exact ⟨rfl, rfl, scripts⟩
      · exact ⟨batchPending, batch', scripts⟩
    | history block candidates =>
      exact congrArg (Table.insert · block (rankHistory candidates)) agrees
    | heuristicStarted => exact ⟨rfl, rfl, rfl, rfl⟩
    | heuristicFailed => exact ⟨rfl, rfl, rfl, rfl⟩
    | labelsCleared => rfl
    | batchStarted batch => exact ⟨rfl, rfl, rfl⟩
  · exact ((commit_agrees own pool).trans agrees).trans (commit_agrees own other).symm

theorem Agrees.foldl_commit (agrees : Agrees source pool other) (updates : List Update) :
    Agrees source (updates.foldl Pool.commit pool) (updates.foldl Pool.commit other) := by
  induction updates generalizing pool other with
  | nil => exact agrees
  | cons update updates ih => exact ih (agrees.commit update)

theorem foldl_commit_agrees {updates : List Update}
    (foreign : ∀ update ∈ updates, update.source ≠ source) (pool : Pool) :
    Agrees source (updates.foldl commit pool) pool := by
  induction updates generalizing pool with
  | nil => exact Agrees.refl source pool
  | cons update updates ih =>
    exact (ih (fun other inside => foreign other (List.mem_cons_of_mem _ inside)) _).trans
      (commit_agrees (foreign update List.mem_cons_self) pool)

theorem HeuristicTells.agrees (told : HeuristicTells log pool) (told' : HeuristicTells log other) :
    Agrees .heuristic pool other := by
  have merged : pool.merged = other.merged :=
    Option.ext fun lines => (told.merged lines).trans (told'.merged lines).symm
  refine ⟨told.status.trans told'.status.symm, ?_, merged, ?_⟩
  · exact told.resolutions.ordered.ext told'.resolutions.ordered fun block => Option.ext fun list =>
      (told.resolutions.lists block list).trans (told'.resolutions.lists block list).symm
  · rw [Bool.eq_iff_iff, told.noPatches, told'.noPatches, merged]

theorem EditScriptTells.agrees (told : EditScriptTells log pool)
    (told' : EditScriptTells log other) : Agrees .editScript pool other := by
  have batch : pool.batch = other.batch := told.batch.trans told'.batch.symm
  refine ⟨?_, batch, ?_⟩
  · rw [Bool.eq_iff_iff, told.batchPending, told'.batchPending, batch]
  · refine told.ordered.ext told'.ordered fun block => Option.ext fun outcome => ?_
    rw [told.scripts, told'.scripts, batch]

/-- The log of a source leaves nothing open about what a pool holds of it. -/
theorem Tells.agrees (told : Tells source log pool) (told' : Tells source log other) :
    Agrees source pool other := by
  cases source with
  | heuristic => exact HeuristicTells.agrees told told'
  | classifier =>
    have told : ClassifierTells log pool := told
    have told' : ClassifierTells log other := told'
    exact told.ordered.ext told'.ordered fun block =>
      (told.labels block).trans (told'.labels block).symm
  | editScript => exact EditScriptTells.agrees told told'
  | history =>
    have told : HistoryTells log pool := told
    have told' : HistoryTells log other := told'
    exact told.ordered.ext told'.ordered fun block => Option.ext fun list =>
      (told.lists block list).trans (told'.lists block list).symm

theorem Tells.congr (told : Tells source log other) (agrees : Agrees source pool other) :
    Tells source log pool := by
  cases source with
  | heuristic =>
    obtain ⟨status, resolutions, merged, noPatches⟩ := agrees
    obtain ⟨status', resolutions', merged', noPatches'⟩ := told
    exact ⟨status ▸ status', resolutions ▸ resolutions', merged ▸ merged',
      by rw [noPatches, merged, noPatches']⟩
  | classifier =>
    have agrees : pool.labels = other.labels := agrees
    obtain ⟨ordered, labels⟩ := told
    exact ⟨agrees ▸ ordered, agrees ▸ labels⟩
  | editScript =>
    obtain ⟨batchPending, batch, scripts⟩ := agrees
    obtain ⟨batch', batchPending', ordered, scripts'⟩ := told
    exact ⟨batch ▸ batch', by rw [batchPending, batch, batchPending'], scripts ▸ ordered,
      by rw [scripts, batch]; exact scripts'⟩
  | history =>
    have agrees : pool.history = other.history := agrees
    obtain ⟨ordered, lists⟩ := told
    exact ⟨agrees ▸ ordered, agrees ▸ lists⟩

/-! ## The heuristic source -/

theorem groups_nil : Groups [] [] where
  ordered := Table.ordered_nil
  lists block list := by
    constructor
    · nofun
    · rintro ⟨filled, ranked⟩
      exact (filled (ranked.eq_nil_iff.2 rfl)).elim

theorem get?_groupByBlock_eq_some_iff {given : List Resolution} {block : Nat}
    {list : List Resolution} : (groupByBlock given).get? block = some list ↔
      list ≠ [] ∧ (given.filter fun r => r.block = block) = list := by
  induction given using List.reverseRecOn generalizing block list with
  | nil => exact ⟨nofun, fun ⟨filled, same⟩ => (filled same.symm).elim⟩
  | append_singleton given r ih =>
    have step : groupByBlock (given ++ [r]) = (groupByBlock given).insert r.block
        (((groupByBlock given).get? r.block).getD [] ++ [r]) := by
      rw [groupByBlock, List.foldl_append]
      rfl
    rw [step, Table.get?_insert, List.filter_append]
    by_cases own : block = r.block
    · subst own
      have before : ((groupByBlock given).get? r.block).getD [] =
          given.filter fun other => other.block = r.block := by
        cases held : (groupByBlock given).get? r.block with
        | some list => exact (ih.1 held).2.symm
        | none =>
          by_contra filled
          rw [ih.2 ⟨Ne.symm filled, rfl⟩] at held
          cases held
      rw [if_pos rfl, before, List.filter_cons, if_pos (decide_eq_true rfl), List.filter_nil,
        Option.some.injEq]
      constructor
      · rintro rfl
        exact ⟨List.append_ne_nil_of_right_ne_nil _ (List.cons_ne_nil _ _), rfl⟩
      · exact fun grouped => grouped.2
    · rw [if_neg own, ih, List.filter_cons_of_neg (by simpa using Ne.symm own), List.filter_nil,
        List.append_nil]

theorem ordered_groupByBlock (given : List Resolution) : (groupByBlock given).Ordered := by
  induction given using List.reverseRecOn with
  | nil => exact Table.ordered_nil
  | append_singleton given r ih =>
    rw [groupByBlock, List.foldl_append]
    exact ih.insert _ _

theorem groups_withResolutions (pool : Pool) (given : List Resolution) :
    Groups given (pool.withResolutions given).resolutions where
  ordered := (ordered_groupByBlock given).map _
  lists block list := by
    have ranked : Ranked Resolution.confidence (given.filter fun r => r.block = block)
        (byConfidence Resolution.confidence (given.filter fun r => r.block = block)) :=
      .byConfidence _ _
    rw [withResolutions, Table.get?_map, Option.map_eq_some_iff]
    constructor
    · rintro ⟨group, held, rfl⟩
      obtain ⟨filled, rfl⟩ := get?_groupByBlock_eq_some_iff.1 held
      exact ⟨mt ranked.eq_nil_iff.1 filled, ranked⟩
    · rintro ⟨filled, isRanked⟩
      refine ⟨_, get?_groupByBlock_eq_some_iff.2 ⟨mt isRanked.eq_nil_iff.2 filled, rfl⟩, ?_⟩
      exact ranked.unique isRanked

theorem referenceOf_eq_some_iff {report : Report} {lines : List String} :
    referenceOf report = some lines ↔
      report.merged = some lines ∧ lines ≠ [] ∧ report.patchesEmpty = false := by
  rw [referenceOf, Option.filter_eq_some_iff, Bool.and_eq_true, Bool.not_eq_true',
    Bool.not_eq_true', List.isEmpty_eq_false_iff]

/-- A log that has just been cleared tells of nothing but the status. -/
theorem heuristicTells_clear {status : HeuristicStatus} (is : update.status? = some status)
    (clears : update.clearsHeuristic = true) (log : List Update) (pool : Pool) :
    HeuristicTells (log ++ [update]) (pool.clearHeuristic status) := by
  refine ⟨?_, ?_, ?_, ?_⟩
  · rw [last?_concat_of_some is, Option.getD_some, clearHeuristic]
  · rw [reported, since_concat_of_clears clears]
    exact groups_nil
  · simp [answered?, since_concat_of_clears clears, clearHeuristic]
  · simp [answered?, since_concat_of_clears clears, clearHeuristic]

/-- Of a report that is not final, the reference is left for the final one. -/
theorem HeuristicTells.report (told : HeuristicTells log pool) (report : Report) :
    HeuristicTells (log ++ [.heuristic report]) (pool.commit (.heuristic report)) := by
  have thisReport : reported (log ++ [.heuristic report]) = report.resolutions := by
    rw [reported, since_concat_of_keeps rfl, last?_concat, report?, Option.some_or,
      Option.map_some, Option.getD_some]
  have grouped : Groups (reported (log ++ [.heuristic report]))
      (pool.withResolutions report.resolutions).resolutions := by
    rw [thisReport]
    exact groups_withResolutions pool report.resolutions
  rw [Pool.commit]
  simp only
  split
  · next pending =>
    have sameAnswer : answered? (log ++ [.heuristic report]) = answered? log := by
      rw [answered?, since_concat_of_keeps rfl, last?_concat_of_none (if_pos pending), answered?]
    refine ⟨?_, grouped, ?_, ?_⟩
    · rw [last?_concat, status?, Option.some_or, Option.getD_some, if_pos pending]
    · rw [sameAnswer]
      exact told.merged
    · rw [sameAnswer]
      exact told.noPatches
  · next final =>
    have thisAnswer : answered? (log ++ [.heuristic report]) = some report := by
      rw [answered?, since_concat_of_keeps rfl, last?_concat_of_some (if_neg final)]
    refine ⟨?_, grouped, fun lines => ?_, ?_⟩
    · rw [last?_concat, status?, Option.some_or, Option.getD_some, if_neg final]
    · rw [thisAnswer]
      simp only [Option.mem_some, exists_eq_left']
      exact referenceOf_eq_some_iff
    · rw [thisAnswer]
      simp only [Option.isNone_iff_eq_none]
      exact (and_iff_right ⟨report, rfl⟩).symm

theorem HeuristicTells.commit (told : HeuristicTells log pool) (own : update.source = .heuristic) :
    HeuristicTells (log ++ [update]) (pool.commit update) := by
  cases update with
  | heuristicStarted => exact heuristicTells_clear rfl rfl log pool
  | heuristicFailed => exact heuristicTells_clear rfl rfl log pool
  | heuristic report => exact told.report report
  | heuristicTimedOut =>
    have sameReport : reported (log ++ [.heuristicTimedOut]) = reported log := by
      rw [reported, since_concat_of_keeps rfl, last?_concat_of_none rfl, reported]
    have sameAnswer : answered? (log ++ [.heuristicTimedOut]) = answered? log := by
      rw [answered?, since_concat_of_keeps rfl, last?_concat_of_none rfl, answered?]
    refine ⟨?_, ?_, ?_, ?_⟩
    · rw [last?_concat, status?, Option.some_or, Option.getD_some, Pool.commit]
    · rw [sameReport]
      exact told.resolutions
    · rw [sameAnswer]
      exact told.merged
    · rw [sameAnswer]
      exact told.noPatches
  | _ => cases own

/-! ## The other sources -/

theorem ClassifierTells.commit (told : ClassifierTells log pool)
    (own : update.source = .classifier) :
    ClassifierTells (log ++ [update]) (pool.commit update) := by
  obtain ⟨ordered, labels⟩ := told
  cases update with
  | labelsCleared =>
    refine ⟨Table.ordered_nil, fun sought => ?_⟩
    rw [since_concat_of_clears rfl]
    rfl
  | label block candidate =>
    refine ⟨ordered.insert _ _, fun sought => ?_⟩
    rw [Pool.commit, Table.get?_insert, labels, since_concat_of_keeps rfl,
      last?_concat, labelFor?]
    by_cases own : sought = block
    · rw [if_pos own, if_pos own.symm, Option.some_or]
    · rw [if_neg own, if_neg (Ne.symm own), Option.none_or]
  | _ => cases own

theorem trims_iff {given kept : ScriptOutcome} : Trims given kept ↔ trimOutcome given = kept := by
  cases given with
  | resolvable text =>
    cases kept with
    | resolvable kept =>
      rw [Trims, trimOutcome, ScriptOutcome.resolvable.injEq, Text.dropFinalNewline_eq_iff]
    | unresolvable => exact ⟨False.elim, nofun⟩
  | unresolvable =>
    cases kept with
    | resolvable kept => exact ⟨False.elim, nofun⟩
    | unresolvable => exact ⟨fun _ => rfl, fun _ => trivial⟩

/-- An update within a batch: it ends the batch if it says so, and an outcome it gives for a block
takes the place of the one before. -/
theorem EditScriptTells.within {after : Pool} (told : EditScriptTells log pool)
    (silent : update.batch? = none) (batch : after.batch = pool.batch)
    (pending : after.batchPending = true ↔
      pool.batchPending = true ∧ .batchFinished pool.batch ≠ update)
    (ordered : after.scripts.Ordered)
    (scripts : ∀ block, after.scripts.get? block =
      ((outcomeFor? pool.batch block update).map trimOutcome).or (pool.scripts.get? block)) :
    EditScriptTells (log ++ [update]) after := by
  have keeps : update.startsBatch = false := by
    rw [startsBatch, silent, Option.isSome_none]
  refine ⟨?_, ?_, ordered, fun block kept => ?_⟩
  · rw [last?_concat_of_none silent, batch]
    exact told.batch
  · rw [last?_concat_of_none silent, since_concat_of_keeps keeps, batch, pending,
      told.batchPending, List.mem_append, List.mem_singleton, not_or, and_assoc]
  · rw [since_concat_of_keeps keeps, batch, last?_concat, scripts]
    cases outcomeFor? pool.batch block update with
    | none =>
      rw [Option.map_none, Option.none_or, Option.none_or]
      exact told.scripts block kept
    | some given =>
      rw [Option.map_some, Option.some_or, Option.some_or]
      simp only [Option.mem_some, exists_eq_left', trims_iff, Option.some.injEq]

theorem EditScriptTells.commit (told : EditScriptTells log pool)
    (own : update.source = .editScript) :
    EditScriptTells (log ++ [update]) (pool.commit update) := by
  cases update with
  | batchStarted batch =>
    refine ⟨by simp [Pool.commit, batch?], ?_, Table.ordered_nil, fun block outcome => ?_⟩
    · rw [since_concat_of_clears rfl, last?_concat, batch?, Option.some_or]
      exact iff_of_true rfl ⟨⟨batch, rfl⟩, List.not_mem_nil⟩
    · rw [since_concat_of_clears rfl]
      exact ⟨nofun, fun ⟨_, absent, _⟩ => nomatch absent⟩
  | script batch block outcome =>
    rw [Pool.commit]
    split
    · next current =>
      refine told.within rfl rfl (by simp) (told.ordered.insert _ _) fun sought => ?_
      rw [Table.get?_insert, outcomeFor?]
      by_cases here : sought = block
      · rw [if_pos here, if_pos ⟨current, here.symm⟩]
        rfl
      · rw [if_neg here, if_neg fun both => here both.2.symm]
        rfl
    · next stale =>
      refine told.within rfl rfl (by simp) told.ordered fun sought => ?_
      rw [outcomeFor?, if_neg fun both => stale both.1]
      rfl
  | batchFinished batch =>
    rw [Pool.commit]
    split
    · next current => exact told.within rfl rfl (by simp [current]) told.ordered fun _ => rfl
    · next stale =>
      exact told.within rfl rfl (by simp [Ne.symm stale]) told.ordered fun _ => rfl
  | _ => cases own

theorem HistoryTells.commit (told : HistoryTells log pool) (own : update.source = .history) :
    HistoryTells (log ++ [update]) (pool.commit update) := by
  obtain ⟨ordered, lists⟩ := told
  cases update with
  | history block candidates =>
    refine ⟨ordered.insert _ _, fun sought list => ?_⟩
    have ranked : Ranked HistoryCandidate.confidence ((candidates.take historyDepth).filter
        fun candidate => candidate.confidence.isPositive && candidate.content != "")
        (rankHistory candidates) := .byConfidence _ _
    rw [Pool.commit, Table.get?_insert, last?_concat, historyFor?]
    by_cases own : sought = block
    · rw [if_pos own, if_pos own.symm, Option.some_or]
      simp only [Option.mem_some, exists_eq_left', Option.some.injEq]
      exact ⟨fun same => same ▸ ranked, ranked.unique⟩
    · rw [if_neg own, if_neg (Ne.symm own), Option.none_or, lists]
  | _ => cases own

/-- What a source tells takes in its next update. -/
theorem Tells.commit (told : Tells update.source log pool) :
    Tells update.source (log ++ [update]) (pool.commit update) := by
  rcases origin : update.source with _ | _ | _ | _
  · rw [origin] at told
    exact HeuristicTells.commit told origin
  · rw [origin] at told
    exact ClassifierTells.commit told origin
  · rw [origin] at told
    exact EditScriptTells.commit told origin
  · rw [origin] at told
    exact HistoryTells.commit told origin

/-! ## The whole log -/

theorem reflects_empty : Reflects [] empty := by
  intro source
  cases source with
  | heuristic =>
    refine ⟨rfl, groups_nil, fun lines => ?_, ?_⟩
    · exact ⟨nofun, fun ⟨_, absent, _⟩ => nomatch absent⟩
    · exact ⟨nofun, fun ⟨⟨_, absent⟩, _⟩ => nomatch absent⟩
  | classifier => exact ⟨Table.ordered_nil, fun _ => rfl⟩
  | editScript =>
    refine ⟨rfl, ?_, Table.ordered_nil, fun block outcome => ?_⟩
    · exact ⟨nofun, fun ⟨⟨_, absent⟩, _⟩ => nomatch absent⟩
    · exact ⟨nofun, fun ⟨_, absent, _⟩ => nomatch absent⟩
  | history => exact ⟨Table.ordered_nil, fun block list => ⟨nofun, fun ⟨_, absent, _⟩ => nomatch absent⟩⟩

theorem Reflects.commit (reflects : Reflects log pool) (update : Update) :
    Reflects (log ++ [update]) (pool.commit update) := by
  intro source
  rw [logOf, List.filter_append]
  by_cases own : update.source = source
  · subst own
    rw [List.filter_cons, if_pos (decide_eq_true rfl), List.filter_nil]
    exact (reflects _).commit
  · rw [List.filter_cons, if_neg (by simpa using own), List.filter_nil, List.append_nil]
    exact (reflects source).congr (commit_agrees own pool)

theorem foldl_commit_reflects (log : List Update) : Reflects log (log.foldl commit empty) := by
  induction log using List.reverseRecOn with
  | nil => exact reflects_empty
  | append_singleton log update ih =>
    rw [List.foldl_append]
    exact ih.commit update

/-- The pool that a log of updates builds is the one that holds, source by source, what the updates
of the source amount to. Logs that differ in how the updates of different sources are mixed build
one pool. -/
theorem foldl_commit_eq_iff (log : List Update) :
    (∀ pool, log.foldl commit empty = pool ↔ Reflects log pool) ∧
      ∀ other, (∀ source, logOf other source = logOf log source) →
        other.foldl commit empty = log.foldl commit empty := by
  have built (log : List Update) (pool : Pool) :
      log.foldl commit empty = pool ↔ Reflects log pool := by
    constructor
    · rintro rfl
      exact foldl_commit_reflects log
    · exact fun reflects => ext_of_agrees fun source =>
        (foldl_commit_reflects log source).agrees (reflects source)
  refine ⟨built log, fun other same => (built other _).2 fun source => ?_⟩
  rw [same source]
  exact foldl_commit_reflects log source

end Pool

end MergeConflict
