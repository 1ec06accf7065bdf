import Mathlib.Data.List.Nodup
import MergeConflict.Proofs.SharedSession

/-!
# Predictions and what they leave behind

A label run makes a task or a warning of each prediction, in order, and puts in what the tasks come
to as they finish. Each prediction leaves a candidate, a warning, or nothing if its task has broken
down (`Guess.Judged`), whatever the others leave; predictions may name a block more than once.

`LabelRun.Stage` is how far a run has come: the tasks that have finished, the labels that the pool
holds, and the warnings that have been given.
-/

namespace MergeConflict

/-! ## What becomes of a prediction -/

/-- A prediction, and what the combiner answers if it is asked because of it; nothing if the call
breaks down. -/
structure Guess where
  prediction : Prediction
  answer : Option (Except Failure String)

/-- What a prediction leaves behind. -/
inductive Verdict where
  | candidate (block : Nat) (candidate : LabelCandidate)
  | warning (notice : Notice)
  | nothing
deriving DecidableEq

namespace Verdict

/-- The entry that is put in. -/
def entry? : Verdict → Option (Nat × LabelCandidate)
  | candidate block given => some (block, given)
  | _ => none

def notice? : Verdict → Option Notice
  | warning notice => some notice
  | _ => none

end Verdict

/-- A task, and what it comes to. -/
structure Errand where
  task : LabelTask
  outcome : Option (Except Failure String)

def Errand.verdict (errand : Errand) : Verdict :=
  match errand.outcome with
  | some (.ok content) => .candidate errand.task.block (errand.task.candidate content)
  | some (.error failure) =>
    .warning (.warning .classifier
      ("block " ++ toString errand.task.block ++ ": " ++ failure.full))
  | none => .nothing

namespace Guess

variable {hasCombiner : Bool} {lines : List String} {guess : Guess}

/-- The number of the block that the prediction is for. -/
def number (guess : Guess) : Nat :=
  numberOf guess.prediction.index

def candidate (guess : Guess) (label : Label) (content : String) : LabelCandidate :=
  ⟨label, guess.prediction.confidence, content⟩

def warning (guess : Guess) (message : String) : Verdict :=
  .warning (.warning .classifier ("block " ++ toString guess.number ++ ": " ++ message))

/-- What a prediction leaves behind, by the file as loaded. -/
inductive Judged (hasCombiner : Bool) (lines : List String) (guess : Guess) : Verdict → Prop
  | unknown {error : ResolveError} : Label.ofCode guess.prediction.label = .error error →
    Judged hasCombiner lines guess (guess.warning error.message)
  | absent {label : Label} : Label.ofCode guess.prediction.label = .ok label →
    numbered? (findBlocks lines) guess.number = none →
    Judged hasCombiner lines guess (.warning (.warning .classifier
      (ResolveError.blockOutOfRange guess.number (findBlocks lines).length).message))
  | resolved {label : Label} {own : Block} {content : String} :
    Label.ofCode guess.prediction.label = .ok label →
    numbered? (findBlocks lines) guess.number = some own →
    label.apply (own.sides lines) = .resolved content →
    Judged hasCombiner lines guess (.candidate guess.number (guess.candidate label content))
  | uncombined {own : Block} : Label.ofCode guess.prediction.label = .ok .combine →
    numbered? (findBlocks lines) guess.number = some own → hasCombiner = false →
    Judged hasCombiner lines guess (guess.warning LabelTask.noCombiner.full)
  | combined {own : Block} {content : String} :
    Label.ofCode guess.prediction.label = .ok .combine →
    numbered? (findBlocks lines) guess.number = some own → hasCombiner = true →
    guess.answer = some (.ok content) →
    Judged hasCombiner lines guess (.candidate guess.number (guess.candidate .combine content))
  | refused {own : Block} {failure : Failure} :
    Label.ofCode guess.prediction.label = .ok .combine →
    numbered? (findBlocks lines) guess.number = some own → hasCombiner = true →
    guess.answer = some (.error failure) →
    Judged hasCombiner lines guess (guess.warning failure.full)
  | broken {own : Block} : Label.ofCode guess.prediction.label = .ok .combine →
    numbered? (findBlocks lines) guess.number = some own → hasCombiner = true →
    guess.answer = none → Judged hasCombiner lines guess .nothing

/-- The task of a prediction with what it comes to, or a warning; `id` is that of the next task. -/
def assign (hasCombiner : Bool) (lines : List String) (id : Nat) (guess : Guess) :
    Except Notice Errand :=
  match Label.ofCode guess.prediction.label with
  | .error error =>
    .error (.warning .classifier ("block " ++ toString guess.number ++ ": " ++ error.message))
  | .ok label =>
    match numbered? (findBlocks lines) guess.number with
    | none => .error (.warning .classifier
        (ResolveError.blockOutOfRange guess.number (findBlocks lines).length).message)
    | some own =>
      let task := LabelTask.begin hasCombiner id guess.number label guess.prediction.confidence
        (own.sides lines)
      .ok {
        task
        outcome := match task.work with
          | .done content => some content
          | _ => guess.answer }

def verdictOf : Except Notice Errand → Verdict
  | .error notice => .warning notice
  | .ok errand => errand.verdict

theorem combine_of_needsCombiner {label : Label} {sides : Sides} {request : CombineRequest}
    (needs : label.apply sides = .needsCombiner request) : label = .combine := by
  cases label with
  | combine => rfl
  | _ => cases needs

theorem judged_assign (hasCombiner : Bool) (lines : List String) (id : Nat) (guess : Guess) :
    Judged hasCombiner lines guess (verdictOf (guess.assign hasCombiner lines id)) := by
  rw [assign]
  cases known : Label.ofCode guess.prediction.label with
  | error error => exact .unknown known
  | ok label =>
    simp only
    cases there : numbered? (findBlocks lines) guess.number with
    | none => exact .absent known there
    | some own =>
      simp only [LabelTask.begin]
      cases applied : label.apply (own.sides lines) with
      | resolved content => exact .resolved known there applied
      | needsCombiner request =>
        obtain rfl := combine_of_needsCombiner applied
        cases configured : hasCombiner with
        | false => exact .uncombined known there rfl
        | true =>
          simp only [if_true, verdictOf, Errand.verdict]
          cases answered : guess.answer with
          | none => exact .broken known there rfl answered
          | some answer =>
            cases answer with
            | ok content => exact .combined known there rfl answered
            | error failure => exact .refused known there rfl answered

theorem id_of_assign {id : Nat} {errand : Errand}
    (made : guess.assign hasCombiner lines id = .ok errand) : errand.task.id = id := by
  rw [assign] at made
  split at made
  · cases made
  · split at made
    · cases made
    · cases made
      rfl

theorem source_of_assign {id : Nat} {notice : Notice}
    (warned : guess.assign hasCombiner lines id = .error notice) :
    notice.source = some .classifier := by
  rw [assign] at warned
  split at warned
  · cases warned
    rfl
  · split at warned
    · cases warned
      rfl
    · cases warned

end Guess

/-- A task, however far it has come itself. -/
def LabelTask.bare (task : LabelTask) : LabelTask :=
  { task with work := .waiting }

namespace LabelRun

variable {hasCombiner cancelled : Bool} {lines : List String} {algorithm : Algorithm}
  {guesses : List Guess} {session after : Session}

/-- What becomes of some predictions; the id of a task is the number of tasks made before. -/
def assignAll (hasCombiner : Bool) (lines : List String) :
    Nat → List Guess → List (Except Notice Errand)
  | _, [] => []
  | id, guess :: guesses =>
    match guess.assign hasCombiner lines id with
    | .error notice => .error notice :: assignAll hasCombiner lines id guesses
    | .ok errand => .ok errand :: assignAll hasCombiner lines (id + 1) guesses

def errandsOf (made : List (Except Notice Errand)) : List Errand :=
  made.filterMap Except.toOption

def warning? : Except Notice Errand → Option Notice
  | .error notice => some notice
  | .ok _ => none

/-- The warnings that are given right away. -/
def noticesOf (made : List (Except Notice Errand)) : List Notice :=
  made.filterMap warning?

/-- The tasks of a run, with what they come to. -/
def errands (hasCombiner : Bool) (lines : List String) (guesses : List Guess) : List Errand :=
  errandsOf (assignAll hasCombiner lines 0 guesses)

def warnings (hasCombiner : Bool) (lines : List String) (guesses : List Guess) : List Notice :=
  noticesOf (assignAll hasCombiner lines 0 guesses)

/-- What the predictions of a run leave behind. -/
def verdicts (hasCombiner : Bool) (lines : List String) (guesses : List Guess) : List Verdict :=
  (assignAll hasCombiner lines 0 guesses).map Guess.verdictOf

/-- The entries that some tasks put in. -/
def earned (done : List Errand) : List (Nat × LabelCandidate) :=
  done.filterMap (·.verdict.entry?)

/-- The warnings that some tasks leave. -/
def failures (done : List Errand) : List Notice :=
  done.filterMap (·.verdict.notice?)

theorem errandsOf_concat (made : List (Except Notice Errand)) (result : Except Notice Errand) :
    errandsOf (made ++ [result]) = errandsOf made ++ result.toOption.toList := by
  cases result with
  | _ => exact List.filterMap_append

theorem noticesOf_concat (made : List (Except Notice Errand)) (result : Except Notice Errand) :
    noticesOf (made ++ [result]) = noticesOf made ++ (warning? result).toList := by
  cases result with
  | _ => exact List.filterMap_append

/-- The next prediction is assigned with the id behind the tasks made so far. -/
theorem assignAll_cons {made : List (Except Notice Errand)} {guess : Guess}
    {result : Except Notice Errand}
    (assigned : guess.assign hasCombiner lines (errandsOf made).length = result)
    (rest : List Guess) :
    made ++ assignAll hasCombiner lines (errandsOf made).length (guess :: rest) = made ++ [result] ++
      assignAll hasCombiner lines (errandsOf (made ++ [result])).length rest := by
  rw [assignAll, assigned, errandsOf_concat, List.length_append, List.append_assoc]
  cases result with
  | _ => rfl

theorem judged_assignAll (id : Nat) (guesses : List Guess) :
    List.Forall₂ (Guess.Judged hasCombiner lines) guesses
      ((assignAll hasCombiner lines id guesses).map Guess.verdictOf) := by
  induction guesses generalizing id with
  | nil => exact .nil
  | cons guess guesses ih =>
    have judged := guess.judged_assign hasCombiner lines id
    rw [assignAll]
    split
    · next made => exact .cons (made ▸ judged) (ih id)
    · next made => exact .cons (made ▸ judged) (ih (id + 1))

theorem ids_assignAll (id : Nat) (guesses : List Guess) :
    ((errandsOf (assignAll hasCombiner lines id guesses)).map (·.task.id)) =
      List.range' id (errandsOf (assignAll hasCombiner lines id guesses)).length := by
  induction guesses generalizing id with
  | nil => rfl
  | cons guess guesses ih =>
    rw [assignAll]
    split
    · exact ih id
    · next errand made =>
      change errand.task.id :: _ = List.range' id (_ + 1)
      rw [Guess.id_of_assign made, List.range'_succ]
      exact congrArg (id :: ·) (ih (id + 1))

/-- No two tasks of a run have the same id. -/
theorem nodup_ids : ((errands hasCombiner lines guesses).map (·.task.id)).Nodup := by
  rw [errands, ids_assignAll]
  exact List.nodup_range'

theorem earned_errandsOf (made : List (Except Notice Errand)) :
    earned (errandsOf made) = (made.map Guess.verdictOf).filterMap Verdict.entry? := by
  rw [earned, errandsOf, List.filterMap_filterMap, List.filterMap_map]
  congr 1
  funext result
  cases result with
  | error notice => rfl
  | ok errand => exact Option.bind_some ..

theorem notices_perm (made : List (Except Notice Errand)) :
    (noticesOf made ++ failures (errandsOf made)).Perm
      ((made.map Guess.verdictOf).filterMap Verdict.notice?) := by
  induction made with
  | nil => exact .refl _
  | cons result made ih =>
    cases result with
    | error notice => exact ih.cons notice
    | ok errand =>
      change (noticesOf made ++ (errand :: errandsOf made).filterMap (·.verdict.notice?)).Perm
        ((errand.verdict :: made.map Guess.verdictOf).filterMap Verdict.notice?)
      rw [List.filterMap_cons, List.filterMap_cons]
      cases errand.verdict.notice? with
      | none => exact ih
      | some notice => exact List.perm_middle.trans (ih.cons notice)

theorem earned_concat (done : List Errand) (errand : Errand) :
    earned (done ++ [errand]) = earned done ++ errand.verdict.entry?.toList := by
  rw [earned, List.filterMap_append, List.filterMap_cons]
  cases errand.verdict.entry? with
  | none => rfl
  | some entry => rfl

theorem failures_concat (done : List Errand) (errand : Errand) :
    failures (done ++ [errand]) = failures done ++ errand.verdict.notice?.toList := by
  rw [failures, List.filterMap_append, List.filterMap_cons]
  cases errand.verdict.notice? with
  | none => rfl
  | some notice => rfl

/-- A task among others with other ids. -/
theorem perm_cons_filter {undone : List Errand} {errand : Errand}
    (once : (undone.map (·.task.id)).Nodup) (inside : errand ∈ undone) :
    undone.Perm (errand :: undone.filter (·.task.id ≠ errand.task.id)) := by
  obtain ⟨front, behind, rfl⟩ := List.append_of_mem inside
  have apart (other : Errand) (among : other ∈ front ++ behind) :
      other.task.id ≠ errand.task.id := by
    have once : ((errand :: (front ++ behind)).map (·.task.id)).Nodup :=
      (List.perm_middle.map _).nodup_iff.1 once
    intro same
    exact (List.nodup_cons.1 once).1 (List.mem_map.2 ⟨other, among, same⟩)
  have kept :
      (front ++ errand :: behind).filter (·.task.id ≠ errand.task.id) = front ++ behind := by
    rw [List.filter_append, List.filter_cons_of_neg (by simp), ← List.filter_append,
      List.filter_eq_self]
    exact fun other among => decide_eq_true (apart other among)
  rw [kept]
  exact List.perm_middle

/-- A task of the run stands for one that has not finished yet. -/
theorem exists_errand_of_find? {undone : List Errand} {tasks : List LabelTask} {task : LabelTask}
    {id : Nat} (same : tasks.map LabelTask.bare = undone.map (·.task.bare))
    (found : tasks.find? (·.id = id) = some task) :
    ∃ errand ∈ undone, errand.task.id = id ∧ errand.task.block = task.block ∧
      errand.task.candidate = task.candidate := by
  have own : task.id = id := by simpa using List.find?_some found
  obtain ⟨errand, inside, bare⟩ := List.mem_map.1
    (same ▸ List.mem_map_of_mem (f := LabelTask.bare) (List.mem_of_find?_eq_some found))
  obtain ⟨idOf, blockOf, labelOf, confidenceOf⟩ : errand.task.id = task.id ∧
      errand.task.block = task.block ∧ errand.task.label = task.label ∧
      errand.task.confidence = task.confidence := by
    simpa only [LabelTask.bare, LabelTask.mk.injEq, and_true] using bare
  refine ⟨errand, inside, idOf.trans own, blockOf, funext fun content => ?_⟩
  rw [LabelTask.candidate, LabelTask.candidate, labelOf, confidenceOf]

theorem map_bare_filter_ne {undone : List Errand} {tasks : List LabelTask}
    (same : tasks.map LabelTask.bare = undone.map (·.task.bare)) (id : Nat) :
    (tasks.filter (·.id ≠ id)).map LabelTask.bare =
      (undone.filter (·.task.id ≠ id)).map (·.task.bare) := by
  have left := List.filter_map (f := LabelTask.bare) (p := (·.id ≠ id)) (l := tasks)
  have right := List.filter_map (f := (·.task.bare)) (p := (·.id ≠ id)) (l := undone)
  exact (left.symm.trans (congrArg _ same)).trans right

/-- A task that finishes goes over from those that have not to those that have. -/
theorem perm_finish {finished undone : List Errand} {errand : Errand}
    (perm : (finished ++ undone).Perm (errands hasCombiner lines guesses))
    (inside : errand ∈ undone) :
    (finished ++ [errand] ++ undone.filter (·.task.id ≠ errand.task.id)).Perm
      (errands hasCombiner lines guesses) := by
  have once : (undone.map (·.task.id)).Nodup :=
    ((perm.map _).nodup_iff.2 nodup_ids).sublist ((List.sublist_append_right ..).map _)
  rw [List.append_assoc, List.singleton_append]
  exact ((perm_cons_filter once inside).symm.append_left finished).trans perm

/-- A prediction is made a task or a warning. -/
theorem sort_eq (rooted : session.buffer.Rooted lines algorithm) (guess : Guess)
    (tasks : List LabelTask) :
    sort hasCombiner session guess.prediction tasks =
      match guess.assign hasCombiner lines tasks.length with
      | .ok errand => (tasks ++ [errand.task], session)
      | .error notice => (tasks, session.notify notice) := by
  rw [sort, Guess.assign]
  simp only [rooted.sides]
  cases Label.ofCode guess.prediction.label with
  | error error => rfl
  | ok label =>
    simp only [Guess.number]
    cases numbered? (findBlocks lines) (numberOf guess.prediction.index) with
    | none => rfl
    | some own => rfl

/-! ## How far a run has come -/

/-- How far a run has come: the tasks that have finished, in order, what the pool holds of the
source, and the warnings given so far. -/
inductive Stage (hasCombiner : Bool) (lines : List String) (guesses : List Guess) :
    List Errand → LabelRun → Table LabelCandidate → List Notice → Prop
  | asking {labels : Table LabelCandidate} : Stage hasCombiner lines guesses [] asking labels []
  | waiting {labels : Table LabelCandidate} : Stage hasCombiner lines guesses [] waiting labels []
  | holding {labels : Table LabelCandidate} :
    Stage hasCombiner lines guesses [] (holding (.ok (guesses.map Guess.prediction))) labels []
  | sorting {made : List (Except Notice Errand)} {rest : List Guess} :
    made ++ assignAll hasCombiner lines (errandsOf made).length rest =
      assignAll hasCombiner lines 0 guesses →
    Stage hasCombiner lines guesses []
      (sorting (rest.map Guess.prediction) ((errandsOf made).map Errand.task)) [] (noticesOf made)
  | joining {finished undone : List Errand} {tasks : List LabelTask} :
    (finished ++ undone).Perm (errands hasCombiner lines guesses) →
    tasks.map LabelTask.bare = undone.map (·.task.bare) →
    Stage hasCombiner lines guesses finished (joining tasks (earned finished).length)
      (.ofEntries (earned finished)) (warnings hasCombiner lines guesses ++ failures finished)
  | joined {finished undone : List Errand} {tasks : List LabelTask} {errand : Errand}
    {result : Except Failure String} :
    (finished ++ [errand] ++ undone).Perm (errands hasCombiner lines guesses) →
    tasks.map LabelTask.bare = undone.map (·.task.bare) → errand.outcome = some result →
    Stage hasCombiner lines guesses (finished ++ [errand])
      (joined errand.task.block (result.map errand.task.candidate) tasks (earned finished).length)
      (.ofEntries (earned finished)) (warnings hasCombiner lines guesses ++ failures finished)
  | ended {finished : List Errand} : finished.Perm (errands hasCombiner lines guesses) →
    Stage hasCombiner lines guesses finished (ended (.ok (earned finished).length))
      (.ofEntries (earned finished)) (warnings hasCombiner lines guesses ++ failures finished)
  | failed {finished : List Errand} {error : EngineError} {labels : Table LabelCandidate}
    {warned : List Notice} :
    Stage hasCombiner lines guesses finished (ended (.error error)) labels warned

namespace Stage

variable {run next : LabelRun} {finished : List Errand} {labels : Table LabelCandidate}
  {warned : List Notice}

theorem receive {answer : Except Failure (List Prediction)}
    (stage : Stage hasCombiner lines guesses finished run labels warned)
    (received : run.receive answer = some next)
    (told : answer = .ok (guesses.map Guess.prediction)) :
    Stage hasCombiner lines guesses finished next labels warned := by
  cases stage with
  | waiting =>
    subst told
    cases received
    exact .holding
  | _ => cases received

theorem start {id : Nat} (stage : Stage hasCombiner lines guesses finished run labels warned)
    (started : run.start id = some next) :
    Stage hasCombiner lines guesses finished next labels warned := by
  cases stage with
  | @joining finished undone tasks perm same =>
    cases started
    refine .joining perm ?_
    rw [← same, List.map_map]
    refine List.map_congr_left fun task _ => ?_
    rw [Function.comp_apply]
    split
    · rfl
    · rfl
  | _ => cases started

/-- A task that has not finished is still waited for. -/
theorem exists_task {tasks : List LabelTask} {count : Nat} {errand : Errand} {left : List Errand}
    (stage : Stage hasCombiner lines guesses finished (.joining tasks count) labels warned)
    (perm : (finished ++ errand :: left).Perm (errands hasCombiner lines guesses)) :
    ∃ task ∈ tasks, task.id = errand.task.id := by
  cases stage with
  | @joining _ undone _ perm' same =>
    have inside : errand ∈ undone :=
      ((List.perm_append_left_iff finished).1 (perm.trans perm'.symm)).subset List.mem_cons_self
    obtain ⟨task, inside', bare⟩ := List.mem_map.1
      (same ▸ List.mem_map_of_mem (f := fun errand : Errand => errand.task.bare) inside)
    have own : task.bare.id = errand.task.bare.id := congrArg LabelTask.id bare
    exact ⟨task, inside', own⟩

/-- When all tasks have finished, none is waited for. -/
theorem tasks_eq_nil {tasks : List LabelTask} {count : Nat}
    (stage : Stage hasCombiner lines guesses finished (.joining tasks count) labels warned)
    (perm : finished.Perm (errands hasCombiner lines guesses)) : tasks = [] := by
  cases stage with
  | @joining _ undone _ perm' same =>
    have lengths := (perm'.trans perm.symm).length_eq
    rw [List.length_append] at lengths
    have nothing : undone = [] := List.eq_nil_of_length_eq_zero (by omega)
    rwa [nothing, List.map_nil, List.map_eq_nil_iff] at same

/-- What the pool holds when a run is at its end. -/
theorem labels_eq {n : Nat}
    (stage : Stage hasCombiner lines guesses finished (.ended (.ok n)) labels warned) :
    labels = .ofEntries (earned finished) := by
  cases stage with
  | ended _ => rfl

/-- A task finishes with what it comes to. -/
theorem join {id : Nat} {content : Option (Except Failure String)}
    (stage : Stage hasCombiner lines guesses finished run labels warned)
    (joined : run.join id content = some next)
    (told : ∀ errand ∈ errands hasCombiner lines guesses, errand.task.id = id →
      content = errand.outcome) :
    ∃ errand ∈ errands hasCombiner lines guesses, errand.task.id = id ∧
      Stage hasCombiner lines guesses (finished ++ [errand]) next labels warned := by
  cases stage with
  | @joining finished undone tasks perm same =>
    rw [LabelRun.join] at joined
    split at joined
    · cases joined
    · next task found =>
      obtain ⟨errand, inside, rfl, blockOf, candidateOf⟩ := exists_errand_of_find? same found
      have known : errand ∈ errands hasCombiner lines guesses :=
        perm.subset (List.mem_append_right _ inside)
      have taken := perm_finish perm inside
      have others := map_bare_filter_ne same errand.task.id
      have outcome : content = errand.outcome := told errand known rfl
      refine ⟨errand, known, rfl, ?_⟩
      cases content with
      | none =>
        cases joined
        have nothing : errand.verdict = .nothing := by rw [Errand.verdict, ← outcome]
        have stage := Stage.joining taken others
        rw [earned_concat, failures_concat, nothing] at stage
        simpa only [Verdict.entry?, Verdict.notice?, Option.toList_none, List.append_nil]
          using stage
      | some content =>
        cases joined
        rw [← blockOf, ← candidateOf]
        exact .joined taken others outcome.symm
  | _ => cases joined

/-- A run goes on to a stage, with some warnings. -/
def Onward (hasCombiner : Bool) (lines : List String) (guesses : List Guess)
    (finished : List Errand) (next : LabelRun) (warned : List Notice) (session after : Session) :
    Prop :=
  ∃ more, Stage hasCombiner lines guesses finished next after.buffer.pool.labels (warned ++ more) ∧
    after.notices = session.notices ++ more ∧ ∀ notice ∈ more, notice.source = some .classifier

theorem Onward.quietly
    (stage : Stage hasCombiner lines guesses finished next after.buffer.pool.labels warned)
    (silent : after.notices = session.notices) :
    Onward hasCombiner lines guesses finished next warned session after :=
  ⟨[], by rwa [List.append_nil], by rwa [List.append_nil], List.forall_mem_nil _⟩

theorem Onward.warning {notice : Notice}
    (stage : Stage hasCombiner lines guesses finished next session.buffer.pool.labels
      (warned ++ [notice]))
    (own : notice.source = some .classifier) :
    Onward hasCombiner lines guesses finished next warned session (session.notify notice) :=
  ⟨[notice], stage, rfl, fun _ inside => List.mem_singleton.1 inside ▸ own⟩

/-- When all predictions are sorted, the run waits for its tasks. -/
theorem joining_of_sorted {made : List (Except Notice Errand)}
    (all : made = assignAll hasCombiner lines 0 guesses) :
    Stage hasCombiner lines guesses [] (.joining ((errandsOf made).map Errand.task) 0) []
      (noticesOf made) := by
  subst all
  have waits := Stage.joining (List.Perm.refl ([] ++ errands hasCombiner lines guesses))
    (List.map_map : ((errands hasCombiner lines guesses).map Errand.task).map LabelTask.bare = _)
  rwa [show failures [] = [] from rfl, List.append_nil] at waits

/-- The next prediction is sorted. -/
theorem onward_of_sort {made : List (Except Notice Errand)} {guess : Guess} {rest : List Guess}
    (held : session.buffer.pool.labels = []) (rooted : session.buffer.Rooted lines algorithm)
    (all : made ++ assignAll hasCombiner lines (errandsOf made).length (guess :: rest) =
      assignAll hasCombiner lines 0 guesses) :
    let sorted := sort hasCombiner session guess.prediction ((errandsOf made).map Errand.task)
    Onward hasCombiner lines guesses [] (.sorting (rest.map Guess.prediction) sorted.1)
      (noticesOf made) session sorted.2 := by
  intro sorted
  rw [assignAll_cons rfl] at all
  have stage := Stage.sorting all
  rw [errandsOf_concat, noticesOf_concat, List.map_append, ← held] at stage
  have sorts : sorted = _ := sort_eq rooted guess _
  rw [List.length_map] at sorts
  cases assigned : guess.assign hasCombiner lines (errandsOf made).length with
  | ok errand =>
    rw [assigned] at sorts stage
    rw [sorts]
    simp only [warning?, Option.toList_none, List.append_nil] at stage
    exact .quietly stage rfl
  | error notice =>
    rw [assigned] at sorts stage
    rw [sorts]
    simp only [Except.toOption, Option.toList_none, List.map_nil, List.append_nil] at stage
    exact .warning stage (Guess.source_of_assign assigned)

/-- What a task has come to is put in, or leaves a warning. -/
theorem onward_of_joined {undone : List Errand} {tasks : List LabelTask} {errand : Errand}
    {result : Except Failure String}
    (perm : (finished ++ [errand] ++ undone).Perm (errands hasCombiner lines guesses))
    (same : tasks.map LabelTask.bare = undone.map (·.task.bare))
    (outcome : errand.outcome = some result)
    (held : session.buffer.pool.labels = .ofEntries (earned finished))
    (moved : (LabelRun.joined errand.task.block (result.map errand.task.candidate) tasks
      (earned finished).length).advance hasCombiner cancelled session = some (next, after)) :
    Onward hasCombiner lines guesses (finished ++ [errand]) next
      (warnings hasCombiner lines guesses ++ failures finished) session after := by
  have stage := Stage.joining perm same
  rw [earned_concat, failures_concat] at stage
  cases result with
  | ok content =>
    cases moved
    have verdict : errand.verdict =
        .candidate errand.task.block (errand.task.candidate content) := by
      rw [Errand.verdict, outcome]
    have put : (session.commit (.label errand.task.block
        (errand.task.candidate content))).buffer.pool.labels =
        .ofEntries (earned finished ++ [(errand.task.block, errand.task.candidate content)]) := by
      rw [Table.ofEntries_concat, ← held]
      exact congrArg Pool.labels (Buffer.commit_pool session.buffer _)
    refine .quietly ?_ rfl
    rw [put]
    simpa [verdict, Verdict.entry?, Verdict.notice?] using stage
  | error failure =>
    cases moved
    have verdict : errand.verdict = .warning (.warning .classifier
        ("block " ++ toString errand.task.block ++ ": " ++ failure.full)) := by
      rw [Errand.verdict, outcome]
    refine .warning ?_ rfl
    rw [held, List.append_assoc]
    simpa [verdict, Verdict.entry?, Verdict.notice?] using stage

/-- A move of the run. -/
theorem advance (stage : Stage hasCombiner lines guesses finished run labels warned)
    (held : session.buffer.pool.labels = labels)
    (rooted : session.buffer.Rooted lines algorithm)
    (moved : run.advance hasCombiner cancelled session = some (next, after)) :
    Onward hasCombiner lines guesses finished next warned session after := by
  cases stage with
  | asking =>
    cases moved
    split
    · exact .quietly .failed rfl
    · exact .quietly .waiting rfl
  | waiting =>
    cases cancelled with
    | true =>
      cases moved
      exact .quietly .failed rfl
    | false => cases moved
  | holding =>
    cases moved
    have cleared : (session.commit .labelsCleared).buffer.pool.labels = [] :=
      congrArg Pool.labels (Buffer.commit_pool session.buffer .labelsCleared)
    refine .quietly ?_ rfl
    rw [cleared]
    exact .sorting (List.nil_append _)
  | @sorting made rest all =>
    cases rest with
    | nil =>
      cases moved
      rw [assignAll, List.append_nil] at all
      exact .quietly (held ▸ joining_of_sorted all) rfl
    | cons guess rest =>
      cases moved
      exact onward_of_sort held rooted all
  | @joining finished undone tasks perm same =>
    rw [LabelRun.advance] at moved
    split at moved
    · cases moved
      exact .quietly .failed rfl
    · split at moved
      · next none_left =>
        cases moved
        rw [List.isEmpty_iff.1 none_left, List.map_nil, eq_comm, List.map_eq_nil_iff] at same
        rw [same, List.append_nil] at perm
        exact .quietly (held ▸ .ended perm) rfl
      · cases moved
  | joined perm same outcome => exact onward_of_joined perm same outcome held moved
  | _ => cases moved

end Stage

end LabelRun

end MergeConflict
