import MergeConflict.Proofs.SharedSession

/-!
# Collectors do not get in each other's way

The collectors of a fetch work on one session. What a collector reads of it is the file, its lines
and blocks as loaded, and the part of the pool that belongs to its own source (`Session.Alike`).
None of the others touches any of these. So whatever the order in which the collectors' steps come,
each makes the moves that it would make on its own, with the same answers, and leaves the same part
of the pool; and the steps can be taken in this order exactly if each collector could take its own.

Main statements: `Collectors.perform?_only` and `Collectors.isSome_perform?_iff`.
-/

namespace MergeConflict

variable {a b session after : Session} {source : Source} {cancelled : Bool}

/-! ## What a collector reads -/

namespace Session

/-- What the collector of a source reads is the same in both sessions. -/
structure Alike (source : Source) (a b : Session) : Prop where
  file : a.file = b.file
  loaded : a.buffer.loaded = b.buffer.loaded
  blocks : a.buffer.blocks = b.buffer.blocks
  pool : Pool.Agrees source a.buffer.pool b.buffer.pool

namespace Alike

theorem refl (source : Source) (session : Session) : Alike source session session :=
  ⟨rfl, rfl, rfl, .refl source _⟩

theorem symm (alike : Alike source a b) : Alike source b a :=
  ⟨alike.file.symm, alike.loaded.symm, alike.blocks.symm, alike.pool.symm⟩

theorem trans (alike : Alike source after a) (alike' : Alike source a b) : Alike source after b :=
  ⟨alike.file.trans alike'.file, alike.loaded.trans alike'.loaded,
    alike.blocks.trans alike'.blocks, alike.pool.trans alike'.pool⟩

theorem sides (alike : Alike source a b) (number : Nat) :
    a.buffer.sides number = b.buffer.sides number := by
  rw [Buffer.sides, Buffer.sides, Buffer.block, Buffer.block, alike.blocks, alike.loaded]

end Alike

theorem commit_frame (session : Session) (update : Update) :
    (session.commit update).file = session.file ∧
      (session.commit update).buffer.loaded = session.buffer.loaded ∧
      (session.commit update).buffer.blocks = session.buffer.blocks := by
  obtain ⟨_, loaded, blocks, _⟩ := Buffer.commit_frame session.buffer update
  exact ⟨rfl, loaded, blocks⟩

/-- What a collector does leaves the file and what was loaded as they are. -/
theorem Moved.frame {updates : List Update} (moved : session.Moved updates after) :
    after.file = session.file ∧ after.buffer.loaded = session.buffer.loaded ∧
      after.buffer.blocks = session.buffer.blocks := by
  rcases moved with rfl | ⟨rfl, notice, rfl⟩
  · induction updates generalizing session with
    | nil => exact ⟨rfl, rfl, rfl⟩
    | cons update updates ih =>
      obtain ⟨file, loaded, blocks⟩ := commit_frame session update
      obtain ⟨file', loaded', blocks'⟩ := @ih (session.commit update)
      exact ⟨file'.trans file, loaded'.trans loaded, blocks'.trans blocks⟩
  · exact ⟨rfl, rfl, rfl⟩

/-- The same results, put into sessions that are alike, leave them alike. -/
theorem Alike.moved {a' b' : Session} {updates : List Update} (alike : Alike source a b)
    (moved : a.Moved updates a') (moved' : b.Moved updates b') : Alike source a' b' := by
  obtain ⟨file, loaded, blocks⟩ := moved.frame
  obtain ⟨file', loaded', blocks'⟩ := moved'.frame
  refine ⟨?_, ?_, ?_, ?_⟩
  · rw [file, file', alike.file]
  · rw [loaded, loaded', alike.loaded]
  · rw [blocks, blocks', alike.blocks]
  · rw [moved.pool, moved'.pool]
    exact alike.pool.foldl_commit updates

/-- Results of other sources are of no account to a source. -/
theorem Moved.alike {updates : List Update} (moved : session.Moved updates after)
    (foreign : ∀ update ∈ updates, update.source ≠ source) : Alike source after session := by
  obtain ⟨file, loaded, blocks⟩ := moved.frame
  refine ⟨file, loaded, blocks, ?_⟩
  rw [moved.pool]
  exact Pool.foldl_commit_agrees foreign _

end Session

open Session (Alike)

/-! ## One step in two sessions -/

/-- How a heuristic run goes on does not depend on the session. -/
theorem HeuristicRun.advance_congr (policy : PollingSettings) (a b : Session) (run : HeuristicRun) :
    (run.advance policy cancelled a).map Prod.fst =
      (run.advance policy cancelled b).map Prod.fst := by
  cases run with
  | holding attempt answer =>
    cases answer with
    | ok report => rfl
    | error failure => rfl
  | waiting attempt => cases cancelled <;> rfl
  | resting attempt interval => cases cancelled <;> rfl
  | _ => rfl

/-- A prediction becomes the same task, or none. -/
theorem LabelRun.sort_congr (alike : Alike source a b) (hasCombiner : Bool)
    (prediction : Prediction) (tasks : List LabelTask) :
    (sort hasCombiner a prediction tasks).1 = (sort hasCombiner b prediction tasks).1 := by
  unfold sort
  simp only [alike.sides]
  split
  · rfl
  · split
    · rfl
    · rfl

theorem LabelRun.advance_congr (hasCombiner : Bool) (alike : Alike source a b) (run : LabelRun) :
    (run.advance hasCombiner cancelled a).map Prod.fst =
      (run.advance hasCombiner cancelled b).map Prod.fst := by
  cases run with
  | waiting => cases cancelled <;> rfl
  | holding answer =>
    cases answer with
    | ok predictions => rfl
    | error failure => rfl
  | sorting predictions tasks =>
    cases predictions with
    | nil => rfl
    | cons prediction rest =>
      exact congrArg (fun tasks => some (sorting rest tasks)) (sort_congr alike ..)
  | joining tasks count =>
    rw [advance, advance]
    split
    · rfl
    · split
      · rfl
      · rfl
  | joined block result tasks count =>
    cases result with
    | ok candidate => rfl
    | error failure => rfl
  | _ => rfl

/-- Of the pool a batch reads the id of the one before. -/
theorem ScriptRun.updates_congr (alike : Alike .editScript a b) (run : ScriptRun) :
    run.updates a = run.updates b := by
  have batch : a.buffer.pool.batch = b.buffer.pool.batch := alike.pool.2.1
  unfold updates
  rw [batch]

theorem ScriptRun.tasksOf_congr (alike : Alike source a b) :
    tasksOf a.buffer = tasksOf b.buffer := by
  rw [tasksOf, tasksOf, alike.blocks]
  simp only [alike.sides]

theorem ScriptRun.advance_congr (alike : Alike .editScript a b) (run : ScriptRun) :
    (run.advance cancelled a).map Prod.fst = (run.advance cancelled b).map Prod.fst := by
  cases run with
  | opening =>
    have batch : a.buffer.pool.batch = b.buffer.pool.batch := alike.pool.2.1
    have opened : Alike .editScript (a.commit (.batchStarted (b.buffer.pool.batch + 1)))
        (b.commit (.batchStarted (b.buffer.pool.batch + 1))) :=
      alike.moved (show a.Moved [.batchStarted _] _ from .inl rfl) (.inl rfl)
    simp only [advance, Option.map_some, batch, tasksOf_congr opened]
  | joining batch tasks count =>
    rw [advance, advance]
    split
    · rfl
    · split
      · rfl
      · rfl
  | joined batch block result tasks count =>
    cases result with
    | ok outcome => rfl
    | error failure => rfl
  | _ => rfl

/-- How a history run goes on does not depend on the session. -/
theorem HistoryRun.advance_congr (a b : Session) (run : HistoryRun) :
    (run.advance cancelled a).map Prod.fst = (run.advance cancelled b).map Prod.fst := by
  cases run with
  | waiting => cases cancelled <;> rfl
  | holding answer =>
    cases answer with
    | ok records => rfl
    | error failure => rfl
  | _ => rfl

namespace Worker

variable {worker next : Worker}

/-- A collector goes on in the same way in sessions that it cannot tell apart. -/
theorem advance_congr (alike : Alike worker.source a b) :
    (worker.advance cancelled a).map Prod.fst = (worker.advance cancelled b).map Prod.fst := by
  cases worker with
  | heuristic policy run =>
    simpa [advance, Function.comp_def] using
      congrArg (Option.map (heuristic policy)) (run.advance_congr policy a b)
  | labels hasCombiner run =>
    simpa [advance, Function.comp_def] using
      congrArg (Option.map (labels hasCombiner)) (run.advance_congr hasCombiner alike)
  | scripts run =>
    simpa [advance, Function.comp_def] using congrArg (Option.map scripts) (run.advance_congr alike)
  | history run =>
    simpa [advance, Function.comp_def] using congrArg (Option.map history) (run.advance_congr a b)

theorem updates_congr (alike : Alike worker.source a b) : worker.updates a = worker.updates b := by
  cases worker with
  | scripts run => exact run.updates_congr alike
  | _ => rfl

/-- What a collector does, or what happens to it. -/
inductive Act where
  | advance
  | hear (news : News)
  | start (task : Nat)

/-- One step of a collector that nobody cancels. -/
def act? (session : Session) (worker : Worker) : Act → Option (Worker × Session)
  | .advance => worker.advance false session
  | .hear news => (worker.hear news).map (·, session)
  | .start task => (worker.start task).map (·, session)

/-- All that a step can do. -/
inductive Step (session : Session) (worker next : Worker) : Act → Session → Prop
  | advance {after : Session} : worker.advance false session = some (next, after) →
    Step session worker next .advance after
  | hear {news : News} : worker.hear news = some next →
    Step session worker next (.hear news) session
  | start {task : Nat} : worker.start task = some next →
    Step session worker next (.start task) session

theorem act?_eq_some_iff {act : Act} :
    worker.act? session act = some (next, after) ↔ Step session worker next act after := by
  constructor
  · intro acted
    cases act with
    | advance => exact .advance acted
    | hear news =>
      obtain ⟨_, told, same⟩ := Option.map_eq_some_iff.1 acted
      cases same
      exact .hear told
    | start task =>
      obtain ⟨_, started, same⟩ := Option.map_eq_some_iff.1 acted
      cases same
      exact .start started
  · intro step
    cases step with
    | advance moved => exact moved
    | hear told => exact Option.map_eq_some_iff.2 ⟨next, told, rfl⟩
    | start started => exact Option.map_eq_some_iff.2 ⟨next, started, rfl⟩

theorem source_act? {act : Act} (acted : worker.act? session act = some (next, after)) :
    next.source = worker.source := by
  cases act?_eq_some_iff.1 acted with
  | advance moved => exact source_advance moved
  | hear told => exact source_hear told
  | start started => exact source_start started

/-- A step that can be taken in a session can be taken, with the same outcome, in any other that the
collector cannot tell from it. -/
theorem act?_congr (alike : Alike worker.source a b) {act : Act}
    (acted : worker.act? a act = some (next, after)) :
    ∃ after', worker.act? b act = some (next, after') ∧ Alike worker.source after after' := by
  cases act?_eq_some_iff.1 acted with
  | advance moved =>
    have same : (worker.advance false b).map Prod.fst = some next := by
      rw [← advance_congr alike, moved]
      rfl
    obtain ⟨⟨_, after'⟩, moved', rfl⟩ := Option.map_eq_some_iff.1 same
    refine ⟨after', moved', alike.moved (advance_moved moved) ?_⟩
    rw [updates_congr alike]
    exact advance_moved moved'
  | hear told => exact ⟨b, act?_eq_some_iff.2 (.hear told), alike⟩
  | start started => exact ⟨b, act?_eq_some_iff.2 (.start started), alike⟩

/-- A step of a collector is of no account to the other sources. -/
theorem act?_alike (other : worker.source ≠ source) {act : Act}
    (acted : worker.act? session act = some (next, after)) : Alike source after session := by
  cases act?_eq_some_iff.1 acted with
  | advance moved =>
    refine (advance_moved moved).alike fun update inside => ?_
    rw [source_of_mem_updates inside]
    exact other
  | hear _ => exact .refl source session
  | start _ => exact .refl source session

end Worker

/-! ## Collectors side by side -/

namespace Collectors

/-- The collector of a source, if there is one. -/
def worker? (policy : PollingSettings) (hasCombiner : Bool) (runs : Collectors) :
    Source → Option Worker
  | .heuristic => runs.heuristic.map (.heuristic policy)
  | .classifier => runs.labels.map (.labels hasCombiner)
  | .editScript => runs.scripts.map .scripts
  | .history => runs.history.map .history

/-- The collectors with one of them as it stands now. -/
def put (runs : Collectors) : Worker → Collectors
  | .heuristic _ run => { runs with heuristic := some run }
  | .labels _ run => { runs with labels := some run }
  | .scripts run => { runs with scripts := some run }
  | .history run => { runs with history := some run }

/-- The collector of one source, without the others. -/
def only (runs : Collectors) : Source → Collectors
  | .heuristic => { idle with heuristic := runs.heuristic }
  | .classifier => { idle with labels := runs.labels }
  | .editScript => { idle with scripts := runs.scripts }
  | .history => { idle with history := runs.history }

/-- A step of one of the collectors. -/
def act? (policy : PollingSettings) (hasCombiner : Bool) (state : Collectors × Session)
    (act : Source × Worker.Act) : Option (Collectors × Session) := do
  let worker ← state.1.worker? policy hasCombiner act.1
  let (worker, session) ← worker.act? state.2 act.2
  some (state.1.put worker, session)

/-- The collectors and their session after some steps, each of which has to be possible. -/
def perform? (policy : PollingSettings) (hasCombiner : Bool) (runs : Collectors)
    (session : Session) (acts : List (Source × Worker.Act)) : Option (Collectors × Session) :=
  acts.foldlM (act? policy hasCombiner) (runs, session)

/-- The steps of one source, in order. -/
def partOf (source : Source) (acts : List (Source × Worker.Act)) : List (Source × Worker.Act) :=
  acts.filter fun act => act.1 = source

variable {policy : PollingSettings} {hasCombiner : Bool} {runs next : Collectors}
  {act : Worker.Act} {acts : List (Source × Worker.Act)}

theorem source_of_worker? {worker : Worker}
    (held : runs.worker? policy hasCombiner source = some worker) : worker.source = source := by
  cases source with
  | _ =>
    obtain ⟨run, _, rfl⟩ := Option.map_eq_some_iff.1 held
    rfl

theorem worker?_only (runs : Collectors) (source : Source) :
    (runs.only source).worker? policy hasCombiner source =
      runs.worker? policy hasCombiner source := by
  cases source with
  | _ => rfl

theorem only_put (runs : Collectors) (worker : Worker) (source : Source) :
    (runs.put worker).only source =
      if worker.source = source then (runs.only source).put worker else runs.only source := by
  cases worker with
  | _ => cases source with
    | _ => rfl

/-- All that a step can do. -/
theorem act?_eq_some_iff : act? policy hasCombiner (runs, session) (source, act) =
      some (next, after) ↔
    ∃ worker worker', runs.worker? policy hasCombiner source = some worker ∧
      worker.act? session act = some (worker', after) ∧ runs.put worker' = next := by
  simp only [act?, Option.bind_eq_bind, Option.bind_eq_some_iff, Option.some.injEq, Prod.mk.injEq,
    Prod.exists]
  constructor
  · rintro ⟨worker, held, worker', session', acted, rfl, rfl⟩
    exact ⟨worker, worker', held, acted, rfl⟩
  · rintro ⟨worker, worker', held, acted, rfl⟩
    exact ⟨worker, held, worker', after, acted, rfl, rfl⟩

/-- A collector takes its step among the others exactly as it takes it on its own. -/
theorem act?_only (alike : Alike source a b)
    (acted : act? policy hasCombiner (runs, a) (source, act) = some (next, after)) :
    ∃ left, act? policy hasCombiner (runs.only source, b) (source, act) =
      some (next.only source, left) ∧ Alike source after left := by
  obtain ⟨worker, worker', held, taken, rfl⟩ := act?_eq_some_iff.1 acted
  obtain rfl := source_of_worker? held
  obtain ⟨left, taken', alike'⟩ := Worker.act?_congr alike taken
  refine ⟨left, act?_eq_some_iff.2 ⟨worker, worker', ?_, taken', ?_⟩, alike'⟩
  · rw [worker?_only, held]
  · rw [only_put, if_pos (Worker.source_act? taken)]

/-- What it can do on its own it can do among the others. -/
theorem isSome_act?_of_only (alike : Alike source a b)
    (acted : (act? policy hasCombiner (runs.only source, b) (source, act)).isSome = true) :
    (act? policy hasCombiner (runs, a) (source, act)).isSome = true := by
  obtain ⟨⟨next, left⟩, acted⟩ := Option.isSome_iff_exists.1 acted
  obtain ⟨worker, worker', held, taken, rfl⟩ := act?_eq_some_iff.1 acted
  rw [worker?_only] at held
  obtain rfl := source_of_worker? held
  obtain ⟨after, taken', _⟩ := Worker.act?_congr alike.symm taken
  exact Option.isSome_iff_exists.2 ⟨_, act?_eq_some_iff.2 ⟨worker, worker', held, taken', rfl⟩⟩

/-- A step is of no account to the other sources. -/
theorem act?_other {other : Source} (apart : other ≠ source)
    (acted : act? policy hasCombiner (runs, session) (other, act) = some (next, after)) :
    next.only source = runs.only source ∧ Alike source after session := by
  obtain ⟨worker, worker', held, taken, rfl⟩ := act?_eq_some_iff.1 acted
  obtain rfl := source_of_worker? held
  refine ⟨?_, Worker.act?_alike apart taken⟩
  rw [only_put, Worker.source_act? taken, if_neg apart]

theorem perform?_concat (runs : Collectors) (session : Session)
    (acts : List (Source × Worker.Act)) (act : Source × Worker.Act) :
    runs.perform? policy hasCombiner session (acts ++ [act]) =
      (runs.perform? policy hasCombiner session acts).bind fun state =>
        act? policy hasCombiner state act := by
  rw [perform?, perform?, List.foldlM_append]
  congr
  funext between
  simp

theorem partOf_concat_self (acts : List (Source × Worker.Act)) (act : Worker.Act) :
    partOf source (acts ++ [(source, act)]) = partOf source acts ++ [(source, act)] := by
  simp [partOf]

theorem partOf_concat_of_ne {other : Source} (apart : other ≠ source)
    (acts : List (Source × Worker.Act)) (act : Worker.Act) :
    partOf source (acts ++ [(other, act)]) = partOf source acts := by
  simp [partOf, apart]

/-- Whatever the others do, a collector makes the moves that it makes on its own, and leaves the
same part of the pool. -/
theorem perform?_only
    (performed : runs.perform? policy hasCombiner session acts = some (next, after))
    (source : Source) :
    ∃ left, (runs.only source).perform? policy hasCombiner session (partOf source acts) =
      some (next.only source, left) ∧ Alike source after left := by
  induction acts using List.reverseRecOn generalizing next after with
  | nil =>
    cases performed
    exact ⟨session, rfl, .refl source session⟩
  | append_singleton acts act ih =>
    obtain ⟨actor, act⟩ := act
    rw [perform?_concat] at performed
    obtain ⟨⟨between, middle⟩, performed, acted⟩ := Option.bind_eq_some_iff.1 performed
    obtain ⟨left, alone, alike⟩ := ih performed
    by_cases own : actor = source
    · subst own
      obtain ⟨left', acted', alike'⟩ := act?_only alike acted
      refine ⟨left', ?_, alike'⟩
      rw [partOf_concat_self, perform?_concat, alone]
      exact acted'
    · obtain ⟨same, alike'⟩ := act?_other own acted
      refine ⟨left, ?_, alike'.trans alike⟩
      rw [partOf_concat_of_ne own, same, alone]

/-- Steps can be taken in an order exactly if each collector can take its own on its own. -/
theorem isSome_perform?_iff :
    (runs.perform? policy hasCombiner session acts).isSome = true ↔
      ∀ source, ((runs.only source).perform? policy hasCombiner session
        (partOf source acts)).isSome = true := by
  constructor
  · intro possible source
    obtain ⟨⟨next, after⟩, performed⟩ := Option.isSome_iff_exists.1 possible
    obtain ⟨left, alone, _⟩ := perform?_only performed source
    rw [alone]
    rfl
  · induction acts using List.reverseRecOn with
    | nil => exact fun _ => rfl
    | append_singleton acts act ih =>
      obtain ⟨actor, act⟩ := act
      intro possible
      have before (source : Source) : ((runs.only source).perform? policy hasCombiner session
          (partOf source acts)).isSome = true := by
        have possible := possible source
        by_cases own : actor = source
        · rw [own, partOf_concat_self, perform?_concat] at possible
          exact Option.isSome_of_isSome_bind possible
        · rwa [partOf_concat_of_ne own] at possible
      obtain ⟨⟨next, after⟩, performed⟩ := Option.isSome_iff_exists.1 (ih before)
      obtain ⟨left, alone, alike⟩ := perform?_only performed actor
      have last := possible actor
      rw [partOf_concat_self, perform?_concat, alone] at last
      rw [perform?_concat, performed]
      exact isSome_act?_of_only alike last

end Collectors

end MergeConflict
