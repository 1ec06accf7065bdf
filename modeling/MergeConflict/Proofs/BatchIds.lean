import MergeConflict.Proofs.BatchOrder

/-!
# Ids of batches

A run of the edit-script collector opens a batch with the id one above the one that the pool holds,
and the pool holds the id that was opened last, by whomever. A front-end may open batches with any
id: one below those that there have been already, or the largest that there is. The next run then
opens a batch that is not above all earlier ones, and when its id has been in use, what the earlier
batch still puts in is taken for its own.

Main statement: `Team.opening_above_iff`.
-/

namespace MergeConflict

/-- The id of the latest batch. -/
theorem Pool.batch_foldl_commit (pool : Pool) (log : List Update) :
    (log.foldl commit pool).batch = ((log.filterMap Update.batch?).getLast?).getD pool.batch := by
  induction log using List.reverseRecOn with
  | nil => rfl
  | append_singleton log update ih =>
    rw [List.foldl_concat, List.filterMap_append, List.getLast?_append, Option.getD_or]
    cases update with
    | batchStarted batch => rfl
    | heuristic report =>
      refine Eq.trans ?_ ih
      rw [commit]
      split <;> rfl
    | script batch block outcome =>
      refine Eq.trans ?_ ih
      rw [commit]
      split <;> rfl
    | batchFinished batch =>
      refine Eq.trans ?_ ih
      rw [commit]
      split <;> rfl
    | _ => exact ih

/-- An id is below the next one exactly if that is not behind the end of the ids, and it is not
above the last one. -/
theorem lt_next_iff {id latest : UInt64} :
    id < latest + 1 ↔ latest.toNat + 1 < UInt64.size ∧ id ≤ latest := by
  have top : latest.toNat < UInt64.size := latest.toNat_lt_size
  rw [UInt64.lt_iff_toNat_lt, UInt64.le_iff_toNat_le, UInt64.toNat_add]
  change id.toNat < (latest.toNat + 1) % UInt64.size ↔ _
  rcases Nat.lt_or_ge (latest.toNat + 1) UInt64.size with fits | past
  · rw [Nat.mod_eq_of_lt fits]
    omega
  · have wraps : latest.toNat + 1 = UInt64.size := by omega
    rw [wraps, Nat.mod_self]
    omega

/-- The next id is above all there have been exactly if the last one is the largest of them, and is
not the largest that there is. -/
theorem forall_lt_next_iff (ids : List UInt64) :
    (∀ id ∈ ids, id < ids.getLast?.getD 0 + 1) ↔
      (ids.getLast?.getD 0).toNat + 1 < UInt64.size ∧ ∀ id ∈ ids, id ≤ ids.getLast?.getD 0 := by
  simp only [lt_next_iff]
  cases last : ids.getLast? with
  | none =>
    rw [List.getLast?_eq_none_iff.1 last]
    exact iff_of_true (List.forall_mem_nil _) ⟨by decide, List.forall_mem_nil _⟩
  | some latest =>
    have inside : latest ∈ ids := List.mem_of_getLast? last
    exact ⟨fun all => ⟨(all latest inside).1, fun id known => (all id known).2⟩,
      fun ⟨fits, all⟩ id known => ⟨fits, all id known⟩⟩

namespace Session

variable {session : Session} {id : UInt64}

/-- An answer that carries the id of the latest batch is put in, and the word that the batch is
finished ends the waiting for it. -/
theorem commit_of_latest (latest : id = session.buffer.pool.batch) (block : Nat)
    (outcome : ScriptOutcome) :
    (session.commit (.script id block outcome)).buffer.pool.script? block =
        some (Pool.trimOutcome outcome) ∧
      (session.commit (.batchFinished id)).buffer.pool.batchPending = false := by
  have answered : (session.commit (.script id block outcome)).buffer.pool = _ :=
    (Buffer.commit_pool session.buffer _).trans (if_pos latest)
  have finished : (session.commit (.batchFinished id)).buffer.pool = _ :=
    (Buffer.commit_pool session.buffer _).trans (if_pos latest)
  rw [answered, finished, Pool.script?, Table.get?_insert, if_pos rfl]
  exact ⟨rfl, rfl⟩

end Session

namespace Team

variable {team next : Team} {events : List Event}

/-- The ids of the batches that are opened along some steps, by members and by the front-end. -/
def batchIds (team : Team) (events : List Event) : List UInt64 :=
  (team.trace updates events).filterMap Update.batch?

theorem batch_of_run? (reached : team.run? events = some next) :
    next.session.buffer.pool.batch =
      ((team.batchIds events).getLast?).getD team.session.buffer.pool.batch := by
  rw [pool_of_run? reached, Pool.batch_foldl_commit]
  rfl

/-- Whatever has been put into a session, a run of the edit-script collector can open a batch, and
its id is one above the last that was opened. It is above all that were opened exactly if that one
was the largest of them, and is not the largest that there is. Until another batch is opened, what
carries another id changes nothing, and what carries this one is taken for the run's, also if the id
has been in use before. -/
theorem opening_above_iff {file : FileContext} {lines : List String} {algorithm : Algorithm}
    {events : List Event} {i : Nat} {isCancelled : Bool}
    (reached : (ofSession (.ofBuffer file (.ofLines lines algorithm))).run? events = some team)
    (inside : team.members[i]? = some ⟨.scripts .opening, isCancelled⟩) :
    let earlier := (ofSession (.ofBuffer file (.ofLines lines algorithm))).batchIds events
    let latest := earlier.getLast?.getD 0
    ∃ opened, team.step? (.advance i) = some opened ∧
      opened.journal = team.journal ++ [(i, .batchStarted (latest + 1))] ∧
      opened.session = team.session.commit (.batchStarted (latest + 1)) ∧
      opened.members[i]? = some ⟨.scripts (.joining (latest + 1)
        (ScriptRun.tasksOf opened.session.buffer) 0), isCancelled⟩ ∧
      ((∀ id ∈ earlier, id < latest + 1) ↔
        latest.toNat + 1 < UInt64.size ∧ ∀ id ∈ earlier, id ≤ latest) ∧
      ∀ later after, opened.run? later = some after → opened.batchIds later = [] →
        ∀ id block outcome,
          (id ≠ latest + 1 → after.session.commit (.script id block outcome) = after.session ∧
            after.session.commit (.batchFinished id) = after.session) ∧
          (id = latest + 1 →
            (after.session.commit (.script id block outcome)).buffer.pool.script? block =
              some (Pool.trimOutcome outcome) ∧
            (after.session.commit (.batchFinished id)).buffer.pool.batchPending = false) := by
  intro earlier latest
  have current : team.session.buffer.pool.batch = latest := batch_of_run? reached
  have within : i < team.members.length := (List.getElem?_eq_some_iff.1 inside).1
  have opens : (Worker.scripts .opening).advance isCancelled team.session =
      some (.scripts (.joining (latest + 1) (ScriptRun.tasksOf
        (team.session.commit (.batchStarted (latest + 1))).buffer) 0),
        team.session.commit (.batchStarted (latest + 1))) := by
    rw [← current]
    rfl
  have moved := Step.advance inside opens
  have put : Worker.updates team.session (.scripts .opening) = [.batchStarted (latest + 1)] := by
    rw [← current]
    rfl
  refine ⟨_, step?_eq_some_iff.2 moved, ?_, rfl, List.getElem?_set_self within,
    forall_lt_next_iff earlier, fun later after done none id block outcome => ?_⟩
  · simp only [put, List.map_cons, List.map_nil]
  · have still : after.session.buffer.pool.batch = latest + 1 := by
      rw [batch_of_run? done, none]
      exact congrArg Pool.batch (Buffer.commit_pool _ _)
    rw [← still]
    exact ⟨fun other => commit_stale other block outcome,
      fun same => Session.commit_of_latest same block outcome⟩

/-- A front-end opens a batch with a larger id between two runs. -/
def pushedUp : List Event :=
  [.enter (.scripts .opening), .advance 0, .move (.commit (.batchStarted 7)),
    .enter (.scripts .opening)]

/-- The second run opens the one above, and an answer of the first changes nothing. -/
theorem pushedUp_above : ∃ team opened, (ofSession oneBlock).run? pushedUp = some team ∧
    team.step? (.advance 1) = some opened ∧ (ofSession oneBlock).batchIds pushedUp = [1, 7] ∧
    opened.session.buffer.pool.batch = 8 ∧
    opened.session.commit (.script 1 1 (.resolvable "old")) = opened.session := by
  obtain ⟨team, reached, inside, ids⟩ : ∃ team : Team,
      (ofSession oneBlock).run? pushedUp = some team ∧
      team.members[1]? = some ⟨.scripts .opening, false⟩ ∧
      (ofSession oneBlock).batchIds pushedUp = [1, 7] :=
    ⟨_, rfl, rfl, rfl⟩
  obtain ⟨opened, opens, -, session, -, -, later⟩ := opening_above_iff reached inside
  rw [show (ofSession (.ofBuffer .blank (.ofLines ["<<<<<<<", "a", "=======", "b", ">>>>>>>"]
    .lines))).batchIds pushedUp = [1, 7] from ids] at session later
  refine ⟨team, opened, reached, opens, ids, ?_, ?_⟩
  · rw [session]
    exact congrArg Pool.batch (Buffer.commit_pool _ _)
  · exact ((later [] opened rfl rfl 1 1 (.resolvable "old")).1 (by decide)).1

/-- A front-end opens batch 0 between two runs, and the second run opens the id of the first again:
the answer of the first is taken for the second's, and so is its end. Behind a batch with the
largest id that there is comes 0. -/
theorem pushed_back_reuses :
    (∃ opened after, (ofSession oneBlock).run? [.enter (.scripts .opening), .advance 0,
        .hear 0 (.scriptDone 1 (some (.ok (.resolvable "old")))), .move (.commit (.batchStarted 0)),
        .enter (.scripts .opening), .advance 1] = some opened ∧
      opened.journal = [(0, .batchStarted 1), (1, .batchStarted 1)] ∧
      opened.session.buffer.pool.batchPending = true ∧
      opened.run? [.advance 0, .advance 0, .advance 0] = some after ∧
      after.session.buffer.pool.script? 1 = some (.resolvable "old") ∧
      after.session.buffer.pool.batchPending = false) ∧
    ∃ opened, (ofSession oneBlock).run? [.move (.commit (.batchStarted 18446744073709551615)),
        .enter (.scripts .opening), .advance 0] = some opened ∧
      opened.journal = [(0, .batchStarted 0)] :=
  ⟨⟨_, _, rfl, rfl, rfl, rfl, rfl, rfl⟩, _, rfl, rfl⟩

end Team

end MergeConflict
