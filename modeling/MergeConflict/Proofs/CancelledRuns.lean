import MergeConflict.Proofs.SharedSession

/-!
# What a cancelled run still puts in

A run looks at its token only where it waits. What it has got before, it puts in without looking
again: an answer it holds, the result of a task, the word that it is out of attempts. This matters
where a newer run has begun meanwhile. The edit-script source has batches for it; the others begin
by clearing what is there, and what an older run puts in behind that stays.

`Worker.debt` is what a cancelled run of such a source still puts in. What it has put in and its
debt together never change (`Team.Owing`).

* `Team.silent_iff`: a cancelled run puts nothing in any more, whatever happens, exactly if it has
  no debt.
* `Team.replaced_runs_pay_debts`: when a run of the heuristic or of the label source clears its
  source, and all others of it are cancelled, these still put in what they owe at most, and can put
  in all of it. If none owes anything, then from there on the pool holds of the source what the one
  run puts in.
* `Team.late_updates_land`: a run that was cancelled before the next one began can have a debt when
  that one clears the source.
-/

namespace MergeConflict

/-! ## One run -/

variable {session after : Session}

namespace HeuristicRun

variable {policy : PollingSettings}

/-- What is put in behind an attempt that got no final answer, if nothing is waited for. -/
def expiry (policy : PollingSettings) (attempt : Nat) : List Update :=
  if attempt < policy.attempts then [] else [.heuristicTimedOut]

/-- What the run still puts in once it is cancelled. -/
def debt (policy : PollingSettings) : HeuristicRun → List Update
  | opening => .heuristicStarted :: expiry policy 0
  | holding attempt (.ok report) =>
    .heuristic report :: if report.pending then expiry policy attempt else []
  | run => run.updates

theorem debt_behind {more : HeuristicRun} (idle : more.debt policy = []) (attempt : Nat) :
    (behind policy attempt more).debt policy = expiry policy attempt := by
  rw [behind, expiry]
  split
  · exact idle
  · rfl

theorem debt_advance {run next : HeuristicRun}
    (moved : run.advance policy true session = some (next, after)) :
    run.debt policy = run.updates ++ next.debt policy := by
  cases run with
  | opening =>
    cases moved
    rw [debt_behind rfl]
    rfl
  | holding attempt answer =>
    cases answer with
    | ok report =>
      cases moved
      rw [debt, updates, List.singleton_append]
      split
      · rw [debt_behind rfl]
      · rfl
    | error failure => cases moved; rfl
  | ended result => cases moved
  | _ => cases moved; rfl

end HeuristicRun

/-- Right behind a move there is nothing to put in. -/
theorem LabelRun.updates_advance {hasCombiner cancelled : Bool} {run next : LabelRun}
    (moved : run.advance hasCombiner cancelled session = some (next, after)) :
    next.updates = [] := by
  cases run with
  | asking => cases cancelled <;> cases moved <;> rfl
  | waiting =>
    cases cancelled with
    | true => cases moved; rfl
    | false => cases moved
  | holding answer =>
    cases answer with
    | ok predictions => cases moved; rfl
    | error failure => cases moved; rfl
  | sorting predictions tasks =>
    cases predictions with
    | nil => cases moved; rfl
    | cons prediction rest => cases moved; rfl
  | joining tasks count =>
    rw [advance] at moved
    split at moved
    · cases moved; rfl
    · split at moved
      · cases moved; rfl
      · cases moved
  | joined block result tasks count =>
    cases result with
    | ok candidate => cases moved; rfl
    | error failure => cases moved; rfl
  | ended result => cases moved

theorem HistoryRun.updates_advance {cancelled : Bool} {run next : HistoryRun}
    (moved : run.advance cancelled session = some (next, after)) : next.updates = [] := by
  cases run with
  | asking => cases cancelled <;> cases moved <;> rfl
  | waiting =>
    cases cancelled with
    | true => cases moved; rfl
    | false => cases moved
  | holding answer =>
    cases answer with
    | ok records => cases moved; rfl
    | error failure => cases moved; rfl
  | ended result => cases moved

namespace Worker

variable {worker next : Worker}

/-- What a run of a source without batches still puts in once it is cancelled. -/
def debt (session : Session) : Worker → List Update
  | heuristic policy run => run.debt policy
  | worker => worker.updates session

/-- Only what a batch puts in depends on the session. -/
theorem debt_congr (other : worker.source ≠ .editScript) (session session' : Session) :
    worker.debt session = worker.debt session' := by
  cases worker with
  | scripts run => exact (other rfl).elim
  | _ => rfl

/-- With each move a cancelled run pays a part of its debt. -/
theorem debt_advance (other : worker.source ≠ .editScript)
    (moved : worker.advance true session = some (next, after)) :
    worker.debt session = worker.updates session ++ next.debt after := by
  cases advances_of_advance moved with
  | heuristic ran => exact HeuristicRun.debt_advance ran
  | @labels hasCombiner run run' ran =>
    have paid : debt after (labels hasCombiner run') = [] := LabelRun.updates_advance ran
    rw [paid, List.append_nil]
    rfl
  | scripts ran => exact (other rfl).elim
  | @history run run' ran =>
    have paid : debt after (history run') = [] := HistoryRun.updates_advance ran
    rw [paid, List.append_nil]
    rfl

theorem debt_start {task : Nat} (started : worker.start task = some next)
    (session : Session) : next.debt session = worker.debt session := by
  cases worker with
  | labels hasCombiner run =>
    obtain ⟨run', started, rfl⟩ := Option.map_eq_some_iff.1 started
    cases run with
    | joining tasks count => cases started; rfl
    | _ => cases started
  | scripts run =>
    obtain ⟨run', started, rfl⟩ := Option.map_eq_some_iff.1 started
    cases run with
    | joining batch tasks count => cases started; rfl
    | _ => cases started
  | _ => cases started

/-- A run with a debt can move, and pays with its next move. -/
theorem exists_advance_of_debt (cancelled : Bool) (other : worker.source ≠ .editScript)
    (owes : worker.debt session ≠ []) :
    worker.updates session ≠ [] ∧
      ∃ next after, worker.advance cancelled session = some (next, after) := by
  cases worker with
  | heuristic policy run =>
    cases run with
    | holding attempt answer =>
      cases answer with
      | ok report => exact ⟨List.cons_ne_nil _ _, _, _, rfl⟩
      | error failure => exact ⟨owes, _, _, rfl⟩
    | opening => exact ⟨List.cons_ne_nil _ _, _, _, rfl⟩
    | expiring => exact ⟨owes, _, _, rfl⟩
    | _ => exact (owes rfl).elim
  | labels hasCombiner run =>
    cases run with
    | holding answer =>
      cases answer with
      | ok predictions => exact ⟨owes, _, _, rfl⟩
      | error failure => exact (owes rfl).elim
    | joined block result tasks count =>
      cases result with
      | ok candidate => exact ⟨owes, _, _, rfl⟩
      | error failure => exact (owes rfl).elim
    | _ => exact (owes rfl).elim
  | scripts run => exact (other rfl).elim
  | history run =>
    cases run with
    | holding answer =>
      cases answer with
      | ok records => exact ⟨owes, _, _, rfl⟩
      | error failure => exact (owes rfl).elim
    | _ => exact (owes rfl).elim

end Worker

/-! ## A run among others -/

namespace Team

/-- What a member has put in, in order. -/
def entriesOf (team : Team) (i : Nat) : List Update :=
  team.journal.filterMap fun (j, update) => if j = i then some update else none

/-- What a member puts in with an event. -/
def putBy (team : Team) (i : Nat) : Event → List Update
  | .advance j => if j = i then team.updates (.advance j) else []
  | _ => []

/-- A member of a source that is cancelled. Its account is what it has put in, and what it still
owes. -/
structure Owing (team : Team) (i : Nat) (source : Source) (account : List Update)
    (member : Member) : Prop where
  inside : team.members[i]? = some member
  ofSource : member.worker.source = source
  cancelled : member.isCancelled = true
  adds : team.entriesOf i ++ member.worker.debt team.session = account

variable {team next : Team} {event : Event} {events : List Event} {i : Nat} {source : Source}
  {account : List Update} {member : Member}

theorem entriesOf_append {j : Nat} {updates : List Update}
    (journal : next.journal = team.journal ++ updates.map (j, ·)) (i : Nat) :
    next.entriesOf i = team.entriesOf i ++ if j = i then updates else [] := by
  rw [entriesOf, entriesOf, journal, List.filterMap_append, List.filterMap_map]
  congr 1
  by_cases same : j = i
  · simp [same]
  · simp [same]

theorem Step.entriesOf (step : Step team event next) (i : Nat) :
    next.entriesOf i = team.entriesOf i ++ team.putBy i event := by
  cases step with
  | advance here moved =>
    rw [entriesOf_append rfl, putBy, updates, here]
  | _ => exact (List.append_nil _).symm

theorem entriesOf_run? (reached : team.run? events = some next) (i : Nat) :
    team.entriesOf i <+: next.entriesOf i := by
  have kept (before : Team) (event : Event) (after : Team) (_ : True)
      (step : Step before event after) (grown : team.entriesOf i <+: before.entriesOf i) :
      team.entriesOf i <+: after.entriesOf i :=
    grown.trans ⟨before.putBy i event, (step.entriesOf i).symm⟩
  exact run?_induction List.prefix_rfl kept (fun _ _ => trivial) reached

namespace Owing

/-- The account stays as it is, whatever happens. -/
theorem step (owing : team.Owing i source account member) (other : source ≠ .editScript)
    (step : Step team event next) : ∃ member', next.Owing i source account member' := by
  obtain ⟨inside, rfl, cancelled, rfl⟩ := owing
  have within : i < team.members.length := (List.getElem?_eq_some_iff.1 inside).1
  have still (session : Session) : member.worker.debt session = member.worker.debt team.session :=
    Worker.debt_congr other session team.session
  cases step with
  | enter fresh =>
    exact ⟨member, (List.getElem?_append_left within).trans inside, rfl, cancelled, rfl⟩
  | @cancel j changed here =>
    by_cases same : j = i
    · subst same
      cases inside.symm.trans here
      exact ⟨_, List.getElem?_set_self within, rfl, rfl, rfl⟩
    · exact ⟨member, (List.getElem?_set_ne same).trans inside, rfl, cancelled, rfl⟩
  | @advance j changed worker session here moved =>
    have entries := (Step.advance here moved).entriesOf i
    by_cases same : j = i
    · subst same
      cases inside.symm.trans here
      rw [cancelled] at moved
      refine ⟨_, List.getElem?_set_self within, Worker.source_advance moved, cancelled, ?_⟩
      rw [entries, Worker.debt_advance other moved, putBy, if_pos rfl, updates, here,
        List.append_assoc]
    · rw [putBy, if_neg same, List.append_nil] at entries
      refine ⟨member, (List.getElem?_set_ne same).trans inside, rfl, cancelled, ?_⟩
      rw [entries]
      exact congrArg _ (still session)
  | @hear j news changed worker here running told =>
    by_cases same : j = i
    · subst same
      cases inside.symm.trans here
      rw [cancelled] at running
      cases running
    · exact ⟨member, (List.getElem?_set_ne same).trans inside, rfl, cancelled, rfl⟩
  | @start j task changed worker here started =>
    by_cases same : j = i
    · subst same
      cases inside.symm.trans here
      exact ⟨_, List.getElem?_set_self within, Worker.source_start started, cancelled,
        congrArg _ (Worker.debt_start started team.session)⟩
    · exact ⟨member, (List.getElem?_set_ne same).trans inside, rfl, cancelled, rfl⟩
  | move change => exact ⟨member, inside, rfl, cancelled, congrArg _ (still _)⟩
  | notify notice => exact ⟨member, inside, rfl, cancelled, congrArg _ (still _)⟩

theorem run? (owing : team.Owing i source account member) (other : source ≠ .editScript)
    (reached : team.run? events = some next) : ∃ member', next.Owing i source account member' := by
  have kept (before : Team) (event : Event) (after : Team) (_ : True)
      (step : Step before event after)
      (owing : ∃ member, before.Owing i source account member) :
      ∃ member, after.Owing i source account member := by
    obtain ⟨member, owing⟩ := owing
    exact owing.step other step
  exact run?_induction ⟨member, owing⟩ kept (fun _ _ => trivial) reached

/-- A cancelled member puts in what it owes, from the first on, and no more. -/
theorem exists_paid (owing : team.Owing i source account member) (other : source ≠ .editScript)
    (reached : team.run? events = some next) :
    ∃ paid, paid <+: member.worker.debt team.session ∧
      next.entriesOf i = team.entriesOf i ++ paid := by
  obtain ⟨paid, entries⟩ := entriesOf_run? reached i
  obtain ⟨member', owing'⟩ := owing.run? other reached
  refine ⟨paid, ⟨member'.worker.debt next.session, ?_⟩, entries.symm⟩
  have same : team.entriesOf i ++ (paid ++ member'.worker.debt next.session) =
      team.entriesOf i ++ member.worker.debt team.session := by
    rw [← List.append_assoc, entries, owing'.adds, owing.adds]
  exact List.append_cancel_left same

/-- It can put in all of it. -/
theorem exists_run? (owing : team.Owing i source account member) (other : source ≠ .editScript) :
    ∃ events next, team.run? events = some next ∧ next.entriesOf i = account := by
  induction left : (member.worker.debt team.session).length using Nat.strong_induction_on
    generalizing team member with
  | _ n ih =>
    by_cases paid : member.worker.debt team.session = []
    · refine ⟨[], team, rfl, ?_⟩
      rw [← owing.adds, paid, List.append_nil]
    · obtain ⟨pays, worker, session, moved⟩ := Worker.exists_advance_of_debt member.isCancelled
        (fun same => other (owing.ofSource.symm.trans same)) paid
      have step := Step.advance owing.inside moved
      obtain ⟨member', owing'⟩ := owing.step other step
      have less : (member'.worker.debt session).length < n := by
        have adds := owing'.adds.trans owing.adds.symm
        rw [step.entriesOf, putBy, if_pos rfl, updates, owing.inside, List.append_assoc] at adds
        rw [← left, ← List.append_cancel_left adds, List.length_append]
        exact Nat.lt_add_of_pos_left (List.length_pos_iff.2 pays)
      obtain ⟨events, next, reached, entries⟩ := ih _ less owing' rfl
      refine ⟨.advance i :: events, next, ?_, entries⟩
      rw [Team.run?, List.foldlM_cons, step?_eq_some_iff.2 step]
      exact reached

end Owing

/-- A cancelled run of a source without batches puts nothing in any more, whatever happens, exactly
if it has no debt. -/
theorem silent_iff (inside : team.members[i]? = some member) (cancelled : member.isCancelled = true)
    (other : member.worker.source ≠ .editScript) :
    (∀ events next, team.run? events = some next → next.entriesOf i = team.entriesOf i) ↔
      member.worker.debt team.session = [] := by
  have owing : team.Owing i member.worker.source _ member := ⟨inside, rfl, cancelled, rfl⟩
  constructor
  · intro silent
    obtain ⟨events, next, reached, entries⟩ := owing.exists_run? other
    rw [silent events next reached] at entries
    exact List.append_right_eq_self.1 entries.symm
  · intro nothing events next reached
    obtain ⟨paid, owed, entries⟩ := owing.exists_paid other reached
    rw [nothing, List.prefix_nil] at owed
    rw [entries, owed, List.append_nil]

/-- Whoever is there has been there before with the same source, or is set to work now. -/
theorem Step.member_before (step : Step team event next) {member : Member}
    (inside : next.members[i]? = some member) :
    (∃ old, team.members[i]? = some old ∧ old.worker.source = member.worker.source) ∨
      event = .enter member.worker := by
  have set {j : Nat} {old : Member} (changed : Member) (here : team.members[j]? = some old)
      (same : changed.worker.source = old.worker.source)
      (found : (team.members.set j changed)[i]? = some member) :
      ∃ old, team.members[i]? = some old ∧ old.worker.source = member.worker.source := by
    by_cases own : j = i
    · subst own
      rw [List.getElem?_set_self (List.getElem?_eq_some_iff.1 here).1] at found
      cases found
      exact ⟨old, here, same.symm⟩
    · rw [List.getElem?_set_ne own] at found
      exact ⟨member, found, rfl⟩
  cases step with
  | @enter worker fresh =>
    rcases Nat.lt_or_ge i team.members.length with within | beyond
    · exact .inl ⟨member, (List.getElem?_append_left within).symm.trans inside, rfl⟩
    · refine .inr ?_
      change (team.members ++ [⟨worker, false⟩])[i]? = some member at inside
      rw [List.getElem?_append_right beyond, List.getElem?_singleton] at inside
      split at inside
      · cases inside
        rfl
      · cases inside
  | cancel here => exact .inl (set ⟨_, true⟩ here rfl inside)
  | advance here moved => exact .inl (set _ here (Worker.source_advance moved) inside)
  | hear here running told => exact .inl (set _ here (Worker.source_hear told) inside)
  | start here started => exact .inl (set _ here (Worker.source_start started) inside)
  | move change => exact .inl ⟨member, inside, rfl⟩
  | notify notice => exact .inl ⟨member, inside, rfl⟩

/-- A member of a source, other than a given one. -/
structure Other (team : Team) (b : Nat) (source : Source) (i : Nat) (member : Member) : Prop where
  inside : team.members[i]? = some member
  apart : i ≠ b
  ofSource : member.worker.source = source

/-- All members of a source but one are cancelled and have no debt. -/
def OthersSettled (team : Team) (b : Nat) (source : Source) : Prop :=
  ∀ i member, team.Other b source i member → team.Owing i source (team.entriesOf i) member

/-- The front-end spares a source, and no collector of the source is set to work. -/
def Event.Leaves (source : Source) (event : Event) : Prop :=
  event.Spares source ∧ ∀ worker, event = .enter worker → worker.source ≠ source

/-- A member without debt puts in nothing with a step, and has no debt behind it. -/
theorem Owing.settled (owing : team.Owing i source (team.entriesOf i) member)
    (other : source ≠ .editScript) (step : Step team event next) :
    team.putBy i event = [] ∧ ∃ member', next.Owing i source (next.entriesOf i) member' := by
  obtain ⟨member', owing'⟩ := owing.step other step
  have nothing := owing'.adds
  rw [step.entriesOf, List.append_assoc, List.append_right_eq_self, List.append_eq_nil_iff]
    at nothing
  refine ⟨nothing.1, member', ?_⟩
  rw [step.entriesOf, nothing.1, List.append_nil]
  exact owing'

theorem OthersSettled.step {b : Nat} (settled : team.OthersSettled b source)
    (other : source ≠ .editScript)
    (fresh : ∀ worker, event = .enter worker → worker.source ≠ source)
    (step : Step team event next) : next.OthersSettled b source := by
  intro i member ⟨inside, apart, same⟩
  rcases step.member_before inside with ⟨old, here, unchanged⟩ | rfl
  · obtain ⟨-, member', owing⟩ :=
      (settled i old ⟨here, apart, unchanged.trans same⟩).settled other step
    cases owing.inside.symm.trans inside
    exact owing
  · exact (fresh _ rfl same).elim

/-- The pool holds of a source what one member has put in since it cleared the source, and the
others of the source have no debt. -/
structure Alone (before team : Team) (b : Nat) (clear : Update) : Prop where
  own : ∃ updates, team.entriesOf b = before.entriesOf b ++ clear :: updates ∧
    Pool.Agrees clear.source team.session.buffer.pool
      ((clear :: updates).foldl Pool.commit Pool.empty)
  others : team.OthersSettled b clear.source

theorem Alone.step {before : Team} {b : Nat} {clear : Update} (alone : before.Alone team b clear)
    (other : clear.source ≠ .editScript) (leaves : event.Leaves clear.source)
    (step : Step team event next) : before.Alone next b clear := by
  obtain ⟨⟨updates, entries, agrees⟩, others⟩ := alone
  refine ⟨?_, others.step other leaves.2 step⟩
  by_cases own : event = .advance b
  · subst own
    refine ⟨updates ++ team.updates (.advance b), ?_, ?_⟩
    · rw [step.entriesOf, entries, putBy, if_pos rfl, List.append_assoc, List.cons_append]
    · rw [step.pool, ← List.cons_append, List.foldl_append]
      exact agrees.foldl_commit _
  · have nothing : team.putBy b event = [] := by
      cases event with
      | advance j => exact if_neg fun same => own (congrArg Event.advance same)
      | _ => rfl
    have kept : Pool.Agrees clear.source next.session.buffer.pool team.session.buffer.pool := by
      by_cases foreign : ∀ j member, event = .advance j → team.members[j]? = some member →
          member.worker.source ≠ clear.source
      · exact step.agrees leaves.1 foreign
      · obtain ⟨j, member, rfl, here, same⟩ : ∃ j member, event = .advance j ∧
            team.members[j]? = some member ∧ member.worker.source = clear.source := by
          simpa only [not_forall, not_not, exists_prop] using foreign
        have apart : j ≠ b := fun own' => own (congrArg _ own')
        have silent := ((others j member ⟨here, apart, same⟩).settled other step).1
        rw [putBy, if_pos rfl] at silent
        rw [step.pool, silent]
        exact Pool.Agrees.refl _ _
    refine ⟨updates, ?_, kept.trans agrees⟩
    rw [step.entriesOf, nothing, List.append_nil]
    exact entries

/-- A run that clears its source when the others have no debt is alone. -/
theorem Alone.opened {before opened : Team} {b : Nat} {first : Member} {clear : Update}
    (clears : clear = .heuristicStarted ∨ clear = .labelsCleared)
    (inside : before.members[b]? = some first)
    (opening : first.worker.updates before.session = [clear])
    (settled : before.OthersSettled b clear.source) (other : clear.source ≠ .editScript)
    (step : Step before (.advance b) opened) : before.Alone opened b clear := by
  have put : before.updates (.advance b) = [clear] := by
    rw [updates, inside]
    exact opening
  refine ⟨⟨[], ?_, ?_⟩, settled.step other (fun worker enters => by cases enters) step⟩
  · rw [step.entriesOf, putBy, if_pos rfl, put]
  · rw [step.pool, put]
    rcases clears with rfl | rfl
    · exact ⟨rfl, rfl, rfl, rfl⟩
    · rfl

/-- A run of the heuristic or of the label source clears the source, and all others of it are
cancelled. These still put in what they owe at most, and can put in all of it. If none owes
anything, then from there on the pool holds of the source what the one run puts in. -/
theorem replaced_runs_pay_debts {before opened : Team} {b : Nat} {first : Member} {clear : Update}
    (clears : clear = .heuristicStarted ∨ clear = .labelsCleared)
    (inside : before.members[b]? = some first)
    (opening : first.worker.updates before.session = [clear])
    (replaced : ∀ i member, before.Other b clear.source i member → member.isCancelled = true)
    (opens : before.step? (.advance b) = some opened) :
    (∀ i member, before.Other b clear.source i member →
      (∀ events after, opened.run? events = some after →
        ∃ paid, paid <+: member.worker.debt before.session ∧
          after.entriesOf i = before.entriesOf i ++ paid) ∧
      ∃ events after, opened.run? events = some after ∧
        after.entriesOf i = before.entriesOf i ++ member.worker.debt before.session) ∧
    ((∀ i member, before.Other b clear.source i member →
        member.worker.debt before.session = []) →
      ∀ events after, (∀ event ∈ events, event.Leaves clear.source) →
        opened.run? events = some after →
        ∃ updates, after.entriesOf b = before.entriesOf b ++ clear :: updates ∧
          Pool.Agrees clear.source after.session.buffer.pool
            ((clear :: updates).foldl Pool.commit Pool.empty)) := by
  have step := step?_eq_some_iff.1 opens
  have source : clear.source ≠ .editScript := by
    rcases clears with rfl | rfl
    · exact Source.noConfusion
    · exact Source.noConfusion
  have owing (i : Nat) (member : Member) (other : before.Other b clear.source i member) :
      before.Owing i clear.source (before.entriesOf i ++ member.worker.debt before.session)
        member :=
    ⟨other.inside, other.ofSource, replaced i member other, rfl⟩
  refine ⟨fun i member other => ⟨fun events after reached => ?_, ?_⟩,
    fun nothing events after left reached => ?_⟩
  · have all : before.run? (.advance b :: events) = some after := by
      rw [run?, List.foldlM_cons, opens]
      exact reached
    exact (owing i member other).exists_paid source all
  · obtain ⟨member', owing'⟩ := (owing i member other).step source step
    exact owing'.exists_run? source
  · have settled : before.OthersSettled b clear.source := by
      intro i member other
      have owing := owing i member other
      rw [nothing i member other, List.append_nil] at owing
      exact owing
    have alone := Alone.opened clears inside opening settled source step
    have kept (between : Team) (event : Event) (later : Team) (leaves : event.Leaves clear.source)
        (step : Step between event later) (alone : before.Alone between b clear) :
        before.Alone later b clear := alone.step source leaves step
    exact (run?_induction alone kept left reached).own

/-- A heuristic run that waits for an answer is cancelled, and the next one is set to work. -/
def replacedWaiting : List Event :=
  [.enter (.heuristic ⟨7, 5000⟩ .opening), .advance 0, .advance 0, .cancel 0,
    .enter (.heuristic ⟨7, 5000⟩ .opening)]

/-- The next run opens and has its answer put in, and the cancelled one ends. -/
theorem replaced_waiting_settles : ∃ before opened after : Team, ∃ updates : List Update,
    (ofSession oneBlock).run? replacedWaiting = some before ∧
    before.step? (.advance 1) = some opened ∧
    opened.run? [.advance 1, .hear 1 (.report (.ok ⟨false, [], some ["x"], false⟩)), .advance 0,
      .advance 1] = some after ∧
    after.session.buffer.pool.merged = some ["x"] ∧
    after.entriesOf 1 = before.entriesOf 1 ++ .heuristicStarted :: updates ∧
    Pool.Agrees .heuristic after.session.buffer.pool
      ((.heuristicStarted :: updates).foldl Pool.commit Pool.empty) := by
  obtain ⟨before, opened, after, waits, inside, opening, opens, reached, merged, members⟩ :
      ∃ before opened after : Team, (ofSession oneBlock).run? replacedWaiting = some before ∧
        before.members[1]? = some ⟨.heuristic ⟨7, 5000⟩ .opening, false⟩ ∧
        Worker.updates before.session (.heuristic ⟨7, 5000⟩ .opening) = [.heuristicStarted] ∧
        before.step? (.advance 1) = some opened ∧
        opened.run? [.advance 1, .hear 1 (.report (.ok ⟨false, [], some ["x"], false⟩)),
          .advance 0, .advance 1] = some after ∧
        after.session.buffer.pool.merged = some ["x"] ∧
        before.members = [⟨.heuristic ⟨7, 5000⟩ (.waiting 1), true⟩,
          ⟨.heuristic ⟨7, 5000⟩ .opening, false⟩] :=
    ⟨_, _, _, rfl, rfl, rfl, rfl, rfl, rfl, rfl⟩
  have first (i : Nat) (member : Member) (other : before.Other 1 .heuristic i member) :
      member = ⟨.heuristic ⟨7, 5000⟩ (.waiting 1), true⟩ := by
    obtain ⟨here, apart, -⟩ := other
    rw [members] at here
    rcases i with _ | _ | i
    · exact (Option.some.inj here).symm
    · exact (apart rfl).elim
    · cases here
  obtain ⟨updates, entries, agrees⟩ := (replaced_runs_pay_debts (.inl rfl) inside opening
    (fun i member other => by rw [first i member other]) opens).2
    (fun i member other => by rw [first i member other]; rfl) _ after
    (by simp [Event.Leaves, Event.Spares]) reached
  exact ⟨before, opened, after, updates, waits, opens, reached, merged, entries, agrees⟩

/-- A heuristic run is cancelled before it has opened, and the next one has its answer put in. -/
def unopened : List Event :=
  [.enter (.heuristic ⟨7, 5000⟩ .opening), .cancel 0, .enter (.heuristic ⟨7, 5000⟩ .opening),
    .advance 1, .advance 1, .hear 1 (.report (.ok ⟨false, [], some ["x"], false⟩)), .advance 1]

/-- A heuristic run that holds an answer is cancelled, and the next one opens. -/
def heldReport : List Event :=
  [.enter (.heuristic ⟨7, 5000⟩ .opening), .advance 0, .advance 0,
    .hear 0 (.report (.ok ⟨false, [], some ["stale"], false⟩)), .cancel 0,
    .enter (.heuristic ⟨7, 5000⟩ .opening), .advance 1]

/-- A label run that holds the result of a task is cancelled, and the next one clears the labels. -/
def heldLabel : List Event :=
  [.enter (.labels false .asking), .advance 0,
    .hear 0 (.predictions (.ok [⟨0, "V1", Binary64.zero⟩])), .advance 0, .advance 0, .advance 0,
    .hear 0 (.labelDone 0 (some (.ok "stale"))), .cancel 0, .enter (.labels false .asking),
    .advance 1, .hear 1 (.predictions (.ok [])), .advance 1]

/-- A cancelled run that has not opened yet undoes the answer of the next one. What a cancelled run
holds, an answer or a candidate, lands behind the opening of the next one, which has got none. -/
theorem late_updates_land :
    (∃ answered after, (ofSession oneBlock).run? unopened = some answered ∧
      answered.session.buffer.pool.status = .ready ∧
      answered.session.buffer.pool.merged = some ["x"] ∧
      answered.step? (.advance 0) = some after ∧
      after.session.buffer.pool.status = .pending ∧ after.session.buffer.pool.merged = none) ∧
    (∃ opened after, (ofSession oneBlock).run? heldReport = some opened ∧
      opened.session.buffer.pool.status = .pending ∧ opened.step? (.advance 0) = some after ∧
      after.session.buffer.pool.status = .ready ∧
      after.session.buffer.pool.merged = some ["stale"]) ∧
    ∃ opened after, (ofSession oneBlock).run? heldLabel = some opened ∧
      opened.session.buffer.pool.labels = [] ∧ opened.step? (.advance 0) = some after ∧
      after.session.buffer.pool.labels = [(1, ⟨.ours, Binary64.zero, "stale"⟩)] :=
  ⟨⟨_, _, rfl, rfl, rfl, rfl, rfl, rfl⟩, ⟨_, _, rfl, rfl, rfl, rfl, rfl⟩,
    ⟨_, _, rfl, rfl, rfl, rfl⟩⟩

end Team

end MergeConflict
