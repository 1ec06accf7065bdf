import Mathlib.Data.List.Nodup
import MergeConflict.Gateway
import MergeConflict.Proofs.Tables

/-!
# The tokens of a session's fetches

The handlers of a fetch and of a closing consist of single steps on two tables, and other handlers
and fetches that end may come between any two of these. `Traffic` is the gateway with the handlers
that are midway on one session and the fetches that run; `Traffic.step?` is one single step.

* `Traffic.registered_of_tidy`: when no handler is midway, at most one fetch runs uncancelled, its
  token is the one that is registered, and none runs for a closed session, provided that every step
  was tidy: no fetch that has ended uncancelled took out the token of another one, and no fetch
  registered its token once a closing had begun.
* `Traffic.untidy_runs_escape`: neither can be left out.
* `Traffic.tidyRun_whole`: handlers that are not interrupted make tidy steps only.
-/

namespace MergeConflict

/-- A handler midway. -/
inductive Handler where
  /-- A fetch that has found the session. -/
  | found
  /-- A fetch whose token is registered, with the one that was before. -/
  | swapped (token : FetchToken) (previous : Option FetchToken)
  /-- A fetch that has cancelled the one before. -/
  | cleared (token : FetchToken)
  /-- A closing that has taken the registered token out. -/
  | taken (token : Option FetchToken)
  /-- A closing that has cancelled the token. -/
  | revoked
deriving DecidableEq, Repr

namespace Handler

/-- The token of a fetch that does not run yet. -/
def own? : Handler → Option FetchToken
  | swapped token _ => some token
  | cleared token => some token
  | _ => none

/-- The token that is cancelled next. -/
def doomed? : Handler → Option FetchToken
  | swapped _ previous => previous
  | taken token => token
  | _ => none

def closes : Handler → Bool
  | taken _ => true
  | revoked => true
  | _ => false

end Handler

/-- The gateway, the handlers midway on a session, and the fetches of the session that run. -/
structure Traffic where
  gateway : Gateway
  handlers : List Handler
  running : List FetchToken

namespace Traffic

inductive Event where
  /-- A request for a fetch comes in, and the session is found. -/
  | lookUp
  /-- A request to close the session comes in, and the registered token is taken out. -/
  | takeOut
  /-- A handler makes its next step. -/
  | proceed (i : Nat)
  /-- A fetch ends. -/
  | complete (token : FetchToken)

/-- A gateway at rest. -/
def ofGateway (gateway : Gateway) : Traffic :=
  ⟨gateway, [], []⟩

def withFetches (traffic : Traffic) (fetches : Fetches) : Traffic :=
  { traffic with gateway := { traffic.gateway with fetches } }

/-- Another state of a handler, or none if it is through. -/
def replace (traffic : Traffic) (i : Nat) (next : Option Handler) : Traffic :=
  { traffic with
    handlers := traffic.handlers.take i ++ next.toList ++ traffic.handlers.drop (i + 1) }

def cancel (traffic : Traffic) (token : Option FetchToken) : Traffic :=
  traffic.withFetches (token.elim traffic.gateway.fetches traffic.gateway.fetches.cancel)

/-- One step on the session with an id. -/
def step? (id : SessionId) (traffic : Traffic) : Event → Option Traffic
  | .lookUp =>
    if (traffic.gateway.session? id).isSome then
      some { traffic with handlers := traffic.handlers ++ [.found] }
    else none
  | .takeOut =>
    let (token, fetches) := traffic.gateway.fetches.remove id
    let traffic := traffic.withFetches fetches
    some { traffic with handlers := traffic.handlers ++ [.taken token] }
  | .proceed i =>
    match traffic.handlers[i]? with
    | none => none
    | some .found =>
      let (token, fetches) := traffic.gateway.fetches.issue
      let (previous, fetches) := fetches.register id token
      some ((traffic.withFetches fetches).replace i (some (.swapped token previous)))
    | some (.swapped token previous) =>
      some ((traffic.cancel previous).replace i (some (.cleared token)))
    | some (.cleared token) =>
      some ({ traffic with running := token :: traffic.running }.replace i none)
    | some (.taken token) => some ((traffic.cancel token).replace i (some .revoked))
    | some .revoked =>
      some ({ traffic with gateway := traffic.gateway.closeRoom id }.replace i none)
  | .complete token =>
    if token ∈ traffic.running then
      some { traffic with
        gateway := traffic.gateway.completeFetch id token
        running := traffic.running.erase token }
    else none

/-- The traffic after some steps, each of which has to be possible. -/
def run? (id : SessionId) (traffic : Traffic) (events : List Event) : Option Traffic :=
  events.foldlM (step? id) traffic

/-- A handler from its beginning to its end, or a fetch that ends. -/
inductive Whole where
  | fetch
  | close
  | complete (token : FetchToken)

def Whole.events : Whole → List Event
  | fetch => [.lookUp, .proceed 0, .proceed 0, .proceed 0]
  | close => [.takeOut, .proceed 0, .proceed 0]
  | complete token => [.complete token]

def isCancelled (traffic : Traffic) (token : FetchToken) : Bool :=
  traffic.gateway.fetches.isCancelled token

/-- The token that is registered for a session. -/
def registered? (traffic : Traffic) (id : SessionId) : Option FetchToken :=
  traffic.gateway.fetches.registered.lookup id

/-- The session is closed, or about to be. -/
def IsClosing (id : SessionId) (traffic : Traffic) : Prop :=
  traffic.gateway.session? id = none ∨ ∃ handler ∈ traffic.handlers, handler.closes = true

/-- A fetch that ends uncancelled finds no token registered but its own; and none registers a token
once a closing has begun. -/
def Tidy (id : SessionId) (traffic : Traffic) : Event → Prop
  | .complete token => token ∈ traffic.running → traffic.isCancelled token = false →
    ∀ other ∈ traffic.registered? id, other = token
  | .proceed i => traffic.handlers[i]? = some .found → ¬traffic.IsClosing id
  | _ => True

/-- Every step of a run is tidy. -/
def TidyRun (id : SessionId) : Traffic → List Event → Prop
  | _, [] => True
  | traffic, event :: events =>
    traffic.Tidy id event ∧ ∀ next, traffic.step? id event = some next → TidyRun id next events

instance (id : SessionId) (traffic : Traffic) : Decidable (traffic.IsClosing id) :=
  inferInstanceAs (Decidable (traffic.gateway.session? id = none ∨ _))

instance (id : SessionId) (traffic : Traffic) : (event : Event) → Decidable (traffic.Tidy id event)
  | .complete token => inferInstanceAs (Decidable (token ∈ traffic.running → _))
  | .proceed i => inferInstanceAs (Decidable (traffic.handlers[i]? = some .found → _))
  | .lookUp => .isTrue trivial
  | .takeOut => .isTrue trivial

instance decidableTidyRun (id : SessionId) :
    (traffic : Traffic) → (events : List Event) → Decidable (TidyRun id traffic events)
  | _, [] => .isTrue trivial
  | traffic, event :: events =>
    have : Decidable (∀ next, traffic.step? id event = some next → TidyRun id next events) :=
      match traffic.step? id event with
      | none => .isTrue nofun
      | some next =>
        have := decidableTidyRun id next events
        decidable_of_iff (TidyRun id next events)
          ⟨fun tidy _ same => Option.some.inj same ▸ tidy, fun tidy => tidy next rfl⟩
    inferInstanceAs (Decidable (traffic.Tidy id event ∧ _))

/-- The tokens of fetches that run or are about to. -/
def alive (traffic : Traffic) : List FetchToken :=
  traffic.handlers.filterMap Handler.own? ++ traffic.running

/-- A fetch that is neither cancelled nor about to be is the registered one. -/
structure Kept (id : SessionId) (traffic : Traffic) : Prop where
  fresh : ∀ token ∈ traffic.alive, token.number < traffic.gateway.fetches.issued
  nodup : traffic.alive.Nodup
  known : ∀ token ∈ traffic.alive, traffic.isCancelled token = false →
    traffic.registered? id = some token ∨
      ∃ handler ∈ traffic.handlers, handler.doomed? = some token
  closing : traffic.IsClosing id → traffic.registered? id = none

variable {id : SessionId} {traffic next : Traffic} {event : Event}

/-! ## One step -/

theorem exists_split {i : Nat} {handler : Handler} (here : traffic.handlers[i]? = some handler) :
    ∃ front back, traffic.handlers = front ++ (some handler).toList ++ back ∧
      traffic.handlers.take i = front ∧ traffic.handlers.drop (i + 1) = back := by
  obtain ⟨within, rfl⟩ := List.getElem?_eq_some_iff.1 here
  refine ⟨_, _, ?_, rfl, rfl⟩
  rw [Option.toList_some, List.append_assoc, List.singleton_append, List.getElem_cons_drop,
    List.take_append_drop]

/-- Who is not replaced stays. -/
theorem mem_of_split {before after front back : List Handler} {old changed : Option Handler}
    (split : before = front ++ old.toList ++ back)
    (split' : after = front ++ changed.toList ++ back)
    {handler : Handler} (inside : handler ∈ before) (other : old ≠ some handler) :
    handler ∈ after := by
  rw [split, List.mem_append, List.mem_append] at inside
  rw [split', List.mem_append, List.mem_append]
  rcases inside with (inside | inside) | inside
  · exact .inl (.inl inside)
  · exact (other (Option.mem_toList.1 inside)).elim
  · exact .inr inside

/-- The fetch of one handler is put in front of the others. -/
theorem alive_perm {front back : List Handler} {handler : Option Handler}
    (split : traffic.handlers = front ++ handler.toList ++ back) :
    traffic.alive.Perm ((handler.bind Handler.own?).toList ++
      (front.filterMap Handler.own? ++ back.filterMap Handler.own? ++ traffic.running)) := by
  have single : handler.toList.filterMap Handler.own? = (handler.bind Handler.own?).toList := by
    cases handler with
    | none => rfl
    | some handler =>
      cases own : handler.own? with
      | none => simp [own]
      | some token => simp [own]
  rw [alive, split, List.filterMap_append, List.filterMap_append, single]
  refine (List.Perm.append_right _ (List.Perm.append_right _ List.perm_append_comm)).trans ?_
  rw [List.append_assoc, List.append_assoc, List.append_assoc]

theorem isCancelled_cancel {token : Option FetchToken} {other : FetchToken}
    (running : (traffic.cancel token).isCancelled other = false) :
    traffic.isCancelled other = false ∧ token ≠ some other := by
  cases token with
  | none => exact ⟨running, nofun⟩
  | some token =>
    simp only [isCancelled, cancel, withFetches, Option.elim_some, Fetches.isCancelled,
      Fetches.cancel, Bool.or_eq_false_iff, List.contains_cons, beq_eq_false_iff_ne] at running
    refine ⟨?_, fun same => running.2.1 (Option.some.inj same).symm⟩
    rw [isCancelled, Fetches.isCancelled, Bool.or_eq_false_iff]
    exact ⟨running.1, running.2.2⟩

theorem registered?_cancel (token : Option FetchToken) :
    (traffic.cancel token).registered? id = traffic.registered? id := by
  cases token with
  | none => rfl
  | some token => rfl

theorem issued_cancel (token : Option FetchToken) :
    (traffic.cancel token).gateway.fetches.issued = traffic.gateway.fetches.issued := by
  cases token with
  | none => rfl
  | some token => rfl

theorem Kept.of_perm (kept : traffic.Kept id) (perm : next.alive.Perm traffic.alive)
    (issued : next.gateway.fetches.issued = traffic.gateway.fetches.issued)
    (known : ∀ token ∈ traffic.alive, next.isCancelled token = false →
      next.registered? id = some token ∨ ∃ handler ∈ next.handlers, handler.doomed? = some token)
    (closing : next.IsClosing id → next.registered? id = none) : next.Kept id where
  fresh token inside := issued ▸ kept.fresh token (perm.mem_iff.1 inside)
  nodup := perm.nodup_iff.2 kept.nodup
  known token inside := known token (perm.mem_iff.1 inside)
  closing := closing

/-- A handler that registers nothing makes a step: the token that it is to cancel is cancelled by
then, and the session is not about to be closed unless it was. -/
theorem Kept.replaced {i : Nat} {handler : Handler} {changed : Option Handler} {middle : Traffic}
    (kept : traffic.Kept id) (here : traffic.handlers[i]? = some handler)
    (handlers : middle.handlers = traffic.handlers)
    (issued : middle.gateway.fetches.issued = traffic.gateway.fetches.issued)
    (registered : middle.registered? id = traffic.registered? id)
    (own : ((changed.bind Handler.own?).toList ++ middle.running).Perm
      (handler.own?.toList ++ traffic.running))
    (cancelled : ∀ token, middle.isCancelled token = false →
      traffic.isCancelled token = false ∧ handler.doomed? ≠ some token)
    (closes : handler.closes = true ∨ (∀ after ∈ changed, after.closes = false) ∧
      middle.gateway.session? id = traffic.gateway.session? id) :
    (middle.replace i changed).Kept id := by
  obtain ⟨front, back, split, taken, dropped⟩ := exists_split here
  have split' : (middle.replace i changed).handlers = front ++ changed.toList ++ back := by
    rw [replace, handlers, taken, dropped]
  have inside : handler ∈ traffic.handlers := List.mem_of_getElem? here
  refine kept.of_perm ?_ issued (fun token alive running => ?_) (fun closing => ?_)
  · refine (alive_perm split').trans (List.Perm.trans ?_ (alive_perm split).symm)
    have swap (mine rest running : List FetchToken) :
        (mine ++ (rest ++ running)).Perm (rest ++ (mine ++ running)) := by
      rw [← List.append_assoc, ← List.append_assoc]
      exact List.perm_append_comm.append_right running
    exact (swap _ _ _).trans ((own.append_left _).trans (swap _ _ _).symm)
  · obtain ⟨running, spared⟩ := cancelled token running
    rcases kept.known token alive running with current | ⟨other, known, dooms⟩
    · exact .inl (registered.trans current)
    · refine .inr ⟨other, mem_of_split split split' known fun same => ?_, dooms⟩
      cases same
      exact spared dooms
  · refine registered.trans (kept.closing ?_)
    rcases closes with closes | ⟨open', same⟩
    · exact .inr ⟨handler, inside, closes⟩
    · rcases closing with none | ⟨other, known, closes⟩
      · exact .inl (same.symm.trans none)
      · refine .inr ⟨other, mem_of_split split' split known fun same => ?_, closes⟩
        exact Bool.false_ne_true ((open' other same).symm.trans closes)

/-- A fetch registers its token, and the one that was registered is about to be cancelled. -/
theorem Kept.swapped {i : Nat} {middle : Traffic} (kept : traffic.Kept id)
    (tidy : ¬traffic.IsClosing id) (here : traffic.handlers[i]? = some .found)
    (swap : middle = traffic.withFetches
      (traffic.gateway.fetches.issue.2.register id traffic.gateway.fetches.issue.1).2) :
    Kept id (middle.replace i
      (some (.swapped traffic.gateway.fetches.issue.1 (traffic.registered? id)))) := by
  obtain ⟨front, back, split, taken, dropped⟩ := exists_split here
  have handlers : middle.handlers = traffic.handlers := by rw [swap, withFetches]
  have running : middle.running = traffic.running := by rw [swap, withFetches]
  have cancelled (token : FetchToken) : middle.isCancelled token = traffic.isCancelled token := by
    rw [swap]
    rfl
  have current : middle.registered? id = some traffic.gateway.fetches.issue.1 := by
    rw [swap]
    simp [registered?, withFetches, Fetches.register]
  have issued : middle.gateway.fetches.issued = traffic.gateway.fetches.issued + 1 := by
    rw [swap]
    rfl
  have session : middle.gateway.session? id = traffic.gateway.session? id := by
    rw [swap]
    rfl
  have split' : (middle.replace i
      (some (.swapped traffic.gateway.fetches.issue.1 (traffic.registered? id)))).handlers =
      front ++ (some (Handler.swapped traffic.gateway.fetches.issue.1
        (traffic.registered? id))).toList ++ back := by
    rw [replace, handlers, taken, dropped]
  have perm := (alive_perm split').trans (running ▸ ((alive_perm split).symm).cons _)
  constructor
  · intro token inside
    refine Nat.lt_of_lt_of_eq ?_ issued.symm
    rcases List.mem_cons.1 (perm.mem_iff.1 inside) with rfl | inside
    · exact Nat.lt_succ_self _
    · exact Nat.lt_succ_of_lt (kept.fresh token inside)
  · refine perm.nodup_iff.2 (List.nodup_cons.2 ⟨fun inside => ?_, kept.nodup⟩)
    exact Nat.lt_irrefl _ (kept.fresh _ inside)
  · intro token inside uncancelled
    rcases List.mem_cons.1 (perm.mem_iff.1 inside) with rfl | inside
    · exact .inl current
    · rcases kept.known token inside ((cancelled token).symm.trans uncancelled) with
        before | ⟨other, known, dooms⟩
      · refine .inr ⟨.swapped traffic.gateway.fetches.issue.1 (traffic.registered? id), ?_, before⟩
        rw [split']
        simp
      · refine .inr ⟨other, mem_of_split split split' known fun same => ?_, dooms⟩
        cases same
        cases dooms
  · intro closing
    refine (tidy ?_).elim
    rcases closing with none | ⟨other, known, closes⟩
    · exact .inl (session.symm.trans none)
    · refine .inr ⟨other, mem_of_split split' split known fun same => ?_, closes⟩
      cases same
      cases closes

/-- The registered token is taken out, and is about to be cancelled. -/
theorem Kept.tookOut (kept : traffic.Kept id) :
    Kept id { traffic.withFetches (traffic.gateway.fetches.remove id).2 with
      handlers := traffic.handlers ++ [.taken (traffic.registered? id)] } := by
  have gone : registered? { traffic.withFetches (traffic.gateway.fetches.remove id).2 with
      handlers := traffic.handlers ++ [.taken (traffic.registered? id)] } id = none :=
    Table.lookup_filter_self _ id
  refine kept.of_perm ?_ rfl (fun token inside uncancelled => ?_) fun _ => gone
  · rw [alive, alive, List.filterMap_append, List.filterMap_cons_none rfl, List.filterMap_nil,
      List.append_nil]
    exact List.Perm.refl _
  · rcases kept.known token inside uncancelled with current | ⟨other, known, dooms⟩
    · exact .inr ⟨.taken (traffic.registered? id), by simp, current⟩
    · exact .inr ⟨other, List.mem_append_left _ known, dooms⟩

/-- A fetch that ends takes its own token out, or none. -/
theorem Kept.completed (kept : traffic.Kept id) {token : FetchToken}
    (tidy : traffic.isCancelled token = false → ∀ other ∈ traffic.registered? id, other = token)
    (runs : token ∈ traffic.running) :
    Kept id { traffic with
      gateway := traffic.gateway.completeFetch id token
      running := traffic.running.erase token } := by
  have less : (traffic.handlers.filterMap Handler.own? ++ traffic.running.erase token).Sublist
      traffic.alive := (List.Sublist.refl _).append List.erase_sublist
  have gone : token ∉ traffic.handlers.filterMap Handler.own? ++ traffic.running.erase token := by
    have nodup := kept.nodup
    rw [alive, List.nodup_append] at nodup
    obtain ⟨-, nodup, apart⟩ := nodup
    rw [List.mem_append, not_or]
    exact ⟨fun own => apart token own token runs rfl, nodup.not_mem_erase⟩
  rw [Gateway.completeFetch, Fetches.complete]
  split
  · exact ⟨fun other inside => kept.fresh other (less.subset inside), less.nodup kept.nodup,
      fun other inside => kept.known other (less.subset inside), kept.closing⟩
  · next running =>
    have mine := tidy (Bool.eq_false_iff.2 running)
    refine ⟨fun other inside => kept.fresh other (less.subset inside), less.nodup kept.nodup,
      fun other inside uncancelled => ?_, fun _ => Table.lookup_filter_self _ id⟩
    refine (kept.known other (less.subset inside) uncancelled).imp_left fun current => ?_
    exact (gone (mine other current ▸ inside)).elim

theorem Kept.step (kept : traffic.Kept id) (tidy : traffic.Tidy id event)
    (taken : traffic.step? id event = some next) : next.Kept id := by
  cases event with
  | lookUp =>
    rw [step?] at taken
    split at taken
    · cases taken
      refine kept.of_perm ?_ rfl (fun token inside uncancelled => ?_) (fun closing => ?_)
      · rw [alive, alive, List.filterMap_append, List.filterMap_cons_none rfl, List.filterMap_nil,
          List.append_nil]
      · rcases kept.known token inside uncancelled with current | ⟨other, known, dooms⟩
        · exact .inl current
        · exact .inr ⟨other, List.mem_append_left _ known, dooms⟩
      · refine kept.closing (closing.imp_right ?_)
        rintro ⟨other, known, closes⟩
        refine ⟨other, (List.mem_append.1 known).resolve_right fun same => ?_, closes⟩
        rw [List.mem_singleton.1 same] at closes
        cases closes
    · cases taken
  | takeOut =>
    cases taken
    exact kept.tookOut
  | proceed i =>
    rw [step?] at taken
    split at taken
    · cases taken
    · next here =>
      cases taken
      exact kept.swapped (tidy here) here rfl
    · next token previous here =>
      cases taken
      exact kept.replaced here rfl (issued_cancel previous) (registered?_cancel previous)
        (List.Perm.refl _)
        (fun other => isCancelled_cancel) (.inr ⟨fun after same => by cases same; rfl, rfl⟩)
    · next token here =>
      cases taken
      exact kept.replaced here rfl rfl rfl (List.Perm.refl _)
        (fun other running => ⟨running, nofun⟩) (.inr ⟨nofun, rfl⟩)
    · next token here =>
      cases taken
      exact kept.replaced here rfl (issued_cancel token) (registered?_cancel token)
        (List.Perm.refl _)
        (fun other => isCancelled_cancel) (.inl rfl)
    · next here =>
      cases taken
      exact kept.replaced here rfl rfl rfl (List.Perm.refl _)
        (fun other running => ⟨running, nofun⟩) (.inl rfl)
  | complete token =>
    rw [step?] at taken
    split at taken
    · next runs =>
      cases taken
      exact kept.completed (tidy runs) runs
    · cases taken

/-! ## Any run -/

theorem kept_ofGateway {gateway : Gateway} (none : gateway.fetches.registered.lookup id = none) :
    (ofGateway gateway).Kept id where
  fresh _ inside := nomatch inside
  nodup := List.nodup_nil
  known _ inside := nomatch inside
  closing _ := none

theorem Kept.run {events : List Event} (kept : traffic.Kept id) (tidy : traffic.TidyRun id events)
    (reached : traffic.run? id events = some next) : next.Kept id := by
  induction events generalizing traffic with
  | nil => cases reached; exact kept
  | cons event events ih =>
    rw [run?, List.foldlM_cons] at reached
    obtain ⟨between, taken, reached⟩ := Option.bind_eq_some_iff.1 reached
    exact ih (kept.step tidy.1 taken) (tidy.2 between taken) reached

/-- When no handler is midway behind a run of tidy steps, at most one fetch runs uncancelled, its
token is the one that is registered, and none runs if the session is closed. -/
theorem registered_of_tidy {gateway : Gateway} {events : List Event}
    (none : gateway.fetches.registered.lookup id = none)
    (tidy : (ofGateway gateway).TidyRun id events)
    (reached : (ofGateway gateway).run? id events = some traffic) (still : traffic.handlers = []) :
    (traffic.running.filter fun token => !traffic.isCancelled token).length ≤ 1 ∧
      (∀ token ∈ traffic.running, traffic.isCancelled token = false →
        traffic.registered? id = some token) ∧
      (traffic.gateway.session? id = .none →
        ∀ token ∈ traffic.running, traffic.isCancelled token = true) := by
  have kept := (kept_ofGateway none).run tidy reached
  have alive : traffic.alive = traffic.running := by rw [Traffic.alive, still]; rfl
  have current (token : FetchToken) (runs : token ∈ traffic.running)
      (uncancelled : traffic.isCancelled token = false) :
      traffic.registered? id = some token := by
    refine (kept.known token (alive ▸ runs) uncancelled).resolve_right ?_
    rintro ⟨handler, inside, -⟩
    rw [still] at inside
    cases inside
  refine ⟨?_, current, fun closed token runs => ?_⟩
  · have nodup : (traffic.running.filter fun token => !traffic.isCancelled token).Nodup :=
      (alive ▸ kept.nodup).filter _
    have one (token : FetchToken)
        (inside : token ∈ traffic.running.filter fun token => !traffic.isCancelled token) :
        traffic.registered? id = some token := by
      obtain ⟨runs, uncancelled⟩ := List.mem_filter.1 inside
      exact current token runs (by simpa using uncancelled)
    rcases uncancelled : traffic.running.filter fun token => !traffic.isCancelled token with
      _ | ⟨token, _ | ⟨other, rest⟩⟩
    · exact Nat.zero_le 1
    · exact Nat.le_refl 1
    · rw [uncancelled] at nodup one
      have same := (one token (by simp)).symm.trans (one other (by simp))
      exact ((List.nodup_cons.1 nodup).1 (by simp [Option.some.inj same])).elim
  · by_contra uncancelled
    have uncancelled := Bool.eq_false_iff.2 uncancelled
    cases (kept.closing (.inl closed)).symm.trans (current token runs uncancelled)

/-- A gateway with one session. -/
def oneRoom (id : SessionId) : Gateway :=
  { Gateway.start Settings.default EngineSet.empty with
    rooms := [⟨id, .ofContent .blank "" .lines, true⟩] }

/-- Two fetches have found the session before either registers its token, and the second registers
its own before the first runs. Once both run, the cancelled one ends. -/
def overlapping : List Event :=
  [.lookUp, .lookUp, .proceed 0, .proceed 1, .proceed 0, .proceed 0, .proceed 0, .proceed 0,
    .complete ⟨0⟩]

/-- Of two fetches that overlap the later one is left, and a closing cancels it. -/
theorem registered_of_tidy_overlapping :
    let before := ofGateway (oneRoom ⟨[]⟩)
    before.TidyRun ⟨[]⟩ overlapping ∧ before.TidyRun ⟨[]⟩ (overlapping ++ Whole.close.events) ∧
    ∃ open' closed, before.run? ⟨[]⟩ overlapping = some open' ∧ open'.handlers = [] ∧
      open'.running = [⟨1⟩] ∧ open'.isCancelled ⟨1⟩ = false ∧
      (open'.running.filter fun token => !open'.isCancelled token).length ≤ 1 ∧
      open'.registered? ⟨[]⟩ = some ⟨1⟩ ∧
      before.run? ⟨[]⟩ (overlapping ++ Whole.close.events) = some closed ∧ closed.handlers = [] ∧
      closed.gateway.session? ⟨[]⟩ = none ∧ closed.running = [⟨1⟩] ∧
      closed.isCancelled ⟨1⟩ = true := by
  intro before
  have tidy : before.TidyRun ⟨[]⟩ overlapping := by decide +kernel
  have tidy' : before.TidyRun ⟨[]⟩ (overlapping ++ Whole.close.events) := by decide +kernel
  obtain ⟨open', closed, reached, still, runs, uncancelled, reached', still', gone, runs'⟩ :
      ∃ open' closed, before.run? ⟨[]⟩ overlapping = some open' ∧ open'.handlers = [] ∧
        open'.running = [⟨1⟩] ∧ open'.isCancelled ⟨1⟩ = false ∧
        before.run? ⟨[]⟩ (overlapping ++ Whole.close.events) = some closed ∧ closed.handlers = [] ∧
        closed.gateway.session? ⟨[]⟩ = none ∧ closed.running = [⟨1⟩] :=
    ⟨_, _, rfl, rfl, rfl, rfl, rfl, rfl, rfl, rfl⟩
  obtain ⟨one, current, -⟩ := registered_of_tidy rfl tidy reached still
  obtain ⟨-, -, none⟩ := registered_of_tidy rfl tidy' reached' still'
  exact ⟨tidy, tidy', open', closed, reached, still, runs, uncancelled, one,
    current _ (runs ▸ List.mem_singleton_self _) uncancelled, reached', still', gone, runs',
    none gone _ (runs' ▸ List.mem_singleton_self _)⟩

/-! ## Handlers that are not interrupted -/

theorem tidyRun_append {events others : List Event} (tidy : traffic.TidyRun id events)
    (rest : ∀ between, traffic.run? id events = some between → between.TidyRun id others) :
    traffic.TidyRun id (events ++ others) := by
  induction events generalizing traffic with
  | nil => exact rest traffic rfl
  | cons event events ih =>
    refine ⟨tidy.1, fun next taken => ih (tidy.2 next taken) fun between reached => ?_⟩
    refine rest between ?_
    rw [run?, List.foldlM_cons, taken]
    exact reached

/-- A fetch that is not interrupted is the handler of the gateway. -/
theorem run?_fetch (gateway : Gateway) (running : List FetchToken) :
    run? id ⟨gateway, [], running⟩ Whole.fetch.events = (gateway.session? id).map fun _ =>
      ⟨(gateway.fetch id).gateway, [], gateway.fetches.issue.1 :: running⟩ := by
  rw [run?, Whole.events, List.foldlM_cons, step?, Gateway.fetch]
  cases gateway.session? id with
  | none => rfl
  | some session => rfl

/-- Closing a session that is not open changes nothing. -/
theorem closeRoom_of_session?_eq_none {gateway : Gateway} (closed : gateway.session? id = none) :
    gateway.closeRoom id = gateway := by
  have same : (gateway.rooms.map fun room =>
      if room.id = id then { room with isOpen := false } else room) = gateway.rooms := by
    refine (List.map_congr_left fun room inside => ?_).trans (List.map_id _)
    have shut : (room.isOpen && room.id = id) = false := by
      rw [Gateway.session?, Option.map_eq_none_iff, List.find?_eq_none] at closed
      simpa using closed room inside
    split
    · next own =>
      rw [decide_eq_true own, Bool.and_true] at shut
      rw [← shut, id_eq]
    · rfl
  rw [Gateway.closeRoom, same]

/-- A closing that is not interrupted is the handler of the gateway. -/
theorem run?_close (gateway : Gateway) (running : List FetchToken) :
    run? id ⟨gateway, [], running⟩ Whole.close.events =
      some ⟨(gateway.close id).gateway, [], running⟩ := by
  have reached : run? id ⟨gateway, [], running⟩ Whole.close.events =
      some ⟨(gateway.cancelFetch id).closeRoom id, [], running⟩ := rfl
  rw [reached, Gateway.close]
  cases found : (gateway.cancelFetch id).session? id with
  | none =>
    rw [closeRoom_of_session?_eq_none found]
    rfl
  | some session => rfl

/-- Handlers that are not interrupted make tidy steps only. -/
theorem tidyRun_whole (kept : traffic.Kept id) (still : traffic.handlers = [])
    (wholes : List Whole) : traffic.TidyRun id (wholes.flatMap Whole.events) := by
  induction wholes generalizing traffic with
  | nil => trivial
  | cons whole wholes ih =>
    obtain ⟨gateway, handlers, running⟩ := traffic
    cases still
    have tidy : TidyRun id ⟨gateway, [], running⟩ whole.events := by
      cases whole with
      | fetch =>
        refine ⟨trivial, fun next taken => ?_⟩
        rw [step?] at taken
        split at taken
        · next found =>
          cases taken
          refine ⟨fun _ closing => ?_, fun next taken => ?_⟩
          · rcases closing with none | ⟨handler, inside, closes⟩
            · rw [none] at found
              cases found
            · cases List.mem_singleton.1 inside
              cases closes
          · cases taken
            refine ⟨nofun, fun next taken => ?_⟩
            cases taken
            exact ⟨nofun, fun _ _ => trivial⟩
        · cases taken
      | close =>
        refine ⟨trivial, fun next taken => ?_⟩
        cases taken
        refine ⟨nofun, fun next taken => ?_⟩
        cases taken
        exact ⟨nofun, fun _ _ => trivial⟩
      | complete token =>
        refine ⟨fun runs ended other current => ?_, fun _ _ => trivial⟩
        have mine := (kept.known token runs ended).resolve_right fun ⟨_, inside, _⟩ =>
          nomatch inside
        exact Option.some.inj (current.symm.trans mine)
    have ends (between : Traffic)
        (reached : run? id ⟨gateway, [], running⟩ whole.events = some between) :
        between.handlers = [] := by
      cases whole with
      | fetch =>
        rw [run?_fetch] at reached
        obtain ⟨session, -, rfl⟩ := Option.map_eq_some_iff.1 reached
        rfl
      | close =>
        rw [run?_close] at reached
        cases reached
        rfl
      | complete token =>
        rw [run?, Whole.events, List.foldlM_cons, step?] at reached
        split at reached
        · cases reached
          rfl
        · cases reached
    exact tidyRun_append tidy fun between reached =>
      ih (kept.run tidy reached) (ends between reached)

/-! ## Steps that are not tidy -/

/-- A fetch runs; the next one has registered its token when the first one ends. Then comes a third
one. -/
def endsBetween : List Event :=
  Whole.fetch.events ++ [.lookUp, .proceed 0, .complete ⟨0⟩, .proceed 0, .proceed 0] ++
    Whole.fetch.events

/-- A fetch has found the session, and goes on when the session has been closed. -/
def closedBetween : List Event :=
  [.lookUp, .takeOut, .proceed 1, .proceed 1, .proceed 0, .proceed 0, .proceed 0]

/-- The fetch that has ended takes out the token of the next one, which the third one therefore does
not cancel: both run. And a fetch that registers its token behind a closing runs on without a
session. -/
theorem untidy_runs_escape :
    (∃ after, (ofGateway (oneRoom ⟨[]⟩)).run? ⟨[]⟩ endsBetween = some after ∧
      after.handlers = [] ∧ after.running = [⟨2⟩, ⟨1⟩] ∧ after.isCancelled ⟨2⟩ = false ∧
      after.isCancelled ⟨1⟩ = false ∧ after.registered? ⟨[]⟩ = some ⟨2⟩) ∧
    ∃ after, (ofGateway (oneRoom ⟨[]⟩)).run? ⟨[]⟩ closedBetween = some after ∧
      after.handlers = [] ∧ after.gateway.session? ⟨[]⟩ = none ∧ after.running = [⟨0⟩] ∧
      after.isCancelled ⟨0⟩ = false :=
  ⟨⟨_, rfl, rfl, rfl, rfl, rfl, rfl⟩, _, rfl, rfl, rfl, rfl, rfl⟩

end Traffic

end MergeConflict
