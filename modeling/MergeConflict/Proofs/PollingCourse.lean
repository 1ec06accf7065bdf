import Mathlib.Data.Nat.Find
import MergeConflict.Proofs.SharedSession

/-!
# The course of a poll

A heuristic run opens, and then asks, hears an answer and puts it in, until an answer is final or it
is out of attempts. Between two attempts it rests for the interval of its policy. All that it does
is laid down by the answers it gets, `HeuristicRun.course`, and where it stands by what of that is
still ahead, `HeuristicRun.Ahead`.

* `HeuristicRun.Progress.advance`, `.receive`, `.wake`, `.cancel`: whatever happens to a run, what
  it has done stays a first part of its course; only the end of a cancelled run is not in it.
* `HeuristicRun.course_completes`: what the course comes to, and what it leaves in the pool.
-/

namespace MergeConflict

/-- Something that a heuristic run does, or that it has waited for. -/
inductive Deed where
  | put (update : Update)
  | ask (request : HeuristicRequest)
  | hear (answer : Except Failure Report)
  /-- Waits for the timer between two attempts. -/
  | rest (interval : Nat)
  | finish (result : Except EngineError Unit)

namespace Deed

def put? : Deed → Option Update
  | put update => some update
  | _ => none

def ask? : Deed → Option HeuristicRequest
  | ask request => some request
  | _ => none

end Deed

/-- What is put in with some deeds, in order. -/
def putsOf (deeds : List Deed) : List Update :=
  deeds.filterMap Deed.put?

/-- What is asked with some deeds, in order. -/
def asksOf (deeds : List Deed) : List HeuristicRequest :=
  deeds.filterMap Deed.ask?

namespace Pool

variable {report : Report}

theorem commit_of_pending (pending : report.pending = true) (pool : Pool) :
    pool.commit (.heuristic report) =
      { pool.withResolutions report.resolutions with status := .pending } :=
  if_pos pending

theorem commit_of_final (final : report.pending = false) (pool : Pool) :
    pool.commit (.heuristic report) =
      { pool.withResolutions report.resolutions with
        status := .ready
        noPatches := (referenceOf report).isNone
        merged := referenceOf report } :=
  if_neg (Bool.eq_false_iff.1 final)

end Pool

namespace HeuristicRun

/-! ## What a run is to do -/

/-- What is put in for an answer. -/
def reply : Except Failure Report → Update
  | .ok report => .heuristic report
  | .error _ => .heuristicFailed

/-- The answer is not the last one. -/
def isPending : Except Failure Report → Bool
  | .ok report => report.pending
  | .error _ => false

/-- The result of a run whose last answer this is. -/
def resultOf : Except Failure Report → Except EngineError Unit
  | .ok _ => .ok ()
  | .error failure => .error (.failed failure)

/-- One attempt. -/
def exchange (request : HeuristicRequest) (answer : Except Failure Report) : List Deed :=
  [.ask request, .hear answer, .put (reply answer)]

/-- The first attempts, with one rest for an interval between any two. -/
def exchanges (interval : Nat) (request : HeuristicRequest)
    (script : Nat → Except Failure Report) : Nat → List Deed
  | 0 => []
  | k + 1 => exchanges interval request script k ++ (if k = 0 then [] else [.rest interval]) ++
      exchange request (script k)

/-- The end of a run, by its result. -/
def closing : Except EngineError Unit → List Deed
  | .error (.timeout attempts) =>
    [.put .heuristicTimedOut, .finish (.error (.timeout attempts))]
  | result => [.finish result]

/-- What there is to do behind an answer, if there is some more to do where it is not final. -/
def beyond (interval : Nat) (answer : Except Failure Report) (left : Nat) (more : List Deed) :
    List Deed :=
  if isPending answer then (if left = 0 then [] else [.rest interval]) ++ more
  else closing (resultOf answer)

section

variable (policy : PollingSettings) (request : HeuristicRequest)
  (script : Nat → Except Failure Report)

/-- What there is to do once some answers have been heard and some attempts are left. -/
def onward : (left heard : Nat) → List Deed
  | 0, _ => closing (.error (.timeout policy.attempts))
  | left + 1, heard => exchange request (script heard) ++
      beyond policy.interval (script heard) left (onward left (heard + 1))

/-- All that a run does that nobody cancels, if it gets the answers of a script. -/
def course : List Deed :=
  .put .heuristicStarted :: onward policy request script policy.attempts 0

/-- What is ahead of a run that has heard some answers. -/
inductive Ahead : Nat → HeuristicRun → List Deed → Prop
  | opening : Ahead 0 .opening (course policy request script)
  | asking {heard left : Nat} : heard + (left + 1) = policy.attempts →
    Ahead heard (.asking (heard + 1)) (onward policy request script (left + 1) heard)
  | waiting {heard left : Nat} : heard + (left + 1) = policy.attempts →
    Ahead heard (.waiting (heard + 1))
      (.hear (script heard) :: .put (reply (script heard)) ::
        beyond policy.interval (script heard) left
          (onward policy request script left (heard + 1)))
  | holding {heard left : Nat} : heard + (left + 1) = policy.attempts →
    Ahead (heard + 1) (.holding (heard + 1) (script heard))
      (.put (reply (script heard)) ::
        beyond policy.interval (script heard) left
          (onward policy request script left (heard + 1)))
  | resting {heard left : Nat} : heard + (left + 1) = policy.attempts →
    Ahead heard (.resting heard policy.interval)
      (.rest policy.interval :: onward policy request script (left + 1) heard)
  | expiring {heard : Nat} :
    Ahead heard .expiring (onward policy request script 0 heard)

/-- How far a run has come that has heard some answers. -/
inductive Progress : Nat → Bool → HeuristicRun → List Deed → Prop
  | underway {heard : Nat} {isCancelled : Bool} {run : HeuristicRun} {done ahead : List Deed} :
    done ++ ahead = course policy request script → Ahead policy request script heard run ahead →
    Progress heard isCancelled run done
  | finished {heard : Nat} {isCancelled : Bool} {result : Except EngineError Unit} :
    (course policy request script).getLast? = some (.finish result) →
    Progress heard isCancelled (.ended result) (course policy request script)
  | quit {heard : Nat} {done : List Deed} : done <+: course policy request script →
    Progress heard true (.ended (.error .cancelled)) (done ++ [.finish (.error .cancelled)])

end

variable {policy : PollingSettings} {request : HeuristicRequest}
  {script : Nat → Except Failure Report} {heard : Nat} {isCancelled : Bool}
  {run next : HeuristicRun} {session after : Session} {done ahead : List Deed}

/-- What a run does with its next move. -/
def deeds (policy : PollingSettings) (isCancelled : Bool) (session : Session)
    (run : HeuristicRun) : List Deed :=
  run.updates.map .put ++ (run.request? isCancelled session).toList.map .ask ++
    ((run.advance policy isCancelled session).bind (·.1.result?)).toList.map .finish

/-- The run waits for an answer or for the next attempt, or is about to ask. -/
def waits : HeuristicRun → Bool
  | asking _ => true
  | waiting _ => true
  | resting .. => true
  | _ => false

/-- What is ahead of a cancelled run from where it waits. -/
inductive Quitting : HeuristicRun → List Deed → Prop
  | waits {run : HeuristicRun} : run.waits = true → Quitting run [.finish (.error .cancelled)]
  | ended {result : Except EngineError Unit} : Quitting (.ended result) []

/-! ## What a run has done -/

theorem advance_of_waits (waits : run.waits = true) (session : Session) :
    run.advance policy true session = some (.ended (.error .cancelled), session) := by
  cases run with
  | asking attempt => rfl
  | waiting attempt => rfl
  | resting attempt interval => rfl
  | _ => cases waits

theorem deeds_of_waits (waits : run.waits = true) (session : Session) :
    run.deeds policy true session = [.finish (.error .cancelled)] := by
  cases run with
  | asking attempt => rfl
  | waiting attempt => rfl
  | resting attempt interval => rfl
  | _ => cases waits

theorem result?_behind {more : HeuristicRun} (opened : more.result? = none) (attempt : Nat) :
    (behind policy attempt more).result? = none := by
  unfold behind
  split
  · exact opened
  · rfl

theorem deeds_opening (session : Session) :
    opening.deeds policy isCancelled session = [.put .heuristicStarted] := by
  have goesOn : (behind policy 0 (asking 1)).result? = none := result?_behind rfl 0
  rw [deeds, advance, Option.bind_some, goesOn]
  rfl

theorem deeds_holding_pending {report : Report} (pending : report.pending = true) (attempt : Nat)
    (session : Session) :
    (holding attempt (.ok report)).deeds policy isCancelled session =
      [.put (.heuristic report)] := by
  have goesOn : (behind policy attempt (resting attempt policy.interval)).result? = none :=
    result?_behind rfl _
  rw [deeds, advance, Option.bind_some, if_pos pending, goesOn]
  rfl

theorem deeds_holding_final {report : Report} (final : report.pending = false) (attempt : Nat)
    (session : Session) :
    (holding attempt (.ok report)).deeds policy isCancelled session =
      [.put (.heuristic report), .finish (.ok ())] := by
  rw [deeds, advance, Option.bind_some, if_neg (Bool.not_eq_true _ ▸ final)]
  rfl

/-- Behind its opening a run asks, if it has an attempt. -/
theorem ahead_behind_opening : Ahead policy request script 0 (behind policy 0 (asking 1))
    (onward policy request script policy.attempts 0) := by
  cases all : policy.attempts with
  | zero =>
    rw [behind, all, if_neg (Nat.lt_irrefl 0)]
    exact .expiring
  | succ left =>
    rw [behind, all, if_pos (Nat.succ_pos left)]
    exact .asking (by rw [all, Nat.zero_add])

/-- Behind an answer that is not final a run rests, if it has another attempt. -/
theorem ahead_behind_pending {left : Nat} (fits : heard + left = policy.attempts) :
    Ahead policy request script heard (behind policy heard (resting heard policy.interval))
      ((if left = 0 then [] else [.rest policy.interval]) ++
        onward policy request script left heard) := by
  cases left with
  | zero =>
    rw [behind, if_neg (by omega)]
    exact .expiring
  | succ left =>
    rw [behind, if_pos (by omega)]
    exact .resting fits

/-- A move does what is ahead first, or all of it, or the run was waiting and is cancelled. -/
theorem Ahead.advance (stands : Ahead policy request script heard run ahead)
    (asked : session.file.heuristicRequest = request)
    (moved : run.advance policy isCancelled session = some (next, after)) :
    (∃ rest, run.deeds policy isCancelled session ++ rest = ahead ∧
      Ahead policy request script heard next rest) ∨
    (∃ result, next = .ended result ∧ run.deeds policy isCancelled session = ahead ∧
      ahead.getLast? = some (.finish result)) ∨
    isCancelled = true ∧ run.waits = true := by
  cases stands with
  | opening =>
    cases moved
    refine .inl ⟨_, ?_, ahead_behind_opening⟩
    rw [deeds_opening]
    rfl
  | @asking _ left fits =>
    cases isCancelled with
    | true => exact .inr (.inr ⟨rfl, rfl⟩)
    | false =>
      cases moved
      subst asked
      exact .inl ⟨_, rfl, .waiting fits⟩
  | waiting fits =>
    cases isCancelled with
    | true => exact .inr (.inr ⟨rfl, rfl⟩)
    | false => cases moved
  | @holding heard left fits =>
    rw [beyond]
    cases answer : script heard with
    | error failure =>
      rw [answer] at moved
      cases moved
      exact .inr (.inl ⟨_, rfl, rfl, rfl⟩)
    | ok report =>
      rw [answer] at moved
      cases moved
      cases last : report.pending with
      | true =>
        rw [deeds_holding_pending last, isPending, if_pos last, if_pos rfl]
        exact .inl ⟨_, rfl, ahead_behind_pending (by omega)⟩
      | false =>
        rw [deeds_holding_final last, isPending, if_neg (Bool.eq_false_iff.1 last), if_neg nofun]
        exact .inr (.inl ⟨_, rfl, rfl, rfl⟩)
  | resting fits =>
    cases isCancelled with
    | true => exact .inr (.inr ⟨rfl, rfl⟩)
    | false => cases moved
  | expiring =>
    cases moved
    exact .inr (.inl ⟨_, rfl, rfl, rfl⟩)

/-- A run that nobody cancels can always go on: it moves, or it can be told what it waits for. -/
theorem Ahead.exists_move (stands : Ahead policy request script heard run ahead)
    (session : Session) :
    (∃ next after, run.advance policy false session = some (next, after) ∧
      run.deeds policy false session ≠ []) ∨
    (∃ next, run.receive (script heard) = some next) ∨
    ∃ next interval, run.wake = some next ∧ run.interval? = some interval := by
  cases stands with
  | opening => exact .inl ⟨_, _, rfl, by rw [deeds_opening]; nofun⟩
  | asking fits => exact .inl ⟨_, _, rfl, nofun⟩
  | waiting fits => exact .inr (.inl ⟨_, rfl⟩)
  | @holding heard left fits =>
    cases script heard with
    | ok report => exact .inl ⟨_, _, rfl, nofun⟩
    | error failure => exact .inl ⟨_, _, rfl, nofun⟩
  | resting fits => exact .inr (.inr ⟨_, _, rfl, rfl⟩)
  | expiring => exact .inl ⟨_, _, rfl, nofun⟩

namespace Progress

theorem advance (progress : Progress policy request script heard isCancelled run done)
    (asked : session.file.heuristicRequest = request)
    (moved : run.advance policy isCancelled session = some (next, after)) :
    Progress policy request script heard isCancelled next
      (done ++ run.deeds policy isCancelled session) := by
  cases progress with
  | underway split stands =>
    rcases stands.advance asked moved with ⟨rest, first, stands⟩ | ⟨result, rfl, all, last⟩ |
      ⟨rfl, waits⟩
    · refine .underway ?_ stands
      rw [List.append_assoc, first, split]
    · rw [all, split]
      refine .finished ?_
      rw [← split, List.getLast?_append, last]
      rfl
    · cases moved.symm.trans (advance_of_waits waits session)
      rw [deeds_of_waits waits]
      exact .quit ⟨_, split⟩
  | finished last => cases moved
  | quit part => cases moved

theorem receive (progress : Progress policy request script heard isCancelled run done)
    (told : run.receive (script heard) = some next) :
    Progress policy request script (heard + 1) isCancelled next
      (done ++ [.hear (script heard)]) := by
  cases progress with
  | underway split stands =>
    cases stands with
    | waiting fits =>
      cases told
      refine .underway ?_ (.holding fits)
      rw [List.append_assoc]
      exact split
    | _ => cases told
  | finished last => cases told
  | quit part => cases told

theorem wake (progress : Progress policy request script heard isCancelled run done)
    (woken : run.wake = some next) :
    Progress policy request script heard isCancelled next
      (done ++ run.interval?.toList.map .rest) := by
  cases progress with
  | underway split stands =>
    cases stands with
    | resting fits =>
      cases woken
      refine .underway ?_ (.asking fits)
      rw [List.append_assoc]
      exact split
    | _ => cases woken
  | finished last => cases woken
  | quit part => cases woken

theorem cancel (progress : Progress policy request script heard isCancelled run done) :
    Progress policy request script heard true run done := by
  cases progress with
  | underway split stands => exact .underway split stands
  | finished last => exact .finished last
  | quit part => exact .quit part

end Progress

/-! ## What it comes to -/

theorem putsOf_cons_put (update : Update) (deeds : List Deed) :
    putsOf (.put update :: deeds) = update :: putsOf deeds :=
  rfl

theorem putsOf_append (deeds more : List Deed) :
    putsOf (deeds ++ more) = putsOf deeds ++ putsOf more :=
  List.filterMap_append

theorem putsOf_rests (intervals : List Nat) : putsOf (intervals.map .rest) = [] := by
  simp [putsOf, Deed.put?, Function.comp_def]

theorem asksOf_append (deeds more : List Deed) :
    asksOf (deeds ++ more) = asksOf deeds ++ asksOf more :=
  List.filterMap_append

theorem asksOf_exchanges (interval k : Nat) :
    asksOf (exchanges interval request script k) = List.replicate k request := by
  induction k with
  | zero => rfl
  | succ k ih =>
    have still : asksOf (if k = 0 then [] else [.rest interval]) = [] := by
      split
      · rfl
      · rfl
    rw [exchanges, asksOf_append, asksOf_append, ih, still, List.append_nil,
      List.replicate_succ']
    rfl

theorem putsOf_exchanges (interval k : Nat) :
    putsOf (exchanges interval request script k) =
      (List.range k).map fun j => reply (script j) := by
  induction k with
  | zero => rfl
  | succ k ih =>
    have still : putsOf (if k = 0 then [] else [.rest interval]) = [] := by
      split
      · rfl
      · rfl
    rw [exchanges, putsOf_append, putsOf_append, ih, still, List.append_nil, List.range_succ,
      List.map_append]
    rfl

/-- While no answer is final the run goes on to the next attempt. -/
theorem course_of_pending {k : Nat} (within : k < policy.attempts)
    (pending : ∀ j < k, isPending (script j) = true) :
    course policy request script =
      .put .heuristicStarted :: (exchanges policy.interval request script k ++
        (if k = 0 then [] else [.rest policy.interval]) ++
        onward policy request script (policy.attempts - k) k) := by
  -- the rest in front of an attempt goes with the attempt, so the first one has none
  induction k with
  | zero => rfl
  | succ k ih =>
    obtain ⟨left, more⟩ : ∃ left, policy.attempts - k = left + 1 + 1 :=
      ⟨policy.attempts - k - 2, by omega⟩
    have fewer : policy.attempts - (k + 1) = left + 1 := by omega
    rw [ih (by omega) fun j below => pending j (by omega), more, fewer, onward,
      beyond, if_pos (pending k (by omega)), if_neg (Nat.succ_ne_zero left), exchanges,
      if_neg (Nat.succ_ne_zero k)]
    simp only [List.append_assoc]

/-- The course if an answer is final. -/
theorem course_of_final {k : Nat} (within : k < policy.attempts)
    (pending : ∀ j < k, isPending (script j) = true) (final : isPending (script k) = false) :
    course policy request script =
      .put .heuristicStarted :: (exchanges policy.interval request script (k + 1) ++
        closing (resultOf (script k))) := by
  obtain ⟨left, more⟩ : ∃ left, policy.attempts - k = left + 1 :=
    ⟨policy.attempts - k - 1, by omega⟩
  rw [course_of_pending within pending, more, onward, beyond, if_neg (Bool.eq_false_iff.1 final),
    exchanges]
  simp only [List.append_assoc]

/-- The course if none of the answers is final. -/
theorem course_of_expiry (pending : ∀ j < policy.attempts, isPending (script j) = true) :
    course policy request script =
      .put .heuristicStarted :: (exchanges policy.interval request script policy.attempts ++
        closing (.error (.timeout policy.attempts))) := by
  cases all : policy.attempts with
  | zero => rw [course, all, onward, exchanges, all]; rfl
  | succ k =>
    have last : policy.attempts - k = 0 + 1 := by omega
    rw [course_of_pending (k := k) (by omega) fun j below => pending j (by omega), last, onward,
      beyond, if_pos (pending k (by omega)), if_pos rfl, exchanges, onward, all]
    simp only [List.append_assoc, List.nil_append]

theorem putsOf_deeds (policy : PollingSettings) (isCancelled : Bool) (session : Session)
    (run : HeuristicRun) : putsOf (run.deeds policy isCancelled session) = run.updates := by
  simp [putsOf, deeds, Deed.put?, List.filterMap_map, Function.comp_def]

/-- Either some answer is final, and those in front of it are not, or none is. -/
theorem course_cases (policy : PollingSettings) (request : HeuristicRequest)
    (script : Nat → Except Failure Report) :
    (∃ k < policy.attempts, (∀ j < k, isPending (script j) = true) ∧
      isPending (script k) = false ∧
      course policy request script = .put .heuristicStarted ::
        (exchanges policy.interval request script (k + 1) ++ closing (resultOf (script k)))) ∨
    (∀ j < policy.attempts, isPending (script j) = true) ∧
      course policy request script = .put .heuristicStarted ::
        (exchanges policy.interval request script policy.attempts ++
          closing (.error (.timeout policy.attempts))) := by
  by_cases some : ∃ k, k < policy.attempts ∧ isPending (script k) = false
  · obtain ⟨within, final⟩ := Nat.find_spec some
    have pending (j : Nat) (below : j < Nat.find some) : isPending (script j) = true := by
      have notYet := Nat.find_min some below
      rw [not_and, Bool.not_eq_false] at notYet
      exact notYet (below.trans within)
    exact .inl ⟨_, within, pending, final, course_of_final within pending final⟩
  · have pending (j : Nat) (below : j < policy.attempts) : isPending (script j) = true := by
      by_contra final
      exact some ⟨j, below, Bool.eq_false_iff.2 final⟩
    exact .inr ⟨pending, course_of_expiry pending⟩

theorem putsOf_closing_resultOf (answer : Except Failure Report) :
    putsOf (closing (resultOf answer)) = [] := by
  cases answer with
  | _ => rfl

theorem asksOf_closing (result : Except EngineError Unit) : asksOf (closing result) = [] := by
  unfold closing
  split
  · rfl
  · rfl

theorem getLast?_closing (result : Except EngineError Unit) :
    (closing result).getLast? = some (.finish result) := by
  unfold closing
  split
  · rfl
  · rfl

/-- The requests along a course that ends behind some attempts. -/
theorem asksOf_ended (calls : Nat) (result : Except EngineError Unit) :
    asksOf (.put .heuristicStarted ::
        (exchanges policy.interval request script calls ++ closing result)) =
      List.replicate calls request := by
  have asks := asksOf_append (exchanges policy.interval request script calls) (closing result)
  rw [asksOf_exchanges, asksOf_closing, List.append_nil] at asks
  exact asks

theorem exists_asksOf_course (policy : PollingSettings) (request : HeuristicRequest)
    (script : Nat → Except Failure Report) :
    ∃ calls ≤ policy.attempts,
      asksOf (course policy request script) = List.replicate calls request := by
  rcases course_cases policy request script with ⟨k, within, -, -, all⟩ | ⟨-, all⟩
  · exact ⟨k + 1, within, all ▸ asksOf_ended ..⟩
  · exact ⟨policy.attempts, Nat.le_refl _, all ▸ asksOf_ended ..⟩

/-- What a run has done is a first part of its course, or that and the end of a cancelled run. -/
theorem Progress.done_cases
    (progress : Progress policy request script heard isCancelled run done) :
    done <+: course policy request script ∨ isCancelled = true ∧
      run = .ended (.error .cancelled) ∧
      ∃ part, part <+: course policy request script ∧
        done = part ++ [.finish (.error .cancelled)] := by
  cases progress with
  | underway split stands => exact .inl ⟨_, split⟩
  | finished last => exact .inl List.prefix_rfl
  | quit part => exact .inr ⟨rfl, rfl, _, part, rfl⟩

/-- There are no more calls than attempts, all for the same request. -/
theorem Progress.exists_asksOf
    (progress : Progress policy request script heard isCancelled run done) :
    ∃ calls ≤ policy.attempts, asksOf done = List.replicate calls request := by
  obtain ⟨part, within, same⟩ : ∃ part, part <+: course policy request script ∧
      asksOf done = asksOf part := by
    rcases progress.done_cases with within | ⟨-, -, part, within, rfl⟩
    · exact ⟨done, within, rfl⟩
    · exact ⟨part, within, (asksOf_append ..).trans (List.append_nil _)⟩
  obtain ⟨calls, few, all⟩ := exists_asksOf_course policy request script
  have asks : asksOf part <+: asksOf (course policy request script) := within.filterMap Deed.ask?
  rw [all, List.prefix_replicate_iff] at asks
  exact ⟨_, asks.1.trans few, same.trans asks.2⟩

/-- The resolutions of the last of some answers. -/
def lastResolutions (script : Nat → Except Failure Report) : Nat → List Resolution
  | 0 => []
  | k + 1 =>
    match script k with
    | .ok report => report.resolutions
    | .error _ => []

/-- The pool behind the opening and some answers. -/
def pooled (script : Nat → Except Failure Report) (before : Pool) (k : Nat) : Pool :=
  ((List.range k).map fun j => reply (script j)).foldl Pool.commit
    (before.commit .heuristicStarted)

theorem pooled_succ (before : Pool) (k : Nat) :
    pooled script before (k + 1) = (pooled script before k).commit (reply (script k)) := by
  rw [pooled, List.range_succ, List.map_append, List.foldl_append]
  rfl

theorem foldl_commit_ended (before : Pool) (calls : Nat) (result : Except EngineError Unit) :
    (putsOf (.put .heuristicStarted ::
        (exchanges policy.interval request script calls ++ closing result))).foldl
          Pool.commit before =
      (putsOf (closing result)).foldl Pool.commit (pooled script before calls) := by
  have puts := putsOf_append (exchanges policy.interval request script calls) (closing result)
  rw [putsOf_exchanges] at puts
  rw [putsOf_cons_put, puts, List.foldl_cons, List.foldl_append, pooled]

/-- As long as no answer is final there is no merged reference, and there are the resolutions of the
last answer. -/
theorem pooled_of_pending {k : Nat} (pending : ∀ j < k, isPending (script j) = true)
    (before : Pool) :
    Pool.Groups (lastResolutions script k) (pooled script before k).resolutions ∧
      (pooled script before k).merged = none := by
  induction k with
  | zero => exact ⟨Pool.groups_nil, rfl⟩
  | succ k ih =>
    obtain ⟨-, merged⟩ := ih fun j below => pending j (by omega)
    have last := pending k (by omega)
    rw [pooled_succ, lastResolutions]
    cases answer : script k with
    | error failure =>
      rw [answer] at last
      cases last
    | ok report =>
      rw [answer] at last
      rw [reply, Pool.commit_of_pending last]
      exact ⟨Pool.groups_withResolutions (pooled script before k) _, merged⟩

section

variable (policy : PollingSettings) (request : HeuristicRequest)
  (script : Nat → Except Failure Report)

/-- How a run ends that is not ended from outside: after how many calls, with which result, and with
what in the pool. -/
inductive Outcome : Nat → Except EngineError Unit → Pool → Prop
  | answered {k : Nat} {report : Report} {pool : Pool} : k < policy.attempts →
    (∀ j < k, isPending (script j) = true) → script k = .ok report → report.pending = false →
    pool.status = .ready → Pool.Groups report.resolutions pool.resolutions →
    (∀ lines, pool.merged = some lines ↔
      report.merged = some lines ∧ lines ≠ [] ∧ report.patchesEmpty = false) →
    Outcome (k + 1) (.ok ()) pool
  | failed {k : Nat} {failure : Failure} {pool : Pool} : k < policy.attempts →
    (∀ j < k, isPending (script j) = true) → script k = .error failure →
    pool.status = .failed → pool.resolutions = [] → pool.merged = none →
    Outcome (k + 1) (.error (.failed failure)) pool
  | expired {pool : Pool} : (∀ j < policy.attempts, isPending (script j) = true) →
    pool.status = .timedOut →
    Pool.Groups (lastResolutions script policy.attempts) pool.resolutions → pool.merged = none →
    Outcome policy.attempts (.error (.timeout policy.attempts)) pool

/-- A run that has come to its end: what it has done, and what it leaves in the pool. -/
structure Completes (calls : Nat) (done : List Deed) (result : Except EngineError Unit)
    (pool : Pool) : Prop where
  outcome : Outcome policy script calls result pool
  deeds : done = .put .heuristicStarted ::
    (exchanges policy.interval request script calls ++ closing result)
  asks : asksOf done = List.replicate calls request

end

/-- What the course comes to. -/
theorem course_completes {pool before : Pool} {result : Except EngineError Unit}
    (agrees : Pool.Agrees .heuristic pool
      ((putsOf (course policy request script)).foldl Pool.commit before))
    (last : (course policy request script).getLast? = some (.finish result)) :
    ∃ calls, Completes policy request script calls (course policy request script) result pool := by
  have closes {calls : Nat} {other : Except EngineError Unit}
      (all : course policy request script =
        .put .heuristicStarted ::
          (exchanges policy.interval request script calls ++ closing other)) :
      other = result := by
    rw [all, ← List.cons_append, List.getLast?_append, getLast?_closing, Option.some_or] at last
    cases last
    rfl
  rcases course_cases policy request script with ⟨k, within, pending, final, all⟩ | ⟨pending, all⟩
  · obtain rfl := closes all
    refine ⟨k + 1, ?_, all, all ▸ asksOf_ended ..⟩
    rw [all, foldl_commit_ended, putsOf_closing_resultOf, List.foldl_nil, pooled_succ] at agrees
    cases answer : script k with
    | ok report =>
      rw [answer] at agrees final
      rw [reply, Pool.commit_of_final final] at agrees
      obtain ⟨status, resolutions, merged, -⟩ := agrees
      refine .answered within pending answer final status ?_ fun lines => ?_
      · rw [resolutions]
        exact Pool.groups_withResolutions (pooled script before k) _
      · rw [merged]
        exact Pool.referenceOf_eq_some_iff
    | error failure =>
      rw [answer] at agrees
      obtain ⟨status, resolutions, merged, -⟩ := agrees
      exact .failed within pending answer status resolutions merged
  · obtain rfl := closes all
    refine ⟨_, ?_, all, all ▸ asksOf_ended ..⟩
    rw [all, foldl_commit_ended] at agrees
    obtain ⟨status, resolutions, merged, -⟩ := agrees
    obtain ⟨groups, none⟩ := pooled_of_pending pending before
    refine .expired pending status ?_ (merged.trans none)
    rw [resolutions]
    exact groups

theorem Progress.completes {pool before : Pool} {result : Except EngineError Unit}
    (progress : Progress policy request script heard isCancelled (.ended result) done)
    (agrees : Pool.Agrees .heuristic pool ((putsOf done).foldl Pool.commit before)) :
    isCancelled = true ∧ result = .error .cancelled ∨
      ∃ calls, Completes policy request script calls done result pool := by
  cases progress with
  | underway split stands => cases stands
  | finished last => exact .inr (course_completes agrees last)
  | quit part => exact .inl ⟨rfl, rfl⟩

end HeuristicRun

end MergeConflict
