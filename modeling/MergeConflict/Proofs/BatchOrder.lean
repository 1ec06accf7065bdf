import Mathlib.Data.List.Nodup
import MergeConflict.Proofs.SharedSession

/-!
# Batches of edit scripts

Every run of the edit-script collector is a batch with an id one above the last. When runs overlap,
the pool knows the id of the batch that was opened last, and drops what carries another id. So what
is shown belongs to the run that opened last, whatever the older ones still do.

`Team.Orderly` is the invariant: the batches opened so far carry the ids 1, 2, ... in order, each of
another member; a member at work has opened the batch that its results carry, and has not been told
yet of the blocks it still waits for.
-/

namespace MergeConflict

namespace ScriptRun

/-- A run behind the end of a task. -/
def behind (batch : UInt64) (block : Nat) (outcome : Option (Except Failure ScriptOutcome))
    (tasks : List ScriptTask) (count : Nat) : ScriptRun :=
  match outcome with
  | none => joining batch tasks count
  | some result => joined batch block result tasks count

/-- Only a run that waits for the task of a block learns of its end, and then no longer waits for
it. -/
theorem exists_of_join {run next : ScriptRun} {block : Nat}
    {outcome : Option (Except Failure ScriptOutcome)} (told : run.join block outcome = some next) :
    ∃ batch tasks count, run = joining batch tasks count ∧ (∃ task ∈ tasks, task.block = block) ∧
      next = behind batch block outcome (tasks.filter (·.block ≠ block)) count := by
  cases run with
  | joining batch tasks count =>
    rw [join] at told
    split at told
    · cases told
    · next task found =>
      refine ⟨batch, tasks, count, rfl, ⟨task, List.mem_of_find?_eq_some found, ?_⟩, ?_⟩
      · simpa using List.find?_some found
      · cases outcome with
        | none => exact (Option.some.inj told).symm
        | some result => exact (Option.some.inj told).symm
  | _ => cases told

end ScriptRun

namespace Team

/-- The batches that members have opened, in order. -/
def openings (team : Team) : List (Nat × UInt64) :=
  team.journal.filterMap fun (i, update) => update.batch?.map (i, ·)

/-- All that a member has been told of a block. -/
def answers (team : Team) (i block : Nat) : List (Option (Except Failure ScriptOutcome)) :=
  team.heard.filterMap fun (j, news) =>
    match news with
    | .scriptDone told outcome => if j = i ∧ told = block then some outcome else none
    | _ => none

/-- A member that has not opened a batch, and has not been told of any block. -/
structure Untouched (team : Team) (i : Nat) : Prop where
  openings : ∀ batch, (i, batch) ∉ team.openings
  answers : ∀ block, team.answers i block = []

/-- What a member has done and heard so far, by how far it has come. -/
def Engaged (team : Team) (i : Nat) : Worker → Prop
  | .scripts .opening => team.Untouched i
  | .scripts (.joining batch tasks _) =>
    (i, batch) ∈ team.openings ∧ ∀ task ∈ tasks, team.answers i task.block = []
  | .scripts (.joined batch block result tasks _) =>
    (i, batch) ∈ team.openings ∧ team.answers i block = [some result] ∧
      ∀ task ∈ tasks, team.answers i task.block = []
  | .scripts (.closing batch _) => (i, batch) ∈ team.openings
  | .scripts (.ended _) => True
  | _ => ∀ batch, (i, batch) ∉ team.openings

/-- The batches opened so far, what members know, and what the pool shows of it. -/
structure Orderly (team : Team) : Prop where
  counted : team.session.buffer.pool.batch = UInt64.ofNat team.openings.length
  numbered : team.openings.map Prod.snd = (List.range' 1 team.openings.length).map UInt64.ofNat
  once : (team.openings.map Prod.fst).Nodup
  engaged : ∀ i member, team.members[i]? = some member → team.Engaged i member.worker
  absent : ∀ i, team.members[i]? = none → team.Untouched i
  finished : ∀ i batch, (i, .batchFinished batch) ∈ team.journal → (i, batch) ∈ team.openings
  pending : team.session.buffer.pool.batchPending = true ↔
    ∃ i batch, team.openings.getLast? = some (i, batch) ∧ (i, .batchFinished batch) ∉ team.journal
  answered : ∀ block outcome, team.session.buffer.pool.script? block = some outcome →
    ∃ i batch given, team.openings.getLast? = some (i, batch) ∧
      team.answers i block = [some (.ok given)] ∧ Pool.Trims given outcome

variable {team next : Team} {event : Event} {i : Nat} {batch : UInt64}

/-! ## The latest batch -/

theorem getElem?_snd_of_numbered
    (numbered : team.openings.map Prod.snd = (List.range' 1 team.openings.length).map UInt64.ofNat)
    {k : Nat} (here : team.openings[k]? = some (i, batch)) : batch = UInt64.ofNat (k + 1) := by
  have within : k < team.openings.length := (List.getElem?_eq_some_iff.1 here).1
  have number : (team.openings.map Prod.snd)[k]? = some batch := by
    rw [List.getElem?_map, here, Option.map_some]
  rw [numbered, List.getElem?_map, List.getElem?_range' within, Option.map_some,
    Option.some.injEq] at number
  rw [← number, Nat.one_mul, Nat.add_comm]

/-- A batch is the latest exactly if the pool has its id. -/
theorem Orderly.getLast?_eq_some_iff (orderly : team.Orderly)
    (few : team.openings.length < UInt64.size) (opened : (i, batch) ∈ team.openings) :
    team.openings.getLast? = some (i, batch) ↔ batch = team.session.buffer.pool.batch := by
  obtain ⟨k, here⟩ := List.mem_iff_getElem?.1 opened
  have within : k < team.openings.length := (List.getElem?_eq_some_iff.1 here).1
  have number := getElem?_snd_of_numbered orderly.numbered here
  rw [List.getLast?_eq_getElem?, orderly.counted]
  constructor
  · intro last
    rw [getElem?_snd_of_numbered orderly.numbered last]
    congr 1
    omega
  · intro same
    have place : k + 1 = team.openings.length := by
      have same := congrArg UInt64.toNat (number.symm.trans same)
      rwa [UInt64.toNat_ofNat_of_lt' (by omega), UInt64.toNat_ofNat_of_lt' few] at same
    rw [← place, Nat.add_sub_cancel]
    exact here

/-- The ids are increasing in the order in which the batches were opened. -/
theorem Orderly.increasing (orderly : team.Orderly) (few : team.openings.length < UInt64.size) :
    team.openings.Pairwise fun a b => a.2 < b.2 := by
  have pairwise : (team.openings.map Prod.snd).Pairwise (· < ·) := by
    rw [orderly.numbered, List.pairwise_map]
    refine (List.pairwise_lt_range' 1).imp_of_mem fun {a b} inside inside' less => ?_
    rw [List.mem_range'_1] at inside inside'
    rw [UInt64.lt_iff_toNat_lt, UInt64.toNat_ofNat_of_lt' (by omega),
      UInt64.toNat_ofNat_of_lt' (by omega)]
    exact less
  exact List.pairwise_map.1 pairwise

/-! ## One step -/

/-- Nothing has happened to a member, as far as batches are concerned. -/
structure SameOf (team next : Team) (i : Nat) : Prop where
  openings : ∀ batch, (i, batch) ∈ next.openings ↔ (i, batch) ∈ team.openings
  answers : ∀ block, next.answers i block = team.answers i block

theorem SameOf.untouched (same : team.SameOf next i) (untouched : team.Untouched i) :
    next.Untouched i :=
  ⟨fun batch opened => untouched.openings batch ((same.openings batch).1 opened),
    fun block => (same.answers block).trans (untouched.answers block)⟩

theorem SameOf.engaged (same : team.SameOf next i) {worker : Worker}
    (engaged : team.Engaged i worker) : next.Engaged i worker := by
  have absent (none : ∀ batch, (i, batch) ∉ team.openings) : ∀ batch, (i, batch) ∉ next.openings :=
    fun batch opened => none batch ((same.openings batch).1 opened)
  cases worker with
  | scripts run =>
    cases run with
    | opening => exact same.untouched engaged
    | joining batch tasks count =>
      obtain ⟨opened, unheard⟩ := engaged
      exact ⟨(same.openings batch).2 opened,
        fun task inside => (same.answers _).trans (unheard task inside)⟩
    | joined batch block result tasks count =>
      obtain ⟨opened, heard, unheard⟩ := engaged
      exact ⟨(same.openings batch).2 opened, (same.answers block).trans heard,
        fun task inside => (same.answers _).trans (unheard task inside)⟩
    | closing batch result => exact (same.openings batch).2 engaged
    | ended result => trivial
  | _ => exact absent engaged

/-- When one member changes, the others know what they knew. -/
theorem Orderly.members {member changed : Member} (orderly : team.Orderly)
    (inside : team.members[i]? = some member) (set : next.members = team.members.set i changed)
    (others : ∀ j ≠ i, team.SameOf next j) (own : next.Engaged i changed.worker) :
    (∀ j member, next.members[j]? = some member → next.Engaged j member.worker) ∧
      ∀ j, next.members[j]? = none → next.Untouched j := by
  have within : i < team.members.length := (List.getElem?_eq_some_iff.1 inside).1
  constructor
  · intro j member here
    rw [set] at here
    by_cases same : j = i
    · subst same
      rw [List.getElem?_set_self within, Option.some.injEq] at here
      exact here ▸ own
    · rw [List.getElem?_set_ne (Ne.symm same)] at here
      exact (others j same).engaged (orderly.engaged j member here)
  · intro j absent
    rw [set] at absent
    by_cases same : j = i
    · subst same
      rw [List.getElem?_set_self within] at absent
      cases absent
    · rw [List.getElem?_set_ne (Ne.symm same)] at absent
      exact (others j same).untouched (orderly.absent j absent)

/-- A step that opens no batch. -/
theorem Orderly.within (orderly : team.Orderly) (openings : next.openings = team.openings)
    (batch : next.session.buffer.pool.batch = team.session.buffer.pool.batch)
    (members : (∀ j member, next.members[j]? = some member → next.Engaged j member.worker) ∧
      ∀ j, next.members[j]? = none → next.Untouched j)
    (finished : ∀ i batch, (i, .batchFinished batch) ∈ next.journal → (i, batch) ∈ team.openings)
    (pending : next.session.buffer.pool.batchPending = true ↔ ∃ i batch,
      team.openings.getLast? = some (i, batch) ∧ (i, .batchFinished batch) ∉ next.journal)
    (answered : ∀ block outcome, next.session.buffer.pool.script? block = some outcome →
      ∃ i batch given, team.openings.getLast? = some (i, batch) ∧
        next.answers i block = [some (.ok given)] ∧ Pool.Trims given outcome) : next.Orderly where
  counted := by
    rw [batch, openings]
    exact orderly.counted
  numbered := by
    rw [openings]
    exact orderly.numbered
  once := by
    rw [openings]
    exact orderly.once
  engaged := members.1
  absent := members.2
  finished := openings ▸ finished
  pending := openings ▸ pending
  answered := openings ▸ answered

/-- A step that touches no batch: none is opened or finished, the pool shows what it showed, and
whoever has been told of a block is not told of it again. -/
theorem Orderly.quiet (orderly : team.Orderly)
    (agrees : Pool.Agrees .editScript next.session.buffer.pool team.session.buffer.pool)
    (openings : next.openings = team.openings)
    (finished : ∀ i batch, (i, Update.batchFinished batch) ∈ next.journal ↔
      (i, Update.batchFinished batch) ∈ team.journal)
    (answers : ∀ i block, team.answers i block ≠ [] → next.answers i block = team.answers i block)
    (members : (∀ j member, next.members[j]? = some member → next.Engaged j member.worker) ∧
      ∀ j, next.members[j]? = none → next.Untouched j) : next.Orderly := by
  obtain ⟨pending, batch, scripts⟩ := agrees
  refine orderly.within openings batch members (fun i batch ended => ?_) ?_ ?_
  · exact orderly.finished i batch ((finished i batch).1 ended)
  · rw [pending, orderly.pending]
    simp only [finished]
  · intro block outcome shown
    rw [Pool.script?, scripts] at shown
    obtain ⟨i, batch, given, last, heard, trims⟩ := orderly.answered block outcome shown
    refine ⟨i, batch, given, last, ?_, trims⟩
    rw [answers i block (heard ▸ List.cons_ne_nil _ _)]
    exact heard

/-! ## The steps of a run -/

theorem openings_of_journal {updates : List Update}
    (journal : next.journal = team.journal ++ updates.map (i, ·)) :
    next.openings = team.openings ++ (updates.filterMap Update.batch?).map (i, ·) := by
  rw [openings, openings, journal, List.filterMap_append, List.filterMap_map, List.map_filterMap]
  rfl

theorem answers_of_heard (heard : next.heard = team.heard) (i block : Nat) :
    next.answers i block = team.answers i block := by
  rw [answers, answers, heard]

/-- Results of one member change what has been opened by this one only. -/
theorem sameOf_of_journal {updates : List Update}
    (journal : next.journal = team.journal ++ updates.map (i, ·)) (heard : next.heard = team.heard)
    {j : Nat} (other : j ≠ i) : team.SameOf next j := by
  refine ⟨fun batch => ?_, answers_of_heard heard j⟩
  rw [openings_of_journal journal, List.mem_append, or_iff_left]
  intro inside
  obtain ⟨_, -, same⟩ := List.mem_map.1 inside
  exact other (congrArg Prod.fst same).symm

/-- A run opens its batch. -/
theorem Orderly.opened {member changed : Member} (orderly : team.Orderly)
    (inside : team.members[i]? = some member) (untouched : team.Untouched i)
    (fresh : batch = team.session.buffer.pool.batch + 1)
    (pool : next.session.buffer.pool = team.session.buffer.pool.commit (.batchStarted batch))
    (journal : next.journal = team.journal ++ [(i, .batchStarted batch)])
    (heard : next.heard = team.heard) (set : next.members = team.members.set i changed)
    (own : next.Engaged i changed.worker) : next.Orderly := by
  have journal' : next.journal = team.journal ++ [Update.batchStarted batch].map (i, ·) := journal
  have openings : next.openings = team.openings ++ [(i, batch)] := openings_of_journal journal'
  have number : batch = UInt64.ofNat (team.openings.length + 1) := by
    rw [fresh, orderly.counted, UInt64.ofNat_add]
    rfl
  obtain ⟨engaged, absent⟩ := orderly.members inside set
    (fun j other => sameOf_of_journal journal' heard other) own
  refine ⟨?_, ?_, ?_, engaged, absent, ?_, ?_, ?_⟩
  · rw [pool, openings, List.length_append]
    exact number
  · rw [openings, List.map_append, orderly.numbered, List.length_append, List.length_singleton,
      List.range'_1_concat, List.map_append, List.map_singleton, List.map_singleton, number,
      Nat.add_comm 1]
  · rw [openings, List.map_append, List.map_singleton, ← List.concat_eq_append, List.nodup_concat]
    refine ⟨fun again => ?_, orderly.once⟩
    obtain ⟨⟨_, batch'⟩, opened, rfl⟩ := List.mem_map.1 again
    exact untouched.openings batch' opened
  · intro j batch' ended
    rw [journal, List.mem_append, List.mem_singleton] at ended
    rw [openings]
    refine List.mem_append_left _ (orderly.finished j batch' (ended.resolve_right fun same => ?_))
    cases congrArg Prod.snd same
  · rw [pool, openings, List.getLast?_concat]
    refine iff_of_true rfl ⟨i, batch, rfl, fun ended => ?_⟩
    rw [journal, List.mem_append, List.mem_singleton] at ended
    rcases ended with ended | same
    · exact untouched.openings batch (orderly.finished i batch ended)
    · cases congrArg Prod.snd same
  · intro block outcome shown
    rw [pool] at shown
    cases shown

/-- A run puts in the outcome that it has been told for a block. -/
theorem Orderly.joined {member changed : Member} {block : Nat} {outcome : ScriptOutcome}
    (orderly : team.Orderly) (few : team.openings.length < UInt64.size)
    (inside : team.members[i]? = some member)
    (opened : (i, batch) ∈ team.openings) (told : team.answers i block = [some (.ok outcome)])
    (pool : next.session.buffer.pool =
      team.session.buffer.pool.commit (.script batch block outcome))
    (journal : next.journal = team.journal ++ [(i, .script batch block outcome)])
    (heard : next.heard = team.heard) (set : next.members = team.members.set i changed)
    (own : next.Engaged i changed.worker) : next.Orderly := by
  have journal' : next.journal = team.journal ++ [Update.script batch block outcome].map (i, ·) :=
    journal
  have openings : next.openings = team.openings :=
    (openings_of_journal journal').trans (List.append_nil _)
  have finished (j : Nat) (batch' : UInt64) :
      (j, Update.batchFinished batch') ∈ next.journal ↔
        (j, Update.batchFinished batch') ∈ team.journal := by
    rw [journal, List.mem_append, or_iff_left]
    intro same
    cases congrArg Prod.snd (List.mem_singleton.1 same)
  have members := orderly.members inside set
    (fun j other => sameOf_of_journal journal' heard other) own
  by_cases current : batch = team.session.buffer.pool.batch
  · rw [Pool.commit, if_pos current] at pool
    refine orderly.within openings (by rw [pool]) members (fun j batch' ended => ?_) ?_ ?_
    · exact orderly.finished j batch' ((finished j batch').1 ended)
    · rw [pool]
      simp only [finished]
      exact orderly.pending
    · intro sought shown found
      rw [pool, Pool.script?, Table.get?_insert] at found
      split at found
      · next here =>
        subst here
        exact ⟨i, batch, outcome, (orderly.getLast?_eq_some_iff few opened).2 current,
          (answers_of_heard heard i sought).trans told, Pool.trims_iff.2 (Option.some.inj found)⟩
      · obtain ⟨j, batch', given, last, before, trims⟩ := orderly.answered sought shown found
        exact ⟨j, batch', given, last, (answers_of_heard heard j sought).trans before, trims⟩
  · rw [Pool.commit, if_neg current] at pool
    exact orderly.quiet (pool ▸ Pool.Agrees.refl _ _) openings finished
      (fun j sought _ => answers_of_heard heard j sought) members

/-- A run finishes its batch. -/
theorem Orderly.closed {member changed : Member} (orderly : team.Orderly)
    (few : team.openings.length < UInt64.size) (inside : team.members[i]? = some member)
    (opened : (i, batch) ∈ team.openings)
    (pool : next.session.buffer.pool = team.session.buffer.pool.commit (.batchFinished batch))
    (journal : next.journal = team.journal ++ [(i, .batchFinished batch)])
    (heard : next.heard = team.heard) (set : next.members = team.members.set i changed)
    (own : next.Engaged i changed.worker) : next.Orderly := by
  have journal' : next.journal = team.journal ++ [Update.batchFinished batch].map (i, ·) :=
    journal
  have openings : next.openings = team.openings :=
    (openings_of_journal journal').trans (List.append_nil _)
  have members := orderly.members inside set
    (fun j other => sameOf_of_journal journal' heard other) own
  have finished (j : Nat) (batch' : UInt64) :
      (j, Update.batchFinished batch') ∈ next.journal ↔
        (j, Update.batchFinished batch') ∈ team.journal ∨ j = i ∧ batch' = batch := by
    rw [journal, List.mem_append, List.mem_singleton, Prod.mk.injEq, Update.batchFinished.injEq]
  have kept : next.session.buffer.pool.batch = team.session.buffer.pool.batch ∧
      next.session.buffer.pool.scripts = team.session.buffer.pool.scripts := by
    rw [pool, Pool.commit]
    split
    · exact ⟨rfl, rfl⟩
    · exact ⟨rfl, rfl⟩
  refine orderly.within openings kept.1 members (fun j batch' ended => ?_) ?_ ?_
  · rcases (finished j batch').1 ended with ended | ⟨rfl, rfl⟩
    · exact orderly.finished j batch' ended
    · exact opened
  · have last := orderly.getLast?_eq_some_iff few opened
    rw [pool, Pool.commit]
    simp only [finished]
    split
    · next current =>
      refine iff_of_false Bool.false_ne_true ?_
      rintro ⟨j, batch', latest, running⟩
      cases (last.2 current).symm.trans latest
      exact running (.inr ⟨rfl, rfl⟩)
    · next stale =>
      rw [orderly.pending]
      constructor
      · rintro ⟨j, batch', latest, running⟩
        refine ⟨j, batch', latest, fun ended => ended.elim running ?_⟩
        rintro ⟨rfl, rfl⟩
        exact stale (last.1 latest)
      · rintro ⟨j, batch', latest, running⟩
        exact ⟨j, batch', latest, fun ended => running (.inl ended)⟩
  · intro sought shown found
    rw [Pool.script?, kept.2] at found
    obtain ⟨j, batch', given, last, before, trims⟩ := orderly.answered sought shown found
    exact ⟨j, batch', given, last, (answers_of_heard heard j sought).trans before, trims⟩

/-! ## Any step -/

theorem engaged_of_foreign {worker : Worker} (foreign : worker.source ≠ .editScript) :
    team.Engaged i worker ↔ ∀ batch, (i, batch) ∉ team.openings := by
  cases worker with
  | scripts run => exact (foreign rfl).elim
  | _ => exact Iff.rfl

theorem engaged_of_isNew {worker : Worker} (fresh : worker.isNew = true)
    (untouched : team.Untouched i) : team.Engaged i worker := by
  cases worker with
  | scripts run =>
    cases run with
    | opening => exact untouched
    | _ => cases fresh
  | _ => exact untouched.openings

theorem answers_of_told {told : Nat} {outcome : Option (Except Failure ScriptOutcome)}
    (heard : next.heard = team.heard ++ [(i, .scriptDone told outcome)]) (j block : Nat) :
    next.answers j block =
      team.answers j block ++ if i = j ∧ told = block then [outcome] else [] := by
  rw [answers, answers, heard, List.filterMap_append]
  congr 1
  by_cases here : i = j ∧ told = block
  · simp [here]
  · simp [here]

theorem answers_of_not_told {news : News} (heard : next.heard = team.heard ++ [(i, news)])
    (other : ∀ block outcome, news ≠ .scriptDone block outcome) (j block : Nat) :
    next.answers j block = team.answers j block := by
  rw [answers, answers, heard, List.filterMap_append]
  cases news with
  | scriptDone block outcome => exact (other block outcome rfl).elim
  | _ => exact List.append_nil _

/-- A collector is set to work. -/
theorem Orderly.entered (orderly : team.Orderly) {worker : Worker} (fresh : worker.isNew = true)
    (session : next.session = team.session) (journal : next.journal = team.journal)
    (heard : next.heard = team.heard) (set : next.members = team.members ++ [⟨worker, false⟩]) :
    next.Orderly := by
  have openings : next.openings = team.openings := by
    rw [Team.openings, Team.openings, journal]
  have same (j : Nat) : team.SameOf next j :=
    ⟨fun batch => by rw [openings], answers_of_heard heard j⟩
  refine orderly.quiet (session ▸ Pool.Agrees.refl _ _) openings (fun _ _ => by rw [journal])
    (fun j block _ => answers_of_heard heard j block) ⟨fun j member here => ?_, fun j absent => ?_⟩
  · rw [set] at here
    rcases lt_or_ge j team.members.length with within | beyond
    · rw [List.getElem?_append_left within] at here
      exact (same j).engaged (orderly.engaged j member here)
    · have untouched := orderly.absent j (List.getElem?_eq_none beyond)
      rw [List.getElem?_append_right beyond, List.getElem?_singleton] at here
      split at here
      · cases here
        exact (same j).engaged (engaged_of_isNew fresh untouched)
      · cases here
  · rw [set] at absent
    exact (same j).untouched (orderly.absent j (List.getElem?_eq_none
      (le_trans (by simp) (List.getElem?_eq_none_iff.1 absent))))

/-- A run is told of the end of a task: it had not been told of the block before. -/
theorem Orderly.joinedTask {member changed : Member} {block : Nat}
    {outcome : Option (Except Failure ScriptOutcome)} {tasks : List ScriptTask} {count : Nat}
    (orderly : team.Orderly) (inside : team.members[i]? = some member)
    (at' : member.worker = .scripts (.joining batch tasks count))
    (waited : ∃ task ∈ tasks, task.block = block)
    (behind : changed.worker =
      .scripts (.behind batch block outcome (tasks.filter (·.block ≠ block)) count))
    (session : next.session = team.session) (journal : next.journal = team.journal)
    (heard : next.heard = team.heard ++ [(i, .scriptDone block outcome)])
    (set : next.members = team.members.set i changed) : next.Orderly := by
  have openings : next.openings = team.openings := by
    rw [Team.openings, Team.openings, journal]
  obtain ⟨opened, unheard⟩ : (i, batch) ∈ team.openings ∧
      ∀ task ∈ tasks, team.answers i task.block = [] := by
    have engaged := orderly.engaged i member inside
    rwa [at'] at engaged
  have silent : team.answers i block = [] := by
    obtain ⟨task, waiting, rfl⟩ := waited
    exact unheard task waiting
  have elsewhere (j sought : Nat) (apart : ¬(i = j ∧ block = sought)) :
      next.answers j sought = team.answers j sought := by
    rw [answers_of_told heard, if_neg apart, List.append_nil]
  have left : ∀ task ∈ tasks.filter (·.block ≠ block), next.answers i task.block = [] := by
    intro task inside
    obtain ⟨inside, apart⟩ := List.mem_filter.1 inside
    rw [elsewhere i task.block fun both => of_decide_eq_true apart both.2.symm]
    exact unheard task inside
  refine orderly.quiet (session ▸ Pool.Agrees.refl _ _) openings (fun _ _ => by rw [journal])
    (fun j sought known => elsewhere j sought ?_)
    (orderly.members inside set (fun j other => ⟨fun batch => by rw [openings],
      fun sought => elsewhere j sought fun both => other both.1.symm⟩) ?_)
  · rintro ⟨rfl, rfl⟩
    exact known silent
  · rw [behind]
    cases outcome with
    | none => exact ⟨openings ▸ opened, left⟩
    | some result =>
      refine ⟨openings ▸ opened, ?_, left⟩
      rw [answers_of_told heard, silent, if_pos ⟨rfl, rfl⟩, List.nil_append]

/-- A member is told something. -/
theorem Orderly.told {member : Member} {news : News} {worker : Worker} (orderly : team.Orderly)
    (inside : team.members[i]? = some member) (told : member.worker.hear news = some worker)
    (session : next.session = team.session) (journal : next.journal = team.journal)
    (heard : next.heard = team.heard ++ [(i, news)])
    (set : next.members = team.members.set i { member with worker }) : next.Orderly := by
  by_cases done : ∃ block outcome, news = .scriptDone block outcome
  · obtain ⟨block, outcome, rfl⟩ := done
    cases at' : member.worker with
    | scripts run =>
      rw [at'] at told
      obtain ⟨run', ended, rfl⟩ := Option.map_eq_some_iff.1 told
      obtain ⟨batch, tasks, count, rfl, waited, rfl⟩ := ScriptRun.exists_of_join ended
      exact orderly.joinedTask inside at' waited rfl session journal heard set
    | _ => rw [at'] at told; cases told
  · have other (block : Nat) (outcome : Option (Except Failure ScriptOutcome)) :
        news ≠ .scriptDone block outcome := fun same => done ⟨block, outcome, same⟩
    have foreign : member.worker.source ≠ .editScript := by
      intro own
      cases at' : member.worker with
      | scripts run =>
        rw [at'] at told
        cases news with
        | scriptDone block outcome => exact other block outcome rfl
        | _ => cases told
      | _ => rw [at'] at own; cases own
    have openings : next.openings = team.openings := by
      rw [Team.openings, Team.openings, journal]
    have same (j : Nat) : team.SameOf next j :=
      ⟨fun batch => by rw [openings], answers_of_not_told heard other j⟩
    refine orderly.quiet (session ▸ Pool.Agrees.refl _ _) openings (fun _ _ => by rw [journal])
      (fun j block _ => answers_of_not_told heard other j block)
      (orderly.members inside set (fun j _ => same j) ?_)
    refine (engaged_of_foreign ((Worker.source_hear told).trans_ne foreign)).2 ?_
    rw [openings]
    exact (engaged_of_foreign foreign).1 (orderly.engaged i member inside)

/-- A step in which a member changes, but puts nothing in and is told nothing. -/
theorem Orderly.turned {member changed : Member} (orderly : team.Orderly)
    (inside : team.members[i]? = some member)
    (pool : next.session.buffer.pool = team.session.buffer.pool)
    (journal : next.journal = team.journal) (heard : next.heard = team.heard)
    (set : next.members = team.members.set i changed)
    (own : team.Engaged i member.worker → team.Engaged i changed.worker) : next.Orderly := by
  have openings : next.openings = team.openings := by
    rw [Team.openings, Team.openings, journal]
  have same (j : Nat) : team.SameOf next j :=
    ⟨fun batch => by rw [openings], answers_of_heard heard j⟩
  exact orderly.quiet (pool ▸ Pool.Agrees.refl _ _) openings (fun _ _ => by rw [journal])
    (fun j block _ => answers_of_heard heard j block)
    (orderly.members inside set (fun j _ => same j)
      ((same i).engaged (own (orderly.engaged i member inside))))

/-- The front-end does something that spares the source. -/
theorem Orderly.aside (orderly : team.Orderly)
    (agrees : Pool.Agrees .editScript next.session.buffer.pool team.session.buffer.pool)
    (journal : next.journal = team.journal) (heard : next.heard = team.heard)
    (members : next.members = team.members) : next.Orderly := by
  have openings : next.openings = team.openings := by
    rw [Team.openings, Team.openings, journal]
  have same (j : Nat) : team.SameOf next j :=
    ⟨fun batch => by rw [openings], answers_of_heard heard j⟩
  exact orderly.quiet agrees openings (fun _ _ => by rw [journal])
    (fun j block _ => answers_of_heard heard j block)
    ⟨fun j member here => (same j).engaged (orderly.engaged j member (members ▸ here)),
      fun j absent => (same j).untouched (orderly.absent j (members ▸ absent))⟩

/-- A task of a member asks its engine. -/
theorem engaged_start {worker changed : Worker} {task : Nat}
    (started : worker.start task = some changed) (engaged : team.Engaged i worker) :
    team.Engaged i changed := by
  cases worker with
  | labels hasCombiner run =>
    obtain ⟨run', -, rfl⟩ := Option.map_eq_some_iff.1 started
    exact engaged
  | scripts run =>
    obtain ⟨run', started, rfl⟩ := Option.map_eq_some_iff.1 started
    cases run with
    | joining batch tasks count =>
      cases started
      refine ⟨engaged.1, fun asked inside => ?_⟩
      obtain ⟨waiting, known, rfl⟩ := List.mem_map.1 inside
      split
      · exact engaged.2 waiting known
      · exact engaged.2 waiting known
    | _ => cases started
  | _ => cases started

/-- A run makes its next move. -/
theorem Orderly.advancedScripts {run run' : ScriptRun} {cancelled : Bool} {after : Session}
    (orderly : team.Orderly) (few : team.openings.length < UInt64.size)
    (inside : team.members[i]? = some ⟨.scripts run, cancelled⟩)
    (moved : run.advance cancelled team.session = some (run', after))
    (session : next.session = after)
    (journal : next.journal = team.journal ++ (run.updates team.session).map (i, ·))
    (heard : next.heard = team.heard)
    (set : next.members = team.members.set i ⟨.scripts run', cancelled⟩) : next.Orderly := by
  have engaged := orderly.engaged i _ inside
  have pool := (ScriptRun.advance_moved moved).pool
  rw [← session] at pool
  cases run with
  | opening =>
    have untouched : team.Untouched i := engaged
    cases moved
    refine orderly.opened inside untouched rfl pool journal heard set ⟨?_, fun task _ => ?_⟩
    · rw [openings_of_journal journal]
      exact List.mem_append_right _ (List.mem_singleton.2 rfl)
    · exact (answers_of_heard heard i _).trans (untouched.answers _)
  | joining batch tasks count =>
    refine orderly.turned inside pool (journal.trans (List.append_nil _)) heard set fun engaged => ?_
    rw [ScriptRun.advance] at moved
    split at moved
    · cases moved
      exact engaged.1
    · split at moved
      · cases moved
        exact engaged.1
      · cases moved
  | joined batch block result tasks count =>
    obtain ⟨opened, told, left⟩ := engaged
    cases result with
    | ok outcome =>
      cases moved
      refine orderly.joined few inside opened told pool journal heard set ⟨?_, fun task known => ?_⟩
      · rw [openings_of_journal journal]
        exact List.mem_append_left _ opened
      · exact (answers_of_heard heard i _).trans (left task known)
    | error failure =>
      cases moved
      exact orderly.turned inside pool (journal.trans (List.append_nil _)) heard set
        fun _ => ⟨opened, left⟩
  | closing batch result =>
    cases moved
    exact orderly.closed few inside engaged pool journal heard set trivial
  | ended result => cases moved

/-- Collectors of other sources do not touch batches. -/
theorem batch?_eq_none_of_foreign {update : Update} (foreign : update.source ≠ .editScript) :
    update.batch? = none := by
  cases update with
  | batchStarted batch => exact (foreign rfl).elim
  | _ => rfl

/-- A collector of another source makes its next move. -/
theorem Orderly.advancedForeign {member : Member} {worker : Worker} {after : Session}
    (orderly : team.Orderly) (foreign : member.worker.source ≠ .editScript)
    (inside : team.members[i]? = some member)
    (moved : member.worker.advance member.isCancelled team.session = some (worker, after))
    (session : next.session = after)
    (journal : next.journal =
      team.journal ++ (member.worker.updates team.session).map (i, ·))
    (heard : next.heard = team.heard)
    (set : next.members = team.members.set i { member with worker }) : next.Orderly := by
  have alien (update : Update) (put : update ∈ member.worker.updates team.session) :
      update.source ≠ .editScript :=
    (Worker.source_of_mem_updates put).trans_ne foreign
  have agrees : Pool.Agrees .editScript next.session.buffer.pool team.session.buffer.pool := by
    rw [session, (Worker.advance_moved moved).pool]
    exact Pool.foldl_commit_agrees alien _
  have openings : next.openings = team.openings := by
    rw [openings_of_journal journal, List.filterMap_eq_nil_iff.2 fun update put =>
      batch?_eq_none_of_foreign (alien update put)]
    exact List.append_nil _
  have same (j : Nat) : team.SameOf next j :=
    ⟨fun batch => by rw [openings], answers_of_heard heard j⟩
  refine orderly.quiet agrees openings (fun j batch => ?_)
    (fun j block _ => answers_of_heard heard j block)
    (orderly.members inside set (fun j _ => same j) ?_)
  · rw [journal, List.mem_append, or_iff_left]
    intro put
    obtain ⟨update, put, same⟩ := List.mem_map.1 put
    cases same
    exact alien _ put rfl
  · refine (engaged_of_foreign ((Worker.source_advance moved).trans_ne foreign)).2 ?_
    rw [openings]
    exact (engaged_of_foreign foreign).1 (orderly.engaged i member inside)

theorem Orderly.step (orderly : team.Orderly) (few : team.openings.length < UInt64.size)
    (spares : event.Spares .editScript) (step : Step team event next) : next.Orderly := by
  cases step with
  | enter fresh => exact orderly.entered fresh rfl rfl rfl rfl
  | cancel inside => exact orderly.turned inside rfl rfl rfl rfl id
  | @advance i member worker session inside moved =>
    by_cases foreign : member.worker.source = .editScript
    · obtain ⟨worker', cancelled⟩ := member
      cases worker' with
      | scripts run =>
        obtain ⟨⟨run', after⟩, moved, same⟩ := Option.map_eq_some_iff.1 moved
        cases same
        exact orderly.advancedScripts few inside moved rfl rfl rfl rfl
      | _ => cases foreign
    · exact orderly.advancedForeign foreign inside moved rfl rfl rfl rfl
  | hear inside running told => exact orderly.told inside told rfl rfl rfl rfl
  | start inside started => exact orderly.turned inside rfl rfl rfl rfl (engaged_start started)
  | move change =>
    exact orderly.aside ((Step.move change).agrees spares (by rintro _ _ ⟨⟩)) rfl rfl rfl
  | notify notice => exact orderly.aside (Pool.Agrees.refl _ _) rfl rfl rfl

/-! ## Any run -/

theorem orderly_ofSession {session : Session} (batch : session.buffer.pool.batch = 0)
    (idle : session.buffer.pool.batchPending = false) (none : session.buffer.pool.scripts = []) :
    (ofSession session).Orderly where
  counted := batch
  numbered := rfl
  once := List.nodup_nil
  engaged _ _ here := nomatch here
  absent _ _ := ⟨fun _ => List.not_mem_nil, fun _ => rfl⟩
  finished _ _ ended := nomatch ended
  pending := iff_of_false (Bool.eq_false_iff.1 idle) (by rintro ⟨_, _, ⟨⟩, _⟩)
  answered block outcome shown := by
    rw [Pool.script?, ofSession, none] at shown
    cases shown

theorem Step.openings_prefix (step : Step team event next) :
    ∃ more, next.openings = team.openings ++ more := by
  cases step with
  | advance inside moved => exact ⟨_, openings_of_journal rfl⟩
  | _ => exact ⟨[], (List.append_nil _).symm⟩

/-- What is shown of edit scripts belongs to the run that has opened its batch last. -/
structure BatchesApart (team : Team) : Prop where
  once : (team.openings.map Prod.fst).Nodup
  increasing : team.openings.Pairwise fun a b => a.2 < b.2
  /-- The source is pending while the latest run has not finished its batch. -/
  pending : team.session.buffer.pool.batchPending = true ↔
    ∃ i batch, team.openings.getLast? = some (i, batch) ∧ (i, .batchFinished batch) ∉ team.journal
  /-- Whatever is shown for a block is the one answer that the latest run has got for it. -/
  answered : ∀ block outcome, team.session.buffer.pool.script? block = some outcome →
    ∃ i batch given, team.openings.getLast? = some (i, batch) ∧
      team.answers i block = [some (.ok given)] ∧ Pool.Trims given outcome
  /-- An older run, cancelled or not, changes nothing by what it puts in; it can give notices. -/
  superseded : ∀ i batch event next, (i, batch) ∈ team.openings →
    team.openings.getLast? ≠ some (i, batch) → event.member? = some i →
    team.step? event = some next →
    next.session.buffer = team.session.buffer ∧
      (next.journal ≠ team.journal → next.session = team.session)
  /-- The end of the latest run, cancelled or not, ends the waiting and changes nothing else. -/
  ends : ∀ i batch next, team.openings.getLast? = some (i, batch) →
    team.step? (.advance i) = some next →
    next.journal = team.journal ++ [(i, .batchFinished batch)] →
    next.session = { team.session with
      buffer := { team.session.buffer with
        pool := { team.session.buffer.pool with batchPending := false } } }

/-- A result of a batch that is not the pool's is dropped. -/
theorem commit_stale {session : Session} (stale : batch ≠ session.buffer.pool.batch)
    (block : Nat) (outcome : ScriptOutcome) :
    session.commit (.script batch block outcome) = session ∧
      session.commit (.batchFinished batch) = session :=
  ⟨Session.commit_of_dropped (if_neg stale), Session.commit_of_dropped (if_neg stale)⟩

theorem Orderly.superseded (orderly : team.Orderly) (few : team.openings.length < UInt64.size)
    (opened : (i, batch) ∈ team.openings) (older : team.openings.getLast? ≠ some (i, batch))
    (own : event.member? = some i) (step : Step team event next) :
    next.session.buffer = team.session.buffer ∧
      (next.journal ≠ team.journal → next.session = team.session) := by
  -- Whatever the run puts in carries its own batch, which is not the pool's.
  have stale {batch' : UInt64} (opened' : (i, batch') ∈ team.openings) :
      batch' ≠ team.session.buffer.pool.batch := by
    intro same
    cases List.inj_on_of_nodup_map orderly.once opened opened' rfl
    exact older ((orderly.getLast?_eq_some_iff few opened).2 same)
  cases step with
  | @advance _ member worker session inside moved =>
    cases own
    obtain ⟨worker', cancelled⟩ := member
    have engaged := orderly.engaged i _ inside
    cases worker' with
    | scripts run =>
      obtain ⟨⟨run', after⟩, moved, same⟩ := Option.map_eq_some_iff.1 moved
      cases same
      have unmoved (same : session = team.session) : session.buffer = team.session.buffer ∧
          (team.journal ++ (run.updates team.session).map (i, ·) ≠ team.journal →
            session = team.session) :=
        ⟨congrArg Session.buffer same, fun _ => same⟩
      cases run with
      | opening => exact (engaged.openings batch opened).elim
      | joining batch' tasks count =>
        rw [ScriptRun.advance] at moved
        split at moved
        · cases moved
          exact unmoved rfl
        · split at moved
          · cases moved
            exact unmoved rfl
          · cases moved
      | joined batch' block result tasks count =>
        cases result with
        | ok outcome =>
          cases moved
          exact unmoved (commit_stale (stale engaged.1) block outcome).1
        | error failure =>
          cases moved
          exact ⟨rfl, fun put => (put (List.append_nil _)).elim⟩
      | closing batch' result =>
        cases moved
        exact unmoved (commit_stale (stale engaged) 0 .unresolvable).2
      | ended result => cases moved
    | _ => exact (engaged batch opened).elim
  | cancel _ => exact ⟨rfl, fun _ => rfl⟩
  | hear _ _ _ => exact ⟨rfl, fun _ => rfl⟩
  | start _ _ => exact ⟨rfl, fun _ => rfl⟩
  | _ => cases own

theorem Orderly.ends (orderly : team.Orderly)
    (few : team.openings.length < UInt64.size)
    (latest : team.openings.getLast? = some (i, batch)) (step : Step team (.advance i) next)
    (finishes : next.journal = team.journal ++ [(i, .batchFinished batch)]) :
    next.session = { team.session with
      buffer := { team.session.buffer with
        pool := { team.session.buffer.pool with batchPending := false } } } := by
  cases step with
  | @advance _ member worker session inside moved =>
    have put : (member.worker.updates team.session).map (i, ·) = [(i, Update.batchFinished batch)] :=
      List.append_cancel_left finishes
    have only : member.worker.updates team.session = [.batchFinished batch] := by
      obtain ⟨update, single⟩ := List.length_eq_one_iff.1 ((List.length_map _).symm.trans
        (congrArg List.length put))
      rw [single] at put ⊢
      cases put
      rfl
    have current : batch = team.session.buffer.pool.batch :=
      (orderly.getLast?_eq_some_iff few (List.mem_of_getLast? latest)).1 latest
    have pool : team.session.buffer.pool.commit (.batchFinished batch) =
        { team.session.buffer.pool with batchPending := false } := if_pos current
    rcases Worker.advance_moved moved with after | ⟨none, -⟩
    · refine after.trans ?_
      rw [only]
      change team.session.commit (.batchFinished batch) = _
      rw [Session.commit, Buffer.commit_fst_of_merged_eq (by rw [pool]), pool]
    · rw [only] at none
      cases none

/-- Batches never mix: however the runs of the edit-script collector and all else that goes on in a
session come between each other, what the session shows is that of the run that opened last. -/
theorem batches_never_mix {file : FileContext} {lines : List String} {algorithm : Algorithm}
    {events : List Event} (spared : ∀ event ∈ events, event.Spares .editScript)
    (reached : (ofSession (.ofBuffer file (.ofLines lines algorithm))).run? events = some team)
    (few : team.openings.length < UInt64.size) : team.BatchesApart := by
  have kept (before : Team) (event : Event) (after : Team) (spares : event.Spares .editScript)
      (step : Step before event after)
      (orderly : before.openings.length < UInt64.size → before.Orderly)
      (few : after.openings.length < UInt64.size) : after.Orderly := by
    obtain ⟨more, grown⟩ := step.openings_prefix
    have few' : before.openings.length < UInt64.size := by
      rw [grown, List.length_append] at few
      omega
    exact (orderly few').step few' spares step
  have orderly : team.Orderly :=
    run?_induction (fun _ => orderly_ofSession rfl rfl rfl) kept spared reached few
  exact {
    once := orderly.once
    increasing := orderly.increasing few
    pending := orderly.pending
    answered := orderly.answered
    superseded := fun i batch event next opened older own taken =>
      orderly.superseded few opened older own (step?_eq_some_iff.1 taken)
    ends := fun i batch next latest taken finishes =>
      orderly.ends few latest (step?_eq_some_iff.1 taken) finishes }

/-- Two runs, of which the second opens its batch while the first waits for an answer. -/
def overlap : List Event :=
  [.enter (.scripts .opening), .advance 0, .enter (.scripts .opening), .advance 1,
    .hear 0 (.scriptDone 1 (some (.ok (.resolvable "old")))),
    .hear 1 (.scriptDone 1 (some (.ok (.resolvable "new")))), .advance 1, .advance 0, .advance 0]

/-- The answer of the first run comes too late. -/
theorem overlap_apart : ∃ team, (ofSession oneBlock).run? overlap = some team ∧
    team.openings = [(0, 1), (1, 2)] ∧
    team.session.buffer.pool.script? 1 = some (.resolvable "new") ∧ team.BatchesApart := by
  obtain ⟨team, reached, opened, shown⟩ : ∃ team : Team,
      (ofSession oneBlock).run? overlap = some team ∧ team.openings = [(0, 1), (1, 2)] ∧
      team.session.buffer.pool.script? 1 = some (.resolvable "new") :=
    ⟨_, rfl, rfl, rfl⟩
  refine ⟨team, reached, opened, shown, batches_never_mix ?_ reached ?_⟩
  · simp [overlap, Event.Spares]
  · rw [opened]
    decide

/-- A run that is cancelled while it is the latest still ends the waiting for its batch. -/
theorem cancelled_latest_ends : ∃ before after,
    (ofSession oneBlock).run? [.enter (.scripts .opening), .advance 0, .cancel 0, .advance 0] =
      some before ∧
    before.members.map Member.isCancelled = [true] ∧ before.step? (.advance 0) = some after ∧
    before.session.buffer.pool.batchPending = true ∧
    after.session.buffer.pool.batchPending = false :=
  ⟨_, _, rfl, rfl, rfl, rfl, rfl⟩

end Team

end MergeConflict
