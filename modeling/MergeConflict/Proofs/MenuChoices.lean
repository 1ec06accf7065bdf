import Mathlib.Data.List.Nodup
import MergeConflict.Menu
import MergeConflict.Proofs.ApplyOutcome

/-!
# The menu of a block

The menu is made from what a front-end is shown of a session: the view of the block with its list of
candidates, and the patches. Whether a choice can be applied is decided elsewhere, by the buffer and
the pool. Both come to the same: the menu of a block that is found lists every choice that can be
applied, each once, and no other.

`offered` is the common ground. It lists the choices for a block together with their texts, as the
pool has them; the menu is its rendering (`entries_eq`), and a choice is on it exactly if it is
available, with the text that it puts in (`mem_offered_iff`).

Main statement: `entries_agree_with_apply`.
-/

namespace MergeConflict

namespace Pool

/-- The text of the edit-script source for a block, once its batch is over. -/
def scriptText? (pool : Pool) (number : Nat) : Option String :=
  if pool.batchPending then none
  else
    match pool.script? number with
    | some (.resolvable text) => some text
    | _ => none

end Pool

namespace Menu

/-- The choices for a block that sits at an interval, but for its sides, and the text of each. -/
def offered (pool : Pool) (patches : List Patch) (number : Nat) (at' : Interval) :
    List (Choice × String) :=
  ((patches.zipIdx.filter fun (patch, _) => patch.touches at').map fun (patch, index) =>
      (.patch index, patch.content)) ++
    (pool.bestResolution? number).toList.map (fun best => (.heuristic, best.content)) ++
    (pool.label? number).toList.map (fun candidate => (.classifier, candidate.content)) ++
    (pool.scriptText? number).toList.map (fun text => (.editScript, text)) ++
    (pool.historyOf number).zipIdx.map fun (candidate, rank) => (.history rank, candidate.content)

/-- What stands on the menu in front of the preview of a choice. -/
def heading (pool : Pool) (number : Nat) : Choice → String
  | .side _ => ""
  | .patch index => "Semantic patch " ++ toString index ++ ": "
  | .heuristic =>
    match pool.bestResolution? number with
    | some best => "Heuristic " ++ best.label ++ confidenceText (some best.confidence) ++ ": "
    | none => ""
  | .classifier =>
    match pool.label? number with
    | some candidate =>
      "ML [" ++ candidate.label.code ++ "]" ++ confidenceText (some candidate.confidence) ++ ": "
    | none => ""
  | .editScript => "Edit script: "
  | .history rank =>
    "History #" ++ toString (rank + 1) ++
      confidenceText ((pool.historyOf number)[rank]?.map HistoryCandidate.confidence) ++ ": "

/-- The entry that shows a text for a choice. -/
def entryOf (pool : Pool) (number : Nat) (choice : Choice) (text : String) : MenuEntry :=
  ⟨heading pool number choice ++ preview text, choice⟩

theorem heading_heuristic {pool : Pool} {number : Nat} {best : Resolution}
    (held : pool.bestResolution? number = some best) : heading pool number .heuristic =
      "Heuristic " ++ best.label ++ confidenceText (some best.confidence) ++ ": " := by
  delta heading
  simp only [held]

theorem heading_classifier {pool : Pool} {number : Nat} {candidate : LabelCandidate}
    (held : pool.label? number = some candidate) : heading pool number .classifier =
      "ML [" ++ candidate.label.code ++ "]" ++ confidenceText (some candidate.confidence) ++
        ": " := by
  delta heading
  simp only [held]

theorem heading_history {pool : Pool} {number rank : Nat} {candidate : HistoryCandidate}
    (held : (pool.historyOf number)[rank]? = some candidate) : heading pool number (.history rank) =
      "History #" ++ toString (rank + 1) ++ confidenceText (some candidate.confidence) ++ ": " := by
  delta heading
  simp only [held, Option.map_some]

variable {buffer : Buffer} {number : Nat} {at' : Interval} {conflict : Block}

/-- A choice is offered with a text exactly if it can be applied there and puts in this text. -/
theorem mem_offered_iff (known : numbered? buffer.blocks number = some conflict) (choice : Choice)
    (text : String) :
    (choice, text) ∈ offered buffer.pool buffer.patches number at' ↔
      (∀ which, choice ≠ .side which) ∧ buffer.Reaches at' choice ∧
        ∃ resolved, buffer.pool.resolve buffer.setting number choice = .ok resolved ∧
          resolved.content = text := by
  have known : numbered? buffer.setting.blocks number = some conflict := known
  have gives (given : Resolved) :
      (∃ resolved, (return given : Except ResolveError Resolved) = .ok resolved ∧
        resolved.content = text) ↔ text = given.content := by
    constructor
    · rintro ⟨_, same, shown⟩
      exact Except.ok.inj same ▸ shown.symm
    · exact fun shown => ⟨given, rfl, shown.symm⟩
  rw [Pool.resolve, Pool.bind_block_of_known known]
  cases choice with
  | side which => simp [offered]
  | heuristic =>
    cases held : buffer.pool.bestResolution? number with
    | none => simp [offered, held, Buffer.Reaches]
    | some best => simp [offered, held, Buffer.Reaches, gives, Pool.ofText]
  | patch index =>
    have listed : (Choice.patch index, text) ∈ offered buffer.pool buffer.patches number at' ↔
        ∃ patch, (buffer.patches[index]? = some patch ∧ patch.touches at' = true) ∧
          patch.content = text := by
      simp [offered, List.mem_zipIdx_iff_getElem?]
    rw [listed]
    cases held : buffer.patches[index]? with
    | none => simp [held, Buffer.Reaches]
    | some patch => simp [held, Buffer.Reaches, Buffer.setting, gives, eq_comm (a := text)]
  | classifier =>
    cases held : buffer.pool.label? number with
    | none => simp [offered, held, Buffer.Reaches]
    | some candidate => simp [offered, held, Buffer.Reaches, gives, Pool.ofText]
  | editScript =>
    have listed : (Choice.editScript, text) ∈ offered buffer.pool buffer.patches number at' ↔
        buffer.pool.scriptText? number = some text := by
      simp [offered]
    rw [listed, Pool.scriptText?]
    simp only
    cases buffer.pool.batchPending with
    | true =>
      refine iff_of_false (Option.some_ne_none text).symm ?_
      rintro ⟨_, _, _, impossible, _⟩
      cases impossible
    | false =>
      rcases buffer.pool.script? number with _ | given | _
      · simp [Buffer.Reaches]
      · simp [Buffer.Reaches, gives, Pool.ofText, eq_comm (a := text)]
      · simp [Buffer.Reaches]
  | history rank =>
    have listed : (Choice.history rank, text) ∈ offered buffer.pool buffer.patches number at' ↔
        ∃ candidate, (buffer.pool.historyOf number)[rank]? = some candidate ∧
          candidate.content = text := by
      simp [offered, List.mem_zipIdx_iff_getElem?]
    rw [listed]
    simp only
    cases (buffer.pool.historyOf number)[rank]? with
    | none => simp [Buffer.Reaches]
    | some candidate => simp [Buffer.Reaches, gives, Pool.ofText, eq_comm (a := text)]

/-- No choice is offered twice. -/
theorem nodup_offered (pool : Pool) (patches : List Patch) (number : Nat) (at' : Interval) :
    ((offered pool patches number at').map Prod.fst).Nodup := by
  have numbered {α : Type} (entries : List (α × Nat)) (indices : (entries.map Prod.snd).Nodup)
      (choice : Nat → Choice) (inj : Function.Injective choice) :
      (entries.map fun entry => choice entry.2).Nodup := by
    have same : (entries.map fun entry => choice entry.2) = (entries.map Prod.snd).map choice := by
      rw [List.map_map, Function.comp_def]
    rw [same]
    exact indices.map inj
  have counted {α : Type} (entries : List α) : (entries.zipIdx.map Prod.snd).Nodup := by
    rw [List.zipIdx_map_snd]
    exact List.nodup_range'
  have patches := numbered (patches.zipIdx.filter fun (patch, _) => patch.touches at')
    ((counted patches).sublist (List.filter_sublist.map _)) .patch (fun _ _ => Choice.patch.inj)
  have history := numbered (pool.historyOf number).zipIdx (counted _) .history
    (fun _ _ => Choice.history.inj)
  have single {α : Type} (held : Option α) (choice : Choice) :
      (held.toList.map fun _ => choice).Nodup := by
    cases held with
    | none => exact List.nodup_nil
    | some _ => exact List.nodup_singleton _
  have apart (first second : List Choice) (once : first.Nodup) (once' : second.Nodup)
      (distinct : ∀ a ∈ first, ∀ b ∈ second, a ≠ b) : (first ++ second).Nodup :=
    List.nodup_append.2 ⟨once, once', distinct⟩
  rw [offered, List.map_append, List.map_append, List.map_append, List.map_append, List.map_map,
    List.map_map, List.map_map, List.map_map, List.map_map]
  refine apart _ _ (apart _ _ (apart _ _ (apart _ _ patches (single _ .heuristic) ?_)
    (single _ .classifier) ?_) (single _ .editScript) ?_) history ?_
  all_goals
    intro a inside b inside'
    obtain ⟨_, -, rfl⟩ := List.mem_map.1 inside'
    simp only [List.mem_append, List.mem_map, Function.comp_apply] at inside
    rintro rfl
    simp at inside

/-! ## The menu as a rendering -/

/-- Heuristic candidates behind the first are passed over. -/
theorem candidateEntries_further (number rank : Nat) (resolutions : List Resolution)
    (rest : List Candidate) :
    candidateEntries true rank
        (resolutions.map (fun r =>
          ⟨.heuristic, number, r.content, some r.confidence, some r.label, none⟩) ++ rest) =
      candidateEntries true rank rest := by
  induction resolutions with
  | nil => rfl
  | cons r resolutions ih => simpa [candidateEntries] using ih

/-- History candidates are ranked by their place in the pool. -/
theorem candidateEntries_history {pool : Pool} {number : Nat} (listed : Bool)
    (front rest : List HistoryCandidate) (whole : pool.historyOf number = front ++ rest) :
    candidateEntries listed front.length
        (rest.map fun c => ⟨.history, number, c.content, some c.confidence, none, none⟩) =
      (rest.zipIdx front.length).map fun (candidate, rank) =>
        entryOf pool number (.history rank) candidate.content := by
  induction rest generalizing front with
  | nil => rfl
  | cons candidate rest ih =>
    have here : (pool.historyOf number)[front.length]? = some candidate := by
      rw [whole, List.getElem?_append_right (Nat.le_refl _), Nat.sub_self, List.getElem?_cons_zero]
    have later := ih (front ++ [candidate]) (by rw [whole, List.append_assoc, List.singleton_append])
    rw [List.length_append, List.length_singleton] at later
    have entry : entryOf pool number (.history front.length) candidate.content =
        ⟨"History #" ++ toString (front.length + 1) ++ confidenceText (some candidate.confidence) ++
          ": " ++ preview candidate.content, .history front.length⟩ := by
      rw [entryOf, heading_history here]
    rw [List.map_cons, candidateEntries, later, List.zipIdx_cons, List.map_cons]
    exact congrArg (· :: _) entry.symm

/-- The candidates of a block that are not heuristic. -/
def otherCandidates (pool : Pool) (number : Nat) : List Candidate :=
  (pool.label? number).toList.map
      (fun c => ⟨.classifier, number, c.content, some c.confidence, some c.label.code, none⟩) ++
    (if pool.batchPending then []
      else (pool.script? number).toList.map (Pool.scriptCandidate number)) ++
    (pool.historyOf number).map
      (fun c => ⟨.history, number, c.content, some c.confidence, none, none⟩)

/-- Behind the heuristic candidates the menu has an entry for each thing that is offered. -/
theorem candidateEntries_others (pool : Pool) (number : Nat) (listed : Bool) :
    candidateEntries listed 0 (otherCandidates pool number) =
      (pool.label? number).toList.map (fun c => entryOf pool number .classifier c.content) ++
        (pool.scriptText? number).toList.map (fun text => entryOf pool number .editScript text) ++
        (pool.historyOf number).zipIdx.map
          fun (c, rank) => entryOf pool number (.history rank) c.content := by
  have history := @candidateEntries_history pool number listed [] (pool.historyOf number) rfl
  have scripts (rest : List Candidate) : candidateEntries listed 0
      ((if pool.batchPending then []
        else (pool.script? number).toList.map (Pool.scriptCandidate number)) ++ rest) =
      (pool.scriptText? number).toList.map (fun text => entryOf pool number .editScript text) ++
        candidateEntries listed 0 rest := by
    rw [Pool.scriptText?]
    cases pool.batchPending with
    | true => rfl
    | false =>
      rcases pool.script? number with _ | text | _
      · rfl
      · rfl
      · simp [Pool.scriptCandidate, candidateEntries]
  rw [List.length_nil] at history
  rw [otherCandidates, List.append_assoc, List.append_assoc]
  cases held : pool.label? number with
  | none =>
    rw [Option.toList_none, List.map_nil, List.nil_append, scripts, history]
    rfl
  | some candidate =>
    have first (rest : List Candidate) : candidateEntries listed 0
        (⟨.classifier, number, candidate.content, some candidate.confidence,
          some candidate.label.code, none⟩ :: rest) =
        entryOf pool number .classifier candidate.content :: candidateEntries listed 0 rest := by
      rw [candidateEntries, entryOf, heading_classifier held]
      rfl
    rw [Option.toList_some, List.map_singleton, List.singleton_append, first, scripts, history]
    rfl

/-- Of the heuristic candidates the best one is on the menu. -/
theorem candidateEntries_candidates (pool : Pool) (number : Nat) :
    ∃ listed, candidateEntries false 0 (pool.candidates number) =
      (pool.bestResolution? number).toList.map
          (fun best => entryOf pool number .heuristic best.content) ++
        candidateEntries listed 0 (otherCandidates pool number) := by
  have split : pool.candidates number =
      ((pool.resolutions.get? number).getD []).map (fun r =>
        ⟨.heuristic, number, r.content, some r.confidence, some r.label, none⟩) ++
        otherCandidates pool number := by
    simp only [Pool.candidates, otherCandidates, List.append_assoc]
  have best : pool.bestResolution? number = ((pool.resolutions.get? number).getD []).head? := by
    rw [Pool.bestResolution?]
    cases pool.resolutions.get? number with
    | none => rfl
    | some list => rfl
  rw [split]
  cases held : (pool.resolutions.get? number).getD [] with
  | nil =>
    rw [held] at best
    refine ⟨false, ?_⟩
    rw [best]
    rfl
  | cons first others =>
    rw [held, List.head?_cons] at best
    refine ⟨true, ?_⟩
    rw [best, List.map_cons, List.cons_append, Option.toList_some, List.map_singleton,
      List.singleton_append, ← candidateEntries_further number 0 others]
    rw [candidateEntries, entryOf, heading_heuristic best]
    rfl

/-- The menu of a block that is found: its sides, and an entry for each thing that is offered. -/
theorem entries_eq (pool : Pool) (patches : List Patch) (number : Nat) (at' : Interval)
    (block : Block) (print : Option Fingerprint) :
    entries ⟨number, block, print, some at', pool.candidates number⟩ patches =
      sideEntries block ++ (offered pool patches number at').map fun (choice, text) =>
        entryOf pool number choice text := by
  obtain ⟨listed, candidates⟩ := candidateEntries_candidates pool number
  rw [entries, candidates, candidateEntries_others]
  simp only [patchEntries, offered, List.map_append, List.map_map, Function.comp_def,
    List.append_assoc]
  rfl

/-! ## The menu and the buffer -/

/-- A side is on the menu exactly if the block has it, under its name. -/
theorem mem_sideEntries_iff (known : numbered? buffer.blocks number = some conflict)
    (entry : MenuEntry) :
    entry ∈ sideEntries conflict ↔ ∃ which, entry = ⟨"Keep " ++ which.name, .side which⟩ ∧
      ∃ resolved, buffer.pool.resolve buffer.setting number (.side which) = .ok resolved := by
  have resolves (which : Side) :
      (∃ resolved, buffer.pool.resolve buffer.setting number (.side which) = .ok resolved) ↔
        buffer.pool.Offers buffer.setting number (.side which) :=
    Pool.exists_resolve_iff known (.side which)
  have known : numbered? buffer.setting.blocks number = some conflict := known
  simp only [resolves]
  constructor
  · intro inside
    rw [sideEntries, List.mem_append, List.mem_append, List.mem_singleton, List.mem_singleton]
      at inside
    obtain (rfl | middle) | rfl := inside
    · exact ⟨.ours, rfl, trivial⟩
    · split at middle
      · next three =>
        exact ⟨.base, List.mem_singleton.1 middle, conflict, known, three⟩
      · cases middle
    · exact ⟨.theirs, rfl, trivial⟩
  · rintro ⟨which, rfl, offers⟩
    cases which with
    | ours => exact List.mem_append_left _ (List.mem_append_left _ (List.mem_singleton.2 rfl))
    | theirs => exact List.mem_append_right _ (List.mem_singleton.2 rfl)
    | base =>
      obtain ⟨held, same, three⟩ := offers
      obtain rfl := Option.some.inj (known.symm.trans same)
      refine List.mem_append_left _ (List.mem_append_right _ ?_)
      rw [if_pos three]
      exact List.mem_singleton.2 rfl

theorem nodup_sideEntries (block : Block) :
    ((sideEntries block).map MenuEntry.choice).Nodup := by
  rw [sideEntries]
  split <;> decide

end Menu

namespace Buffer

variable {buffer : Buffer}

/-- With patches that fit the text, a choice for a block that is found has lines to replace exactly
if it has to do with the block's place. -/
theorem exists_target_iff_reaches {number : Nat} {conflict : Block} {at' : Interval}
    (fit : ∀ patch ∈ buffer.patches, patch.fits buffer.current.length = true)
    (known : numbered? buffer.blocks number = some conflict)
    (found : buffer.locate number = some at') (choice : Choice) :
    (∃ place, (buffer.target ⟨number, choice⟩).2 = .ok place) ↔ buffer.Reaches at' choice := by
  rw [exists_target_iff fit]
  constructor
  · rintro ⟨other, prepared, reaches⟩
    obtain rfl := Option.some.inj (found.symm.trans (prepare_ok_iff.1 prepared).2)
    exact reaches
  · exact fun reaches => ⟨at', prepare_ok_iff.2 ⟨⟨conflict, known⟩, found⟩, reaches⟩

end Buffer

namespace Menu

/-- The view of a block that is found. -/
def viewOf (buffer : Buffer) (number : Nat) (block : Block) (at' : Interval) : BlockView :=
  ⟨number, block, buffer.prints.get? number, some at', buffer.pool.candidates number⟩

variable {buffer : Buffer} {number : Nat} {at' : Interval} {conflict : Block}

/-- An entry stands for a choice that has to do with the block's place, and shows what it puts in. -/
theorem stands_of_mem_entries (known : numbered? buffer.blocks number = some conflict)
    {entry : MenuEntry} (inside : entry ∈ entries (viewOf buffer number conflict at') buffer.patches) :
    buffer.Reaches at' entry.choice ∧ ∃ resolved,
      buffer.pool.resolve buffer.setting number entry.choice = .ok resolved ∧
        entry.label =
          match entry.choice with
          | .side which => "Keep " ++ which.name
          | choice => heading buffer.pool number choice ++
            preview (Text.joinLines resolved.lines) := by
  rw [viewOf, entries_eq, List.mem_append] at inside
  rcases inside with side | other
  · obtain ⟨which, rfl, resolved, resolves⟩ := (mem_sideEntries_iff known entry).1 side
    exact ⟨trivial, resolved, resolves, rfl⟩
  · obtain ⟨⟨choice, text⟩, offers, rfl⟩ := List.mem_map.1 other
    obtain ⟨direct, reaches, resolved, resolves, rfl⟩ := (mem_offered_iff known choice text).1 offers
    refine ⟨reaches, resolved, resolves, ?_⟩
    rw [Pool.joinLines_of_resolve resolves]
    cases choice with
    | side which => exact absurd rfl (direct which)
    | _ => rfl

/-- A choice that has to do with the block's place and stands for something is on the menu. -/
theorem mem_choices_of_resolve (known : numbered? buffer.blocks number = some conflict)
    {choice : Choice} {resolved : Resolved} (reaches : buffer.Reaches at' choice)
    (resolves : buffer.pool.resolve buffer.setting number choice = .ok resolved) :
    choice ∈ (entries (viewOf buffer number conflict at') buffer.patches).map MenuEntry.choice := by
  rw [viewOf, entries_eq, List.map_append, List.mem_append]
  by_cases side : ∃ which, choice = .side which
  · obtain ⟨which, rfl⟩ := side
    exact .inl (List.mem_map.2
      ⟨_, (mem_sideEntries_iff known _).2 ⟨which, rfl, resolved, resolves⟩, rfl⟩)
  · have offers : (choice, resolved.content) ∈ offered buffer.pool buffer.patches number at' :=
      (mem_offered_iff known choice resolved.content).2
        ⟨fun which same => side ⟨which, same⟩, reaches, resolved, resolves, rfl⟩
    exact .inr (List.mem_map.2 ⟨_, List.mem_map.2 ⟨_, offers, rfl⟩, rfl⟩)

/-- No choice stands on the menu twice. -/
theorem nodup_choices (known : numbered? buffer.blocks number = some conflict) :
    ((entries (viewOf buffer number conflict at') buffer.patches).map MenuEntry.choice).Nodup := by
  have choices : ((offered buffer.pool buffer.patches number at').map fun (choice, text) =>
      entryOf buffer.pool number choice text).map MenuEntry.choice =
      (offered buffer.pool buffer.patches number at').map Prod.fst := by
    rw [List.map_map]
    rfl
  rw [viewOf, entries_eq, List.map_append, choices, List.nodup_append]
  refine ⟨nodup_sideEntries conflict, nodup_offered _ _ _ _, fun side isSide other isOffered => ?_⟩
  obtain ⟨entry, inside, rfl⟩ := List.mem_map.1 isSide
  obtain ⟨which, rfl, -⟩ := (mem_sideEntries_iff known entry).1 inside
  obtain ⟨⟨choice, text⟩, offers, rfl⟩ := List.mem_map.1 isOffered
  exact (((mem_offered_iff known choice text).1 offers).1 which).symm

/-- In every state of a session, for every block that is found: the choices on its menu are, each
once, those that can be applied to it now. A side is listed under its name, and any other entry
shows what the text looks like that applying its choice puts into the buffer. -/
theorem entries_agree_with_apply (lines : List String) (algorithm : Algorithm)
    (moves : List Buffer.Move) (file : FileContext) (notices : List Notice) :
    let session : Session := ⟨file, (Buffer.ofLines lines algorithm).run moves, notices⟩
    let buffer := session.buffer
    ∀ view ∈ session.snapshot.blocks, view.located.isSome = true →
      let menu := entries view session.snapshot.patches
      (menu.map MenuEntry.choice).Nodup ∧
        (∀ choice, choice ∈ menu.map MenuEntry.choice ↔
          ∃ applied, (buffer.apply ⟨view.number, choice⟩).2 = .ok applied) ∧
        ∀ entry ∈ menu, ∃ position count resolved,
          (buffer.target ⟨view.number, entry.choice⟩).2 = .ok (position, count) ∧
            buffer.pool.resolve buffer.setting view.number entry.choice = .ok resolved ∧
            (buffer.apply ⟨view.number, entry.choice⟩).1.current =
              Patch.splice buffer.current position count resolved.lines ∧
            entry.label =
              match entry.choice with
              | .side which => "Keep " ++ which.name
              | choice => heading buffer.pool view.number choice ++
                preview (Text.joinLines resolved.lines) := by
  intro session buffer view shown found menu
  obtain ⟨at', place⟩ := Option.isSome_iff_exists.1 found
  obtain ⟨number, conflict, known, located, rfl⟩ : ∃ number conflict,
      numbered? buffer.blocks number = some conflict ∧ buffer.locate number = some at' ∧
        view = viewOf buffer number conflict at' := by
    obtain ⟨⟨block, index⟩, listed, rfl⟩ := List.mem_map.1 shown
    refine ⟨index + 1, block, List.mem_zipIdx_iff_getElem?.1 listed, place, ?_⟩
    rw [viewOf, ← place]
    rfl
  have targets := Buffer.exists_target_iff_reaches (Buffer.run_fits lines algorithm moves) known
    located
  refine ⟨nodup_choices known, fun choice => ?_, fun entry inside => ?_⟩
  · rw [Buffer.exists_apply_iff]
    constructor
    · intro inside
      obtain ⟨entry, listed, rfl⟩ := List.mem_map.1 inside
      obtain ⟨reaches, resolved, resolves, -⟩ := stands_of_mem_entries known listed
      exact ⟨(targets entry.choice).2 reaches, resolved, resolves⟩
    · rintro ⟨targeted, resolved, resolves⟩
      exact mem_choices_of_resolve known ((targets choice).1 targeted) resolves
  · obtain ⟨reaches, resolved, resolves, label⟩ := stands_of_mem_entries known inside
    obtain ⟨⟨position, count⟩, targeted⟩ := (targets entry.choice).2 reaches
    exact ⟨position, count, resolved, targeted, resolves,
      Buffer.current_apply targeted resolves, label⟩

/-- A conflict for which the classifier has put in a candidate of two lines: the menu has an entry
that previews it, and none for the source that has put in nothing. -/
theorem entries_of_labelled :
    let session : Session := ⟨.blank, (Buffer.ofLines ["<<<<<<<", "=======", ">>>>>>>"] .lines).run
      [.commit (.label 1 ⟨.ours, Binary64.zero, "a\nb"⟩)], []⟩
    ∃ view ∈ session.snapshot.blocks, view.located = some ⟨0, 2⟩ ∧
      ⟨"ML [V1] (0.00): a ...", .classifier⟩ ∈ entries view session.snapshot.patches ∧
      (∃ applied, (session.buffer.apply ⟨view.number, .classifier⟩).2 = .ok applied) ∧
      ¬∃ applied, (session.buffer.apply ⟨view.number, .heuristic⟩).2 = .ok applied := by
  intro session
  have found : session.buffer.locate 1 = some ⟨0, 2⟩ := by decide +kernel
  have view_eq : session.viewAt ⟨1, none, 2, 3⟩ 0 = viewOf session.buffer 1 ⟨1, none, 2, 3⟩ ⟨0, 2⟩ := by
    rw [viewOf, ← found]
    rfl
  have shown : viewOf session.buffer 1 ⟨1, none, 2, 3⟩ ⟨0, 2⟩ ∈ session.snapshot.blocks :=
    view_eq ▸ List.mem_map.2 ⟨(⟨1, none, 2, 3⟩, 0), by decide +kernel, rfl⟩
  obtain ⟨-, agrees, -⟩ := entries_agree_with_apply ["<<<<<<<", "=======", ">>>>>>>"] .lines
    [.commit (.label 1 ⟨.ours, Binary64.zero, "a\nb"⟩)] .blank [] _ shown rfl
  exact ⟨_, shown, rfl, by decide +kernel, (agrees .classifier).1 (by decide +kernel),
    fun applied => absurd ((agrees .heuristic).2 applied) (by decide +kernel)⟩

end Menu

end MergeConflict
