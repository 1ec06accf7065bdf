import MergeConflict.Proofs.PartialRefresh

/-!
# When a choice is applied

Applying a choice has many exits: the block may be unknown or no longer in the text, a patch may lie
elsewhere, and the pool may hold nothing to put in. A choice is applied exactly if its block is
known and found and the choice is available there (`Available`). The exit for a patch that replaces
lines which the text does not have is never taken, since the patches of a run fit the text
(`run_fits`).

A choice that fails leaves the buffer as it was and is not announced; at most the place of its own
request is remembered.

Main statement: `run_apply_outcome`.
-/

namespace MergeConflict

/-- There is something to put in the place of a block given by number. -/
def Pool.Offers (pool : Pool) (setting : Setting) (number : Nat) : Choice → Prop
  | .side .base => ∃ conflict ∈ numbered? setting.blocks number, conflict.isThreeWay = true
  | .side _ => True
  | .heuristic => ∃ resolution, resolution ∈ (pool.resolutions.get? number).getD []
  | .patch index => index < setting.patches.length
  | .classifier => (pool.label? number).isSome = true
  | .editScript =>
    pool.batchPending = false ∧ ∃ text, pool.script? number = some (.resolvable text)
  | .history rank => rank < (pool.historyOf number).length

namespace Pool

variable {pool : Pool} {setting : Setting} {number : Nat} {conflict : Block}

theorem bind_block_of_known {α : Type} (known : numbered? setting.blocks number = some conflict)
    (rest : Block → Except ResolveError α) :
    (Setting.block setting number >>= rest) = rest conflict := by
  rw [Setting.block, known]
  rfl

theorem isSome_bestResolution?_iff :
    (pool.bestResolution? number).isSome = true ↔
      ∃ resolution, resolution ∈ (pool.resolutions.get? number).getD [] := by
  rw [bestResolution?]
  cases pool.resolutions.get? number with
  | none => simp
  | some list =>
    cases list with
    | nil => simp
    | cons best rest => simp

/-- For a known block a choice stands for something exactly if there is something to put in. -/
theorem exists_resolve_iff (known : numbered? setting.blocks number = some conflict)
    (choice : Choice) :
    (∃ resolved, pool.resolve setting number choice = .ok resolved) ↔
      pool.Offers setting number choice := by
  have fails (e : ResolveError) :
      ¬∃ resolved, (throw e : Except ResolveError Resolved) = .ok resolved :=
    fun ⟨_, impossible⟩ => nomatch impossible
  have gives (resolved : Resolved) :
      ∃ result, (return resolved : Except ResolveError Resolved) = .ok result :=
    ⟨resolved, rfl⟩
  have counted {α : Type} (entries : List α) (i : Nat) :
      i < entries.length ↔ entries[i]?.isSome = true := by
    rw [isSome_getElem?]
  rw [resolve, bind_block_of_known known]
  cases choice with
  | side which =>
    simp only
    cases which with
    | ours => exact iff_of_true (gives _) trivial
    | theirs => exact iff_of_true (gives _) trivial
    | base =>
      simp only [Offers, known, Option.mem_some, exists_eq_left', Block.isThreeWay, Sides.get?,
        Block.sides, Block.base]
      cases conflict.baseLine with
      | none => exact iff_of_false (fails _) nofun
      | some line => exact iff_of_true (gives _) rfl
  | heuristic =>
    rw [Offers, ← isSome_bestResolution?_iff]
    simp only
    cases pool.bestResolution? number with
    | none => exact iff_of_false (fails _) nofun
    | some best => exact iff_of_true (gives _) rfl
  | patch index =>
    rw [Offers, counted]
    simp only
    cases setting.patches[index]? with
    | none => exact iff_of_false (fails _) nofun
    | some patch => exact iff_of_true (gives _) rfl
  | classifier =>
    simp only [Offers]
    cases pool.label? number with
    | none => exact iff_of_false (fails _) nofun
    | some candidate => exact iff_of_true (gives _) rfl
  | editScript =>
    simp only [Offers]
    cases pool.batchPending with
    | true => exact iff_of_false (fails _) nofun
    | false =>
      cases pool.script? number with
      | none => exact iff_of_false (fails _) nofun
      | some outcome => cases outcome with
        | unresolvable => exact iff_of_false (fails _) nofun
        | resolvable text => exact iff_of_true (gives _) ⟨rfl, text, rfl⟩
  | history rank =>
    rw [Offers, counted]
    simp only
    cases (pool.historyOf number)[rank]? with
    | none => exact iff_of_false (fails _) nofun
    | some candidate => exact iff_of_true (gives _) rfl

/-- What a choice puts in is a side of the block, the lines of a patch, or a text cut into lines,
and its text is what is audited. -/
theorem resolve_lines {choice : Choice} {resolved : Resolved}
    (resolves : pool.resolve setting number choice = .ok resolved) :
    resolved.audit.choiceCode = resolved.content ∧
      ((∃ (block : Block) (which : Side),
        (block.sides setting.loaded).get? which = some resolved.lines ∧
          resolved.content = Text.joinLines resolved.lines) ∨
      (∃ index patch, choice = .patch index ∧ setting.patches[index]? = some patch ∧
        resolved.lines = patch.newLines ∧ resolved.content = patch.content) ∨
      resolved.lines = Text.splitLines resolved.content) := by
  have text {given : Resolved} {choice : Choice} {content heuristic label script : String}
      (same : (return ofText choice content heuristic label script : Except ResolveError Resolved) =
        .ok given) :
      given.audit.choiceCode = given.content ∧ given.lines = Text.splitLines given.content := by
    cases same
    exact ⟨rfl, rfl⟩
  cases found : Setting.block setting number with
  | error e =>
    rw [resolve, found] at resolves
    cases resolves
  | ok conflict =>
    rw [resolve, found] at resolves
    cases choice with
    | side which =>
      simp only [bind, Except.bind] at resolves
      split at resolves
      · cases resolves
      · next lines holds =>
        cases resolves
        exact ⟨rfl, .inl ⟨conflict, which, holds, rfl⟩⟩
    | patch index =>
      simp only [bind, Except.bind] at resolves
      split at resolves
      · cases resolves
      · next patch held =>
        cases resolves
        exact ⟨rfl, .inr (.inl ⟨index, patch, rfl, held, rfl, rfl⟩)⟩
    | editScript =>
      simp only [bind, Except.bind] at resolves
      split at resolves
      · cases resolves
      · split at resolves
        · exact (text resolves).imp_right fun cut => .inr (.inr cut)
        · cases resolves
        · cases resolves
    | _ =>
      simp only [bind, Except.bind] at resolves
      split at resolves
      · cases resolves
      · exact (text resolves).imp_right fun cut => .inr (.inr cut)

/-- A side is put in as the block has it in the file. -/
theorem get?_of_resolve_side (known : numbered? setting.blocks number = some conflict)
    {which : Side} {resolved : Resolved} (resolves : pool.resolve setting number (.side which) = .ok resolved) :
    (conflict.sides setting.loaded).get? which = some resolved.lines := by
  rw [resolve, bind_block_of_known known] at resolves
  simp only at resolves
  split at resolves
  · cases resolves
  · next lines holds =>
    cases resolves
    exact holds

/-- The lines that a choice puts in are those of its text. -/
theorem joinLines_of_resolve {choice : Choice} {resolved : Resolved}
    (resolves : pool.resolve setting number choice = .ok resolved) :
    Text.joinLines resolved.lines = resolved.content := by
  obtain ⟨_, ⟨_, _, _, same⟩ | ⟨_, _, _, _, lines, same⟩ | same⟩ := resolve_lines resolves
  · exact same.symm
  · rw [lines, same, Patch.content]
  · rw [same, Text.joinLines_splitLines]

end Pool

namespace Buffer

/-- The lines that a choice replaces have to do with an interval: a patch covers a position of it,
and any other choice goes there. -/
def Reaches (buffer : Buffer) (at' : Interval) : Choice → Prop
  | .patch index => ∃ patch ∈ buffer.patches[index]?, patch.touches at' = true
  | _ => True

/-- For a block at an interval there is something to put in, and it belongs there. -/
def Available (buffer : Buffer) (request : Request) (at' : Interval) : Prop :=
  buffer.pool.Offers buffer.setting request.block request.choice ∧
    buffer.Reaches at' request.choice

variable {buffer : Buffer} {request : Request} {at' : Interval}

/-! ## The exits of an application -/

/-- A block is found exactly if it is known and sits somewhere. -/
theorem prepare_ok_iff :
    (buffer.prepare request).2 = .ok at' ↔
      (∃ conflict, numbered? buffer.blocks request.block = some conflict) ∧
        buffer.locate request.block = some at' := by
  rw [prepare, block]
  cases numbered? buffer.blocks request.block with
  | none => simp
  | some conflict =>
    cases buffer.locate request.block with
    | none => simp
    | some found => simp

/-- With patches that fit the text, a request has lines to replace exactly if its block is found
where the choice belongs. -/
theorem exists_target_iff
    (fit : ∀ patch ∈ buffer.patches, patch.fits buffer.current.length = true) :
    (∃ place, (buffer.target request).2 = .ok place) ↔
      ∃ at', (buffer.prepare request).2 = .ok at' ∧ buffer.Reaches at' request.choice := by
  rcases outcome : buffer.prepare request with ⟨after, e | at'⟩
  · have lost : ∀ place, (buffer.target request).2 ≠ .ok place := by
      intro place
      unfold target
      split
      · split
        · simp
        · split
          · simp [outcome]
          · simp
      · simp [outcome]
    simp [lost]
  · unfold target
    cases chosen : request.choice with
    | patch index =>
      simp only [Reaches, outcome]
      cases held : buffer.patches[index]? with
      | none => simp
      | some patch =>
        simp only [if_pos (fit patch (List.mem_of_getElem? held))]
        by_cases touching : patch.touches at' = true
        · simp [touching]
        · simp [touching]
    | _ => simp [outcome, Reaches]

/-- A request with lines to replace has a block that is found. It replaces the lines of a patch that
fits the text, or those that the block is found at. -/
theorem exists_place_of_target {position count : Nat}
    (targeted : (buffer.target request).2 = .ok (position, count)) :
    ∃ at', (buffer.prepare request).2 = .ok at' ∧
      ((∃ index patch, request.choice = .patch index ∧ buffer.patches[index]? = some patch ∧
          patch.fits buffer.current.length = true ∧
          position = patch.start - 1 ∧ count = patch.offset) ∨
        (∀ index, request.choice ≠ .patch index) ∧
          position = at'.first ∧ count = at'.lineCount) := by
  unfold target at targeted
  split at targeted
  · next index chosen =>
    split at targeted
    · cases targeted
    · next patch held =>
      split at targeted
      · next fits =>
        split at targeted
        · cases targeted
        · next at' outcome =>
          split at targeted
          · cases targeted
            exact ⟨at', congrArg Prod.snd outcome, .inl ⟨index, patch, chosen, held, fits, rfl, rfl⟩⟩
          · cases targeted
      · cases targeted
  · next direct =>
    split at targeted
    · cases targeted
    · next at' outcome =>
      cases targeted
      exact ⟨at', congrArg Prod.snd outcome, .inr ⟨direct, rfl, rfl⟩⟩

theorem exists_apply_iff :
    (∃ applied, (buffer.apply request).2 = .ok applied) ↔
      (∃ place, (buffer.target request).2 = .ok place) ∧
        ∃ resolved, buffer.pool.resolve buffer.setting request.block request.choice =
          .ok resolved := by
  obtain ⟨located, targeted, -⟩ := target_fst buffer request
  unfold Buffer.apply
  rcases outcome : buffer.target request with ⟨found, e | place⟩
  · simp
  · rw [outcome] at targeted
    simp only at targeted
    subst targeted
    have same : ({ buffer with located } : Buffer).setting = buffer.setting := rfl
    simp only [same]
    cases resolved : buffer.pool.resolve buffer.setting request.block request.choice with
    | error e => simp
    | ok resolved => simp

/-- An applied choice puts its lines in the place of those that the request replaces. -/
theorem current_apply {position count : Nat} {resolved : Resolved}
    (targeted : (buffer.target request).2 = .ok (position, count))
    (resolves : buffer.pool.resolve buffer.setting request.block request.choice = .ok resolved) :
    (buffer.apply request).1.current =
      Patch.splice buffer.current position count resolved.lines := by
  rw [apply_of_target targeted resolves]
  rfl

/-- A choice that is applied has lines to replace and resolves, and revises the text there. -/
theorem exists_revise_of_apply {applied : Applied}
    (done : (buffer.apply request).2 = .ok applied) :
    ∃ position count resolved, (buffer.target request).2 = .ok (position, count) ∧
      buffer.pool.resolve buffer.setting request.block request.choice = .ok resolved ∧
      (buffer.apply request).1 = buffer.revise
        (Patch.splice buffer.current position count resolved.lines) (position + 1) ∧
      applied.audit = resolved.audit := by
  obtain ⟨⟨⟨position, count⟩, targeted⟩, resolved, resolves⟩ := exists_apply_iff.1 ⟨applied, done⟩
  have outcome := apply_of_target targeted resolves
  rw [outcome] at done ⊢
  cases done
  exact ⟨position, count, resolved, targeted, resolves, rfl, rfl⟩

/-- In every state of a run a choice is applied exactly if its block is known and found and the
choice is available there. If it fails, the buffer is as it was but for the place remembered for the
request, and nobody is told. -/
theorem run_apply_outcome (lines : List String) (algorithm : Algorithm) (moves : List Move)
    (request : Request) :
    let buffer := (ofLines lines algorithm).run moves
    ((∃ applied, (buffer.apply request).2 = .ok applied) ↔
      (1 ≤ request.block ∧ request.block ≤ buffer.blocks.length) ∧
        ∃ at', buffer.locate request.block = some at' ∧ buffer.Available request at') ∧
    ∀ e, (buffer.apply request).2 = .error e →
      (∃ located, (buffer.apply request).1 = { buffer with located }) ∧
        (∀ other ≠ request,
          (buffer.apply request).1.locatedAt? other = buffer.locatedAt? other) ∧
        buffer.announced (.apply request) = [] := by
  intro buffer
  constructor
  · rw [exists_apply_iff, exists_target_iff (run_fits lines algorithm moves)]
    simp only [prepare_ok_iff]
    constructor
    · rintro ⟨⟨at', ⟨⟨conflict, known⟩, found⟩, reaches⟩, resolves⟩
      exact ⟨exists_numbered_iff.1 ⟨conflict, known⟩, at', found,
        (Pool.exists_resolve_iff known _).1 resolves, reaches⟩
    · rintro ⟨inside, at', found, offers, reaches⟩
      obtain ⟨conflict, known⟩ := exists_numbered_iff.2 inside
      exact ⟨⟨at', ⟨⟨conflict, known⟩, found⟩, reaches⟩,
        (Pool.exists_resolve_iff known _).2 offers⟩
  · intro e failed
    rcases apply_cases buffer request with ⟨_, outcome⟩ | ⟨next, hint, audit, outcome⟩
    · obtain ⟨located, targeted, others⟩ := target_fst buffer request
      have left : (buffer.apply request).1 = { buffer with located } := by
        rw [outcome, targeted]
      refine ⟨⟨located, left⟩, fun other distinct => ?_, ?_⟩
      · rw [left]
        exact others other distinct
      · rw [announced, outcome]
    · rw [outcome] at failed
      cases failed

end Buffer

end MergeConflict
