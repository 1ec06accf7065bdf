import MergeConflict.Proofs.BufferMoves
import MergeConflict.Proofs.TextLines

/-!
# The versions of a buffer

The two stacks of a buffer and its current text are one line of versions with a cursor in it
(`Buffer.history`): the versions that can be undone, the current one, and those that can be redone.
A new version takes the place of all behind the cursor, undo and redo move the cursor along a line
that stays as it is, and reset leaves only the file as loaded (`historyAfter`, `move_history`).

A history tells the stacks and the text apart (`eq_of_history`), so what undo and redo do is read
off the cursor. Main statement: `run_history`.
-/

namespace MergeConflict

/-- Versions of a text in the order in which they were made, and the position of the one that is
shown. -/
structure History where
  versions : List (List String)
  cursor : Nat
deriving DecidableEq, Repr

namespace History

/-- One version only. -/
def single (version : List String) : History :=
  ⟨[version], 0⟩

/-- A new version in the place of all those behind the cursor. -/
def record (history : History) (version : List String) : History :=
  ⟨history.versions.take (history.cursor + 1) ++ [version], history.cursor + 1⟩

/-- One version back, as far as there is one. -/
def back (history : History) : History :=
  { history with cursor := history.cursor - 1 }

/-- One version forward, as far as there is one. -/
def forward (history : History) : History :=
  { history with cursor := min (history.cursor + 1) (history.versions.length - 1) }

variable {history : History} {version : List String}

theorem head?_record (filled : history.versions ≠ []) :
    (history.record version).versions.head? = history.versions.head? := by
  cases versions : history.versions with
  | nil => exact absurd versions filled
  | cons first rest => simp [record, versions]

end History

namespace Buffer

/-- The versions of a buffer, the current one behind those that can be undone. -/
def history (buffer : Buffer) : History :=
  ⟨buffer.undoStack.reverse ++ buffer.current :: buffer.redoStack, buffer.undoStack.length⟩

/-- The history that a move leads to. -/
def historyAfter (buffer : Buffer) : Move → History
  | .prepare _ => buffer.history
  | .apply request =>
    match buffer.apply request with
    | (after, .ok _) => buffer.history.record after.current
    | (_, .error _) => buffer.history
  | .edit content _ =>
    if Text.splitLines content = buffer.current then buffer.history
    else buffer.history.record (Text.splitLines content)
  | .undo => buffer.history.back
  | .redo => buffer.history.forward
  | .reset => .single buffer.loaded
  | .commit _ => buffer.history

variable {buffer : Buffer}

/-! ## Histories and stacks -/

theorem history_cursor_lt (buffer : Buffer) :
    buffer.history.cursor < buffer.history.versions.length := by
  simp [history]

theorem history_versions_ne_nil (buffer : Buffer) : buffer.history.versions ≠ [] := by
  simp [history]

/-- The version at the cursor is the current one. -/
theorem history_current (buffer : Buffer) :
    buffer.history.versions[buffer.history.cursor]? = some buffer.current := by
  simp [history]

/-- Buffers with one history have the same text and the same stacks. -/
theorem eq_of_history {other : Buffer} (same : buffer.history = other.history) :
    buffer.current = other.current ∧ buffer.undoStack = other.undoStack ∧
      buffer.redoStack = other.redoStack := by
  obtain ⟨versions, cursor⟩ := History.mk.inj same
  obtain ⟨undone, shown⟩ := List.append_inj versions (by simpa using cursor)
  obtain ⟨current, redone⟩ := List.cons.inj shown
  exact ⟨current, List.reverse_inj.1 undone, redone⟩

/-- A refresh is none of a history's business. -/
theorem history_refresh (buffer : Buffer) (hint : Nat) :
    (buffer.refresh hint).history = buffer.history :=
  rfl

theorem history_push (buffer : Buffer) (next : List String) :
    (buffer.push next).history = buffer.history.record next := by
  have shown : (buffer.undoStack.reverse ++ buffer.current :: buffer.redoStack).take
      (buffer.undoStack.length + 1) = buffer.undoStack.reverse ++ [buffer.current] := by
    rw [List.append_cons]
    exact List.take_left' (by simp)
  simp only [history, push, History.record, shown, List.reverse_cons, List.length_cons]

theorem history_revise (buffer : Buffer) (next : List String) (hint : Nat) :
    (buffer.revise next hint).history = buffer.history.record next :=
  (history_refresh _ hint).trans (history_push buffer next)

/-! ## What moves do to the history -/

theorem history_prepare (buffer : Buffer) (request : Request) :
    (buffer.prepare request).1.history = buffer.history := by
  obtain ⟨located, prepared, -⟩ := prepare_fst buffer request
  rw [prepared]
  rfl

/-- A choice that is applied makes one version, one that fails none. -/
theorem history_apply (buffer : Buffer) (request : Request) :
    (buffer.apply request).1.history = buffer.historyAfter (.apply request) := by
  rw [historyAfter]
  rcases apply_cases buffer request with ⟨e, failed⟩ | ⟨next, hint, audit, applied⟩
  · obtain ⟨located, targeted, -⟩ := target_fst buffer request
    rw [failed, targeted]
    rfl
  · rw [applied]
    exact history_revise buffer next hint

theorem history_undo (buffer : Buffer) : buffer.undo.1.history = buffer.history.back := by
  unfold undo
  cases undone : buffer.undoStack with
  | nil => simp [history, History.back, undone]
  | cons previous rest => simp [history, History.back, undone, refresh]

theorem history_redo (buffer : Buffer) : buffer.redo.1.history = buffer.history.forward := by
  unfold redo
  cases redone : buffer.redoStack with
  | nil => simp [history, History.forward, redone]
  | cons next rest => simp [history, History.forward, redone, refresh]

/-- Every move leads to the history that belongs to it. -/
theorem move_history (buffer : Buffer) (move : Move) :
    (buffer.move move).history = buffer.historyAfter move := by
  cases move with
  | prepare request => exact history_prepare buffer request
  | apply request => exact history_apply buffer request
  | edit content hint =>
    rw [Buffer.move, edit, historyAfter]
    split
    · rfl
    · exact history_revise buffer _ hint
  | undo => exact history_undo buffer
  | redo => exact history_redo buffer
  | reset => rfl
  | commit update =>
    rw [Buffer.move, commit]
    simp only
    split
    · rfl
    · rfl

/-- The first version stays the file as loaded. -/
theorem head?_historyAfter (first : buffer.history.versions.head? = some buffer.loaded)
    (move : Move) : (buffer.historyAfter move).versions.head? = some buffer.loaded := by
  have recorded (version : List String) :
      (buffer.history.record version).versions.head? = some buffer.loaded :=
    (History.head?_record (history_versions_ne_nil buffer)).trans first
  cases move with
  | apply request =>
    rw [historyAfter]
    split
    · exact recorded _
    · exact first
  | edit content hint =>
    rw [historyAfter]
    split
    · exact first
    · exact recorded _
  | reset => rfl
  | _ => exact first

/-! ## Histories along a run -/

theorem run_head?_history (lines : List String) (algorithm : Algorithm) (moves : List Move) :
    ((ofLines lines algorithm).run moves).history.versions.head? = some lines := by
  induction moves using List.reverseRecOn with
  | nil => rfl
  | append_singleton moves move ih =>
    have loaded := (run_rooted lines algorithm moves).loaded
    rw [run_concat, move_history]
    exact (head?_historyAfter (ih.trans (congrArg some loaded.symm)) move).trans
      (congrArg some loaded)

/-- Undoing moves the cursor to the front, as far as it goes. -/
theorem run_undo_history (buffer : Buffer) (n : Nat) :
    (buffer.run (List.replicate n .undo)).history =
      { buffer.history with cursor := buffer.history.cursor - n } := by
  induction n with
  | zero => rfl
  | succ n ih =>
    rw [List.replicate_succ', run_concat, move_history, historyAfter, ih, History.back]
    simp only [Nat.sub_sub]

/-- Redoing moves the cursor to the end, as far as it goes. -/
theorem run_redo_history (buffer : Buffer) (n : Nat) :
    (buffer.run (List.replicate n .redo)).history =
      { buffer.history with
        cursor := min (buffer.history.cursor + n) (buffer.history.versions.length - 1) } := by
  induction n with
  | zero =>
    have inside := history_cursor_lt buffer
    rw [Nat.add_zero, Nat.min_eq_left (by omega)]
    rfl
  | succ n ih =>
    rw [List.replicate_succ', run_concat, move_history, historyAfter, ih, History.forward]
    simp only [History.mk.injEq, true_and]
    omega

theorem undo_eq_none_iff (buffer : Buffer) : buffer.undo.2 = none ↔ buffer.history.cursor = 0 := by
  rw [history, undo]
  cases undone : buffer.undoStack with
  | nil => simp
  | cons previous rest => simp

theorem state_eq_clean_iff (buffer : Buffer) :
    buffer.state = .clean ↔ buffer.history.cursor = 0 := by
  rw [history, state]
  cases buffer.undoStack with
  | nil => simp
  | cons previous rest => simp

/-- In every state of a run the versions are one line that begins with the file as loaded, and every
move does to it what belongs to the move. So undoing comes to an end at the text as loaded, redoing
takes back as many undos, and the buffer is clean exactly at the first version. -/
theorem run_history (text : String) (algorithm : Algorithm) (moves : List Move) :
    let buffer := (ofContent text algorithm).run moves
    buffer.history.versions.head? = some (Text.splitLines text) ∧
      (∀ move, (buffer.move move).history = buffer.historyAfter move) ∧
      (∀ n, (buffer.run (List.replicate n .undo)).undo.2 = none ↔ buffer.undoStack.length ≤ n) ∧
      (buffer.run (List.replicate buffer.undoStack.length .undo)).content = text ∧
      (∀ n ≤ buffer.undoStack.length,
        let after := (buffer.run (List.replicate n .undo)).run (List.replicate n .redo)
        after.current = buffer.current ∧ after.undoStack = buffer.undoStack ∧
          after.redoStack = buffer.redoStack) ∧
      (buffer.state = .clean ↔ buffer.history.cursor = 0) := by
  intro buffer
  have first : buffer.history.versions.head? = some (Text.splitLines text) :=
    run_head?_history (Text.splitLines text) algorithm moves
  refine ⟨first, move_history buffer, fun n => ?_, ?_, fun n low => ?_, state_eq_clean_iff buffer⟩
  · rw [undo_eq_none_iff, run_undo_history]
    exact Nat.sub_eq_zero_iff_le
  · have shown := history_current (buffer.run (List.replicate buffer.undoStack.length .undo))
    rw [run_undo_history] at shown
    have atFront : buffer.history.cursor - buffer.undoStack.length = 0 := Nat.sub_self _
    rw [atFront, ← List.head?_eq_getElem?, first] at shown
    rw [content, ← Option.some.inj shown, Text.joinLines_splitLines]
  · refine eq_of_history ?_
    have inside := history_cursor_lt buffer
    have low : n ≤ buffer.history.cursor := low
    rw [run_redo_history, run_undo_history]
    simp only [Nat.sub_add_cancel low]
    rw [Nat.min_eq_left (by omega)]

end Buffer

end MergeConflict
