import MergeConflict.Proofs.Tables
import MergeConflict.Proofs.TextBytes
import MergeConflict.Proofs.TextLines
import MergeConflict.Rehearsal.Terminal

/-!
# Files that were written

A file that was put somewhere is found there, and everything else is as it was. So a text that was
written to a path is read from that path, if the path ends in a name. A dialogue that goes on with
the result of another one is run behind it, on the terminal that is left.

Main statements: `Disk.readText_writeText`, `Terminal.run_andThen`, and `Settings.run_writeFile` and
`Settings.run_readFile` for the file that the settings are kept in.
-/

namespace MergeConflict

namespace Disk

variable {disk disk' : Disk} {place other : Place} {path content : String}

/-! ## Putting a file -/

theorem entry?_put_self (disk : Disk) (place : Place) (bytes : List UInt8) :
    Disk.entry? (disk.put place bytes) place = some (.file bytes) := by
  rw [ entry?, put, List.lookup_append, Table.lookup_filter_self]
  simp

/-- Elsewhere everything stays as it is. -/
theorem entry?_put_of_ne (bytes : List UInt8) (apart : other ≠ place) :
    Disk.entry? (disk.put place bytes) other = disk.entry? other := by
  have single : List.lookup other [(place, bytes)] = none := by
    rw [List.lookup_cons, beq_eq_false_iff_ne.2 apart, List.lookup_nil]
  rw [ entry?, put, List.lookup_append, Table.lookup_filter_of_ne _ apart, single, Option.or_none]
  rfl

/-- Names lead where they led, if the file is put where no folder was: only folders are passed. -/
theorem follow_put (bytes : List UInt8) (free : disk.entry? place ≠ some .folder)
    {start stop : Place} {names : List String} (leads : disk.follow start names = .ok stop) :
    (disk.put place bytes).follow start names = .ok stop := by
  induction names generalizing start with
  | nil => exact leads
  | cons name names ih =>
    rw [follow] at leads ⊢
    by_cases same : start = place
    · rw [same] at leads
      split at leads
      · nomatch leads
      · nomatch leads
      · next folder => exact absurd folder free
    · rw [entry?_put_of_ne bytes same]
      split at leads
      · nomatch leads
      · nomatch leads
      · exact ih leads

theorem find_of_follow {entry : DiskEntry}
    (leads : disk.follow (disk.origin path) (names path) = .ok place)
    (there : disk.entry? place = some entry) : disk.find path = .ok entry := by
  rw [find, locate]
  simp only [leads, bind, Except.bind, there]

/-- A file that was written holds what was written, if its path ends in a name. -/
theorem readText_writeText {last : String} (named : (names path).getLast? = some last)
    (filled : last ≠ "") (written : disk.writeText path content = .ok disk') :
    disk'.readText path = .ok content := by
  have proper : properNames path = names path := by
    obtain ⟨front, cut⟩ := List.getLast?_eq_some_iff.1 named
    rw [properNames, cut, List.reverse_concat, List.dropWhile_cons_of_neg (by simpa using filled),
      ← List.reverse_concat, List.reverse_reverse]
  rw [writeText, proper] at written
  cases leads : disk.follow (disk.origin path) (names path) with
  | error fault =>
    rw [leads] at written
    nomatch written
  | ok place =>
    simp only [leads, bind, Except.bind] at written
    split at written
    · nomatch written
    · next free =>
      cases written
      have found : (disk.put place content.toUTF8.toList).find path =
          .ok (.file content.toUTF8.toList) :=
        find_of_follow (follow_put content.toUTF8.toList (fun folder => free (.inr folder)) leads)
          (entry?_put_self disk place content.toUTF8.toList)
      simp only [readText, found, bind, Except.bind, Text.Utf8.decode?_toUTF8]

end Disk

/-! ## Runs of a dialogue -/

namespace Terminal

variable {α β : Type}

theorem run_andThen (terminal : Terminal) (dialogue : Dialogue α) (next : α → Dialogue β) :
    terminal.run (dialogue.andThen next) =
      match terminal.run dialogue with
      | (.ok value, after) => after.run (next value)
      | (.error failure, after) => (.error failure, after) := by
  induction dialogue generalizing terminal with
  | done value => rfl
  | fail failure => rfl
  | say text rest ih => exact ih _
  | ask prompt rest ih =>
    rw [Dialogue.andThen, run, run]
    split
    · next answer inputs asked _ => exact ih answer _
    · rfl
  | isThere path rest ih => exact ih _ _
  | read path rest ih => exact ih _ _
  | write path content rest ih => exact ih _ _
  | makeFolder path rest ih => exact ih _ _
  | fullPath path rest ih => exact ih _ _

theorem run_writeText {terminal after : Terminal} {path content : String}
    (written : terminal.run (Dialogue.writeText path content) = (.ok (), after)) :
    terminal.disk.writeText path content = .ok after.disk := by
  rw [Dialogue.writeText, run] at written
  cases result : terminal.disk.writeText path content with
  | error fault =>
    rw [result] at written
    nomatch written
  | ok disk =>
    rw [result] at written
    cases written
    rfl

end Terminal

/-! ## The settings file -/

namespace Invocation

/-- The settings go by a name of their own in the data folder. -/
theorem names_settingsPath (invocation : Invocation) :
    (Disk.names invocation.settingsPath).getLast? = some "settings.json" := by
  have cut : ∃ front, invocation.settingsPath.toList = front ++ '/' :: "settings.json".toList := by
    rw [settingsPath]
    split
    · next ends =>
      obtain ⟨front, whole⟩ := List.getLast?_eq_some_iff.1 ends
      refine ⟨front, ?_⟩
      rw [String.toList_append, whole, List.append_assoc]
      rfl
    · refine ⟨invocation.dataFolder.toList, ?_⟩
      rw [String.toList_append]
      rfl
  obtain ⟨front, whole⟩ := cut
  rw [Disk.names, whole, List.getLast?_map, Text.getLast?_cutAt front (by decide), Option.map_some,
    String.ofList_toList]

end Invocation

namespace Settings

variable {terminal after : Terminal} {settings : Settings} {invocation : Invocation}

/-- Where writing the settings succeeds, their file holds what is saved of them. -/
theorem run_writeFile (written : terminal.run (settings.writeFile invocation) = (.ok (), after)) :
    after.disk.readText invocation.settingsPath = .ok settings.save := by
  change terminal.run ((Dialogue.makeFolders invocation.dataFolder).andThen fun _ =>
    Dialogue.writeText invocation.settingsPath settings.save) = _ at written
  rw [Terminal.run_andThen] at written
  split at written
  · exact Disk.readText_writeText invocation.names_settingsPath (by decide)
      (Terminal.run_writeText written)
  · nomatch written

/-- Reading the settings loads what their file holds, and leaves the terminal as it is. -/
theorem run_readFile {path content : String} (held : terminal.disk.readText path = .ok content)
    (loaded : load content = .ok settings) :
    terminal.run (readFile path) = (.ok (.ok settings), terminal) := by
  rw [readFile, Terminal.run, held]
  simp only [loaded]
  rfl

end Settings

end MergeConflict
