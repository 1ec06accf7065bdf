import MergeConflict.Proofs.JsonMembers
import MergeConflict.Proofs.WrittenFiles

/-!
# Settings files with members left out

The settings are saved as an object with a member for each section, and a section as an object with
a member for each of its settings. Such a document may lose any of its members and is still read as
settings: those whose members are gone, or whose section is gone as a whole, are the default ones,
and the others are as they were saved. What stands for a member that is missing is what the default
settings hold there (`absent_eq_default`, section by section).

Main statement: `Settings.load_written`.
-/

namespace MergeConflict

/-! ## Single values -/

namespace Json

theorem natural_ofNat {width n : Nat} (fits : n < Nat.pow 2 width) :
    natural width (.ofNat n) = .ok n := by
  have within : (0 : Int) ≤ n ∧ (n : Int) ≤ ((Nat.pow 2 width - 1 : Nat) : Int) := by
    omega
  rw [natural, ofNat, integer, if_pos within]
  rfl

theorem strings_ofStrings (lines : List String) : strings (.ofStrings lines) = .ok lines := by
  rw [strings, ofStrings, ofList, list]
  induction lines with
  | nil => rfl
  | cons line lines ih =>
    rw [List.map_cons, List.mapM_cons, ih]
    rfl

theorem plain_ofNat {n : Nat} (fits : n < UInt64.size) : (ofNat n).Plain := by
  change Token.Fits n
  rw [UInt64.size] at fits
  rw [Token.Fits, UInt64.size]
  omega

theorem plain_ofStrings (lines : List String) : (ofStrings lines).Plain := by
  rw [ofStrings, ofList, Plain]
  induction lines with
  | nil => trivial
  | cons line lines ih => exact ⟨trivial, ih⟩

end Json

theorem Algorithm.ofJson_without (algorithm : Algorithm) (gone : List String → Bool) :
    ofJson (algorithm.toJson.without gone) = .ok algorithm := by
  cases algorithm
  all_goals rfl

theorem Algorithm.plain_toJson (algorithm : Algorithm) : algorithm.toJson.Plain := by
  cases algorithm
  all_goals trivial

/-! ## Sections -/

namespace EngineSettings

variable {settings : EngineSettings}

/-- Both spellings of the defaults agree. -/
theorem absent_eq_default : absent = default := rfl

/-- The default settings where a member is gone, and the given ones elsewhere. -/
def withDefaults (settings : EngineSettings) (gone : List String → Bool) : EngineSettings where
  heuristic := if gone ["sa"] then default.heuristic else settings.heuristic
  classifier := if gone ["classifier"] then default.classifier else settings.classifier
  combiner := if gone ["combiner"] then default.combiner else settings.combiner
  editScript := if gone ["edit_script"] then default.editScript else settings.editScript
  history := if gone ["history"] then default.history else settings.history
  audit := if gone ["audit"] then default.audit else settings.audit
  timeout := if gone ["timeout_secs"] then default.timeout else settings.timeout

def members (settings : EngineSettings) : List (Json.Member EngineSettings) := [
  ⟨"sa", .str settings.heuristic, fun lost r =>
    { r with heuristic := if lost then r.heuristic else settings.heuristic }, fun _ => rfl⟩,
  ⟨"classifier", .str settings.classifier, fun lost r =>
    { r with classifier := if lost then r.classifier else settings.classifier }, fun _ => rfl⟩,
  ⟨"combiner", .str settings.combiner, fun lost r =>
    { r with combiner := if lost then r.combiner else settings.combiner }, fun _ => rfl⟩,
  ⟨"edit_script", .str settings.editScript, fun lost r =>
    { r with editScript := if lost then r.editScript else settings.editScript }, fun _ => rfl⟩,
  ⟨"history", .str settings.history, fun lost r =>
    { r with history := if lost then r.history else settings.history }, fun _ => rfl⟩,
  ⟨"audit", .str settings.audit, fun lost r =>
    { r with audit := if lost then r.audit else settings.audit }, fun _ => rfl⟩,
  ⟨"timeout_secs", .ofNat settings.timeout, fun lost r =>
    { r with timeout := if lost then r.timeout else settings.timeout }, fun _ => rfl⟩]

theorem plain_toJson (fits : settings.timeout < UInt64.size) : settings.toJson.Plain :=
  ⟨trivial, trivial, trivial, trivial, trivial, trivial, Json.plain_ofNat fits, trivial⟩

theorem ofJson_without (fits : settings.timeout < UInt64.size) (gone : List String → Bool) :
    ofJson (settings.toJson.without gone) = .ok (settings.withDefaults gone) := by
  rw [ofJson, absent_eq_default]
  refine Json.record_without settings.members ?_ (by simp [members]) (plain_toJson fits)
  exact .cons (.defaulted rfl fun _ => rfl) <| .cons (.defaulted rfl fun _ => rfl) <|
    .cons (.defaulted rfl fun _ => rfl) <| .cons (.defaulted rfl fun _ => rfl) <|
    .cons (.defaulted rfl fun _ => rfl) <| .cons (.defaulted rfl fun _ => rfl) <|
    .cons (.defaulted (Json.natural_ofNat fits) fun _ => rfl) .nil

end EngineSettings

namespace PollingSettings

variable {settings : PollingSettings}

theorem absent_eq_default : absent = default := rfl

def withDefaults (settings : PollingSettings) (gone : List String → Bool) : PollingSettings where
  attempts := if gone ["max_attempts"] then default.attempts else settings.attempts
  interval := if gone ["interval_ms"] then default.interval else settings.interval

def members (settings : PollingSettings) : List (Json.Member PollingSettings) := [
  ⟨"max_attempts", .ofNat settings.attempts, fun lost r =>
    { r with attempts := if lost then r.attempts else settings.attempts }, fun _ => rfl⟩,
  ⟨"interval_ms", .ofNat settings.interval, fun lost r =>
    { r with interval := if lost then r.interval else settings.interval }, fun _ => rfl⟩]

theorem plain_toJson (attempts : settings.attempts < UInt32.size)
    (interval : settings.interval < UInt64.size) : settings.toJson.Plain := by
  have wide : settings.attempts < UInt64.size := Nat.lt_trans attempts (by decide)
  exact ⟨Json.plain_ofNat wide, Json.plain_ofNat interval, trivial⟩

theorem ofJson_without (attempts : settings.attempts < UInt32.size)
    (interval : settings.interval < UInt64.size) (gone : List String → Bool) :
    ofJson (settings.toJson.without gone) = .ok (settings.withDefaults gone) := by
  rw [ofJson, absent_eq_default]
  refine Json.record_without settings.members ?_ (by simp [members]) (plain_toJson attempts interval)
  exact .cons (.defaulted (Json.natural_ofNat attempts) fun _ => rfl) <|
    .cons (.defaulted (Json.natural_ofNat interval) fun _ => rfl) .nil

end PollingSettings

namespace DiffSettings

variable (settings : DiffSettings) (gone : List String → Bool)

theorem absent_eq_default : absent = default := rfl

def withDefaults : DiffSettings where
  algorithm := if gone ["algorithm"] then default.algorithm else settings.algorithm

def members : List (Json.Member DiffSettings) := [
  ⟨"algorithm", settings.algorithm.toJson, fun lost r =>
    { r with algorithm := if lost then r.algorithm else settings.algorithm }, fun _ => rfl⟩]

theorem plain_toJson : settings.toJson.Plain :=
  ⟨settings.algorithm.plain_toJson, trivial⟩

theorem ofJson_without :
    ofJson (settings.toJson.without gone) = .ok (settings.withDefaults gone) := by
  rw [ofJson, absent_eq_default]
  refine Json.record_without settings.members ?_ (by simp [members]) settings.plain_toJson
  exact .cons (.defaulted (settings.algorithm.ofJson_without _) fun _ => rfl) .nil

end DiffSettings

namespace HttpSettings

variable {settings : HttpSettings}

theorem absent_eq_default : absent = default := rfl

def withDefaults (settings : HttpSettings) (gone : List String → Bool) : HttpSettings where
  enabled := if gone ["enabled"] then default.enabled else settings.enabled
  portNumber := if gone ["port"] then default.portNumber else settings.portNumber
  origins := if gone ["cors_origins"] then default.origins else settings.origins

def members (settings : HttpSettings) : List (Json.Member HttpSettings) := [
  ⟨"enabled", .bool settings.enabled, fun lost r =>
    { r with enabled := if lost then r.enabled else settings.enabled }, fun _ => rfl⟩,
  ⟨"port", .ofNat settings.portNumber, fun lost r =>
    { r with portNumber := if lost then r.portNumber else settings.portNumber }, fun _ => rfl⟩,
  ⟨"cors_origins", .ofStrings settings.origins, fun lost r =>
    { r with origins := if lost then r.origins else settings.origins }, fun _ => rfl⟩]

theorem plain_toJson (fits : settings.portNumber < UInt16.size) : settings.toJson.Plain := by
  have wide : settings.portNumber < UInt64.size := Nat.lt_trans fits (by decide)
  exact ⟨trivial, Json.plain_ofNat wide, Json.plain_ofStrings settings.origins, trivial⟩

theorem ofJson_without (fits : settings.portNumber < UInt16.size) (gone : List String → Bool) :
    ofJson (settings.toJson.without gone) = .ok (settings.withDefaults gone) := by
  rw [ofJson, absent_eq_default]
  refine Json.record_without settings.members ?_ (by simp [members]) (plain_toJson fits)
  exact .cons (.defaulted rfl fun _ => rfl) <|
    .cons (.defaulted (Json.natural_ofNat fits) fun _ => rfl) <|
    .cons (.defaulted (Json.strings_ofStrings settings.origins) fun _ => rfl) .nil

end HttpSettings

namespace ProjectSettings

variable (settings : ProjectSettings) (gone : List String → Bool)

theorem absent_eq_default : absent = default := rfl

def withDefaults : ProjectSettings where
  path := if gone ["project_path"] then default.path else settings.path
  targetBranch := if gone ["target_branch"] then default.targetBranch else settings.targetBranch
  sourceBranch := if gone ["source_branch"] then default.sourceBranch else settings.sourceBranch

def members : List (Json.Member ProjectSettings) := [
  ⟨"project_path", .str settings.path, fun lost r =>
    { r with path := if lost then r.path else settings.path }, fun _ => rfl⟩,
  ⟨"target_branch", .str settings.targetBranch, fun lost r =>
    { r with targetBranch := if lost then r.targetBranch else settings.targetBranch },
    fun _ => rfl⟩,
  ⟨"source_branch", .str settings.sourceBranch, fun lost r =>
    { r with sourceBranch := if lost then r.sourceBranch else settings.sourceBranch },
    fun _ => rfl⟩]

theorem plain_toJson : settings.toJson.Plain :=
  ⟨trivial, trivial, trivial, trivial⟩

theorem ofJson_without :
    ofJson (settings.toJson.without gone) = .ok (settings.withDefaults gone) := by
  rw [ofJson, absent_eq_default]
  refine Json.record_without settings.members ?_ (by simp [members]) settings.plain_toJson
  exact .cons (.defaulted rfl fun _ => rfl) <| .cons (.defaulted rfl fun _ => rfl) <|
    .cons (.defaulted rfl fun _ => rfl) .nil

end ProjectSettings

/-! ## Settings -/

namespace Settings

variable {settings : Settings}

theorem absent_eq_default : absent = default := rfl

/-- The default sections where a member of the document is gone, and what is left of the given ones
elsewhere. -/
def withDefaults (settings : Settings) (gone : List String → Bool) : Settings where
  engines :=
    if gone ["engines"] then default.engines
    else settings.engines.withDefaults fun path => gone ("engines" :: path)
  polling :=
    if gone ["polling"] then default.polling
    else settings.polling.withDefaults fun path => gone ("polling" :: path)
  diff :=
    if gone ["diff"] then default.diff
    else settings.diff.withDefaults fun path => gone ("diff" :: path)
  http :=
    if gone ["http"] then default.http
    else settings.http.withDefaults fun path => gone ("http" :: path)
  project :=
    if gone ["project"] then default.project
    else settings.project.withDefaults fun path => gone ("project" :: path)

/-- All numbers fit the bits they are kept in. -/
structure InRange (settings : Settings) : Prop where
  timeout : settings.engines.timeout < UInt64.size
  attempts : settings.polling.attempts < UInt32.size
  interval : settings.polling.interval < UInt64.size
  portNumber : settings.http.portNumber < UInt16.size

/-- The members of the document, and what a reader makes of what is left of them. -/
def members (settings : Settings) (gone : List String → Bool) : List (Json.Member Settings) := [
  ⟨"engines", settings.engines.toJson, fun lost r =>
    { r with
      engines :=
        if lost then r.engines
        else settings.engines.withDefaults fun path => gone ("engines" :: path) }, fun _ => rfl⟩,
  ⟨"polling", settings.polling.toJson, fun lost r =>
    { r with
      polling :=
        if lost then r.polling
        else settings.polling.withDefaults fun path => gone ("polling" :: path) }, fun _ => rfl⟩,
  ⟨"diff", settings.diff.toJson, fun lost r =>
    { r with
      diff :=
        if lost then r.diff
        else settings.diff.withDefaults fun path => gone ("diff" :: path) }, fun _ => rfl⟩,
  ⟨"http", settings.http.toJson, fun lost r =>
    { r with
      http :=
        if lost then r.http
        else settings.http.withDefaults fun path => gone ("http" :: path) }, fun _ => rfl⟩,
  ⟨"project", settings.project.toJson, fun lost r =>
    { r with
      project :=
        if lost then r.project
        else settings.project.withDefaults fun path => gone ("project" :: path) }, fun _ => rfl⟩]

theorem plain_toJson (inRange : settings.InRange) : settings.toJson.Plain :=
  ⟨EngineSettings.plain_toJson inRange.timeout,
    PollingSettings.plain_toJson inRange.attempts inRange.interval, settings.diff.plain_toJson,
    HttpSettings.plain_toJson inRange.portNumber, settings.project.plain_toJson, trivial⟩

theorem ofJson_without (inRange : settings.InRange) (gone : List String → Bool) :
    ofJson (settings.toJson.without gone) = .ok (settings.withDefaults gone) := by
  rw [ofJson, absent_eq_default]
  refine Json.record_without (settings.members gone) ?_ (by simp [members]) (plain_toJson inRange)
  exact
    .cons (.defaulted (EngineSettings.ofJson_without inRange.timeout _) fun _ => rfl) <|
    .cons (.defaulted (PollingSettings.ofJson_without inRange.attempts inRange.interval _)
      fun _ => rfl) <|
    .cons (.defaulted (settings.diff.ofJson_without _) fun _ => rfl) <|
    .cons (.defaulted (HttpSettings.ofJson_without inRange.portNumber _) fun _ => rfl) <|
    .cons (.defaulted (settings.project.ofJson_without _) fun _ => rfl) .nil

theorem load_spelled (inRange : settings.InRange) {gone : List String → Bool} {text : String}
    (spelled : (settings.toJson.without gone).Spelled text) :
    load text = .ok (settings.withDefaults gone) := by
  rw [load, Json.ofText, Json.read_spelled spelled]
  simp only [ofJson_without inRange gone, bind, Except.bind]
  rfl

/-- Settings are loaded as they were saved. Where members were left out of what was saved, at either
level, their settings are the default ones, however the document is spelled. -/
theorem load_written (inRange : settings.InRange) :
    load settings.save = .ok settings ∧
    (∀ {terminal after : Terminal} {invocation : Invocation},
      terminal.run (settings.writeFile invocation) = (.ok (), after) →
        after.run (readFile invocation.settingsPath) = (.ok (.ok settings), after)) ∧
    ∀ gone : List String → Bool,
      (settings.toJson.without gone).Spelled (settings.toJson.without gone).pretty ∧
      ∀ {text : String}, (settings.toJson.without gone).Spelled text →
        load text = .ok (settings.withDefaults gone) := by
  have whole : load settings.save = .ok settings := by
    have spelled : (settings.toJson.without fun _ => false).Spelled settings.save := by
      rw [Json.without_none]
      exact Json.spelled_written (plain_toJson inRange) true
    exact load_spelled inRange spelled
  refine ⟨whole, fun written => ?_, fun gone => ⟨?_, load_spelled inRange⟩⟩
  · exact run_readFile (run_writeFile written) whole
  · exact Json.spelled_written ((plain_toJson inRange).without gone) true

/-- Texts with quotes, control characters and characters beyond ASCII, and the largest numbers. -/
def awkward : Settings where
  engines :=
    ⟨"a \"quoted\" one", "back\\slash/", "tab\tand\nline", "\x01\x7f", "ö€\u2028", "",
      UInt64.size - 1⟩
  polling := ⟨UInt32.size - 1, UInt64.size - 1⟩
  diff := ⟨.lines⟩
  http := ⟨true, UInt16.size - 1, ["http://one", "\x7bnull\x7d", ""]⟩
  project := ⟨"C:\\𝄞", "main", "[topic]"⟩

/-- A document with nothing but two members, one level down. -/
def sparse : String :=
  "\x7b\"polling\":\x7b\"max_attempts\":4294967295\x7d,\"diff\":\x7b\"algorithm\":\"lines\"\x7d\x7d"

/-- Both the whole document and what is left of it are loaded. -/
theorem load_written_sparse :
    awkward.InRange ∧ load awkward.save = .ok awkward ∧
    (∃ (terminal after : Terminal) (invocation : Invocation),
      terminal.run (awkward.writeFile invocation) = (.ok (), after) ∧
      after.run (readFile invocation.settingsPath) = (.ok (.ok awkward), after)) ∧
    load sparse = .ok ⟨.default, ⟨UInt32.size - 1, 5000⟩, ⟨.lines⟩, .default, .default⟩ := by
  have inRange : awkward.InRange := ⟨by decide, by decide, by decide, by decide⟩
  obtain ⟨whole, stored, partly⟩ := load_written inRange
  let terminal : Terminal := ⟨.empty [], [], [], []⟩
  let invocation : Invocation := ⟨"data", .setup⟩
  have succeeds : (terminal.run (awkward.writeFile invocation)).1 = .ok () := by decide +kernel
  have written : terminal.run (awkward.writeFile invocation) =
      (.ok (), (terminal.run (awkward.writeFile invocation)).2) :=
    Prod.ext succeeds rfl
  let kept := [["polling"], ["polling", "max_attempts"], ["diff"], ["diff", "algorithm"]]
  let gone : List String → Bool := fun path => !kept.contains path
  have spelled : (awkward.toJson.without gone).Spelled sparse := by
    have text : sparse = String.ofList ((awkward.toJson.without gone).write false 0) := by
      decide +kernel
    rw [text]
    exact Json.spelled_written ((plain_toJson inRange).without gone) false
  have left : awkward.withDefaults gone =
      ⟨.default, ⟨UInt32.size - 1, 5000⟩, ⟨.lines⟩, .default, .default⟩ := by decide +kernel
  exact ⟨inRange, whole, ⟨_, _, _, written, stored written⟩, left ▸ (partly gone).2 spelled⟩

end Settings

end MergeConflict
