import MergeConflict.Settings
import MergeConflict.Text.Blank

/-!
The engines that are in use.
-/

namespace MergeConflict

structure EngineSet where
  /-- In listing order. -/
  kinds : List EngineKind
deriving DecidableEq, Repr

namespace EngineSet

def empty : EngineSet := ⟨[]⟩

def has (set : EngineSet) (kind : EngineKind) : Bool :=
  set.kinds.contains kind

/-- The engines with an address. -/
def ofSettings (settings : EngineSettings) : EngineSet :=
  ⟨EngineKind.all.filter fun kind => Text.trim (settings.address kind) != ""⟩

/-- The names of the engines in use. -/
def names (set : EngineSet) : List String :=
  set.kinds.map EngineKind.name

/-- The names as a list of quoted words. -/
def quotedNames (set : EngineSet) : String :=
  "[" ++ ", ".intercalate (set.names.map fun name => "\"" ++ name ++ "\"") ++ "]"

/-- The set, for a programmer. -/
def describe (set : EngineSet) : String :=
  "EngineSet \x7b enabled: " ++ set.quotedNames ++ " \x7d"

end EngineSet

end MergeConflict
