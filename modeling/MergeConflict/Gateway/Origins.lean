/-!
The origins whose pages may use the gateway.
-/

namespace MergeConflict

inductive AllowedOrigins where
  | any
  | only (origins : List String)
deriving DecidableEq, Repr

namespace AllowedOrigins

/-- The name for any origin, which stands on its own and never in a list. -/
def wildcard : String := "*"

/-- A text that can stand in a header: without control characters, the tab apart. -/
def isHeaderText (text : String) : Bool :=
  text.toList.all fun c => c == '\t' || (32 ≤ c.toNat && c.toNat != 127)

/-- No configured origin allows any; one that cannot stand in a header is passed over, and the
wildcard is refused. -/
def ofSettings? (origins : List String) : Option AllowedOrigins :=
  if origins.isEmpty then some any
  else if origins.contains wildcard then none
  else some (only (origins.filter isHeaderText))

/-- What a page of an origin is told about itself. -/
def grant? (allowed : AllowedOrigins) (origin : String) : Option String :=
  match allowed with
  | any => some wildcard
  | only origins => if origins.contains origin then some origin else none

end AllowedOrigins

end MergeConflict
