import MergeConflict.Choice

/-!
Why a choice cannot be put into a block.
-/

namespace MergeConflict

inductive ResolveError where
  /-- The block's text is no longer in the buffer. -/
  | locationNotFound (block : Nat)
  | missingResolution (origin : Source) (block : Nat)
  | resolutionPending (origin : Source)
  | unresolvable (origin : Source) (block : Nat)
  | noBaseVersion (block : Nat)
  | blockOutOfRange (block count : Nat)
  | patchOutOfRange (index : Nat)
  | unknownLabel (text : String)
deriving DecidableEq, Repr

def ResolveError.message : ResolveError → String
  | locationNotFound block =>
    "target region of block " ++ toString block ++ " not found, consider resetting"
  | missingResolution origin block =>
    "no " ++ origin.name ++ " resolution available for block " ++ toString block
  | resolutionPending origin => origin.name ++ " resolutions are still pending"
  | unresolvable origin block =>
    origin.name ++ " marked block " ++ toString block ++ " as unresolvable"
  | noBaseVersion block => "block " ++ toString block ++ " has no base version"
  | blockOutOfRange block count =>
    "block " ++ toString block ++ " out of range (" ++ toString count ++ " blocks)"
  | patchOutOfRange index => "semantic patch " ++ toString index ++ " out of range"
  | unknownLabel text => "unknown strategy label: " ++ text

end MergeConflict
