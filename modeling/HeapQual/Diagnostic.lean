import HeapQual.Kind
import HeapQual.Position

/-!
# Diagnostics

A diagnostic is an error in the analysed program.  It is recorded by its cause, which tells
which constraint failed, and at the position where that constraint was made.  The wording is in
`Cause.message`.
-/

namespace HeapQual

/-- Why a diagnostic was made. -/
inductive Cause where
  /-- The location with this root and name is accessed at a kind that is excluded. -/
  | excluded (kind : Kind) (location : Nat) (name : String)
  /-- The location with this root and name is accessed by two effects that must be disjoint. -/
  | shared (kind : Kind) (location : Nat) (name : String)
  /-- The inclusion with this number fails; both effects are given as printed. -/
  | notIncluded (inclusion : Nat) (source target : String)
  /-- Two merged locations, given by name, hold types that cannot be equal. -/
  | incompatibleLocations (first second : String)
  /-- Two cells that became one had types that cannot be equal. -/
  | incompatibleCells
  /-- A type does not fit along an edge at a location; the edge's message is reported. -/
  | flow (edge location : Nat) (text : String)
  /-- The old contents of a location do not fit an update; the update's message is reported. -/
  | update (store : Nat) (text : String)
  deriving DecidableEq

/-- The text of a cause. -/
def Cause.message : Cause → String
  | excluded kind _ name => s!"{kind.name}(`{name}`) is in the effect but must not be"
  | shared kind _ name => s!"{kind.name}(`{name}`) is in both effects but must not be"
  | notIncluded _ source target => s!"effect {source} is not included in {target}"
  | incompatibleLocations first second =>
    s!"incompatible types for unified locations `{first}` and `{second}`"
  | incompatibleCells => "incompatible cells in unified stores"
  | flow _ _ text => text
  | update _ text => text

/-- An error in the analysed program. -/
structure Diagnostic where
  position : Position
  cause : Cause
  deriving DecidableEq

namespace Diagnostic

/-- The text of a diagnostic. -/
def message (d : Diagnostic) : String := d.cause.message

/-- A message behind its position. -/
def renderAt (position : Position) (message : String) : String :=
  position.render ++ ": " ++ message

/-- A diagnostic as it is printed. -/
def render (d : Diagnostic) : String := renderAt d.position d.message

end Diagnostic

end HeapQual
