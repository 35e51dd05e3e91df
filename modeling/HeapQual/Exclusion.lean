import HeapQual.Handle
import HeapQual.Kind
import HeapQual.Position

/-!
# Exclusions

An exclusion says that certain accesses are *not* in an effect.  It cannot be decided while the
graph is still growing, so it is remembered and checked when the graph is closed.

Exclusions quantify over locations in four ways.  The check itself is in
`HeapQual.Session.Exclusions`; here is the vocabulary, and the record that the log shows.
-/

namespace HeapQual

/-- What must not be in an effect. -/
inductive Restriction where
  /-- The location is not accessed at this kind by the effect. -/
  | location (a : LocationId) (kind : Kind) (effect : EffectId)
  /-- No member of the first effect, which is free of variables, is in the second. -/
  | disjoint (e₁ e₂ : EffectId)
  /-- No location is accessed at this kind by the effect. -/
  | everywhere (kind : Kind) (effect : EffectId)
  /-- No location that `e₁` accesses at `kind₁` is accessed at `kind₂` by `e₂`. -/
  | implies (kind₁ : Kind) (e₁ : EffectId) (kind₂ : Kind) (e₂ : EffectId)
  deriving DecidableEq

/-- A restriction, and where it was made. -/
structure Exclusion where
  position : Position
  restriction : Restriction
  deriving DecidableEq

/-- An exclusion as the log shows it. -/
def Exclusion.record (x : Exclusion) : String :=
  let fields : String × List (String × String) :=
    match x.restriction with
    | .location a kind e =>
      ("Aloc", [("aloc", a.record), ("kind", kind.longName), ("effect", e.record)])
    | .disjoint e₁ e₂ => ("Effect", [("e1", e₁.record), ("e2", e₂.record)])
    | .everywhere kind e => ("Forall", [("kind", kind.longName), ("effect", e.record)])
    | .implies kind₁ e₁ kind₂ e₂ =>
      ("ForallIn", [("kind1", kind₁.longName), ("e1", e₁.record),
        ("kind2", kind₂.longName), ("e2", e₂.record)])
  let shown := (("loc", x.position.record) :: fields.2).map fun (name, value) =>
    name ++ ": " ++ value
  fields.1 ++ " \x7b " ++ ", ".intercalate shown ++ " \x7d"

end HeapQual
