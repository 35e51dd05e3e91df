import HeapQual.Ascending
import HeapQual.Store
import HeapQual.Worklist

/-!
# Domains of stores

The domain of a store is the set of location roots that it binds.  A variable binds what flows
into it, a restriction what its effect mentions of its base, an allocation or an update its own
location besides those of its base, and an overlay what the effect mentions of the first store
and what it does not mention of the second.

An edge into an operator says something about types only: it does not change what the operator
binds.
-/

namespace HeapQual

/-- The locations that a store binds, by their roots. -/
abbrev Domain : Type := Ascending Nat

namespace Stores

variable {τ : Type}

/-- The domain present at a position. -/
def domainAt (values : Array Domain) (i : Nat) : Domain := values[i]?.getD ∅

/-- The domain to begin with: an operator's own location. -/
def ownDomain (t : Stores τ) (classOf : LocationId → Nat) (i : Nat) : Domain :=
  match (t.nodeAt i).ownLocation? with
  | some a => Ascending.ofList [classOf a]
  | none => ∅

/-- What the expression at position `i` takes over from other stores.  `mentions e a` says
whether the effect `e` mentions the location with root `a`. -/
def inherited (t : Stores τ) (mentions : EffectId → Nat → Bool) (values : Array Domain) (i : Nat) :
    List Nat :=
  match t.nodeAt i with
  | .var _ =>
    (t.edgesInto i).flatMap fun (edge, _) => (domainAt values (t.root edge.left)).toList
  | .restrict base e => (domainAt values (t.root base)).toList.filter (mentions e)
  | .allocate base _ _ => (domainAt values (t.root base)).toList
  | .update base _ _ _ _ _ => (domainAt values (t.root base)).toList
  | .overlay inside outside e =>
    (domainAt values (t.root inside)).toList.filter (mentions e) ++
      (domainAt values (t.root outside)).toList.filter fun a => !mentions e a

/-- The system of equations for domains. -/
def domainEquations (t : Stores τ) (classOf : LocationId → Nat)
    (mentions : EffectId → Nat → Bool) (locations : Nat) : Equations Domain where
  start := ((List.range t.size).map (t.ownDomain classOf)).toArray
  nodes := t.classes.roots
  revise values i := (domainAt values i).insertAll (t.inherited mentions values i)
  dependents := t.dependents
  height := locations

end Stores

end HeapQual
