import HeapQual.Graph
import HeapQual.Linearity

/-!
# Which allocations reach a store

A location is linear at a store when exactly one allocation of it reaches the store along the
graph.  For each store and each location this module finds the allocations that reach: none,
one, with the store that made it, or several.  Two different allocations that meet, or one that
reaches itself around a loop, are several.

The answer at the base of an update decides whether the update may replace the old contents.
-/

namespace HeapQual

/-- The allocations of one location that reach one store. -/
inductive Supply where
  | none
  /-- Exactly the one made by this store. -/
  | once (site : Nat)
  /-- Several, or one repeatedly. -/
  | many
  deriving DecidableEq, Inhabited

namespace Supply

/-- What reaches along either of two ways. -/
def join : Supply → Supply → Supply
  | none, w => w
  | w, none => w
  | once a, once b => if a = b then once a else many
  | _, _ => many

/-- One more allocation, made by `site`. -/
def bump (site : Nat) : Supply → Supply
  | none => once site
  | _ => many

/-- The number of allocations. -/
def linearity : Supply → Linearity
  | none => .zero
  | once _ => .one
  | many => .omega

end Supply

/-- What reaches one store, by location root. -/
abbrev Supplies : Type := Array Supply

namespace Graph

variable {τ : Type}

/-- What reaches the store with this root of the location with this root. -/
def supplyAt (values : Array Supplies) (store location : Nat) : Supply :=
  ((values[store]?.getD #[])[location]?).getD .none

/-- What the expression at a position lets through of a location. -/
def incoming (g : Graph τ) (sol : Solution) (values : Array Supplies) (i location : Nat) :
    Supply :=
  let reaching (s : StoreId) : Supply := supplyAt values (g.stores.root s) location
  let mentioned (e : EffectId) : Bool := sol.mentions (g.effects.root e) location
  match g.stores.nodeAt i with
  | .var _ =>
    (g.stores.edgesInto i).foldl (fun w (edge, _) => w.join (reaching edge.left)) .none
  | .restrict base e => if mentioned e then reaching base else .none
  | .allocate base a _ =>
    if g.classOf a = location then (reaching base).bump i else reaching base
  | .update base _ _ _ _ _ => reaching base
  | .overlay inside outside e => if mentioned e then reaching inside else reaching outside

/-- The system of equations for reaching allocations.  A supply grows at most twice. -/
def supplyEquations (g : Graph τ) (sol : Solution) : Equations Supplies where
  start := Array.replicate g.stores.size (Array.replicate g.locations.size .none)
  nodes := g.stores.classes.roots
  revise values i :=
    ((List.range g.locations.size).map fun a =>
      (g.incoming sol values i a).join (supplyAt values i a)).toArray
  dependents := g.stores.dependents
  height := 2 * g.locations.size

/-- What reaches every store. -/
def solveSupplies (g : Graph τ) (sol : Solution) : Worklist Supplies :=
  (g.supplyEquations sol).solve

end Graph

/-- The linearities at the updates of a graph. -/
structure Linearities where
  /-- For each update, what reaches its base. -/
  byUpdate : List (Nat × Supplies)
  /-- The strong updates that had to be made weak. -/
  demoted : List Nat

namespace Linearities

/-- No update is known. -/
def empty : Linearities := ⟨[], []⟩

/-- The linearity of a location in a table of supplies. -/
def read (supplies : Supplies) (location : Nat) : Linearity :=
  (supplies[location]?.getD .none).linearity

end Linearities

end HeapQual
