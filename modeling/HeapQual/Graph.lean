import HeapQual.Effect.Members
import HeapQual.Location
import HeapQual.Store.Domains

/-!
# The constraint graph and its solution

A graph is the three tables together.  `Graph.solve` computes the least members of all effects,
the failing inclusions, and the least domains of all stores.  The answer is indexed by
positions, and meaningful at roots.

Store expressions may name stores, locations and effects that were never made.
`Graph.validate` finds the first such name: first the stores and locations, store by store, then
the effects.  A graph that passes can be solved.
-/

namespace HeapQual

/-- Locations, effects and stores. -/
structure Graph (τ : Type) where
  locations : Locations τ
  effects : Effects
  stores : Stores τ

/-- The solved view of a graph. -/
structure Solution where
  members : Array Members
  /-- The inclusions into variable-free effects that fail. -/
  violations : List Nat
  domains : Array Domain
  effectSteps : Nat
  storeSteps : Nat

namespace Solution

/-- The members of the effect class with this root. -/
def membersOf (sol : Solution) (root : Nat) : Members := Effects.membersAt sol.members root

/-- The domain of the store class with this root. -/
def domainOf (sol : Solution) (root : Nat) : Domain := Stores.domainAt sol.domains root

/-- Does the effect with this root contain an access to the location that may be of this kind? -/
def touches (sol : Solution) (effect location : Nat) (kind : Kind) : Bool :=
  (sol.membersOf effect).touches location kind

/-- Does the effect with this root mention the location at all?  An allocation does not count. -/
def mentions (sol : Solution) (effect location : Nat) : Bool :=
  sol.touches effect location .any

/-- Does the store with this root bind the location? -/
def binds (sol : Solution) (store location : Nat) : Bool :=
  decide (location ∈ sol.domainOf store)

end Solution

namespace Graph

variable {τ : Type}

/-- The graph that holds the empty effect only. -/
def start : Graph τ := ⟨Locations.empty, Effects.start, Stores.empty⟩

/-- The root of a location's class. -/
def classOf (g : Graph τ) (a : LocationId) : Nat := g.locations.root a

/-! ## Validation -/

/-- Do the stores and the location that an expression names exist? -/
def validateOperands (g : Graph τ) (node : StoreNode τ) : Except Fault Unit := do
  node.operands.forM fun s => discard (g.stores.find s)
  match node.ownLocation? with
  | some a => discard (g.locations.find a)
  | none => pure ()

/-- Does the effect that an expression consults exist? -/
def validateEffect (g : Graph τ) (node : StoreNode τ) : Except Fault Unit :=
  match node.effect? with
  | some e => discard (g.effects.find e)
  | none => pure ()

/-- Does everything exist that store expressions name? -/
def validate (g : Graph τ) : Except Fault Unit := do
  g.stores.nodes.toList.forM g.validateOperands
  g.stores.nodes.toList.forM g.validateEffect

/-! ## Solving -/

/-- The members of all effects. -/
def solveMembers (g : Graph τ) : Worklist Members :=
  (g.effects.memberEquations g.classOf g.locations.size).solve

/-- The domains of all stores, given the members of all effects. -/
def solveDomains (g : Graph τ) (members : Array Members) : Worklist Domain :=
  (g.stores.domainEquations g.classOf
    (fun e a => (Effects.membersAt members (g.effects.root e)).touches a .any)
    g.locations.size).solve

/-- The solved view of the graph. -/
def solve (g : Graph τ) : Solution :=
  let effects := g.solveMembers
  let stores := g.solveDomains effects.values
  { members := effects.values
    violations := g.effects.violations effects.values
    domains := stores.values
    effectSteps := effects.steps
    storeSteps := stores.steps }

end Graph

end HeapQual
