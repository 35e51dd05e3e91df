import HeapQual.Graph

/-!
# Cells

A cell is a store together with a location, both given by their roots.  Only store variables
own the types of their cells.  Every other store either binds its own location or passes the
question on, so the type of a cell is found by following the chain of stores down to a binding
or to a variable (`View.binding`).

Cells also depend on each other: what a store holds at a location comes from the stores below
its subset edges, from the store it passes the question on to, and, for an update that keeps the
old contents, from its base.  `View.sources` lists these cells, and `View.targets` goes the
other way.

A `View` is what cells are read against: a graph, its solution, and the strong updates that
were found to be weak.
-/

namespace HeapQual

/-- A location in a store, both by their roots. -/
structure Cell where
  /-- The root of the store. -/
  store : Nat
  /-- The root of the location. -/
  location : Nat
  deriving DecidableEq, Inhabited

/-- One step in the search for the type of a cell. -/
inductive CellStep (τ : Type) where
  /-- The cell is what it is in the store with this root. -/
  | next (store : Nat)
  | value (type : τ)
  /-- The cell belongs to this store, which is a variable. -/
  | owned

/-- Where the type of a cell is found. -/
inductive Binding (τ : Type) where
  | value (type : τ)
  | owned (cell : Cell)

/-- What cells are read against. -/
structure View (τ : Type) where
  graph : Graph τ
  solution : Solution
  /-- The strong updates that were found to be weak. -/
  demoted : List Nat

namespace View

variable {τ : Type}

/-- Does the store with this root bind the location with this root? -/
def binds (v : View τ) (store location : Nat) : Bool := v.solution.binds store location

/-- Is the cell bound? -/
def isBound (v : View τ) (c : Cell) : Bool := v.binds c.store c.location

/-- Does the effect mention the location with this root? -/
def mentions (v : View τ) (e : EffectId) (location : Nat) : Bool :=
  v.solution.mentions (v.graph.effects.root e) location

/-- The root of a store. -/
def storeRoot (v : View τ) (s : StoreId) : Nat := v.graph.stores.root s

/-! ## The type of a cell -/

/-- One step in the search for the type of a cell, if the cell is bound. -/
def step (v : View τ) (c : Cell) : Option (CellStep τ) :=
  if v.isBound c then
    match v.graph.stores.nodeAt c.store with
    | .var _ => some .owned
    | .restrict base _ => some (.next (v.storeRoot base))
    | .allocate base a fresh =>
      if v.graph.classOf a ≠ c.location || v.binds (v.storeRoot base) c.location then
        some (.next (v.storeRoot base))
      else some (.value fresh)
    | .update base a type _ _ _ =>
      if v.graph.classOf a = c.location then some (.value type)
      else some (.next (v.storeRoot base))
    | .overlay inside outside e =>
      if v.mentions e c.location then some (.next (v.storeRoot inside))
      else some (.next (v.storeRoot outside))
  else none

/-- Follow at most `fuel` steps from a cell to where its type is found. -/
def bindingFrom (v : View τ) : (fuel : Nat) → Cell → Option (Binding τ)
  | 0, _ => none
  | fuel + 1, c =>
    match v.step c with
    | none => none
    | some (.next store) => v.bindingFrom fuel ⟨store, c.location⟩
    | some (.value type) => some (.value type)
    | some .owned => some (.owned c)

/-- Where the type of a cell is found, if the cell is bound.  The chain passes through each store
at most once. -/
def binding (v : View τ) (c : Cell) : Option (Binding τ) :=
  v.bindingFrom v.graph.stores.size c

/-! ## How cells depend on each other -/

/-- The root of the base of an update of this very location that keeps the old contents, if the
base binds the location. -/
def weakBase? (v : View τ) (c : Cell) : Option Nat :=
  match v.graph.stores.nodeAt c.store with
  | .update base a _ strong _ _ =>
    if v.graph.classOf a = c.location && (!strong || decide (c.store ∈ v.demoted)) &&
        v.binds (v.storeRoot base) c.location then
      some (v.storeRoot base)
    else none
  | _ => none

/-- The stores below a cell's subset edges that bind its location. -/
def lefts (v : View τ) (c : Cell) : List Nat :=
  ((v.graph.stores.edgesInto c.store).map fun (edge, _) => v.storeRoot edge.left).filter
    fun s => v.binds s c.location

/-- The store from which a cell takes its type, or its old contents. -/
def below (v : View τ) (c : Cell) : List Nat :=
  match v.weakBase? c with
  | some base => [base]
  | none =>
    match v.step c with
    | some (.next store) => [store].filter fun s => v.binds s c.location
    | _ => []

/-- The cells that a cell is computed from. -/
def sources (v : View τ) (c : Cell) : List Cell :=
  (v.lefts c ++ v.below c).map fun s => ⟨s, c.location⟩

/-- Does the cell of `child` take its type, or its old contents, from the store `s`? -/
def flowsUp (v : View τ) (location s child : Nat) : Bool :=
  match v.step ⟨child, location⟩ with
  | some (.next store) => decide (store = s)
  | _ => decide (v.weakBase? ⟨child, location⟩ = some s)

/-- The stores whose cell at the location is computed from that of the store `s`. -/
def targets (v : View τ) (location s : Nat) : List Nat :=
  (((v.graph.stores.edgesFrom s).map fun (edge, _) => v.storeRoot edge.right).filter
    fun r => v.binds r location) ++
  (v.graph.stores.children s).filter fun child => v.flowsUp location s child

end View

end HeapQual
