import HeapQual.Fault
import HeapQual.Forest
import HeapQual.Position

/-!
# Stores

A store maps locations to qualified types at one point of the analysed program.  Stores are
entered into a table as expressions: variables, and operators on other stores that restrict a
store to an effect, allocate a location, overlay one store on another, or update a location.
Subset edges between stores say that what is bound on the left flows to the right.  Store
variables can be merged.

An operator may name a store that does not exist yet; it only has to exist when the graph is
solved.
-/

namespace HeapQual

/-- The expression of one store over qualified types `τ`. -/
inductive StoreNode (τ : Type) where
  | var (name : String)
  /-- The base, restricted to the locations that the effect mentions. -/
  | restrict (base : StoreId) (effect : EffectId)
  /-- The base with the location bound to a fresh type, unless it is bound there already. -/
  | allocate (base : StoreId) (location : LocationId) (fresh : τ)
  /-- The first store on the locations that the effect mentions, the second on all others. -/
  | overlay (inside outside : StoreId) (effect : EffectId)
  /-- The base with the location bound to a type.  Unless the update is strong, what the
  location held before must flow into that type, or the message is reported. -/
  | update (base : StoreId) (location : LocationId) (type : τ) (strong : Bool)
      (position : Position) (message : String)

namespace StoreNode

variable {τ : Type}

/-- The stores that an expression is built on. -/
def operands : StoreNode τ → List StoreId
  | var _ => []
  | restrict base _ => [base]
  | allocate base _ _ => [base]
  | overlay inside outside _ => [inside, outside]
  | update base _ _ _ _ _ => [base]

/-- Is this a variable? -/
def isVariable : StoreNode τ → Bool
  | var _ => true
  | _ => false

/-- The location that an expression binds by itself. -/
def ownLocation? : StoreNode τ → Option LocationId
  | allocate _ a _ => some a
  | update _ a _ _ _ _ => some a
  | _ => none

/-- The effect that an expression consults. -/
def effect? : StoreNode τ → Option EffectId
  | restrict _ e => some e
  | overlay _ _ e => some e
  | _ => none

end StoreNode

/-- A subset edge between two stores. -/
structure FlowEdge where
  left : StoreId
  right : StoreId
  position : Position
  /-- What is reported if a type on the left does not fit the one on the right. -/
  message : String
  deriving DecidableEq

/-- The table of stores. -/
structure Stores (τ : Type) where
  nodes : Array (StoreNode τ)
  classes : Forest
  edges : Array FlowEdge

namespace Stores

variable {τ : Type}

/-- The table without stores. -/
def empty : Stores τ := ⟨#[], Forest.empty, #[]⟩

/-- The number of stores. -/
def size (t : Stores τ) : Nat := t.nodes.size

/-- Enter an expression. -/
def add (t : Stores τ) (node : StoreNode τ) : StoreId × Stores τ :=
  (⟨t.size⟩, { t with nodes := t.nodes.push node, classes := t.classes.add })

/-- The root of a store's class. -/
def root (t : Stores τ) (s : StoreId) : Nat := t.classes.root s.index

/-- The root of a store's class, if the store exists. -/
def find (t : Stores τ) (s : StoreId) : Except Fault Nat :=
  if s.index < t.size then .ok (t.root s) else .error (.unknownStore s)

/-- The expression at a position. -/
def nodeAt (t : Stores τ) (i : Nat) : StoreNode τ := t.nodes[i]?.getD (.var "")

/-- The expression of a store. -/
def node (t : Stores τ) (s : StoreId) : StoreNode τ := t.nodeAt (t.root s)

/-- Record an edge. -/
def addEdge (t : Stores τ) (edge : FlowEdge) : Stores τ :=
  { t with edges := t.edges.push edge }

/-- Merge the class of one root into that of another. -/
def join (t : Stores τ) (survivor child : Nat) : Stores τ :=
  { t with classes := t.classes.hang child survivor }

/-! ## Neighbours in the graph -/

/-- The edges with their numbers. -/
def numberedEdges (t : Stores τ) : List (FlowEdge × Nat) := t.edges.toList.zipIdx

/-- The edges into the class with this root. -/
def edgesInto (t : Stores τ) (root : Nat) : List (FlowEdge × Nat) :=
  t.numberedEdges.filter fun (edge, _) => decide (t.root edge.right = root)

/-- The edges out of the class with this root. -/
def edgesFrom (t : Stores τ) (root : Nat) : List (FlowEdge × Nat) :=
  t.numberedEdges.filter fun (edge, _) => decide (t.root edge.left = root)

/-- The roots of the stores that the expression at a position is built on. -/
def operandRoots (t : Stores τ) (i : Nat) : List Nat := (t.nodeAt i).operands.map t.root

/-- The stores built on the class with this root, in ascending order. -/
def children (t : Stores τ) (root : Nat) : List Nat :=
  t.classes.roots.filter fun i => decide (root ∈ t.operandRoots i)

/-- The stores whose bindings depend on the class with this root: those built on it, and the
variables that it flows into. -/
def dependents (t : Stores τ) (root : Nat) : List Nat :=
  t.children root ++
    ((t.edgesFrom root).map fun (edge, _) => t.root edge.right).filter fun i =>
      (t.nodeAt i).isVariable

end Stores

end HeapQual
