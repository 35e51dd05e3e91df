import HeapQual.Graph
import Mathlib.Tactic.Common

/-!
# The shape of a graph

The *shape* of a graph is what is left of it without the types that locations hold and that stores
are updated to (`Graph.shape`).  The shape decides whether everything exists that store expressions
name, and it decides the solution (`Graph.validate_shape`, `Graph.solve_shape`): the members of
effects and the domains of stores do not depend on types.  Every way to make a table larger does the
same to its shape.
-/

namespace HeapQual

variable {τ : Type}

/-! ## Locations -/

/-- The record without its type. -/
def LocationRecord.shape (r : LocationRecord τ) : LocationRecord Unit :=
  ⟨r.name, (), r.rank, r.marked⟩

namespace Locations

variable (t : Locations τ)

/-- The table without types. -/
def shape : Locations Unit := ⟨t.records.map LocationRecord.shape, t.classes⟩

lemma size_shape : t.shape.size = t.size := by
  simp [shape, size]

lemma root_shape (a : LocationId) : t.shape.root a = t.root a := rfl

lemma find_shape (a : LocationId) : t.shape.find a = t.find a := by
  unfold find
  rw [size_shape, root_shape]

lemma record?_shape (root : Nat) :
    t.shape.record? root = (t.record? root).map LocationRecord.shape := by
  simp [shape, record?]

lemma isMarked_shape (root : Nat) : t.shape.isMarked root = t.isMarked root := by
  unfold isMarked
  rw [record?_shape, Option.map_map]
  rfl

lemma rankOf_shape (root : Nat) : t.shape.rankOf root = t.rankOf root := by
  unfold rankOf
  rw [record?_shape, Option.map_map]
  rfl

lemma shape_add (name : String) (holds : τ) :
    (t.add name holds).2.shape = (t.shape.add name ()).2 := by
  simp [shape, add, LocationRecord.shape]

/-- A change of a record that does not concern its type is a change of its shape. -/
lemma shape_modify (records : Array (LocationRecord τ)) (classes : Forest) (i : Nat)
    {f : LocationRecord τ → LocationRecord τ} {f' : LocationRecord Unit → LocationRecord Unit}
    (h : ∀ r, (f r).shape = f' r.shape) :
    (⟨records.modify i f, classes⟩ : Locations τ).shape =
      ⟨(records.map LocationRecord.shape).modify i f', classes⟩ := by
  refine congrArg (fun records => (⟨records, classes⟩ : Locations Unit)) ?_
  refine Array.ext (by simp) fun j _ _ => ?_
  simp only [Array.getElem_map, Array.getElem_modify]
  split
  · exact h _
  · rfl

lemma shape_mark (root : Nat) : (t.mark root).shape = t.shape.mark root := by
  apply shape_modify t.records t.classes root
  intro r
  rfl

lemma shape_join (survivor child : Nat) :
    (t.join survivor child).shape = t.shape.join survivor child := by
  unfold join
  rw [rankOf_shape, isMarked_shape]
  apply shape_modify t.records (t.classes.hang child survivor) survivor
  intro r
  rfl

/-- Merging goes by ranks, so it does not depend on types. -/
lemma merge_shape (a b : LocationId) :
    t.shape.merge a b = ((t.merge a b).1, (t.merge a b).2.shape) := by
  have hclasses (classes : Forest) :
      ({ t.shape with classes } : Locations Unit) = ({ t with classes } : Locations τ).shape := rfl
  unfold merge
  simp only [show t.shape.classes = t.classes from rfl, hclasses, rankOf_shape, ← shape_join]
  split
  · rfl
  · split <;> rfl

end Locations

/-! ## Stores -/

namespace StoreNode

variable (node : StoreNode τ)

/-- The expression without its type. -/
def shape : StoreNode τ → StoreNode Unit
  | var name => var name
  | restrict base e => restrict base e
  | allocate base a _ => allocate base a ()
  | overlay inside outside e => overlay inside outside e
  | update base a _ strong position message => update base a () strong position message

lemma operands_shape : node.shape.operands = node.operands := by
  cases node <;> rfl

lemma isVariable_shape : node.shape.isVariable = node.isVariable := by
  cases node <;> rfl

lemma ownLocation?_shape : node.shape.ownLocation? = node.ownLocation? := by
  cases node <;> rfl

lemma effect?_shape : node.shape.effect? = node.effect? := by
  cases node <;> rfl

end StoreNode

namespace Stores

variable (t : Stores τ)

/-- The table without types. -/
def shape : Stores Unit := ⟨t.nodes.map StoreNode.shape, t.classes, t.edges⟩

lemma size_shape : t.shape.size = t.size := by
  simp [shape, size]

lemma root_shape (x : StoreId) : t.shape.root x = t.root x := rfl

lemma find_shape (x : StoreId) : t.shape.find x = t.find x := by
  unfold find
  rw [size_shape, root_shape]

lemma nodeAt_shape (i : Nat) : t.shape.nodeAt i = (t.nodeAt i).shape := by
  simp only [shape, nodeAt, Array.getElem?_map]
  cases t.nodes[i]? <;> rfl

lemma shape_add (node : StoreNode τ) : (t.add node).2.shape = (t.shape.add node.shape).2 := by
  simp [shape, add]

lemma shape_addEdge (edge : FlowEdge) : (t.addEdge edge).shape = t.shape.addEdge edge := rfl

lemma shape_join (survivor child : Nat) :
    (t.join survivor child).shape = t.shape.join survivor child := rfl

lemma dependents_shape : t.shape.dependents = t.dependents := by
  funext root
  simp only [dependents, children, operandRoots, nodeAt_shape, StoreNode.operands_shape,
    StoreNode.isVariable_shape]
  rfl

lemma ownDomain_shape (classOf : LocationId → Nat) :
    t.shape.ownDomain classOf = t.ownDomain classOf := by
  funext i
  unfold ownDomain
  rw [nodeAt_shape, StoreNode.ownLocation?_shape]

lemma inherited_shape (mentions : EffectId → Nat → Bool) (values : Array Domain) (i : Nat) :
    t.shape.inherited mentions values i = t.inherited mentions values i := by
  unfold inherited
  rw [nodeAt_shape]
  cases t.nodeAt i <;> rfl

/-- The equations for domains do not depend on types. -/
lemma domainEquations_shape (classOf : LocationId → Nat) (mentions : EffectId → Nat → Bool)
    (locations : Nat) :
    t.shape.domainEquations classOf mentions locations =
      t.domainEquations classOf mentions locations := by
  unfold domainEquations
  simp only [size_shape, ownDomain_shape, inherited_shape, dependents_shape]
  rfl

end Stores

/-! ## Graphs -/

namespace Graph

variable (g : Graph τ)

/-- The graph without types. -/
def shape : Graph Unit := ⟨g.locations.shape, g.effects, g.stores.shape⟩

lemma validateOperands_shape (node : StoreNode τ) :
    g.shape.validateOperands node.shape = g.validateOperands node := by
  unfold validateOperands
  simp only [shape, Stores.find_shape, Locations.find_shape, StoreNode.operands_shape,
    StoreNode.ownLocation?_shape]

lemma validateEffect_shape (node : StoreNode τ) :
    g.shape.validateEffect node.shape = g.validateEffect node := by
  unfold validateEffect
  simp only [shape, StoreNode.effect?_shape]

theorem validate_shape : g.shape.validate = g.validate := by
  have hnodes : g.shape.stores.nodes.toList = g.stores.nodes.toList.map StoreNode.shape := by
    simp [shape, Stores.shape]
  unfold validate
  rw [hnodes]
  simp only [List.forM_eq_forM, List.forM_map, validateOperands_shape, validateEffect_shape]

lemma solveMembers_shape : g.shape.solveMembers = g.solveMembers := by
  unfold solveMembers
  rw [show g.shape.locations.size = g.locations.size from g.locations.size_shape]
  rfl

theorem solve_shape : g.shape.solve = g.solve := by
  have hdomains : ∀ members, g.shape.solveDomains members = g.solveDomains members := by
    intro members
    unfold solveDomains
    rw [show g.shape.locations.size = g.locations.size from g.locations.size_shape]
    exact congrArg Equations.solve (g.stores.domainEquations_shape _ _ _)
  unfold solve
  simp only [solveMembers_shape, hdomains]
  rfl

end Graph

end HeapQual
