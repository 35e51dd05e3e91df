import HeapQual.Ascending
import HeapQual.Effect
import HeapQual.Worklist

/-!
# Members of effects

The members of an effect are the accesses that its expression and the recorded inclusions force
into it, as pairs of a location root and a kind.  An atom contains the parts of its kind, a
union what its operands contain, an intersection the meets of what its operands contain at the
same location, and the target of an inclusion contains the source.

Only an effect that mentions a variable can be made to grow by an inclusion.  An inclusion into
a variable-free effect is a check: `Effects.violations` lists those that fail.
-/

namespace HeapQual

/-- An access to a location, given by the root of its class. -/
structure Access where
  /-- The root of the location's class. -/
  location : Nat
  kind : Kind
  deriving DecidableEq, Inhabited

namespace Access

instance : Ord Access := ⟨compareLex (compareOn location) (compareOn kind)⟩

instance : Std.TransOrd Access :=
  inferInstanceAs (Std.TransCmp (compareLex (compareOn location) (compareOn kind)))

instance : Std.LawfulEqOrd Access where
  compare_self := by
    intro a
    show (compareOn location a a).then (compareOn kind a a) = .eq
    rw [Ordering.then_eq_eq]
    exact ⟨Std.ReflOrd.compare_self, Std.ReflOrd.compare_self⟩
  eq_of_compare := by
    intro a b h
    have hlex : (compareOn location a b).then (compareOn kind a b) = .eq := h
    obtain ⟨hl, hk⟩ := Ordering.then_eq_eq.1 hlex
    have hlocation : a.location = b.location := Std.LawfulEqOrd.eq_of_compare hl
    have hkind : a.kind = b.kind := Std.LawfulEqOrd.eq_of_compare hk
    cases a
    cases b
    simp_all

end Access

/-- The members of an effect. -/
abbrev Members : Type := Ascending Access

namespace Members

/-- The members that an atom brings. -/
def ofAtom (kind : Kind) (location : Nat) : Members :=
  Ascending.ofList (kind.parts.map fun k => ⟨location, k⟩)

/-- The accesses common to two sets of members: the meets at the same location. -/
def meets (m n : Members) : List Access :=
  m.toList.flatMap fun a =>
    (n.toList.filter fun b => decide (b.location = a.location)).filterMap fun b =>
      (a.kind.meet b.kind).map fun k => ⟨a.location, k⟩

/-- Is there an access to this location that may be of this kind? -/
def touches (m : Members) (location : Nat) (kind : Kind) : Bool :=
  m.toList.any fun a => decide (a.location = location) && a.kind.overlaps kind

/-- Does every access of `m` find one in `n` that it overlaps? -/
def within (m n : Members) : Bool :=
  m.toList.all fun a => n.touches a.location a.kind

end Members

namespace Effects

/-! ## Which effects can grow -/

/-- Is the expression at this position free of variables, given the answers for the positions
before it? -/
def closedNode (t : Effects) (closed : Array Bool) : EffectNode → Bool
  | .empty => true
  | .atom _ _ => true
  | .var _ => false
  | .union a b => closed[t.root a]?.getD false && closed[t.root b]?.getD false
  | .inter a b => closed[t.root a]?.getD false && closed[t.root b]?.getD false

/-- For each position, whether its expression is free of variables.  One forward sweep settles
this, because operands are entered before operators. -/
def closedTable (t : Effects) : Array Bool :=
  t.nodes.foldl (fun closed node => closed.push (t.closedNode closed node)) #[]

/-- The inclusions as pairs of roots, with their numbers. -/
def edges (t : Effects) : List (Nat × Nat × Nat) :=
  t.inclusions.toList.zipIdx.map fun (i, number) => (number, t.root i.source, t.root i.target)

/-- The inclusions that make their target grow. -/
def growingEdges (t : Effects) (closed : Array Bool) : List (Nat × Nat × Nat) :=
  t.edges.filter fun (_, _, target) => !closed[target]?.getD false

/-! ## The equations -/

/-- The members present at a position. -/
def membersAt (values : Array Members) (i : Nat) : Members := values[i]?.getD ∅

/-- What the expression at a position contributes, beyond an atom's own members. -/
def operandMembers (t : Effects) (values : Array Members) : EffectNode → List Access
  | .union a b =>
    (membersAt values (t.root a)).toList ++ (membersAt values (t.root b)).toList
  | .inter a b => Members.meets (membersAt values (t.root a)) (membersAt values (t.root b))
  | .empty => []
  | .atom _ _ => []
  | .var _ => []

/-- The members to begin with. -/
def seed (t : Effects) (classOf : LocationId → Nat) (i : Nat) : Members :=
  match t.nodeAt i with
  | .atom kind a => if t.classes.isRoot i then Members.ofAtom kind (classOf a) else ∅
  | _ => ∅

/-- The effects whose expression uses the class with this root, in ascending order, once for
each use. -/
def users (t : Effects) (root : Nat) : List Nat :=
  t.classes.roots.flatMap fun i =>
    match t.nodeAt i with
    | .union a b => ([a, b].filter fun e => decide (t.root e = root)).map fun _ => i
    | .inter a b => ([a, b].filter fun e => decide (t.root e = root)).map fun _ => i
    | _ => []

/-- The system of equations for members.  A node's height is the number of accesses there can
be: one for each location and each part of an atom's kind. -/
def memberEquations (t : Effects) (classOf : LocationId → Nat) (locations : Nat) :
    Equations Members :=
  let growing := t.growingEdges t.closedTable
  { start := ((List.range t.size).map (t.seed classOf)).toArray
    nodes := t.classes.roots
    revise := fun values i =>
      ((membersAt values i).insertAll (t.operandMembers values (t.nodeAt i))).insertAll
        ((growing.filter fun (_, _, target) => decide (target = i)).flatMap
          fun (_, source, _) => (membersAt values source).toList)
    dependents := fun i =>
      t.users i ++
        (growing.filter fun (_, source, _) => decide (source = i)).map
          fun (_, _, target) => target
    height := locations * (2 * t.size) }

/-- The inclusions into variable-free effects that fail, by their numbers in ascending order. -/
def violations (t : Effects) (values : Array Members) : List Nat :=
  let closed := t.closedTable
  (t.edges.filter fun (_, source, target) =>
    closed[target]?.getD false && !(membersAt values source).within (membersAt values target)).map
    fun (number, _, _) => number

end Effects

end HeapQual
