import HeapQual.Fault
import HeapQual.Forest
import HeapQual.Kind
import HeapQual.PairHash
import HeapQual.Position

/-!
# Effects

An effect is a set of accesses, each a kind together with a location.  Effects are entered into
a table as expressions: the empty effect, atoms, unions and intersections of earlier entries,
and variables, whose members are whatever the inclusions made so far force into them.
Variables can be merged.

An operator is always entered after its operands, so its expression tree is finite; merging
redirects variables only.  The functions here that descend into expressions carry fuel, and the
number of entries is always enough.

Nothing here computes members.  `Effects.knownEqual` decides a cheap sufficient condition for
equality, and `Effects.split` breaks an inclusion into the simple ones that are recorded.
-/

namespace HeapQual

/-- The expression of one effect. -/
inductive EffectNode where
  | empty
  | atom (kind : Kind) (location : LocationId)
  | var (name : String)
  | union (left right : EffectId)
  /-- The accesses that both effects have in common. -/
  | inter (left right : EffectId)
  deriving DecidableEq, Inhabited

/-- A recorded inclusion between two effects. -/
structure Inclusion where
  source : EffectId
  target : EffectId
  position : Position
  deriving DecidableEq

/-- The table of effects. -/
structure Effects where
  nodes : Array EffectNode
  /-- The classes of merged variables. -/
  classes : Forest
  /-- The entries whose membership questions are memoised. -/
  marked : Array Bool
  inclusions : Array Inclusion
  /-- How many variables with a made-up name there are. -/
  freshNames : Nat

namespace Effects

/-- The number of effects. -/
def size (t : Effects) : Nat := t.nodes.size

/-- Enter an expression. -/
def add (t : Effects) (node : EffectNode) : EffectId × Effects :=
  (⟨t.size⟩,
    { t with
      nodes := t.nodes.push node
      classes := t.classes.add
      marked := t.marked.push false })

/-- The table that holds the empty effect only. -/
def start : Effects :=
  (add ⟨#[], Forest.empty, #[], #[], 0⟩ .empty).2

/-- The root of an effect's class. -/
def root (t : Effects) (e : EffectId) : Nat := t.classes.root e.index

/-- The root of an effect's class, if the effect exists. -/
def find (t : Effects) (e : EffectId) : Except Fault Nat :=
  if e.index < t.size then .ok (t.root e) else .error (.unknownEffect e)

/-- The expression at a position. -/
def nodeAt (t : Effects) (i : Nat) : EffectNode := t.nodes[i]?.getD .empty

/-- The expression of an effect. -/
def node (t : Effects) (e : EffectId) : EffectNode := t.nodeAt (t.root e)

/-- Is the class with this root marked? -/
def isMarked (t : Effects) (root : Nat) : Bool := t.marked[root]?.getD false

/-- Mark the class with this root. -/
def mark (t : Effects) (root : Nat) : Effects :=
  { t with marked := t.marked.setIfInBounds root true }

/-- Does this effect denote a variable? -/
def isVariable (t : Effects) (e : EffectId) : Bool :=
  match t.node e with
  | .var _ => true
  | _ => false

/-- Merge the class of one root into that of another, passing on its mark. -/
def join (t : Effects) (survivor child : Nat) : Effects :=
  { t with
    classes := t.classes.hang child survivor
    marked :=
      if t.isMarked child then t.marked.setIfInBounds survivor true else t.marked }

/-- Record an inclusion. -/
def addInclusion (t : Effects) (i : Inclusion) : Effects :=
  { t with inclusions := t.inclusions.push i }

/-- A made-up name for the next variable, and the table that has used it up. -/
def freshName (t : Effects) : String × Effects :=
  (s!"eff{t.freshNames + 1}", { t with freshNames := t.freshNames + 1 })

/-! ## Descending into expressions -/

/-- Does the expression mention a variable within this depth? -/
def hasVariablesFrom (t : Effects) : (fuel : Nat) → EffectId → Bool
  | 0, _ => false
  | fuel + 1, e =>
    match t.node e with
    | .var _ => true
    | .union a b => t.hasVariablesFrom fuel a || t.hasVariablesFrom fuel b
    | .inter a b => t.hasVariablesFrom fuel a || t.hasVariablesFrom fuel b
    | .empty => false
    | .atom _ _ => false

/-- Does the expression mention a variable? -/
def hasVariables (t : Effects) (e : EffectId) : Bool := t.hasVariablesFrom t.size e

/-- A part of a union that is no union itself. -/
inductive Leaf where
  /-- An atom, with the root of its location. -/
  | atom (kind : Kind) (location : Nat)
  /-- A variable or an intersection, by the root of its class. -/
  | other (root : Nat)
  deriving DecidableEq

/-- The parts of a union, empty ones dropped; `classOf` gives the root of a location. -/
def leavesFrom (t : Effects) (classOf : LocationId → Nat) : (fuel : Nat) → EffectId → List Leaf
  | 0, _ => []
  | fuel + 1, e =>
    match t.node e with
    | .empty => []
    | .atom kind a => [.atom kind (classOf a)]
    | .union a b => t.leavesFrom classOf fuel a ++ t.leavesFrom classOf fuel b
    | .var _ => [.other (t.root e)]
    | .inter _ _ => [.other (t.root e)]

/-- The parts of a union, empty ones dropped. -/
def leaves (t : Effects) (classOf : LocationId → Nat) (e : EffectId) : List Leaf :=
  t.leavesFrom classOf t.size e

/-- Have the two lists the same elements? -/
def sameLeaves (l m : List Leaf) : Bool :=
  l.all (fun x => decide (x ∈ m)) && m.all (fun x => decide (x ∈ l))

/-- Are the two effects certainly equal?  They are if they are of one class, or are unions of
the same parts.  The answer `false` leaves it open. -/
def knownEqual (t : Effects) (classOf : LocationId → Nat) (e₁ e₂ : EffectId) : Bool :=
  decide (t.root e₁ = t.root e₂) || sameLeaves (t.leaves classOf e₁) (t.leaves classOf e₂)

/-- One inclusion met while an inclusion is split. -/
structure SplitStep where
  source : EffectId
  target : EffectId
  /-- Is it recorded as it stands?  If not it holds anyway, or is split further. -/
  recorded : Bool
  deriving DecidableEq

/-- Split an inclusion: a union on the left must have both its parts included, an intersection
on the right must include the effect on both its sides. -/
def splitFrom (t : Effects) (classOf : LocationId → Nat) :
    (fuel : Nat) → EffectId → EffectId → List SplitStep
  | 0, _, _ => []
  | fuel + 1, e₁, e₂ =>
    if e₁.isEmpty || t.knownEqual classOf e₁ e₂ then [⟨e₁, e₂, false⟩]
    else
      match t.node e₁, t.node e₂ with
      | .union a b, _ =>
        ⟨e₁, e₂, false⟩ :: (t.splitFrom classOf fuel a e₂ ++ t.splitFrom classOf fuel b e₂)
      | _, .inter a b =>
        ⟨e₁, e₂, false⟩ :: (t.splitFrom classOf fuel e₁ a ++ t.splitFrom classOf fuel e₁ b)
      | _, _ => [⟨e₁, e₂, true⟩]

/-- All inclusions met while `e₁ ⊆ e₂` is split, in order. -/
def split (t : Effects) (classOf : LocationId → Nat) (e₁ e₂ : EffectId) : List SplitStep :=
  t.splitFrom classOf (2 * t.size) e₁ e₂

/-- The locations of a union of atoms, from left to right, or the first part that is neither
empty nor an atom nor a union. -/
def atomsFrom (t : Effects) : (fuel : Nat) → EffectId → Except EffectId (List LocationId)
  | 0, _ => .ok []
  | fuel + 1, e =>
    match t.node e with
    | .empty => .ok []
    | .atom _ a => .ok [a]
    | .union a b => do
      let left ← t.atomsFrom fuel a
      let right ← t.atomsFrom fuel b
      return left ++ right
    | .var _ => .error e
    | .inter _ _ => .error e

/-- The locations of a union of atoms, from left to right, or its first other part. -/
def atoms (t : Effects) (e : EffectId) : Except EffectId (List LocationId) :=
  t.atomsFrom t.size e

/-! ## Memo keys -/

/-- What an operator was applied to, by raw handles. -/
inductive Recipe where
  | atom (kind location : Nat)
  /-- A union, the smaller handle first. -/
  | union (left right : Nat)
  | inter (left right : Nat)
  deriving DecidableEq

instance : Hashable Recipe where
  hash
    | .atom kind location => PairHash.triple 0 kind.toUInt64 location.toUInt64
    | .union left right => PairHash.triple 1 left.toUInt64 right.toUInt64
    | .inter left right => PairHash.triple 2 left.toUInt64 right.toUInt64

/-- The recipe of an atom. -/
def Recipe.ofAtom (kind : Kind) (a : LocationId) : Recipe := .atom kind.rank a.index

/-- The recipe of a union: unions commute, so the smaller handle comes first. -/
def Recipe.ofUnion (e₁ e₂ : EffectId) : Recipe :=
  .union (min e₁.index e₂.index) (max e₁.index e₂.index)

/-- The recipe of an intersection. -/
def Recipe.ofInter (e₁ e₂ : EffectId) : Recipe := .inter e₁.index e₂.index

/-- The expression of a union, the smaller handle on the left. -/
def unionNode (e₁ e₂ : EffectId) : EffectNode :=
  .union ⟨min e₁.index e₂.index⟩ ⟨max e₁.index e₂.index⟩

end Effects

end HeapQual
