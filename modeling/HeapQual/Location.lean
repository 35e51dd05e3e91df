import HeapQual.Fault
import HeapQual.Forest

/-!
# Abstract locations

An abstract location stands for memory cells of the analysed program.  It has a name, the
qualified type of the values it holds, and a mark that says whether its cells are of interest
from the start.  Locations can be merged, after which they are the same location for good: the
record of the surviving root speaks for the whole class.

Of two roots the one of greater rank survives, the first on a tie, and a tie raises the
survivor's rank by one.
-/

namespace HeapQual

/-- What is known about one location. -/
structure LocationRecord (τ : Type) where
  name : String
  holds : τ
  /-- A bound on the height of the tree below this root. -/
  rank : Nat
  /-- Are the cells of the location to be settled as soon as the graph is closed? -/
  marked : Bool

/-- The table of locations. -/
structure Locations (τ : Type) where
  records : Array (LocationRecord τ)
  classes : Forest

namespace Locations

variable {τ : Type}

/-- The table without locations. -/
def empty : Locations τ := ⟨#[], Forest.empty⟩

/-- The number of locations. -/
def size (t : Locations τ) : Nat := t.records.size

/-- Make a location. -/
def add (t : Locations τ) (name : String) (holds : τ) : LocationId × Locations τ :=
  (⟨t.size⟩, ⟨t.records.push ⟨name, holds, 0, false⟩, t.classes.add⟩)

/-- The root of a location's class. -/
def root (t : Locations τ) (a : LocationId) : Nat := t.classes.root a.index

/-- The root of a location's class, if the location exists. -/
def find (t : Locations τ) (a : LocationId) : Except Fault Nat :=
  if a.index < t.size then .ok (t.root a) else .error (.unknownLocation a)

/-- The record at a root. -/
def record? (t : Locations τ) (root : Nat) : Option (LocationRecord τ) := t.records[root]?

/-- The record that speaks for a location. -/
def read (t : Locations τ) (a : LocationId) : Except Fault (LocationRecord τ) := do
  let root ← t.find a
  match t.record? root with
  | some r => .ok r
  | none => .error (.unknownLocation a)

/-- The name of the class with this root. -/
def nameOf (t : Locations τ) (root : Nat) : String :=
  ((t.record? root).map LocationRecord.name).getD ""

/-- The type that the class with this root holds. -/
def held? (t : Locations τ) (root : Nat) : Option τ := (t.record? root).map LocationRecord.holds

/-- Is the class with this root marked? -/
def isMarked (t : Locations τ) (root : Nat) : Bool :=
  ((t.record? root).map LocationRecord.marked).getD false

/-- The rank of the class with this root. -/
def rankOf (t : Locations τ) (root : Nat) : Nat :=
  ((t.record? root).map LocationRecord.rank).getD 0

/-- The roots of all classes, in ascending order. -/
def roots (t : Locations τ) : List Nat := t.classes.roots

/-- Mark the class with this root. -/
def mark (t : Locations τ) (root : Nat) : Locations τ :=
  { t with records := t.records.modify root fun r => { r with marked := true } }

/-- Hang the root `child` under the root `survivor`.  A mark is passed on, and a tie in rank
raises the survivor's. -/
def join (t : Locations τ) (survivor child : Nat) : Locations τ where
  records := t.records.modify survivor fun r =>
    { r with
      rank := if r.rank = t.rankOf child then r.rank + 1 else r.rank
      marked := r.marked || t.isMarked child }
  classes := t.classes.hang child survivor

/-- The table after two locations were looked up. -/
def shorten (t : Locations τ) (a b : LocationId) : Locations τ :=
  { t with classes := (t.classes.halve a.index).halve b.index }

/-- Merge the classes of two locations.  The answer names the surviving and the absorbed root,
or is `none` if the locations were in one class before. -/
def merge (t : Locations τ) (a b : LocationId) : Option (Nat × Nat) × Locations τ :=
  let (ra, classes) := t.classes.find a.index
  let (rb, classes) := classes.find b.index
  let t := { t with classes }
  if ra = rb then (none, t)
  else if t.rankOf rb ≤ t.rankOf ra then (some (ra, rb), t.join ra rb)
  else (some (rb, ra), t.join rb ra)

end Locations

end HeapQual
