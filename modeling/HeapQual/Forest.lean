/-!
# Classes as a forest

Locations, effect variables and store variables can be merged for good.  The classes are kept
as a forest over the positions `0 .. size - 1`: every position has a parent, a position that is
its own parent is a *root*, and two positions are in one class when they have the same root.

A look-up (`Forest.find`) climbs to the root, and lets every other position on the way skip its
parent.  It gives the root together with the forest that has the shorter path.  It takes at most
`size` steps, which is enough in any forest grown by `add`, `hang` and look-ups.
-/

namespace HeapQual

/-- A forest over `0 .. parent.size - 1`, as the parent of each position.  A root is its own
parent. -/
structure Forest where
  parent : Array Nat

namespace Forest

/-- The forest without positions. -/
def empty : Forest := ⟨#[]⟩

/-- The number of positions. -/
def size (f : Forest) : Nat := f.parent.size

/-- The parent of a position.  A position outside the forest counts as its own parent. -/
def parentOf (f : Forest) (i : Nat) : Nat := f.parent[i]?.getD i

/-- Hang one position under another. -/
def hang (f : Forest) (child under : Nat) : Forest := ⟨f.parent.setIfInBounds child under⟩

/-- Climb from `i` for at most `fuel` steps.  At each step the position skips its parent, and the
climb goes on from the grandparent. -/
def findFrom (f : Forest) : (fuel : Nat) → (i : Nat) → Nat × Forest
  | 0, i => (i, f)
  | fuel + 1, i =>
    if f.parentOf i = i then (i, f)
    else
      let above := f.parentOf (f.parentOf i)
      (f.hang i above).findFrom fuel above

/-- Look a position up: the root of its class, and the forest in which the path is halved. -/
def find (f : Forest) (i : Nat) : Nat × Forest := f.findFrom f.size i

/-- The root of the class of `i`. -/
def root (f : Forest) (i : Nat) : Nat := (f.find i).1

/-- The forest after `i` was looked up. -/
def halve (f : Forest) (i : Nat) : Forest := (f.find i).2

/-- Is `i` the root of its class? -/
def isRoot (f : Forest) (i : Nat) : Bool := decide (f.root i = i)

/-- The roots, in ascending order. -/
def roots (f : Forest) : List Nat := (List.range f.size).filter f.isRoot

/-- A new position in a class of its own. -/
def add (f : Forest) : Forest := ⟨f.parent.push f.size⟩

end Forest

end HeapQual
