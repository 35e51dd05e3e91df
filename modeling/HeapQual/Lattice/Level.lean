import HeapQual.Lattice

/-!
# The lattice of levels

Qualified types are integers, compared as they are.  There are no variables: a fresh type is the
type it is like, and an inequality holds or fails at once.
-/

namespace HeapQual

/-- The lattice of levels has one state. -/
structure Level where
  deriving DecidableEq, Inhabited

instance : QualifierLattice Level Int where
  fresh s like := (like, s)
  leq s l r := (decide (l ≤ r), s)
  fault? _ := none
  describe q := s!"q{q}"
  valueText _ q := .ok (toString q)

end HeapQual
