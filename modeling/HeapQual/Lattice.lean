import HeapQual.Fault

/-!
# Qualifier lattices

The engine keeps qualified types at store cells and at locations, but never looks inside them.
All it needs is a lattice that makes fresh types and takes note of inequalities between them,
answering whether each can still be satisfied.

A lattice is given by the type `σ` of its states; the state determines the type `τ` of
qualified types.  A lattice may be asked about a type it does not know.  It then remembers the
fault of the first such question, and the session ends with it.
-/

namespace HeapQual

/-- A lattice of qualified types `τ` with states `σ`. -/
class QualifierLattice (σ : Type) (τ : outParam Type) where
  /-- A new type of the same shape as the given one, related to nothing yet. -/
  fresh : σ → τ → τ × σ
  /-- Take note of an inequality.  The answer `false` says that it cannot be satisfied. -/
  leq : σ → τ → τ → Bool × σ
  /-- The first question that could not be answered, if there was one. -/
  fault? : σ → Option Fault
  /-- A type as it is written in the log. -/
  describe : τ → String
  valueText : σ → τ → Except Fault String

end HeapQual
