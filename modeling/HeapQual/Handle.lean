/-!
# Handles

Locations, effects and stores live in tables that only grow, and are named by the position at
which they were entered.  A handle is such a position together with the table it belongs to.

Handles are names and not identities: after a merge two handles may denote the same class, and
the class is then known by the plain index of its representative.
-/

namespace HeapQual

/-- The name of an abstract location. -/
structure LocationId where
  index : Nat
  deriving DecidableEq, Inhabited

/-- The name of an effect. -/
structure EffectId where
  index : Nat
  deriving DecidableEq, Inhabited

/-- The name of a store. -/
structure StoreId where
  index : Nat
  deriving DecidableEq, Inhabited

/-- A location as it is printed. -/
def LocationId.label (a : LocationId) : String := s!"a@{a.index}"

/-- An effect as it is printed. -/
def EffectId.label (e : EffectId) : String := s!"e@{e.index}"

/-- A store as it is printed. -/
def StoreId.label (s : StoreId) : String := s!"s@{s.index}"

/-- A location inside the record of a constraint. -/
def LocationId.record (a : LocationId) : String := s!"Aloc({a.index})"

/-- An effect inside the record of a constraint. -/
def EffectId.record (e : EffectId) : String := s!"Effect({e.index})"

/-- A store inside the record of a constraint. -/
def StoreId.record (s : StoreId) : String := s!"Store({s.index})"

/-- The empty effect, which every table of effects holds first. -/
def EffectId.empty : EffectId := ⟨0⟩

/-- Is this the empty effect? -/
def EffectId.isEmpty (e : EffectId) : Bool := decide (e = EffectId.empty)

end HeapQual
