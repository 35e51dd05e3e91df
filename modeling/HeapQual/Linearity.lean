/-!
# Linearity

The linearity of a location at a program point counts the allocations of it that may be live
there: none, exactly one, or possibly several.  Exactly one is what makes an update of the
location replace its old contents for certain.
-/

namespace HeapQual

/-- How many allocations of a location may be live. -/
inductive Linearity where
  | zero
  | one
  /-- Possibly several. -/
  | omega
  deriving DecidableEq, Inhabited

namespace Linearity

/-- A linearity as a number; two stands for any number above one. -/
def toNat : Linearity → Nat
  | zero => 0
  | one => 1
  | omega => 2

/-- The linearity with this number. -/
def ofNat? : Nat → Option Linearity
  | 0 => some zero
  | 1 => some one
  | 2 => some omega
  | _ => none

/-- A linearity as it is printed. -/
def text : Linearity → String
  | zero => "0"
  | one => "1"
  | omega => "ω"

/-- May an update at this linearity forget the old contents? -/
def isStrong (l : Linearity) : Bool := decide (l = one)

end Linearity

end HeapQual
