/-!
# The pair hash

Keys of the memo tables are pairs and triples of table positions.  They are hashed by numbering
the pairs of natural numbers shell by shell: the pairs whose larger component is `n` get the
numbers from `n * n` to `n * n + 2 * n`.  The arithmetic is on 64-bit words and wraps; on
components below `2 ^ 32` it never does.
-/

namespace HeapQual

namespace PairHash

/-- The number of the pair `(a, b)`. -/
def pair (a b : UInt64) : UInt64 :=
  if a < b then b * b + a else a * a + a + b

/-- The number of the triple `(a, b, c)`: its first two components are paired first. -/
def triple (a b c : UInt64) : UInt64 := pair (pair a b) c

end PairHash

/-- A memo key of two table positions. -/
structure PairKey where
  fst : Nat
  snd : Nat
  deriving DecidableEq

/-- A memo key of three table positions. -/
structure TripleKey where
  fst : Nat
  snd : Nat
  thd : Nat
  deriving DecidableEq

instance : Hashable PairKey where
  hash k := PairHash.pair k.fst.toUInt64 k.snd.toUInt64

instance : Hashable TripleKey where
  hash k := PairHash.triple k.fst.toUInt64 k.snd.toUInt64 k.thd.toUInt64

end HeapQual
