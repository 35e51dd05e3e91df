import HeapQual.PairHash
import Mathlib.Algebra.GroupWithZero.Nat
import Mathlib.Data.Nat.Pairing
import Mathlib.Data.Set.Function
import Mathlib.Tactic.Common

/-!
# The pair hash is one to one

Pairs of natural numbers are numbered shell by shell: a pair has a number below `n ^ 2` exactly if
both components are below `n` (`PairHash.pair_lt_sq_iff`).  The pair hash is that number modulo
`2 ^ 64` (`PairHash.toNat_pair`).  With `n = 2 ^ 32` the shells fill the words exactly, so nothing
wraps for components below `2 ^ 32`, and the hash takes every value once.
-/

namespace HeapQual

namespace PairHash

/-- The first `n` shells hold the pairs of numbers below `n`. -/
lemma pair_lt_sq_iff {a b n : Nat} : Nat.pair a b < n ^ 2 ↔ a < n ∧ b < n := by
  rw [← Nat.max_lt]
  constructor
  · intro h
    have hshell : max a b ^ 2 ≤ Nat.pair a b :=
      (Nat.le_add_right ..).trans (Nat.max_sq_add_min_le_pair a b)
    exact (Nat.pow_lt_pow_iff_left (by decide)).1 (hshell.trans_lt h)
  · intro h
    calc Nat.pair a b < (max a b + 1) ^ 2 := Nat.pair_lt_max_add_one_sq a b
      _ ≤ n ^ 2 := Nat.pow_le_pow_left h 2

/-- The hash of two words is the number of their pair, wrapped. -/
lemma toNat_pair (a b : UInt64) : (pair a b).toNat = Nat.pair a.toNat b.toNat % 2 ^ 64 := by
  unfold pair Nat.pair
  by_cases h : a < b
  · rw [if_pos h, if_pos (UInt64.lt_iff_toNat_lt.1 h), UInt64.toNat_add, UInt64.toNat_mul,
      Nat.mod_add_mod]
  · rw [if_neg h, if_neg (mt UInt64.lt_iff_toNat_lt.2 h), UInt64.toNat_add, UInt64.toNat_add,
      UInt64.toNat_mul, Nat.mod_add_mod, Nat.add_assoc, Nat.mod_add_mod, ← Nat.add_assoc]

lemma toNat_pair_of_lt {a b : UInt64} (ha : a.toNat < 2 ^ 32) (hb : b.toNat < 2 ^ 32) :
    (pair a b).toNat = Nat.pair a.toNat b.toNat := by
  have hlt : Nat.pair a.toNat b.toNat < (2 ^ 32) ^ 2 := pair_lt_sq_iff.2 ⟨ha, hb⟩
  rw [toNat_pair, Nat.mod_eq_of_lt (hlt.trans_eq (Nat.pow_mul ..).symm)]

/-- The pairs of half words, that is, of words below `2 ^ 32`. -/
def halves : Set (UInt64 × UInt64) := {p | p.1.toNat < 2 ^ 32 ∧ p.2.toNat < 2 ^ 32}

/-- The pair with this number. -/
def unpair (n : UInt64) : UInt64 × UInt64 :=
  ((Nat.unpair n.toNat).1.toUInt64, (Nat.unpair n.toNat).2.toUInt64)

/-- Every word is the number of a pair of numbers below `2 ^ 32`. -/
lemma unpair_lt (n : UInt64) :
    (Nat.unpair n.toNat).1 < 2 ^ 32 ∧ (Nat.unpair n.toNat).2 < 2 ^ 32 := by
  rw [← pair_lt_sq_iff, Nat.pair_unpair]
  exact n.toNat_lt

/-- Taking the pair apart does not wrap. -/
lemma toNat_unpair (n : UInt64) :
    ((unpair n).1.toNat, (unpair n).2.toNat) = Nat.unpair n.toNat := by
  obtain ⟨hfst, hsnd⟩ := unpair_lt n
  refine Prod.ext ?_ ?_
  · exact UInt64.toNat_ofNat_of_lt' (hfst.trans (by decide))
  · exact UInt64.toNat_ofNat_of_lt' (hsnd.trans (by decide))

lemma unpair_mem_halves (n : UInt64) : unpair n ∈ halves := by
  have h := unpair_lt n
  rwa [← toNat_unpair n] at h

lemma pair_unpair (n : UInt64) : pair (unpair n).1 (unpair n).2 = n := by
  refine UInt64.toNat_inj.1 ?_
  obtain ⟨hfst, hsnd⟩ := unpair_mem_halves n
  have h := Nat.pair_unpair n.toNat
  rwa [← toNat_unpair n, ← toNat_pair_of_lt hfst hsnd] at h

lemma unpair_pair {p : UInt64 × UInt64} (hp : p ∈ halves) : unpair (pair p.1 p.2) = p := by
  have h := toNat_unpair (pair p.1 p.2)
  rw [toNat_pair_of_lt hp.1 hp.2, Nat.unpair_pair] at h
  obtain ⟨hfst, hsnd⟩ := Prod.mk.inj h
  exact Prod.ext (UInt64.toNat_inj.1 hfst) (UInt64.toNat_inj.1 hsnd)

lemma invOn_unpair :
    Set.InvOn unpair (fun p : UInt64 × UInt64 => pair p.1 p.2) halves Set.univ :=
  ⟨fun _ hp => unpair_pair hp, fun n _ => pair_unpair n⟩

/-- The components of a key, as words. -/
def ofKey (k : PairKey) : UInt64 × UInt64 := (k.fst.toUInt64, k.snd.toUInt64)

/-- Positions below `2 ^ 32` are words below `2 ^ 32`. -/
lemma bijOn_ofKey : Set.BijOn ofKey {k | k.fst < 2 ^ 32 ∧ k.snd < 2 ^ 32} halves := by
  have hword {n : Nat} (hn : n < 2 ^ 32) : n.toUInt64.toNat = n :=
    UInt64.toNat_ofNat_of_lt' (hn.trans (by decide))
  have hinv : Set.InvOn (fun p => ⟨p.1.toNat, p.2.toNat⟩) ofKey
      {k : PairKey | k.fst < 2 ^ 32 ∧ k.snd < 2 ^ 32} halves := by
    refine ⟨fun k hk => ?_, fun p _ => ?_⟩
    · exact congrArg₂ PairKey.mk (hword hk.1) (hword hk.2)
    · exact Prod.ext UInt64.ofNat_toNat UInt64.ofNat_toNat
  refine hinv.bijOn (fun k hk => ?_) (fun p hp => hp)
  exact ⟨(hword hk.1).trans_lt hk.1, (hword hk.2).trans_lt hk.2⟩

/-- For words below `2 ^ 32` nothing wraps: the hash is the number of their pair.  Each word is the
hash of exactly one such pair, and so of exactly one key whose positions are below `2 ^ 32`. -/
theorem pair_bijOn :
    (∀ a b : UInt64, a.toNat < 2 ^ 32 → b.toNat < 2 ^ 32 →
      (pair a b).toNat = Nat.pair a.toNat b.toNat) ∧
    Set.BijOn (fun p : UInt64 × UInt64 => pair p.1 p.2) halves Set.univ ∧
    Set.BijOn (hash : PairKey → UInt64) {k | k.fst < 2 ^ 32 ∧ k.snd < 2 ^ 32} Set.univ := by
  have hbij : Set.BijOn (fun p : UInt64 × UInt64 => pair p.1 p.2) halves Set.univ :=
    invOn_unpair.bijOn (fun _ _ => Set.mem_univ _) (fun n _ => unpair_mem_halves n)
  exact ⟨fun a b ha hb => toNat_pair_of_lt ha hb, hbij, hbij.comp bijOn_ofKey⟩

/-- The last pair has the last word as its hash. -/
theorem pair_bijOn_last :
    (4294967295 : UInt64).toNat < 2 ^ 32 ∧
      (pair 4294967295 4294967295).toNat = 2 ^ 64 - 1 := by
  have hlast : (4294967295 : UInt64).toNat < 2 ^ 32 := by decide
  exact ⟨hlast, (pair_bijOn.1 _ _ hlast hlast).trans (by decide)⟩

-- One step further the hash wraps, and takes a value again.
example : pair 0 4294967296 = pair 0 0 := by decide

end PairHash

end HeapQual
