/-!
# Classes of characters

A class of characters is kept as closed ranges of code points that ascend and stand apart.  A
lookup can then stop at the first range that starts beyond the character it is asked about, and
still finds a character if and only if some range holds it (`CharClass.holds_iff`).
-/

namespace HeapQual

namespace Text

/-- Do these ranges hold a code point each, ascend, and leave a gap between neighbours? -/
def apart : List (Nat × Nat) → Bool
  | [] => true
  | [r] => r.1 ≤ r.2
  | r :: s :: rest => r.1 ≤ r.2 && r.2 + 1 < s.1 && apart (s :: rest)

/-- A class of characters. -/
structure CharClass where
  /-- The first and the last code point of each range. -/
  ranges : List (Nat × Nat)
  ranges_apart : apart ranges = true

/-- Does one of the ranges hold this code point?  Ranges that start beyond it are not looked at. -/
def withinRanges (n : Nat) : List (Nat × Nat) → Bool
  | [] => false
  | r :: rest => r.1 ≤ n && (n ≤ r.2 || withinRanges n rest)

/-- Is this character in the class? -/
def CharClass.holds (k : CharClass) (c : Char) : Bool := withinRanges c.toNat k.ranges

theorem apart_cons {r : Nat × Nat} {rest : List (Nat × Nat)} (h : apart (r :: rest) = true) :
    (∀ s ∈ rest, r.1 < s.1) ∧ apart rest = true := by
  induction rest generalizing r with
  | nil => simp [apart]
  | cons s rest ih =>
    simp only [apart, Bool.and_eq_true, decide_eq_true_eq] at h
    obtain ⟨⟨hr, hrs⟩, hs⟩ := h
    refine ⟨fun t ht => ?_, hs⟩
    rcases List.mem_cons.1 ht with rfl | ht
    · omega
    · have := (ih hs).1 t ht
      omega

theorem withinRanges_iff {n : Nat} {l : List (Nat × Nat)} (h : apart l = true) :
    withinRanges n l = true ↔ ∃ r ∈ l, r.1 ≤ n ∧ n ≤ r.2 := by
  induction l with
  | nil => simp [withinRanges]
  | cons r rest ih =>
    obtain ⟨hr, hrest⟩ := apart_cons h
    simp only [withinRanges, Bool.and_eq_true, Bool.or_eq_true, decide_eq_true_eq, ih hrest,
      List.mem_cons, exists_eq_or_imp]
    constructor
    · rintro ⟨hn, hn' | hn'⟩
      · exact Or.inl ⟨hn, hn'⟩
      · exact Or.inr hn'
    · rintro (hn | ⟨s, hs, hn⟩)
      · exact ⟨hn.1, Or.inl hn.2⟩
      · have := hr s hs
        exact ⟨by omega, Or.inr ⟨s, hs, hn⟩⟩

/-- The lookup finds a character if and only if some range holds it. -/
theorem CharClass.holds_iff (k : CharClass) (c : Char) :
    k.holds c = true ↔ ∃ r ∈ k.ranges, r.1 ≤ c.toNat ∧ c.toNat ≤ r.2 :=
  withinRanges_iff k.ranges_apart

end Text

end HeapQual
