import HeapQual.Cache
import HeapQual.Graph
import HeapQual.PairHash
import Mathlib.Tactic.Common

/-!
# What a memo table remembers

A memo table may forget, but what it gives back was put into it for the same key.  So if every
entry satisfies a relation between keys and values when it is made, every answer satisfies it
(`Cache.Obeys.rel_of_peek?`).

For membership questions the relation is that the solution gives the same answer
(`Solution.Answers`).
-/

namespace HeapQual

namespace Cache

variable {κ υ : Type} {c : Cache κ υ} {R : κ → υ → Prop}

/-- Every entry satisfies the relation. -/
def Obeys (c : Cache κ υ) (R : κ → υ → Prop) : Prop := ∀ entry ∈ c.slots, R entry.2.1 entry.2.2

lemma obeys_of_slots_eq_nil (h : c.slots = []) : c.Obeys R := by
  intro entry hentry
  rw [h] at hentry
  exact absurd hentry List.not_mem_nil

variable [Hashable κ]

lemma Obeys.insert (hc : c.Obeys R) {key : κ} {value : υ} (h : R key value) :
    (c.insert key value).Obeys R := by
  intro entry hentry
  rcases List.mem_cons.1 hentry with rfl | hentry
  · exact h
  · exact hc entry (List.mem_filter.1 hentry).1

variable [DecidableEq κ]

/-- A look-up gives the value that is remembered, and only counts. -/
lemma get?_eq (c : Cache κ υ) (key : κ) : c.get? key = (c.peek? key,
    { c with
      hits := c.hits + if (c.peek? key).isSome then 1 else 0
      misses := c.misses + if (c.peek? key).isSome then 0 else 1 }) := by
  unfold get?
  cases c.peek? key with
  | none => rfl
  | some value => rfl

lemma slots_get? (c : Cache κ υ) (key : κ) : (c.get? key).2.slots = c.slots := by
  rw [get?_eq]

lemma fst_get? (c : Cache κ υ) (key : κ) : (c.get? key).1 = c.peek? key := by
  rw [get?_eq]

lemma Obeys.get? (hc : c.Obeys R) (key : κ) : (c.get? key).2.Obeys R := by
  intro entry hentry
  rw [slots_get?] at hentry
  exact hc entry hentry

/-- A value is remembered for a key if the key's slot holds both. -/
lemma peek?_eq_some_iff {key : κ} {value : υ} :
    c.peek? key = some value ↔ c.entry? (c.slotOf key) = some (key, value) := by
  unfold peek?
  cases c.entry? (c.slotOf key) with
  | none => simp
  | some held =>
    by_cases h : held.1 = key
    · simp [h, Prod.ext_iff]
    · simp [h, Prod.ext_iff]

/-- What is remembered for a key is related to it. -/
lemma Obeys.rel_of_peek? (hc : c.Obeys R) {key : κ} {value : υ} (h : c.peek? key = some value) :
    R key value := by
  obtain ⟨before, after, hslots, -⟩ := List.lookup_eq_some_iff.1 (peek?_eq_some_iff.1 h)
  have hmem : (c.slotOf key, key, value) ∈ c.slots := by
    rw [hslots]
    simp
  exact hc _ hmem

end Cache

/-- The answer is the one that the solution gives. -/
def Solution.Answers (sol : Solution) (key : TripleKey) (answer : Bool) : Prop :=
  ∀ kind : Kind, key.snd = kind.rank → answer = sol.touches key.thd key.fst kind

lemma Solution.answers_touches (sol : Solution) (location effect : Nat) (kind : Kind) :
    sol.Answers ⟨location, kind.rank, effect⟩ (sol.touches effect location kind) := by
  intro kind' hrank
  rw [Kind.rank_inj.1 hrank]

end HeapQual
