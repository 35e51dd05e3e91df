import HeapQual.Ascending
import HeapQual.Proofs.Worklist

/-!
# Least families of sets

Members of effects and domains of stores are both found by a worklist whose values are sets.  At
every node the value starts as some set, and a revision adds what the values of other nodes give
to it.  This file says once what such a run finds: the least family of sets that contains the
starting sets and everything that the family itself gives (`Equations.Saturating.least`), and that
an element is only there because it was there at the start or because the family gives it
(`Equations.Saturating.solve_eq`).

`gives` is the operator that says what a family gives to a node.  It has to be monotone, to read no
other nodes than those which queue the node when they change, and to stay within a finite universe,
whose number of elements bounds how often one value can grow.
-/

namespace HeapQual

namespace Ascending

variable {β : Type} [Ord β] [Std.LawfulEqOrd β]

lemma nodup (s : Ascending β) : s.toList.Nodup := by
  refine s.ascends.imp fun {a b} hab h => ?_
  subst h
  rw [Std.ReflOrd.compare_self] at hab
  exact absurd hab (by simp)

lemma size_le_card [DecidableEq β] {s : Ascending β} {u : Finset β} (hsub : ∀ x ∈ s, x ∈ u) :
    s.size ≤ u.card := by
  rw [size, ← List.toFinset_card_of_nodup s.nodup]
  exact Finset.card_le_card fun x hx => hsub x (List.mem_toFinset.1 hx)

variable [Std.TransOrd β]

/-- A set with all elements of another, but not equal to it, is larger. -/
lemma size_lt_size {s t : Ascending β} (hsub : ∀ x ∈ s, x ∈ t) (hne : s ≠ t) : s.size < t.size := by
  have hperm := List.subperm_of_subset s.nodup hsub
  refine lt_of_le_of_ne hperm.length_le fun hsize => hne (ext fun x => ?_)
  exact (hperm.perm_of_length_le hsize.ge).mem_iff

end Ascending

namespace Equations

variable {β : Type} [Ord β]

/-- The family of sets that an array of values holds; positions outside it hold nothing. -/
def family (values : Array (Ascending β)) (i : Nat) : Set β := {x | x ∈ values[i]?.getD ∅}

lemma family_set_self {values : Array (Ascending β)} {i : Nat} (hi : i < values.size)
    (v : Ascending β) : family (values.setIfInBounds i v) i = {x | x ∈ v} := by
  simp [family, Array.getElem?_setIfInBounds_self_of_lt hi]

lemma family_set_ne {values : Array (Ascending β)} {i j : Nat} (h : i ≠ j) (v : Ascending β) :
    family (values.setIfInBounds i v) j = family values j := by
  simp [family, Array.getElem?_setIfInBounds_ne h]

variable [Std.TransOrd β] [Std.LawfulEqOrd β]

/-- A system in which a revision adds to the set at a node what the present family gives. -/
structure Saturating (eqs : Equations (Ascending β)) (gives : (Nat → Set β) → Nat → Set β)
    (u : Finset β) : Prop where
  nodup : eqs.nodes.Nodup
  nodes_lt : ∀ i ∈ eqs.nodes, i < eqs.start.size
  dependents_mem : ∀ i ∈ eqs.nodes, ∀ j ∈ eqs.dependents i, j ∈ eqs.nodes
  mem_revise : ∀ values, ∀ i ∈ eqs.nodes, ∀ x,
    x ∈ eqs.revise values i ↔ x ∈ family values i ∨ x ∈ gives (family values) i
  mono : ∀ i ∈ eqs.nodes, ∀ S T : Nat → Set β, (∀ j, S j ⊆ T j) → gives S i ⊆ gives T i
  gives_congr : ∀ i ∈ eqs.nodes, ∀ j ∈ eqs.nodes, j ∉ eqs.dependents i →
    ∀ S T : Nat → Set β, (∀ k, k ≠ i → S k = T k) → gives S j = gives T j
  start_mem : ∀ i, family eqs.start i ⊆ ↑u
  gives_mem : ∀ S : Nat → Set β, (∀ j, S j ⊆ ↑u) → ∀ i ∈ eqs.nodes, gives S i ⊆ ↑u
  card_le : u.card ≤ eqs.height

namespace Saturating

variable [DecidableEq β] {eqs : Equations (Ascending β)} {gives : (Nat → Set β) → Nat → Set β}
  {u : Finset β}

theorem graded (h : eqs.Saturating gives u) :
    eqs.Graded Ascending.size fun values => ∀ i, family values i ⊆ ↑u where
  nodup := h.nodup
  nodes_lt := h.nodes_lt
  dependents_mem := h.dependents_mem
  good_start := h.start_mem
  good_revise values hsize hgood i hi j := by
    by_cases hij : i = j
    · subst hij
      rw [family_set_self (hsize ▸ h.nodes_lt i hi)]
      intro x hx
      rcases (h.mem_revise values i hi x).1 hx with hx | hx
      · exact hgood i hx
      · exact h.gives_mem _ hgood i hi hx
    · rw [family_set_ne hij]
      exact hgood j
  rank_le values hgood i v hv := by
    refine (Ascending.size_le_card fun x hx => ?_).trans h.card_le
    exact hgood i (by simpa [family, hv] using hx)
  rank_lt values _ i hi v hv hne := by
    refine Ascending.size_lt_size (fun x hx => ?_) hne
    exact (h.mem_revise values i hi x).2 (Or.inl (by simpa [family, hv] using hx))
  -- A node that does not depend on the one revised is given the same elements as before.
  revise_revised values hsize _ i hi j hj hdep := by
    have hgives := h.gives_congr i hi j hj hdep
      (family (values.setIfInBounds i (eqs.revise values i))) (family values)
      fun k hk => family_set_ne (Ne.symm hk) _
    refine Ascending.ext fun x => ?_
    rw [h.mem_revise _ j hj, h.mem_revise _ j hj, hgives]
    by_cases hij : i = j
    · subst hij
      rw [family_set_self (hsize ▸ h.nodes_lt i hi)]
      have hmem := h.mem_revise values i hi x
      exact ⟨fun hx => hx.elim hmem.1 Or.inr,
        fun hx => hx.elim (fun hx => Or.inl (hmem.2 (Or.inl hx))) Or.inr⟩
    · rw [family_set_ne hij]

theorem queue_solve (h : eqs.Saturating gives u) : eqs.solve.queue = [] := h.graded.queue_solve

theorem gives_subset (h : eqs.Saturating gives u) {i : Nat} (hi : i ∈ eqs.nodes) :
    gives (family eqs.solve.values) i ⊆ family eqs.solve.values i := by
  intro x hx
  have hfixed := h.graded.solve_fixed hi
  have hmem := (h.mem_revise eqs.solve.values i hi x).2 (Or.inr hx)
  simpa [family, hfixed] using hmem

theorem start_subset (h : eqs.Saturating gives u) (i : Nat) :
    family eqs.start i ⊆ family eqs.solve.values i := by
  refine h.graded.solve_induction (P := fun values => family eqs.start i ⊆ family values i)
    subset_rfl ?_
  intro values hsize _ hsub j hj x hx
  by_cases hji : j = i
  · subst hji
    rw [family_set_self (hsize ▸ h.nodes_lt j hj)]
    exact (h.mem_revise values j hj x).2 (Or.inl (hsub hx))
  · rw [family_set_ne hji]
    exact hsub hx

/-- The family found is within every family that contains the starting sets and what it gives. -/
theorem least (h : eqs.Saturating gives u) {S : Nat → Set β}
    (hstart : ∀ i, family eqs.start i ⊆ S i) (hgives : ∀ i ∈ eqs.nodes, gives S i ⊆ S i) (i : Nat) :
    family eqs.solve.values i ⊆ S i := by
  refine h.graded.solve_induction (P := fun values => ∀ i, family values i ⊆ S i) hstart ?_ i
  intro values hsize _ hsub j hj k
  by_cases hjk : j = k
  · subst hjk
    rw [family_set_self (hsize ▸ h.nodes_lt j hj)]
    intro x hx
    rcases (h.mem_revise values j hj x).1 hx with hx | hx
    · exact hsub j hx
    · exact hgives j hj (h.mono j hj _ _ hsub hx)
  · rw [family_set_ne hjk]
    exact hsub k

/-- An element is in the family found exactly if it was there at the start or is given. -/
theorem solve_eq (h : eqs.Saturating gives u) {i : Nat} (hi : i ∈ eqs.nodes) :
    family eqs.solve.values i =
      family eqs.start i ∪ gives (family eqs.solve.values) i := by
  classical
  -- The right-hand sides are themselves a family that contains all it has to.
  let S : Nat → Set β := fun j =>
    family eqs.start j ∪ if j ∈ eqs.nodes then gives (family eqs.solve.values) j else ∅
  have hsub : ∀ j, S j ⊆ family eqs.solve.values j := by
    intro j x hx
    rcases hx with hx | hx
    · exact h.start_subset j hx
    · split at hx
      · rename_i hj
        exact h.gives_subset hj hx
      · exact absurd hx (Set.notMem_empty x)
  have hle : family eqs.solve.values i ⊆ S i := by
    refine h.least (S := S) (fun j => Set.subset_union_left) (fun j hj x hx => ?_) i
    refine Or.inr ?_
    rw [if_pos hj]
    exact h.mono j hj _ _ hsub hx
  refine Set.Subset.antisymm (fun x hx => ?_) fun x hx => ?_
  · have hxS := hle hx
    simpa [S, hi] using hxS
  · exact hsub i (by simpa [S, hi] using hx)

theorem solve_eq_start (h : eqs.Saturating gives u) {i : Nat} (hi : i ∉ eqs.nodes) :
    family eqs.solve.values i = family eqs.start i := by
  refine h.graded.solve_induction (P := fun values => family values i = family eqs.start i) rfl ?_
  intro values _ _ hP j hj
  have hji : j ≠ i := fun hji => hi (hji ▸ hj)
  rw [family_set_ne hji]
  exact hP

end Saturating

end Equations

end HeapQual
