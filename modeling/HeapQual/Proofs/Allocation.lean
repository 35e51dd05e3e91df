import HeapQual.Allocation
import HeapQual.Proofs.Cell
import HeapQual.Proofs.Worklist

/-!
# Allocations reach only where their location is bound

An allocation of a location travels along the same paths as the binding of it.  So if anything of a
location reaches a store, the store binds the location (`View.Faithful.binds_of_supply`).  In
particular the old contents of a strong update that has to be demoted exist.
-/

namespace HeapQual

namespace Supply

lemma join_eq_none_iff {w w' : Supply} : w.join w' = .none ↔ w = .none ∧ w' = .none := by
  cases w with
  | none => simp [join]
  | many => cases w' <;> simp [join]
  | once a =>
    cases w' with
    | once b =>
      by_cases hab : a = b
      · simp [join, hab]
      · simp [join, hab]
    | _ => simp [join]

lemma foldl_join_ne_none {α : Type} {f : α → Supply} {items : List α} {w : Supply}
    (h : items.foldl (fun w item => w.join (f item)) w ≠ .none) :
    w ≠ .none ∨ ∃ item ∈ items, f item ≠ .none := by
  induction items generalizing w with
  | nil => exact Or.inl h
  | cons item items ih =>
    rcases ih h with hw | ⟨item', hmem, hitem'⟩
    · by_cases hne : w = .none
      · refine Or.inr ⟨item, List.mem_cons_self .., fun hitem => hw ?_⟩
        exact join_eq_none_iff.2 ⟨hne, hitem⟩
      · exact Or.inl hne
    · exact Or.inr ⟨item', List.mem_cons_of_mem _ hmem, hitem'⟩

end Supply

namespace View.Faithful

variable {τ : Type} {v : View τ} (hv : v.Faithful)

include hv

/-- What an expression lets through is bound there, if it was where it comes from. -/
lemma binds_of_incoming {values : Array Supplies} {i a : Nat}
    (hi : i ∈ v.graph.stores.classes.roots)
    (hvalues : ∀ j, Graph.supplyAt values j a ≠ .none → v.binds j a = true)
    (h : v.graph.incoming v.solution values i a ≠ .none) : v.binds i a = true := by
  refine (hv.solved.binds_iff hi).2 ?_
  unfold Graph.incoming at h
  unfold Stores.inherits
  -- Supplies and domains are passed on by the same operators; only an update supplies nothing of
  -- its own.
  cases hnode : v.graph.stores.nodeAt i with
  | var name =>
    simp only [hnode] at h ⊢
    rcases Supply.foldl_join_ne_none h with h | ⟨⟨edge, number⟩, hmem, hedge⟩
    · exact absurd rfl h
    · obtain ⟨hnumber, hright⟩ := Stores.mem_edgesInto.1 hmem
      exact Or.inr ⟨edge, Array.mem_of_getElem? hnumber, hright, hvalues _ hedge⟩
  | restrict base e =>
    simp only [hnode] at h ⊢
    split at h
    · rename_i hmentions
      exact Or.inr ⟨hvalues _ h, hmentions⟩
    · exact absurd rfl h
  | allocate base b fresh =>
    simp only [hnode] at h ⊢
    by_cases hown : v.graph.classOf b = a
    · exact Or.inl ⟨b, rfl, hown⟩
    · rw [if_neg hown] at h
      exact Or.inr (hvalues _ h)
  | update base b type strong position message =>
    simp only [hnode] at h ⊢
    exact Or.inr (hvalues _ h)
  | overlay inside outside e =>
    simp only [hnode] at h ⊢
    split at h
    · rename_i hmentions
      exact Or.inr (Or.inl ⟨hvalues _ h, hmentions⟩)
    · rename_i hmentions
      exact Or.inr (Or.inr ⟨hvalues _ h, Bool.eq_false_iff.2 hmentions⟩)

/-- Revising a root keeps the supplies where locations are bound. -/
lemma binds_of_revise {values : Array Supplies} {i : Nat}
    (hi : i ∈ v.graph.stores.classes.roots)
    (hvalues : ∀ j a, Graph.supplyAt values j a ≠ .none → v.binds j a = true) {j a : Nat}
    (h : Graph.supplyAt (values.setIfInBounds i
      ((v.graph.supplyEquations v.solution).revise values i)) j a ≠ .none) :
    v.binds j a = true := by
  unfold Graph.supplyAt at h
  rw [Array.getElem?_setIfInBounds] at h
  by_cases hij : i = j
  · subst hij
    by_cases hlt : i < values.size
    · simp only [hlt, if_true, Option.getD_some, Graph.supplyEquations, List.getElem?_toArray,
        List.getElem?_map] at h
      by_cases ha : a < v.graph.locations.size
      · rw [List.getElem?_range ha] at h
        by_cases hin : v.graph.incoming v.solution values i a = .none
        · exact hvalues i a fun hnone => h (Supply.join_eq_none_iff.2 ⟨hin, hnone⟩)
        · exact hv.binds_of_incoming hi (fun j => hvalues j a) hin
      · rw [List.getElem?_eq_none (by simpa using ha)] at h
        exact absurd rfl h
    · simp only [hlt, if_true, if_false, Option.getD_none] at h
      exact absurd rfl h
  · rw [if_neg hij] at h
    exact hvalues j a h

theorem binds_of_supply {i a : Nat}
    (h : Graph.supplyAt (v.graph.solveSupplies v.solution).values i a ≠ .none) :
    v.binds i a = true := by
  -- Only roots are ever revised, so both facts are carried through the run together.
  suffices hrun : (∀ j ∈ (v.graph.solveSupplies v.solution).queue,
      j ∈ v.graph.stores.classes.roots) ∧
      ∀ j b, Graph.supplyAt (v.graph.solveSupplies v.solution).values j b ≠ .none →
        v.binds j b = true from hrun.2 i a h
  refine Worklist.run_induction (P := fun w => (∀ j ∈ w.queue,
    j ∈ v.graph.stores.classes.roots) ∧
    ∀ j b, Graph.supplyAt w.values j b ≠ .none → v.binds j b = true) ?_ _ ⟨fun j hj => hj, ?_⟩
  · rintro w ⟨hqueue, hvalues⟩ hne
    obtain ⟨i, rest, hq⟩ := List.exists_cons_of_ne_nil hne
    rw [hq] at hqueue
    have hi := hqueue i (List.mem_cons_self ..)
    have hrest : ∀ j ∈ rest, j ∈ v.graph.stores.classes.roots := fun j hj =>
      hqueue j (List.mem_cons_of_mem _ hj)
    by_cases hset : w.values[i]? = some ((v.graph.supplyEquations v.solution).revise w.values i)
    · rw [Worklist.step_of_settled hq hset]
      exact ⟨hrest, hvalues⟩
    · rw [Worklist.step_of_changed hq hset]
      refine ⟨fun j hj => ?_, fun j b hb => hv.binds_of_revise hi hvalues hb⟩
      rcases Worklist.mem_enqueueAll.1 hj with hj | hj
      · exact hrest j hj
      · exact hv.sound.stores.mem_roots_of_mem_dependents hj
  · intro j b hb
    refine absurd ?_ hb
    simp only [Equations.initial, Graph.supplyEquations, Graph.supplyAt]
    by_cases hj : j < v.graph.stores.size
    · by_cases hb : b < v.graph.locations.size
      · simp [hj, hb]
      · simp [hj, hb]
    · simp [hj]

end View.Faithful

end HeapQual
