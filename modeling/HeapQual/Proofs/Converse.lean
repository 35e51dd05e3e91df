import HeapQual.Proofs.Flow

/-!
# Forward and backward

Cells are followed backward when they are settled, from a cell to those that it is computed from,
and forward when it is asked what a cell flows into.  The two directions are computed from different
tables, the edges and operands of a store on the one hand and the edges from it and the operators
built on it on the other.  Still one step forward is one step backward the other way round
(`View.Solved.mem_targets_iff`), as long as it starts from a bound cell.

Hence a cell flows into another one exactly if settling the other one visits it
(`View.Solved.mem_reach_iff`).
-/

namespace HeapQual

open Relation (ReflTransGen)

namespace View

variable {τ : Type} {v : View τ} {i j l : Nat}

/-- A cell flows up into what takes its type from it, and into an update that keeps it. -/
lemma flowsUp_iff :
    v.flowsUp l i j = true ↔
      v.step ⟨j, l⟩ = some (.next i) ∨ v.weakBase? ⟨j, l⟩ = some i := by
  unfold flowsUp
  split
  · rename_i store hstep
    rw [decide_eq_true_eq, hstep, weakBase?_eq_none_of_step hstep]
    simp
  · rename_i hnone
    rw [decide_eq_true_eq]
    exact ⟨Or.inr, fun h => h.resolve_left (hnone i)⟩

lemma mem_targets :
    j ∈ v.targets l i ↔
      (∃ (number : Nat) (edge : FlowEdge), v.graph.stores.edges[number]? = some edge ∧
        v.storeRoot edge.left = i ∧ v.storeRoot edge.right = j ∧ v.binds j l = true) ∨
      (j ∈ v.graph.stores.classes.roots ∧
        ∃ x ∈ (v.graph.stores.nodeAt j).operands, v.storeRoot x = i) ∧
        (v.step ⟨j, l⟩ = some (.next i) ∨ v.weakBase? ⟨j, l⟩ = some i) := by
  unfold targets
  rw [List.mem_append, List.mem_filter, List.mem_filter, List.mem_map, Stores.mem_children,
    flowsUp_iff]
  refine or_congr_left ⟨?_, ?_⟩
  · rintro ⟨⟨numbered, hnumbered, rfl⟩, hbinds⟩
    obtain ⟨hedge, hleft⟩ := Stores.mem_edgesFrom.1 hnumbered
    exact ⟨numbered.2, numbered.1, hedge, hleft, rfl, hbinds⟩
  · rintro ⟨number, edge, hedge, hleft, rfl, hbinds⟩
    exact ⟨⟨(edge, number), Stores.mem_edgesFrom.2 ⟨hedge, hleft⟩, rfl⟩, hbinds⟩

namespace Solved

variable (hv : v.Solved)

include hv

lemma target_lt (h : j ∈ v.targets l i) : j < v.graph.stores.size := by
  rcases mem_targets.1 h with ⟨number, edge, hedge, -, rfl, -⟩ | ⟨⟨hroot, -⟩, -⟩
  · have hmem := Array.mem_of_getElem? hedge
    exact hv.sound.stores.root_lt (hv.sound.stores.edge_lt edge hmem).2
  · exact (hv.sound.stores.mem_roots.1 hroot).1

theorem mem_targets_iff (hi : v.binds i l = true) :
    j ∈ v.targets l i ↔ v.isBound ⟨j, l⟩ = true ∧ ⟨i, l⟩ ∈ v.sources ⟨j, l⟩ := by
  rw [mem_targets, mem_sources_iff]
  constructor
  · rintro (⟨number, edge, hedge, rfl, rfl, hbinds⟩ | ⟨-, hstep | hweak⟩)
    · exact ⟨hbinds, Or.inl ⟨_, .edge hedge rfl hi⟩⟩
    · exact ⟨isBound_of_step_eq_some hstep, Or.inr ⟨hstep, rfl, hi⟩⟩
    · -- An update binds the location that it writes.
      obtain ⟨base, a, type, strong, position, message, hnode, rfl, -⟩ :=
        weakBase?_eq_some_iff.1 hweak
      have hown : (v.graph.stores.nodeAt j).ownLocation? = some a := by
        rw [show v.graph.stores.nodeAt j = _ from hnode]
        rfl
      exact ⟨hv.isBound_own hown, Or.inl ⟨_, weakBase?_eq_some_iff_demands.1 hweak⟩⟩
  · rintro ⟨hbound, ⟨reason, hdemand⟩ | ⟨hstep, -⟩⟩
    · have hweak := hdemand
      generalize hlower : (⟨i, l⟩ : Cell) = lower at hdemand
      cases hdemand with
      | edge hedge hright hbinds =>
        cases hlower
        exact Or.inl ⟨_, _, hedge, rfl, hright, hbound⟩
      | @update base a type strong position message hnode hlocation hstrong hbinds =>
        cases hlower
        refine Or.inr ⟨⟨hv.mem_roots hbound, base, ?_, rfl⟩,
          Or.inr (weakBase?_eq_some_iff_demands.2 hweak)⟩
        rw [show v.graph.stores.nodeAt j = _ from hnode]
        exact List.mem_singleton_self _
    · exact Or.inr ⟨⟨hv.mem_roots hbound, (hv.step_eq_next hstep).1⟩, Or.inl hstep⟩

/-- A path forward from a bound cell is a path backward from another bound cell. -/
lemma path_iff (hi : v.binds i l = true) :
    ReflTransGen (fun a b => b ∈ v.targets l a) i j ↔
      v.isBound ⟨j, l⟩ = true ∧ ReflTransGen (fun c d => d ∈ v.sources c) ⟨j, l⟩ ⟨i, l⟩ := by
  constructor
  · intro hpath
    induction hpath with
    | refl => exact ⟨hi, .refl⟩
    | tail _ hnext ih =>
      obtain ⟨hbound, hsource⟩ := (hv.mem_targets_iff ih.1).1 hnext
      exact ⟨hbound, ih.2.head hsource⟩
  · rintro ⟨hbound, hpath⟩
    -- All cells on the way are bound, and of the same location.
    suffices h : ∀ c, ReflTransGen (fun c d => d ∈ v.sources c) c ⟨i, l⟩ → v.isBound c = true →
        c.location = l → ReflTransGen (fun a b => b ∈ v.targets l a) i c.store from
      h _ hpath hbound rfl
    intro c hback
    induction hback using ReflTransGen.head_induction_on with
    | refl => exact fun _ _ => .refl
    | @head c d hsource _ ih =>
      rintro hc rfl
      obtain ⟨store, -, rfl⟩ := List.mem_map.1 hsource
      have hstore := isBound_of_mem_sources hsource
      exact (ih hstore rfl).tail ((hv.mem_targets_iff hstore).2 ⟨hc, hsource⟩)

/-- If nothing is settled, settling a cell visits what can be reached backward from it. -/
lemma mem_visits_iff {c d : Cell} :
    d ∈ Flow.visits v [] [c] ↔
      v.isBound c = true ∧ ReflTransGen (fun c d => d ∈ v.sources c) c d := by
  unfold Flow.visits
  rw [Walk.mem_visit_iff (fun _ _ _ he => hv.mem_boundCells.2 (isBound_of_mem_sources he))
    (fun _ hd => hv.mem_boundCells.2 (List.mem_filter.1 hd).2) v.card_boundCells]
  simp [List.mem_filter]

/-- A bound cell flows into just the cells from which settling visits it. -/
theorem mem_reach_iff (hi : v.binds i l = true) :
    ⟨j, l⟩ ∈ v.reach ⟨i, l⟩ ↔ ⟨i, l⟩ ∈ Flow.visits v [] [⟨j, l⟩] := by
  have hlt : i < v.graph.stores.size := hv.store_lt (c := ⟨i, l⟩) hi
  have hvisit : j ∈ Walk.visit (v.targets l) v.graph.stores.size [i] [] ↔
      ReflTransGen (fun a b => b ∈ v.targets l a) i j := by
    rw [Walk.mem_visit_iff (u := Finset.range v.graph.stores.size)
      (fun _ _ _ hk => Finset.mem_range.2 (hv.target_lt hk))
      (fun _ hk => Finset.mem_range.2 (List.mem_singleton.1 hk ▸ hlt)) (Finset.card_range _).le]
    simp
  rw [hv.mem_visits_iff, ← hv.path_iff hi, ← hvisit, reach, List.mem_map]
  simp

end Solved

end View

end HeapQual
