import HeapQual.Proofs.Cell
import HeapQual.Proofs.Journal

/-!
# What the graph demands

For every edge into a cell, and for the old contents of an update that keeps them, the graph demands
that the type of a lower cell is at most the type of the cell (`View.Demands`).  A cell is computed
from the lower cells of what is demanded of it, and from the cell that it passes the search for its
type on to (`View.mem_sources_iff`); following these backwards gives its cone (`View.Cone`).

Edges and updates are marked when they are sent to the lattice, and a mark stands for one demand
(`View.Demands.unique`).
-/

namespace HeapQual

/-- The graph demands, for this reason, that the type of a lower cell is at most that of the cell
`c`. -/
inductive View.Demands {τ : Type} (v : View τ) (c : Cell) : Reason → Cell → Prop
  /-- The lower cell is at the left end of an edge. -/
  | edge {number : Nat} {edge : FlowEdge} :
      v.graph.stores.edges[number]? = some edge → v.storeRoot edge.right = c.store →
      v.binds (v.storeRoot edge.left) c.location = true →
      Demands v c (.edge number c.location) ⟨v.storeRoot edge.left, c.location⟩
  /-- The lower cell holds the old contents of an update that keeps them. -/
  | update {base : StoreId} {a : LocationId} {type : τ} {strong : Bool} {position : Position}
      {message : String} :
      v.graph.stores.nodeAt c.store = .update base a type strong position message →
      v.graph.classOf a = c.location → (strong = true → c.store ∈ v.demoted) →
      v.binds (v.storeRoot base) c.location = true →
      Demands v c (.update c.store c.location) ⟨v.storeRoot base, c.location⟩

namespace View.Demands

variable {τ : Type} {v : View τ} {c lower : Cell} {reason : Reason}

lemma isBound (h : v.Demands c reason lower) : v.isBound lower = true := by
  cases h with
  | edge _ _ hbinds => exact hbinds
  | update _ _ _ hbinds => exact hbinds

lemma markable (h : v.Demands c reason lower) : reason.Markable := by
  cases h with
  | edge => exact Or.inl ⟨_, rfl⟩
  | update => exact Or.inr ⟨_, rfl⟩

/-- A mark stands for one demand. -/
lemma unique {c' lower' : Cell} {reason' : Reason} (h : v.Demands c reason lower)
    (h' : v.Demands c' reason' lower') (hmark : reason.SameMark reason') :
    c = c' ∧ reason = reason' ∧ lower = lower' := by
  obtain ⟨store, location⟩ := c
  obtain ⟨store', location'⟩ := c'
  obtain ⟨hedge, hupdate⟩ := hmark
  cases h with
  | edge hnumber hright =>
    cases h' with
    | edge hnumber' hright' =>
      cases hedge
      cases hnumber.symm.trans hnumber'
      cases hright.symm.trans hright'
      exact ⟨rfl, rfl, rfl⟩
    | update => cases hedge
  | update hnode hlocation =>
    cases h' with
    | edge => cases hedge
    | update hnode' hlocation' =>
      cases hupdate
      cases hnode.symm.trans hnode'
      cases hlocation.symm.trans hlocation'
      exact ⟨rfl, rfl, rfl⟩

end View.Demands

lemma View.weakBase?_eq_some_iff_demands {τ : Type} {v : View τ} {c : Cell} {b : Nat} :
    v.weakBase? c = some b ↔ v.Demands c (.update c.store c.location) ⟨b, c.location⟩ := by
  rw [View.weakBase?_eq_some_iff]
  constructor
  · rintro ⟨base, a, type, strong, position, message, hnode, hlocation, hstrong, rfl, hbinds⟩
    exact .update hnode hlocation hstrong hbinds
  · intro h
    cases h with
    | update hnode hlocation hstrong hbinds =>
      exact ⟨_, _, _, _, _, _, hnode, hlocation, hstrong, rfl, hbinds⟩

/-- The own cell of an update passes nothing on, so what passes the search on has no weak base. -/
lemma View.weakBase?_eq_none_of_step {τ : Type} {v : View τ} {c : Cell} {store : Nat}
    (hstep : v.step c = some (.next store)) : v.weakBase? c = none := by
  refine Option.eq_none_iff_forall_ne_some.2 fun b hb => ?_
  obtain ⟨base, a, type, strong, position, message, hnode, hown, -⟩ :=
    View.weakBase?_eq_some_iff.1 hb
  rw [View.step_update (View.isBound_of_step_eq_some hstep) hnode, if_pos hown] at hstep
  cases hstep

/-- More is demanded when more updates were found to be weak. -/
lemma View.Demands.mono {τ : Type} {g : Graph τ} {sol : Solution} {demoted demoted' : List Nat}
    (hsub : ∀ store ∈ demoted, store ∈ demoted') {c lower : Cell} {reason : Reason}
    (h : View.Demands ⟨g, sol, demoted⟩ c reason lower) :
    View.Demands ⟨g, sol, demoted'⟩ c reason lower := by
  cases h with
  | edge hedge hright hbinds => exact .edge hedge hright hbinds
  | update hnode hlocation hstrong hbinds =>
    exact .update hnode hlocation (fun hs => hsub _ (hstrong hs)) hbinds

/-- Where the type of a cell is found does not depend on the updates found to be weak. -/
lemma View.binding_eq_binding {τ : Type} (g : Graph τ) (sol : Solution)
    (demoted demoted' : List Nat) (c : Cell) :
    View.binding ⟨g, sol, demoted⟩ c = View.binding ⟨g, sol, demoted'⟩ c := by
  unfold View.binding
  dsimp only
  generalize g.stores.size = fuel
  induction fuel generalizing c with
  | zero => rfl
  | succ fuel ih =>
    have hstep : View.step ⟨g, sol, demoted⟩ c = View.step ⟨g, sol, demoted'⟩ c := rfl
    unfold View.bindingFrom
    rw [hstep]
    split
    · rfl
    · exact ih _
    · rfl
    · rfl

/-- A cell is computed from the lower cells of what is demanded of it, and from the cell that it
passes the search for its type on to. -/
lemma View.mem_sources_iff {τ : Type} {v : View τ} {c d : Cell} :
    d ∈ v.sources c ↔ (∃ reason, v.Demands c reason d) ∨
      v.step c = some (.next d.store) ∧ d.location = c.location ∧ v.isBound d = true := by
  constructor
  · intro h
    obtain ⟨s, hs, rfl⟩ := List.mem_map.1 h
    rcases List.mem_append.1 hs with hs | hs
    · obtain ⟨hs, hbinds⟩ := List.mem_filter.1 hs
      obtain ⟨⟨edge, number⟩, hedge, rfl⟩ := List.mem_map.1 hs
      obtain ⟨hedge, hright⟩ := Stores.mem_edgesInto.1 hedge
      exact Or.inl ⟨_, .edge hedge hright hbinds⟩
    -- Below a weak update stand the old contents it demands. Below any other operator stands the
    -- store that the search goes on to.
    · unfold below at hs
      split at hs
      · rename_i base hbase
        rw [List.mem_singleton.1 hs]
        exact Or.inl ⟨_, View.weakBase?_eq_some_iff_demands.1 hbase⟩
      · split at hs
        · rename_i store hstep
          obtain ⟨hs, hbinds⟩ := List.mem_filter.1 hs
          cases List.mem_singleton.1 hs
          exact Or.inr ⟨hstep, rfl, hbinds⟩
        · exact absurd hs List.not_mem_nil
  · rintro (⟨reason, hdemand⟩ | ⟨hstep, hlocation, hbound⟩)
    · have hupdate := hdemand
      cases hdemand with
      | edge hedge hright hbinds =>
        refine List.mem_map.2 ⟨_, List.mem_append_left _ (List.mem_filter.2 ⟨?_, hbinds⟩), rfl⟩
        exact List.mem_map.2 ⟨_, Stores.mem_edgesInto.2 ⟨hedge, hright⟩, rfl⟩
      | update =>
        refine List.mem_map.2 ⟨_, List.mem_append_right _ ?_, rfl⟩
        rw [below, View.weakBase?_eq_some_iff_demands.2 hupdate]
        exact List.mem_singleton_self _
    · obtain ⟨store, location⟩ := d
      cases hlocation
      refine List.mem_map.2 ⟨store, List.mem_append_right _ ?_, rfl⟩
      rw [below, View.weakBase?_eq_none_of_step hstep, hstep]
      exact List.mem_filter.2 ⟨List.mem_singleton_self _, hbound⟩

/-- The cells whose contents may flow into a cell, itself included. -/
inductive View.Cone {τ : Type} (v : View τ) (c : Cell) : Cell → Prop
  | start : Cone v c c
  | demand {d lower : Cell} {reason : Reason} :
      Cone v c d → v.Demands d reason lower → Cone v c lower
  | step {d : Cell} {store : Nat} :
      Cone v c d → v.step d = some (.next store) → Cone v c ⟨store, d.location⟩

end HeapQual
