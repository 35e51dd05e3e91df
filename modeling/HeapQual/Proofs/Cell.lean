import HeapQual.Cell
import HeapQual.Proofs.Graph
import Mathlib.Data.Finset.Prod

/-!
# Finding the types of cells

The type of a bound cell can always be found (`View.Faithful.exists_binding`).  Each step of the
search keeps the cell bound, because an operator binds a location of which it is not the owner only
if the store it passes the question on to binds it (`View.Solved.step_eq_next`).  The search ends,
because an operator comes after its operands: a step either goes to an earlier position or arrives
at a variable, which may have been merged into a later one.

All this is about views that show the present solution of a graph (`View.Solved`), and the last
about those of a layered one (`View.Faithful`).
-/

namespace HeapQual

namespace View

variable {τ : Type} {v : View τ} {c d : Cell}

/-- The view shows the solution of its graph, in which stores name what exists. -/
structure Solved (v : View τ) : Prop where
  sound : v.graph.Sound
  named : v.graph.Named
  solution_eq : v.solution = v.graph.solve

/-- The view shows the solution of its graph, in which operators come after their operands. -/
structure Faithful (v : View τ) : Prop where
  sound : v.graph.Sound
  layered : v.graph.Layered
  solution_eq : v.solution = v.graph.solve

/-! ## One step of the search -/

lemma isBound_of_step_eq_some {next : CellStep τ} (h : v.step c = some next) :
    v.isBound c = true := by
  by_contra hbound
  rw [step, if_neg hbound] at h
  cases h

section

variable (hbound : v.isBound c = true)

include hbound

lemma step_restrict {base : StoreId} {e : EffectId}
    (hnode : v.graph.stores.nodeAt c.store = .restrict base e) :
    v.step c = some (.next (v.storeRoot base)) := by
  rw [step, if_pos hbound, hnode]

lemma step_allocate {base : StoreId} {a : LocationId} {fresh : τ}
    (hnode : v.graph.stores.nodeAt c.store = .allocate base a fresh) :
    v.step c = if v.graph.classOf a ≠ c.location || v.binds (v.storeRoot base) c.location then
      some (.next (v.storeRoot base)) else some (.value fresh) := by
  rw [step, if_pos hbound, hnode]

lemma step_update {base : StoreId} {a : LocationId} {type : τ} {strong : Bool}
    {position : Position} {message : String}
    (hnode : v.graph.stores.nodeAt c.store = .update base a type strong position message) :
    v.step c = if v.graph.classOf a = c.location then some (.value type)
      else some (.next (v.storeRoot base)) := by
  rw [step, if_pos hbound, hnode]

lemma step_overlay {inside outside : StoreId} {e : EffectId}
    (hnode : v.graph.stores.nodeAt c.store = .overlay inside outside e) :
    v.step c = if v.mentions e c.location then some (.next (v.storeRoot inside))
      else some (.next (v.storeRoot outside)) := by
  rw [step, if_pos hbound, hnode]

/-- The search goes on from every bound cell, or ends there with a type. -/
lemma exists_step : ∃ next, v.step c = some next := by
  cases hnode : v.graph.stores.nodeAt c.store with
  | var name =>
    rw [step, if_pos hbound, hnode]
    exact ⟨_, rfl⟩
  | restrict base e => exact ⟨_, step_restrict hbound hnode⟩
  | allocate base a fresh =>
    rw [step_allocate hbound hnode]
    split <;> exact ⟨_, rfl⟩
  | update base a type strong position message =>
    rw [step_update hbound hnode]
    split <;> exact ⟨_, rfl⟩
  | overlay inside outside e =>
    rw [step_overlay hbound hnode]
    split <;> exact ⟨_, rfl⟩

end

/-- Whatever the view shows, a step goes to the root of an operand. -/
lemma exists_operand_of_step_eq_next {store : Nat} (h : v.step c = some (.next store)) :
    ∃ s ∈ (v.graph.stores.nodeAt c.store).operands, v.storeRoot s = store := by
  have hbound := isBound_of_step_eq_some h
  cases hnode : v.graph.stores.nodeAt c.store with
  | var name =>
    rw [step, if_pos hbound, hnode] at h
    cases h
  | restrict base e =>
    rw [step_restrict hbound hnode] at h
    cases h
    exact ⟨base, List.mem_singleton_self _, rfl⟩
  | allocate base a fresh =>
    rw [step_allocate hbound hnode] at h
    split at h <;> cases h
    exact ⟨base, List.mem_singleton_self _, rfl⟩
  | update base a type strong position message =>
    rw [step_update hbound hnode] at h
    split at h <;> cases h
    exact ⟨base, List.mem_singleton_self _, rfl⟩
  | overlay inside outside e =>
    rw [step_overlay hbound hnode] at h
    split at h <;> cases h
    · exact ⟨inside, List.mem_cons_self .., rfl⟩
    · exact ⟨outside, List.mem_cons_of_mem _ (List.mem_singleton_self _), rfl⟩

namespace Solved

variable (hv : v.Solved)

include hv

lemma mentions_eq_mentioned : v.mentions = v.graph.mentioned := by
  funext e a
  rw [mentions, hv.solution_eq, Graph.mentioned]

/-- A store binds its own location and what it takes over, and nothing else. -/
lemma binds_iff {i a : Nat} (hi : i ∈ v.graph.stores.classes.roots) :
    v.binds i a = true ↔
      (∃ x, (v.graph.stores.nodeAt i).ownLocation? = some x ∧ v.graph.classOf x = a) ∨
        a ∈ v.graph.stores.inherits v.mentions (fun j => {b | v.binds j b = true}) i := by
  have h := hv.named.binds_iff hv.sound (i := i) (a := a) hi
  rw [hv.mentions_eq_mentioned]
  unfold binds
  rw [hv.solution_eq]
  exact h

lemma mem_roots (h : v.isBound c = true) : c.store ∈ v.graph.stores.classes.roots := by
  rw [isBound, binds, hv.solution_eq] at h
  exact hv.named.mem_roots_of_binds hv.sound h

lemma store_lt (h : v.isBound c = true) : c.store < v.graph.stores.size :=
  (hv.sound.stores.mem_roots.1 (hv.mem_roots h)).1

lemma exists_size_eq_succ (h : v.isBound c = true) : ∃ n, v.graph.stores.size = n + 1 :=
  Nat.exists_eq_succ_of_ne_zero (Nat.ne_zero_of_lt (hv.store_lt h))

lemma root_store (h : v.isBound c = true) : v.graph.stores.classes.root c.store = c.store :=
  (hv.sound.stores.mem_roots.1 (hv.mem_roots h)).2

lemma location_lt (h : v.isBound c = true) : c.location < v.graph.locations.size := by
  rw [isBound, binds, hv.solution_eq] at h
  exact hv.named.lt_of_binds hv.sound h

lemma root_location (h : v.isBound c = true) :
    v.graph.locations.classes.root c.location = c.location := by
  rw [isBound, binds, hv.solution_eq] at h
  exact hv.named.root_of_binds hv.sound h

/-- An operator binds its own location. -/
lemma isBound_own {i : Nat} {a : LocationId}
    (h : (v.graph.stores.nodeAt i).ownLocation? = some a) :
    v.isBound ⟨i, v.graph.classOf a⟩ = true := by
  have hvar : (v.graph.stores.nodeAt i).isVariable = false := by
    cases hnode : v.graph.stores.nodeAt i <;>
      simp_all [StoreNode.ownLocation?, StoreNode.isVariable]
  refine (hv.binds_iff (hv.sound.stores.mem_roots.2 ⟨?_, ?_⟩)).2 (Or.inl ⟨a, h, rfl⟩)
  · exact Stores.lt_size_of_not_isVariable hvar
  · exact hv.sound.stores.root_eq hvar

/-- What is bound flows along an edge into a variable. -/
lemma isBound_of_edge {number a : Nat} {edge : FlowEdge}
    (hedge : v.graph.stores.edges[number]? = some edge)
    (hvar : (v.graph.stores.nodeAt (v.storeRoot edge.right)).isVariable = true)
    (hleft : v.isBound ⟨v.storeRoot edge.left, a⟩ = true) :
    v.isBound ⟨v.storeRoot edge.right, a⟩ = true := by
  have hmem := Array.mem_of_getElem? hedge
  have hroot := hv.sound.stores.root_mem_roots (hv.sound.stores.edge_lt edge hmem).2
  refine (hv.binds_iff hroot).2 (Or.inr ?_)
  unfold Stores.inherits
  cases hnode : v.graph.stores.nodeAt (v.storeRoot edge.right) with
  | var name =>
    rw [show v.graph.stores.nodeAt (v.graph.stores.root edge.right) = .var name from hnode]
    exact ⟨edge, hmem, rfl, hleft⟩
  | _ => rw [hnode] at hvar; cases hvar

/-! ## The search for a type -/

theorem step_eq_next {store : Nat} (h : v.step c = some (.next store)) :
    (∃ s ∈ (v.graph.stores.nodeAt c.store).operands, v.storeRoot s = store) ∧
      v.isBound ⟨store, c.location⟩ = true := by
  refine ⟨exists_operand_of_step_eq_next h, ?_⟩
  have hbound := isBound_of_step_eq_some h
  have hdomain := (hv.binds_iff (hv.mem_roots hbound)).1 hbound
  unfold Stores.inherits at hdomain
  cases hnode : v.graph.stores.nodeAt c.store with
  | var name =>
    rw [step, if_pos hbound, hnode] at h
    cases h
  | restrict base e =>
    -- A restriction binds nothing of its own.
    rw [step_restrict hbound hnode] at h
    simp only [hnode] at hdomain
    cases h
    exact (hdomain.resolve_left (by simp [StoreNode.ownLocation?])).1
  | allocate base a fresh =>
    -- An allocation asks its base about any other location, or if the base binds its own.
    rw [step_allocate hbound hnode] at h
    simp only [hnode] at hdomain
    split at h <;> cases h
    rename_i hask
    rcases hdomain with ⟨x, hx, hxa⟩ | hbase
    · cases hx
      simpa [isBound, hxa] using hask
    · exact hbase
  | update base a type strong position message =>
    rw [step_update hbound hnode] at h
    simp only [hnode] at hdomain
    split at h <;> cases h
    rename_i hother
    rcases hdomain with ⟨x, hx, hxa⟩ | hbase
    · cases hx
      exact absurd hxa hother
    · exact hbase
  | overlay inside outside e =>
    -- An overlay asks the store that the effect points to.
    rw [step_overlay hbound hnode] at h
    simp only [hnode] at hdomain
    have hside := hdomain.resolve_left (by simp [StoreNode.ownLocation?])
    split at h <;> cases h <;> rename_i hmentions
    · rcases hside with hside | hside
      · exact hside.1
      · exact absurd hmentions (by simp [hside.2])
    · rcases hside with hside | hside
      · exact absurd hside.2 hmentions
      · exact hside.1

end Solved

namespace Faithful

variable (hv : v.Faithful)

include hv

lemma solved : v.Solved := ⟨hv.sound, hv.layered.named, hv.solution_eq⟩

lemma isBound_own {i : Nat} {a : LocationId}
    (h : (v.graph.stores.nodeAt i).ownLocation? = some a) :
    v.isBound ⟨i, v.graph.classOf a⟩ = true :=
  hv.solved.isBound_own h

lemma isBound_of_edge {number a : Nat} {edge : FlowEdge}
    (hedge : v.graph.stores.edges[number]? = some edge)
    (hvar : (v.graph.stores.nodeAt (v.storeRoot edge.right)).isVariable = true)
    (hleft : v.isBound ⟨v.storeRoot edge.left, a⟩ = true) :
    v.isBound ⟨v.storeRoot edge.right, a⟩ = true :=
  hv.solved.isBound_of_edge hedge hvar hleft

/-- The search from a bound cell arrives within as many steps as there are positions below it. -/
lemma exists_bindingFrom {fuel : Nat} (hbound : v.isBound c = true) (hfuel : 0 < fuel)
    (hc : (v.graph.stores.nodeAt c.store).isVariable = true ∨ c.store < fuel) :
    ∃ b, v.bindingFrom fuel c = some b := by
  induction fuel generalizing c with
  | zero => exact absurd hfuel (lt_irrefl 0)
  | succ fuel ih =>
    obtain ⟨st, hstep⟩ := exists_step hbound
    rw [bindingFrom, hstep]
    cases st with
    | owned => exact ⟨_, rfl⟩
    | value type => exact ⟨_, rfl⟩
    | next store =>
      obtain ⟨⟨s, hs, rfl⟩, hnext⟩ := hv.solved.step_eq_next hstep
      have hlt := hv.layered.operand_lt c.store s hs
      have hc : c.store < fuel + 1 := by
        refine hc.resolve_left fun hvar => ?_
        revert hs hvar
        cases v.graph.stores.nodeAt c.store <;> simp [StoreNode.operands, StoreNode.isVariable]
      refine ih hnext (by omega) ?_
      -- An operand is its own root, or was merged and its root is a variable.
      by_cases hroot : v.storeRoot s = s.index
      · exact Or.inr (show v.storeRoot s < fuel by omega)
      · exact Or.inl (hv.sound.stores.merged s.index hroot).2

theorem exists_binding (hbound : v.isBound c = true) : ∃ b, v.binding c = some b :=
  hv.exists_bindingFrom hbound (Nat.zero_lt_of_lt (hv.solved.store_lt hbound))
    (Or.inr (hv.solved.store_lt hbound))

lemma binding_own {base : StoreId} {a : LocationId} {type : τ} {strong : Bool}
    {position : Position} {message : String}
    (hnode : v.graph.stores.nodeAt c.store = .update base a type strong position message)
    (hlocation : v.graph.classOf a = c.location) : v.binding c = some (.value type) := by
  have hbound : v.isBound c = true := by
    have h := hv.isBound_own (i := c.store) (a := a) (by rw [hnode]; rfl)
    rwa [hlocation] at h
  have hstep : v.step c = some (.value type) := by
    rw [step_update hbound hnode, if_pos hlocation]
  unfold binding
  obtain ⟨fuel, hfuel⟩ := hv.solved.exists_size_eq_succ hbound
  rw [hfuel, bindingFrom, hstep]

end Faithful

theorem isBound_of_binding (h : v.binding c = some (.owned d)) :
    v.isBound d = true ∧ d.location = c.location := by
  unfold binding at h
  generalize v.graph.stores.size = fuel at h
  induction fuel generalizing c with
  | zero => simp [bindingFrom] at h
  | succ fuel ih =>
    unfold bindingFrom at h
    split at h
    · cases h
    · have hd := ih h
      exact hd
    · cases h
    · rename_i hstep
      cases h
      exact ⟨isBound_of_step_eq_some hstep, rfl⟩

lemma isBound_of_binding_eq_some {b : Binding τ} (h : v.binding c = some b) :
    v.isBound c = true := by
  by_contra hbound
  have hstep : v.step c = none := if_neg hbound
  unfold binding at h
  cases hsize : v.graph.stores.size with
  | zero =>
    rw [hsize] at h
    cases h
  | succ fuel =>
    rw [hsize, bindingFrom, hstep] at h
    cases h

/-! ## Changes that the solution does not show -/

section

variable {g g' : Graph τ} (h : g.Tweaks g') (sol : Solution) (demoted demoted' : List Nat)

include h

lemma storeRoot_of_tweaks : storeRoot ⟨g', sol, demoted'⟩ = storeRoot ⟨g, sol, demoted⟩ := by
  funext x
  rw [storeRoot, storeRoot, h.stores_eq]

/-- Such a change leaves each step of the search as it is. -/
lemma step_of_tweaks : step ⟨g', sol, demoted'⟩ = step ⟨g, sol, demoted⟩ := by
  have hmentions : mentions ⟨g', sol, demoted'⟩ = mentions ⟨g, sol, demoted⟩ := by
    funext e a
    rw [mentions, mentions, h.effectRoot_eq]
  funext c
  unfold step
  rw [storeRoot_of_tweaks h sol demoted demoted', hmentions, h.stores_eq, h.classOf_eq]
  rfl

end

/-! ## The cells that a cell is computed from -/

/-- A cell has a base if it is an update's own, the update keeps the old contents, and the base
binds the location. -/
lemma weakBase?_eq_some_iff {b : Nat} :
    v.weakBase? c = some b ↔
      ∃ base a type strong position message,
        v.graph.stores.nodeAt c.store = .update base a type strong position message ∧
          v.graph.classOf a = c.location ∧ (strong = true → c.store ∈ v.demoted) ∧
          v.storeRoot base = b ∧ v.binds b c.location = true := by
  unfold weakBase?
  constructor
  · intro h
    split at h
    · rename_i base a type strong position message hnode
      split at h
      · rename_i hweak
        cases h
        simp only [Bool.and_eq_true, Bool.or_eq_true, Bool.not_eq_true', decide_eq_true_eq]
          at hweak
        refine ⟨_, _, _, _, _, _, hnode, hweak.1.1, fun hstrong => ?_, rfl, hweak.2⟩
        exact hweak.1.2.resolve_left (by simp [hstrong])
      · cases h
    · cases h
  · rintro ⟨base, a, type, strong, position, message, hnode, hlocation, hstrong, rfl, hbinds⟩
    simp only [hnode]
    rw [if_pos]
    cases strong <;> simp_all

lemma isBound_of_mem_sources (h : d ∈ v.sources c) : v.isBound d = true := by
  obtain ⟨s, hs, rfl⟩ := List.mem_map.1 h
  rcases List.mem_append.1 hs with hs | hs
  · exact (List.mem_filter.1 hs).2
  · unfold below at hs
    split at hs
    · rename_i base hbase
      rw [List.mem_singleton.1 hs]
      obtain ⟨_, _, _, _, _, _, -, -, -, -, hbinds⟩ := weakBase?_eq_some_iff.1 hbase
      exact hbinds
    · split at hs
      · exact (List.mem_filter.1 hs).2
      · exact absurd hs List.not_mem_nil

/-- All bound cells. -/
def boundCells (v : View τ) : Finset Cell :=
  ((Finset.range v.graph.stores.size ×ˢ Finset.range v.graph.locations.size).image
    fun p => ⟨p.1, p.2⟩).filter fun c => v.isBound c = true

lemma card_boundCells (v : View τ) :
    v.boundCells.card ≤ v.graph.stores.size * v.graph.locations.size := by
  refine (Finset.card_filter_le _ _).trans (Finset.card_image_le.trans ?_)
  rw [Finset.card_product, Finset.card_range, Finset.card_range]

lemma Solved.mem_boundCells (hv : v.Solved) : c ∈ v.boundCells ↔ v.isBound c = true := by
  refine ⟨fun h => (Finset.mem_filter.1 h).2, fun h => Finset.mem_filter.2 ⟨?_, h⟩⟩
  exact Finset.mem_image.2 ⟨(c.store, c.location), Finset.mem_product.2
    ⟨Finset.mem_range.2 (hv.store_lt h), Finset.mem_range.2 (hv.location_lt h)⟩, rfl⟩

lemma Faithful.mem_boundCells (hv : v.Faithful) : c ∈ v.boundCells ↔ v.isBound c = true :=
  hv.solved.mem_boundCells

end View

end HeapQual
