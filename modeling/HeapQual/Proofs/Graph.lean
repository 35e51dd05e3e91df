import HeapQual.Graph
import HeapQual.Proofs.Computation
import HeapQual.Proofs.Effect.Members
import HeapQual.Proofs.Store.Domains

/-!
# How graphs grow

A graph is *sound* when its three tables are (`Graph.Sound`).  It grows by new entries, new
constraints and merges; whichever of these happen, old entries keep their expressions, old
constraints keep their numbers, and classes are only joined (`Graph.Extends`).  Each way of growing
has a lemma here, which is all that is needed to know about it later (`Graph.Grows`).

Some changes cannot be seen in the solution of a graph: a location that nothing mentions yet, a
mark, a made-up name, a shortened path (`Graph.Tweaks.solve_eq`).

Store expressions may name what does not exist.  If everything they name was made before them the
graph is *layered* (`Graph.Layered`), and then it passes validation
(`Graph.Layered.validate_eq_ok`).
-/

namespace HeapQual

variable {τ : Type}

/-! ## Locations -/

namespace Locations

variable {t : Locations τ}

/-- What holds of a table of locations. -/
structure Sound (t : Locations τ) : Prop where
  classes : t.classes.Sound
  size_classes : t.classes.size = t.size

lemma held?_join (t : Locations τ) (survivor child root : Nat) :
    (t.join survivor child).held? root = t.held? root := by
  unfold held? record? join
  rw [Array.getElem?_modify]
  split
  · rw [Option.map_map]
    rfl
  · rfl

namespace Sound

lemma root_lt (ht : t.Sound) {a : LocationId} (h : a.index < t.size) : t.root a < t.size := by
  have hlt := ht.classes.root_lt (i := a.index) (ht.size_classes ▸ h)
  exact ht.size_classes ▸ hlt

lemma root_mem_roots (ht : t.Sound) {a : LocationId} (h : a.index < t.size) :
    t.root a ∈ t.classes.roots :=
  ht.classes.root_mem_roots (ht.size_classes ▸ h)

theorem empty : (Locations.empty : Locations τ).Sound := ⟨Forest.Sound.empty, rfl⟩

lemma size_add (t : Locations τ) (name : String) (holds : τ) :
    (t.add name holds).2.size = t.size + 1 := by
  simp [add, size]

theorem add (ht : t.Sound) (name : String) (holds : τ) : (t.add name holds).2.Sound where
  classes := ht.classes.add
  size_classes := by
    rw [size_add, ← ht.size_classes]
    exact Forest.Sound.size_add _

lemma size_mark (t : Locations τ) (root : Nat) : (t.mark root).size = t.size := by
  simp [mark, size]

theorem mark (ht : t.Sound) (root : Nat) : (t.mark root).Sound :=
  ⟨ht.classes, ht.size_classes.trans (size_mark t root).symm⟩

theorem shorten (ht : t.Sound) (a b : LocationId) :
    (t.shorten a b).Sound ∧ ∀ i, (t.shorten a b).classes.root i = t.classes.root i := by
  have ha := ht.classes.halve a.index
  refine ⟨⟨ha.halve b.index, ?_⟩, fun i => ?_⟩
  · exact (ha.size_halve _).trans ((ht.classes.size_halve _).trans ht.size_classes)
  · exact (ha.root_halve _ i).trans (ht.classes.root_halve _ i)

lemma size_join (t : Locations τ) (survivor child : Nat) :
    (t.join survivor child).size = t.size := by
  simp [join, size]

theorem join (ht : t.Sound) {survivor child : Nat} (hs : survivor ∈ t.classes.roots)
    (hc : child ∈ t.classes.roots) (hne : child ≠ survivor) : (t.join survivor child).Sound :=
  ⟨ht.classes.hang hc hs hne,
    (Forest.size_hang _ _ _).trans (ht.size_classes.trans (size_join t _ _).symm)⟩

/-- A merge looks both locations up, and joins their classes unless they are one.  The roots are
those of the table before. -/
lemma merge_eq (ht : t.Sound) (a b : LocationId) :
    t.merge a b =
      if t.root a = t.root b then (none, t.shorten a b)
      else if t.rankOf (t.root b) ≤ t.rankOf (t.root a) then
        (some (t.root a, t.root b), (t.shorten a b).join (t.root a) (t.root b))
      else (some (t.root b, t.root a), (t.shorten a b).join (t.root b) (t.root a)) := by
  have hb : (t.classes.halve a.index).root b.index = t.root b := ht.classes.root_halve _ _
  rw [← hb]
  rfl

lemma root_shorten_mem_roots (ht : t.Sound) {a : LocationId} (h : a.index < t.size)
    (b c : LocationId) : t.root a ∈ (t.shorten b c).classes.roots := by
  obtain ⟨hshort, hroot⟩ := ht.shorten b c
  have hmem := hshort.root_mem_roots (a := a) h
  rwa [show (t.shorten b c).root a = t.root a from hroot a.index] at hmem

/-- A merge joins the roots of the two locations, either of which may survive. -/
lemma merge_roots (ht : t.Sound) (a b : LocationId) :
    (t.root a = t.root b ∧ t.merge a b = (none, t.shorten a b)) ∨
      t.root a ≠ t.root b ∧ ∃ survivor child,
        t.merge a b = (some (survivor, child), (t.shorten a b).join survivor child) ∧
        (survivor = t.root a ∧ child = t.root b ∨ survivor = t.root b ∧ child = t.root a) := by
  rw [ht.merge_eq]
  by_cases heq : t.root a = t.root b
  · exact Or.inl ⟨heq, if_pos heq⟩
  · refine Or.inr ⟨heq, ?_⟩
    rw [if_neg heq]
    split
    · exact ⟨_, _, rfl, Or.inl ⟨rfl, rfl⟩⟩
    · exact ⟨_, _, rfl, Or.inr ⟨rfl, rfl⟩⟩

theorem merge (ht : t.Sound) {a b : LocationId} (ha : a.index < t.size) (hb : b.index < t.size) :
    t.merge a b = (none, t.shorten a b) ∨
      ∃ survivor child,
        t.merge a b = (some (survivor, child), (t.shorten a b).join survivor child) ∧
        survivor ∈ (t.shorten a b).classes.roots ∧ child ∈ (t.shorten a b).classes.roots ∧
        child ≠ survivor := by
  have hra := ht.root_shorten_mem_roots ha a b
  have hrb := ht.root_shorten_mem_roots hb a b
  rcases ht.merge_roots a b with ⟨-, hmerge⟩ | ⟨hne, survivor, child, hmerge, hroots⟩
  · exact Or.inl hmerge
  · refine Or.inr ⟨survivor, child, hmerge, ?_⟩
    rcases hroots with ⟨rfl, rfl⟩ | ⟨rfl, rfl⟩
    · exact ⟨hra, hrb, hne.symm⟩
    · exact ⟨hrb, hra, hne⟩

end Sound

end Locations

namespace Graph

variable {g g' g'' : Graph τ} {P : Prop}

/-! ## Soundness -/

/-- What holds of a graph. -/
structure Sound (g : Graph τ) : Prop where
  locations : g.locations.Sound
  effects : g.effects.Sound g.locations.size
  stores : g.stores.Sound

theorem Sound.start : (Graph.start : Graph τ).Sound :=
  ⟨Locations.Sound.empty, Effects.Sound.start, Stores.Sound.empty⟩

lemma Sound.classOf_lt (hg : g.Sound) (a : LocationId) (h : a.index < g.locations.size) :
    g.classOf a < g.locations.size :=
  hg.locations.root_lt h

/-- Everything that a store expression names was made before it. -/
structure Layered (g : Graph τ) : Prop where
  operand_lt : ∀ i, ∀ s ∈ (g.stores.nodeAt i).operands, s.index < i
  location_lt : ∀ i a, (g.stores.nodeAt i).ownLocation? = some a → a.index < g.locations.size
  effect_lt : ∀ i e, (g.stores.nodeAt i).effect? = some e → e.index < g.effects.size

theorem Layered.start : (Graph.start : Graph τ).Layered where
  operand_lt i s hs := by
    rw [Stores.nodeAt_of_size_le (Nat.zero_le i)] at hs
    exact absurd hs List.not_mem_nil
  location_lt i a h := by
    rw [Stores.nodeAt_of_size_le (Nat.zero_le i)] at h
    exact absurd h (by simp [StoreNode.ownLocation?])
  effect_lt i e h := by
    rw [Stores.nodeAt_of_size_le (Nat.zero_le i)] at h
    exact absurd h (by simp [StoreNode.effect?])

/-! ## Growing -/

/-- What stays of a graph while it grows. -/
structure Extends (g g' : Graph τ) : Prop where
  locations : g.locations.classes.Coarsens g'.locations.classes
  effects : g.effects.classes.Coarsens g'.effects.classes
  stores : g.stores.classes.Coarsens g'.stores.classes
  effect_eq : ∀ i < g.effects.size, g'.effects.nodeAt i = g.effects.nodeAt i
  store_eq : ∀ i < g.stores.size, g'.stores.nodeAt i = g.stores.nodeAt i
  inclusion_eq : ∀ (n : Nat) inc, g.effects.inclusions[n]? = some inc →
    g'.effects.inclusions[n]? = some inc
  edge_eq : ∀ (n : Nat) edge, g.stores.edges[n]? = some edge →
    g'.stores.edges[n]? = some edge
  size_locations : g.locations.size ≤ g'.locations.size
  size_effects : g.effects.size ≤ g'.effects.size
  size_stores : g.stores.size ≤ g'.stores.size

lemma Extends.refl (hg : g.Sound) : g.Extends g :=
  ⟨.refl hg.locations.classes, .refl hg.effects.classes, .refl hg.stores.classes,
    fun _ _ => rfl, fun _ _ => rfl, fun _ _ h => h, fun _ _ h => h, le_rfl, le_rfl, le_rfl⟩

lemma Extends.trans (h : g.Extends g') (h' : g'.Extends g'') : g.Extends g'' where
  locations := h.locations.trans h'.locations
  effects := h.effects.trans h'.effects
  stores := h.stores.trans h'.stores
  effect_eq i hi := (h'.effect_eq i (hi.trans_le h.size_effects)).trans (h.effect_eq i hi)
  store_eq i hi := (h'.store_eq i (hi.trans_le h.size_stores)).trans (h.store_eq i hi)
  inclusion_eq n inc hn := h'.inclusion_eq n inc (h.inclusion_eq n inc hn)
  edge_eq n edge hn := h'.edge_eq n edge (h.edge_eq n edge hn)
  size_locations := h.size_locations.trans h'.size_locations
  size_effects := h.size_effects.trans h'.size_effects
  size_stores := h.size_stores.trans h'.size_stores

/-- The second graph has grown out of the first, and if the condition holds, only by expressions
about what exists. -/
structure Grows (P : Prop) (g g' : Graph τ) : Prop extends Extends g g' where
  sound : g'.Sound
  layered : P → g.Layered → g'.Layered

lemma Grows.refl (hg : g.Sound) : g.Grows P g := ⟨.refl hg, hg, fun _ h => h⟩

lemma Grows.trans (h : g.Grows P g') (h' : g'.Grows P g'') : g.Grows P g'' :=
  ⟨h.toExtends.trans h'.toExtends, h'.sound, fun hP hg => h'.layered hP (h.layered hP hg)⟩

namespace Sound

variable (hg : g.Sound)

include hg

/-- Growth of the locations only. -/
lemma grows_locations {locations : Locations τ} (hl : locations.Sound)
    (hsize : g.locations.size ≤ locations.size)
    (hc : g.locations.classes.Coarsens locations.classes) : g.Grows P { g with locations } where
  locations := hc
  effects := .refl hg.effects.classes
  stores := .refl hg.stores.classes
  effect_eq _ _ := rfl
  store_eq _ _ := rfl
  inclusion_eq _ _ h := h
  edge_eq _ _ h := h
  size_locations := hsize
  size_effects := le_rfl
  size_stores := le_rfl
  sound := ⟨hl, hg.effects.mono hsize, hg.stores⟩
  layered _ h := ⟨h.operand_lt, fun i a ha => (h.location_lt i a ha).trans_le hsize, h.effect_lt⟩

/-- Growth of the effects only. -/
lemma grows_effects {effects : Effects} (he : effects.Sound g.locations.size)
    (hsize : g.effects.size ≤ effects.size)
    (hc : g.effects.classes.Coarsens effects.classes)
    (hnode : ∀ i < g.effects.size, effects.nodeAt i = g.effects.nodeAt i)
    (hinc : ∀ (n : Nat) inc, g.effects.inclusions[n]? = some inc →
      effects.inclusions[n]? = some inc) :
    g.Grows P { g with effects } where
  locations := .refl hg.locations.classes
  effects := hc
  stores := .refl hg.stores.classes
  effect_eq := hnode
  store_eq _ _ := rfl
  inclusion_eq := hinc
  edge_eq _ _ h := h
  size_locations := le_rfl
  size_effects := hsize
  size_stores := le_rfl
  sound := ⟨hg.locations, he, hg.stores⟩
  layered _ h := ⟨h.operand_lt, h.location_lt, fun i e he => (h.effect_lt i e he).trans_le hsize⟩

/-- Growth of the stores only. -/
lemma grows_stores {stores : Stores τ} (hs : stores.Sound) (hsize : g.stores.size ≤ stores.size)
    (hc : g.stores.classes.Coarsens stores.classes)
    (hnode : ∀ i < g.stores.size, stores.nodeAt i = g.stores.nodeAt i)
    (hedge : ∀ (n : Nat) edge, g.stores.edges[n]? = some edge → stores.edges[n]? = some edge)
    (hlayered : P → g.Layered → ({ g with stores } : Graph τ).Layered) :
    g.Grows P { g with stores } where
  locations := .refl hg.locations.classes
  effects := .refl hg.effects.classes
  stores := hc
  effect_eq _ _ := rfl
  store_eq := hnode
  inclusion_eq _ _ h := h
  edge_eq := hedge
  size_locations := le_rfl
  size_effects := le_rfl
  size_stores := hsize
  sound := ⟨hg.locations, hg.effects, hs⟩
  layered := hlayered

lemma grows_addLocation (name : String) (holds : τ) :
    g.Grows P { g with locations := (g.locations.add name holds).2 } :=
  hg.grows_locations (hg.locations.add name holds)
    ((Nat.le_succ _).trans_eq (Locations.Sound.size_add _ name holds).symm)
    (.add hg.locations.classes)

lemma grows_markLocation (root : Nat) :
    g.Grows P { g with locations := g.locations.mark root } :=
  hg.grows_locations (hg.locations.mark root) (Locations.Sound.size_mark _ _).ge
    (.refl hg.locations.classes)

lemma grows_shorten (a b : LocationId) :
    g.Grows P { g with locations := g.locations.shorten a b } := by
  obtain ⟨hsound, hroot⟩ := hg.locations.shorten a b
  refine hg.grows_locations hsound le_rfl (.of_root_eq hg.locations.classes ?_ hroot)
  rw [hg.locations.size_classes, hsound.size_classes]
  rfl

lemma grows_joinLocations {survivor child : Nat} (hs : survivor ∈ g.locations.classes.roots)
    (hc : child ∈ g.locations.classes.roots) (hne : child ≠ survivor) :
    g.Grows P { g with locations := g.locations.join survivor child } :=
  hg.grows_locations (hg.locations.join hs hc hne) (Locations.Sound.size_join _ _ _).ge
    (.hang hg.locations.classes hc hs hne)

lemma grows_addEffect {node : EffectNode}
    (hatom : ∀ kind a, node = .atom kind a → a.index < g.locations.size)
    (hoperand : ∀ e ∈ node.operands, e.index < g.effects.size) :
    g.Grows P { g with effects := (g.effects.add node).2 } := by
  refine hg.grows_effects (hg.effects.add hatom hoperand) ?_ (.add hg.effects.classes) ?_
    fun _ _ h => h
  · exact (Nat.le_succ _).trans_eq (Effects.Sound.size_add _ _).symm
  · intro i hi
    rw [Effects.Sound.nodeAt_add, if_neg hi.ne]

/-- Marks and made-up names. -/
lemma grows_labels {effects : Effects} (hnodes : effects.nodes = g.effects.nodes)
    (hclasses : effects.classes = g.effects.classes)
    (hinclusions : effects.inclusions = g.effects.inclusions) :
    g.Grows P { g with effects } := by
  refine hg.grows_effects (hg.effects.of_eq hnodes hclasses hinclusions) ?_ ?_ ?_ ?_
  · rw [Effects.size, Effects.size, hnodes]
  · rw [hclasses]
    exact .refl hg.effects.classes
  · intro i _
    rw [Effects.nodeAt, Effects.nodeAt, hnodes]
  · intro n inc h
    rwa [hinclusions]

lemma grows_joinEffects {survivor child : Nat} (hs : survivor ∈ g.effects.classes.roots)
    (hc : child ∈ g.effects.classes.roots) (hne : child ≠ survivor)
    (hsv : (g.effects.nodeAt survivor).isVariable) (hcv : (g.effects.nodeAt child).isVariable) :
    g.Grows P { g with effects := g.effects.join survivor child } :=
  hg.grows_effects (hg.effects.join hs hc hne hsv hcv) le_rfl (.hang hg.effects.classes hc hs hne)
    (fun _ _ => rfl) fun _ _ h => h

lemma grows_addInclusion {inc : Inclusion} (hsource : inc.source.index < g.effects.size)
    (htarget : inc.target.index < g.effects.size)
    (hinter : (g.effects.node inc.target).isInter = false) :
    g.Grows P { g with effects := g.effects.addInclusion inc } := by
  refine hg.grows_effects (hg.effects.addInclusion hsource htarget hinter) le_rfl
    (.refl hg.effects.classes) (fun _ _ => rfl) fun n i h => ?_
  have hlt : n < g.effects.inclusions.size := (Array.getElem?_eq_some_iff.1 h).1
  rw [Effects.addInclusion, Array.getElem?_push, if_neg hlt.ne, h]

lemma grows_addStore {node : StoreNode τ}
    (hnode : P → (∀ s ∈ node.operands, s.index < g.stores.size) ∧
      (∀ a, node.ownLocation? = some a → a.index < g.locations.size) ∧
      ∀ e, node.effect? = some e → e.index < g.effects.size) :
    g.Grows P { g with stores := (g.stores.add node).2 } := by
  refine hg.grows_stores (hg.stores.add node) ?_ (.add hg.stores.classes) ?_ (fun _ _ h => h) ?_
  · exact (Nat.le_succ _).trans_eq (Stores.size_add _ _).symm
  · intro i hi
    rw [Stores.nodeAt_add, if_neg hi.ne]
  · intro hP h
    obtain ⟨hoperand, hlocation, heffect⟩ := hnode hP
    refine ⟨fun i s hs => ?_, fun i a ha => ?_, fun i e he => ?_⟩
    · rw [Stores.nodeAt_add] at hs
      split at hs
      · rename_i hi
        exact hi ▸ hoperand s hs
      · exact h.operand_lt i s hs
    · rw [Stores.nodeAt_add] at ha
      split at ha
      · exact hlocation a ha
      · exact h.location_lt i a ha
    · rw [Stores.nodeAt_add] at he
      split at he
      · exact heffect e he
      · exact h.effect_lt i e he

lemma grows_addEdge {edge : FlowEdge} (hleft : edge.left.index < g.stores.size)
    (hright : edge.right.index < g.stores.size) :
    g.Grows P { g with stores := g.stores.addEdge edge } := by
  refine hg.grows_stores (hg.stores.addEdge hleft hright) le_rfl (.refl hg.stores.classes)
    (fun _ _ => rfl) (fun n e h => ?_) fun _ h => ⟨h.operand_lt, h.location_lt, h.effect_lt⟩
  have hlt : n < g.stores.edges.size := (Array.getElem?_eq_some_iff.1 h).1
  rw [Stores.addEdge, Array.getElem?_push, if_neg hlt.ne, h]

lemma grows_joinStores {survivor child : Nat} (hs : survivor ∈ g.stores.classes.roots)
    (hc : child ∈ g.stores.classes.roots) (hne : child ≠ survivor)
    (hsv : (g.stores.nodeAt survivor).isVariable) (hcv : (g.stores.nodeAt child).isVariable) :
    g.Grows P { g with stores := g.stores.join survivor child } :=
  hg.grows_stores (hg.stores.join hs hc hne hsv hcv) le_rfl (.hang hg.stores.classes hc hs hne)
    (fun _ _ => rfl) (fun _ _ h => h) fun _ h => ⟨h.operand_lt, h.location_lt, h.effect_lt⟩

end Sound

/-! ## Validation -/

/-- Everything that store expressions name exists. -/
structure Named (g : Graph τ) : Prop where
  operand_lt : ∀ i, ∀ s ∈ (g.stores.nodeAt i).operands, s.index < g.stores.size
  location_lt : ∀ i a, (g.stores.nodeAt i).ownLocation? = some a → a.index < g.locations.size
  effect_lt : ∀ i e, (g.stores.nodeAt i).effect? = some e → e.index < g.effects.size

section Discarding

variable {t : Stores τ} {x : StoreId} {l : Locations τ} {a : LocationId} {u : Effects}
  {e : EffectId}

lemma discard_find_store :
    discard (t.find x) = if x.index < t.size then .ok () else .error (.unknownStore x) := by
  unfold Stores.find
  split <;> rfl

lemma discard_find_location :
    discard (l.find a) = if a.index < l.size then .ok () else .error (.unknownLocation a) := by
  unfold Locations.find
  split <;> rfl

lemma discard_find_effect :
    discard (u.find e) = if e.index < u.size then .ok () else .error (.unknownEffect e) := by
  unfold Effects.find
  split <;> rfl

end Discarding

lemma validateOperands_eq_ok_iff {node : StoreNode τ} :
    g.validateOperands node = .ok () ↔
      (∀ s ∈ node.operands, s.index < g.stores.size) ∧
        ∀ a, node.ownLocation? = some a → a.index < g.locations.size := by
  have hstores : (node.operands.forM fun s => discard (g.stores.find s)) = .ok () ↔
      ∀ s ∈ node.operands, s.index < g.stores.size := by
    rw [forM_eq_ok_iff]
    refine forall₂_congr fun s _ => ?_
    rw [discard_find_store]
    split <;> simp_all
  rw [← hstores]
  unfold validateOperands
  cases node.operands.forM fun s => discard (g.stores.find s) with
  | error fault => simp [bind, Except.bind]
  | ok _ =>
    simp only [bind, Except.bind, true_and]
    cases node.ownLocation? with
    | none => simp [pure, Except.pure]
    | some a =>
      simp only [discard_find_location, Option.some.injEq, forall_eq']
      split <;> simp_all

lemma validateEffect_eq_ok_iff {node : StoreNode τ} :
    g.validateEffect node = .ok () ↔ ∀ e, node.effect? = some e → e.index < g.effects.size := by
  unfold validateEffect
  cases node.effect? with
  | none => simp [pure, Except.pure]
  | some e =>
    simp only [discard_find_effect, Option.some.injEq, forall_eq']
    split <;> simp_all

/-- A fact about all expressions of a table. -/
lemma forall_mem_nodes_iff {t : Stores τ} {p : StoreNode τ → Prop} (hvar : p (.var "")) :
    (∀ node ∈ t.nodes.toList, p node) ↔ ∀ i, p (t.nodeAt i) := by
  constructor
  · intro h i
    unfold Stores.nodeAt
    cases hget : t.nodes[i]? with
    | none => exact hvar
    | some node => exact h node (Array.mem_toList_iff.2 (Array.mem_of_getElem? hget))
  · intro h node hnode
    obtain ⟨i, hget⟩ := Array.mem_iff_getElem?.1 (Array.mem_toList_iff.1 hnode)
    have hi := h i
    rwa [Stores.nodeAt, hget] at hi

theorem validate_eq_ok_iff : g.validate = .ok () ↔ g.Named := by
  have hsplit : g.validate = .ok () ↔
      (∀ node ∈ g.stores.nodes.toList, g.validateOperands node = .ok ()) ∧
        ∀ node ∈ g.stores.nodes.toList, g.validateEffect node = .ok () := by
    rw [← forM_eq_ok_iff, ← forM_eq_ok_iff]
    unfold validate
    cases g.stores.nodes.toList.forM g.validateOperands <;> simp [bind, Except.bind]
  simp only [hsplit, validateOperands_eq_ok_iff, validateEffect_eq_ok_iff]
  rw [forall_mem_nodes_iff (by simp [StoreNode.operands, StoreNode.ownLocation?]),
    forall_mem_nodes_iff (by simp [StoreNode.effect?])]
  constructor
  · intro h
    exact ⟨fun i => (h.1 i).1, fun i => (h.1 i).2, h.2⟩
  · intro h
    exact ⟨fun i => ⟨h.operand_lt i, h.location_lt i⟩, h.effect_lt⟩

/-- What validation says is given by the expressions of stores, and by how much there is. -/
lemma validate_congr (hnodes : g.stores.nodes = g'.stores.nodes)
    (hlocations : g.locations.size = g'.locations.size)
    (heffects : g.effects.size = g'.effects.size) : g.validate = g'.validate := by
  have hstores : g.stores.size = g'.stores.size := congrArg Array.size hnodes
  have hoperands : g.validateOperands = g'.validateOperands := by
    funext node
    simp only [validateOperands, discard_find_store, discard_find_location, hstores, hlocations]
  have heffect : g.validateEffect = g'.validateEffect := by
    funext node
    simp only [validateEffect, discard_find_effect, heffects]
  rw [validate, validate, hnodes, hoperands, heffect]

lemma Layered.named (h : g.Layered) : g.Named := by
  refine ⟨fun i s hs => (h.operand_lt i s hs).trans ?_, h.location_lt, h.effect_lt⟩
  refine Stores.lt_size_of_not_isVariable ?_
  cases hnode : g.stores.nodeAt i <;> simp_all [StoreNode.operands, StoreNode.isVariable]

theorem Layered.validate_eq_ok (h : g.Layered) : g.validate = .ok () :=
  validate_eq_ok_iff.2 h.named

/-! ## The solution -/

lemma Sound.queue_solveMembers (hg : g.Sound) : g.solveMembers.queue = [] :=
  hg.effects.queue_members hg.classOf_lt

lemma Sound.size_members (hg : g.Sound) : g.solve.members.size = g.effects.size :=
  hg.effects.size_members hg.classOf_lt

/-- What is accessed is the root of a class of locations. -/
lemma Sound.mem_roots_of_mem_members (hg : g.Sound) {i : Nat} {x : Access}
    (hx : x ∈ g.solve.membersOf i) : x.location ∈ g.locations.roots := by
  refine hg.effects.members_subset hg.classOf_lt
    (M := fun _ => {x | x.location ∈ g.locations.roots}) ⟨?_, ?_, ?_, ?_⟩ i hx
  · intro j kind a hnode k _
    exact hg.locations.root_mem_roots (hg.effects.atom_lt j kind a hnode)
  · intro j a b _
    exact ⟨subset_rfl, subset_rfl⟩
  · intro j a b _ l k₁ k₂ k hl _ _
    exact hl
  · intro inc _ _
    exact subset_rfl

lemma Named.classOf_lt (h : g.Named) (hg : g.Sound) (i : Nat) (a : LocationId)
    (ha : (g.stores.nodeAt i).ownLocation? = some a) : g.classOf a < g.locations.size :=
  hg.classOf_lt a (h.location_lt i a ha)

/-- Does the effect mention the location, according to the solution? -/
def mentioned (g : Graph τ) (e : EffectId) (location : Nat) : Bool :=
  g.solve.mentions (g.effects.root e) location

theorem Named.binds_iff (h : g.Named) (hg : g.Sound) {i a : Nat} (hi : i ∈ g.stores.classes.roots) :
    g.solve.binds i a = true ↔
      (∃ x, (g.stores.nodeAt i).ownLocation? = some x ∧ g.classOf x = a) ∨
        a ∈ g.stores.inherits g.mentioned (fun j => {b | g.solve.binds j b = true}) i := by
  simp only [Solution.binds, decide_eq_true_eq]
  exact hg.stores.mem_domain_iff (h.classOf_lt hg) hi

/-- What binds something is a root. -/
lemma Named.mem_roots_of_binds (h : g.Named) (hg : g.Sound) {i a : Nat}
    (hb : g.solve.binds i a = true) : i ∈ g.stores.classes.roots := by
  by_contra hi
  exact hg.stores.domainAt_of_not_root (h.classOf_lt hg) hi (of_decide_eq_true hb)

/-- What is bound is an existing location. -/
lemma Named.lt_of_binds (h : g.Named) (hg : g.Sound) {i a : Nat}
    (hb : g.solve.binds i a = true) : a < g.locations.size :=
  hg.stores.lt_of_mem_domain (h.classOf_lt hg) (of_decide_eq_true hb)

/-- What is bound is the root of a class of locations. -/
lemma Named.root_of_binds (h : g.Named) (hg : g.Sound) {i a : Nat}
    (hb : g.solve.binds i a = true) : g.locations.classes.root a = a := by
  obtain ⟨j, x, -, rfl⟩ :=
    hg.stores.exists_own_of_mem_domain (h.classOf_lt hg) (of_decide_eq_true hb)
  exact hg.locations.classes.root_root x.index

lemma Named.mem_roots_of_mem_domain (h : g.Named) (hg : g.Sound) {i a : Nat}
    (ha : a ∈ g.solve.domainOf i) : a ∈ g.locations.roots := by
  have hb : g.solve.binds i a = true := decide_eq_true ha
  have hlt : a < g.locations.classes.size := hg.locations.size_classes ▸ h.lt_of_binds hg hb
  exact (Forest.Sound.mem_roots a).2 ⟨hlt, h.root_of_binds hg hb⟩

lemma Named.size_domains (h : g.Named) (hg : g.Sound) : g.solve.domains.size = g.stores.size :=
  hg.stores.size_domains (h.classOf_lt hg)

/-! ## Changes that the solution does not show -/

/-- The two graphs differ in labels, in paths, and in locations that nothing mentions. -/
structure Tweaks (g g' : Graph τ) : Prop where
  stores_eq : g'.stores = g.stores
  nodes_eq : g'.effects.nodes = g.effects.nodes
  classes_eq : g'.effects.classes = g.effects.classes
  inclusions_eq : g'.effects.inclusions = g.effects.inclusions
  classOf_eq : g'.classOf = g.classOf
  size_le : g.locations.size ≤ g'.locations.size

namespace Tweaks

lemma refl (g : Graph τ) : g.Tweaks g := ⟨rfl, rfl, rfl, rfl, rfl, le_rfl⟩

lemma trans {g'' : Graph τ} (h : g.Tweaks g') (h' : g'.Tweaks g'') : g.Tweaks g'' where
  stores_eq := h'.stores_eq.trans h.stores_eq
  nodes_eq := h'.nodes_eq.trans h.nodes_eq
  classes_eq := h'.classes_eq.trans h.classes_eq
  inclusions_eq := h'.inclusions_eq.trans h.inclusions_eq
  classOf_eq := h'.classOf_eq.trans h.classOf_eq
  size_le := h.size_le.trans h'.size_le

lemma named (h : g.Tweaks g') (hn : g.Named) : g'.Named where
  operand_lt := h.stores_eq ▸ hn.operand_lt
  location_lt i a ha := (hn.location_lt i a (h.stores_eq ▸ ha)).trans_le h.size_le
  effect_lt i e he := by
    have hlt := hn.effect_lt i e (h.stores_eq ▸ he)
    rwa [Effects.size, ← h.nodes_eq] at hlt

lemma effectRoot_eq (h : g.Tweaks g') (e : EffectId) : g'.effects.root e = g.effects.root e := by
  rw [Effects.root, Effects.root, h.classes_eq]

lemma closedTable_eq (h : g.Tweaks g') : g'.effects.closedTable = g.effects.closedTable := by
  have hclosed : g'.effects.closedNode = g.effects.closedNode := by
    funext closed node
    cases node <;> simp [Effects.closedNode, h.effectRoot_eq]
  rw [Effects.closedTable, Effects.closedTable, hclosed, h.nodes_eq]

lemma edges_eq (h : g.Tweaks g') : g'.effects.edges = g.effects.edges := by
  rw [Effects.edges, Effects.edges, funext h.effectRoot_eq, h.inclusions_eq]

lemma solveMembers_eq (h : g.Tweaks g') (hg : g.Sound) : g'.solveMembers = g.solveMembers := by
  have hroot : g'.effects.root = g.effects.root := funext h.effectRoot_eq
  have hnode : g'.effects.nodeAt = g.effects.nodeAt := by
    funext i
    rw [Effects.nodeAt, Effects.nodeAt, h.nodes_eq]
  have hsize : g'.effects.size = g.effects.size := by rw [Effects.size, Effects.size, h.nodes_eq]
  have hgrowing : g'.effects.growingEdges g'.effects.closedTable =
      g.effects.growingEdges g.effects.closedTable := by
    rw [h.closedTable_eq, Effects.growingEdges, Effects.growingEdges, h.edges_eq]
  -- The equations are the same. Only the bound on how often members can grow may have become
  -- larger, and the run ended below the smaller one.
  refine Equations.solve_of_height_le ?_ ?_ ?_ ?_ ?_ hg.queue_solveMembers
  · have hseed : g'.effects.seed g'.classOf = g.effects.seed g.classOf := by
      funext i
      unfold Effects.seed
      rw [hnode, h.classes_eq, h.classOf_eq]
    simp [Effects.memberEquations, hsize, hseed]
  · simp [Effects.memberEquations, h.classes_eq]
  · funext values i
    have hoperand : g'.effects.operandMembers values (g'.effects.nodeAt i) =
        g.effects.operandMembers values (g.effects.nodeAt i) := by
      rw [hnode]
      cases g.effects.nodeAt i <;> simp [Effects.operandMembers, hroot]
    simp only [Effects.memberEquations, hoperand, hgrowing]
  · funext i
    have husers : g'.effects.users i = g.effects.users i := by
      unfold Effects.users
      rw [h.classes_eq, hnode, hroot]
    simp only [Effects.memberEquations, husers, hgrowing]
  · simp only [Effects.memberEquations, hsize]
    exact Nat.mul_le_mul_right _ h.size_le

lemma solveDomains_eq (h : g.Tweaks g') (hg : g.Sound) (hn : g.Named) (members : Array Members) :
    g'.solveDomains members = g.solveDomains members := by
  have hroot : g'.effects.root = g.effects.root := funext h.effectRoot_eq
  unfold solveDomains
  rw [h.stores_eq, h.classOf_eq, hroot]
  exact Equations.solve_of_height_le rfl rfl rfl rfl h.size_le
    (hg.stores.saturating _ (hn.classOf_lt hg)).queue_solve

theorem solve_eq (h : g.Tweaks g') (hg : g.Sound) (hn : g.Named) : g'.solve = g.solve := by
  have hviolations : g'.effects.violations = g.effects.violations := by
    funext values
    unfold Effects.violations
    rw [h.closedTable_eq, h.edges_eq]
  simp only [solve, h.solveMembers_eq hg, h.solveDomains_eq hg hn, hviolations]

end Tweaks

end Graph

end HeapQual
