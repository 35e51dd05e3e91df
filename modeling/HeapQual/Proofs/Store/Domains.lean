import HeapQual.Proofs.Forest
import HeapQual.Proofs.Saturation
import HeapQual.Store.Domains

/-!
# Domains of stores

What holds of every table of stores that a session can hold (`Stores.Sound`), and what the solver
finds about it: the domain of a store is exactly its own location together with what it takes over
from other stores (`Stores.Sound.mem_domain_iff`).  Entries that were merged into others bind
nothing (`Stores.Sound.domainAt_of_not_root`).

Unlike an effect, an operator on stores may be entered before the stores that it names, so nothing
is said here about the order of entries.
-/

namespace HeapQual

namespace Stores

variable {τ : Type} {t : Stores τ}

/-- What holds of a table of stores. -/
structure Sound (t : Stores τ) : Prop where
  classes : t.classes.Sound
  size_classes : t.classes.size = t.size
  merged : t.classes.MergesOnly fun i => (t.nodeAt i).isVariable
  edge_lt : ∀ edge ∈ t.edges, edge.left.index < t.size ∧ edge.right.index < t.size

lemma nodeAt_of_size_le {i : Nat} (h : t.size ≤ i) : t.nodeAt i = .var "" := by
  simp [nodeAt, Array.getElem?_eq_none h]

lemma lt_size_of_not_isVariable {i : Nat} (h : (t.nodeAt i).isVariable = false) : i < t.size := by
  by_contra hi
  rw [nodeAt_of_size_le (not_lt.1 hi)] at h
  exact absurd h (by simp [StoreNode.isVariable])

lemma nodeAt_add (t : Stores τ) (node : StoreNode τ) (i : Nat) :
    (t.add node).2.nodeAt i = if i = t.size then node else t.nodeAt i := by
  unfold nodeAt add size
  simp only [Array.getElem?_push]
  split <;> simp

lemma size_add (t : Stores τ) (node : StoreNode τ) : (t.add node).2.size = t.size + 1 := by
  simp [add, size]

lemma mem_numberedEdges {edge : FlowEdge} {number : Nat} :
    (edge, number) ∈ t.numberedEdges ↔ t.edges[number]? = some edge := by
  rw [numberedEdges, List.mem_zipIdx_iff_getElem?, Array.getElem?_toList]

lemma mem_edgesInto {edge : FlowEdge} {number root : Nat} :
    (edge, number) ∈ t.edgesInto root ↔
      t.edges[number]? = some edge ∧ t.root edge.right = root := by
  simp [edgesInto, mem_numberedEdges]

lemma mem_edgesFrom {edge : FlowEdge} {number root : Nat} :
    (edge, number) ∈ t.edgesFrom root ↔
      t.edges[number]? = some edge ∧ t.root edge.left = root := by
  simp [edgesFrom, mem_numberedEdges]

namespace Sound

/-- What is no variable is a root. -/
lemma root_eq (ht : t.Sound) {i : Nat} (h : (t.nodeAt i).isVariable = false) :
    t.classes.root i = i := by
  by_contra hne
  rw [(ht.merged i hne).1] at h
  exact absurd h (by simp)

lemma root_lt (ht : t.Sound) {s : StoreId} (h : s.index < t.size) : t.root s < t.size := by
  have hlt := ht.classes.root_lt (i := s.index) (ht.size_classes ▸ h)
  exact ht.size_classes ▸ hlt

lemma mem_roots (ht : t.Sound) {i : Nat} :
    i ∈ t.classes.roots ↔ i < t.size ∧ t.classes.root i = i := by
  rw [Forest.Sound.mem_roots, ht.size_classes]

lemma root_mem_roots (ht : t.Sound) {s : StoreId} (h : s.index < t.size) :
    t.root s ∈ t.classes.roots :=
  ht.classes.root_mem_roots (ht.size_classes ▸ h)

/-- The expression of a class is a variable exactly if its stores were entered as variables. -/
lemma isVariable_node (ht : t.Sound) (s : StoreId) :
    (t.node s).isVariable = (t.nodeAt s.index).isVariable := by
  unfold node root
  by_cases h : t.classes.root s.index = s.index
  · rw [h]
  · rw [(ht.merged _ h).1, (ht.merged _ h).2]

/-! ## Growing -/

theorem empty : (Stores.empty : Stores τ).Sound where
  classes := Forest.Sound.empty
  size_classes := rfl
  merged i h := absurd (Forest.Sound.root_of_size_le (Nat.zero_le i)) h
  edge_lt edge h := absurd h (Array.not_mem_empty edge)

theorem add (ht : t.Sound) (node : StoreNode τ) : (t.add node).2.Sound := by
  refine ⟨ht.classes.add, ?_, ht.merged.add ht.classes fun i hi hvar => ?_, fun edge h => ?_⟩
  · rw [size_add, ← ht.size_classes]
    exact Forest.Sound.size_add _
  · rw [ht.size_classes] at hi
    rwa [nodeAt_add, if_neg hi.ne]
  · rw [size_add]
    exact ⟨(ht.edge_lt edge h).1.trans (Nat.lt_succ_self _),
      (ht.edge_lt edge h).2.trans (Nat.lt_succ_self _)⟩

lemma root_join (ht : t.Sound) {survivor child : Nat} (hs : survivor ∈ t.classes.roots)
    (hc : child ∈ t.classes.roots) (hne : child ≠ survivor) (s : StoreId) :
    (t.join survivor child).root s = if t.root s = child then survivor else t.root s :=
  ht.classes.root_hang hc hs hne s.index

theorem join (ht : t.Sound) {survivor child : Nat} (hs : survivor ∈ t.classes.roots)
    (hc : child ∈ t.classes.roots) (hne : child ≠ survivor)
    (hsv : (t.nodeAt survivor).isVariable) (hcv : (t.nodeAt child).isVariable) :
    (t.join survivor child).Sound :=
  ⟨ht.classes.hang hc hs hne, (Forest.size_hang _ _ _).trans ht.size_classes,
    ht.merged.hang ht.classes hc hs hne hcv hsv, ht.edge_lt⟩

theorem addEdge (ht : t.Sound) {edge : FlowEdge} (hleft : edge.left.index < t.size)
    (hright : edge.right.index < t.size) : (t.addEdge edge).Sound := by
  refine ⟨ht.classes, ht.size_classes, ht.merged, fun e h => ?_⟩
  rcases Array.mem_push.1 h with h | rfl
  · exact ht.edge_lt e h
  · exact ⟨hleft, hright⟩

end Sound

/-! ## The equations for domains -/

/-- What the store at a position takes over from the domains of other stores. -/
def inherits (t : Stores τ) (mentions : EffectId → Nat → Bool) (D : Nat → Set Nat) (i : Nat) :
    Set Nat :=
  match t.nodeAt i with
  | .var _ => {a | ∃ edge ∈ t.edges, t.root edge.right = i ∧ a ∈ D (t.root edge.left)}
  | .restrict base e => {a | a ∈ D (t.root base) ∧ mentions e a = true}
  | .allocate base _ _ => D (t.root base)
  | .update base _ _ _ _ _ => D (t.root base)
  | .overlay inside outside e =>
    {a | a ∈ D (t.root inside) ∧ mentions e a = true ∨
      a ∈ D (t.root outside) ∧ mentions e a = false}

variable {mentions : EffectId → Nat → Bool} {classOf : LocationId → Nat} {locations : Nat}

lemma inherits_mono {D E : Nat → Set Nat} (h : ∀ i, D i ⊆ E i) (i : Nat) :
    t.inherits mentions D i ⊆ t.inherits mentions E i := by
  unfold inherits
  cases t.nodeAt i with
  | var name =>
    rintro a ⟨edge, hedge, hright, ha⟩
    exact ⟨edge, hedge, hright, h _ ha⟩
  | restrict base e => exact fun a ha => ⟨h _ ha.1, ha.2⟩
  | allocate base a fresh => exact h _
  | update base a type strong position message => exact h _
  | overlay inside outside e =>
    rintro a (ha | ha)
    · exact Or.inl ⟨h _ ha.1, ha.2⟩
    · exact Or.inr ⟨h _ ha.1, ha.2⟩

lemma mem_inherited {values : Array Domain} {i a : Nat} :
    a ∈ t.inherited mentions values i ↔ a ∈ t.inherits mentions (Equations.family values) i := by
  unfold inherits inherited
  cases t.nodeAt i with
  | var name =>
    simp only [List.mem_flatMap, Prod.exists, mem_edgesInto]
    constructor
    · rintro ⟨edge, n, ⟨hget, hright⟩, ha⟩
      exact ⟨edge, Array.mem_of_getElem? hget, hright, ha⟩
    · rintro ⟨edge, hedge, hright, ha⟩
      obtain ⟨n, hget⟩ := Array.mem_iff_getElem?.1 hedge
      exact ⟨edge, n, ⟨hget, hright⟩, ha⟩
  | restrict base e => simp [Equations.family, domainAt]
  | allocate base b fresh => simp [Equations.family, domainAt]
  | update base b type strong position message => simp [Equations.family, domainAt]
  | overlay inside outside e => simp [Equations.family, domainAt]

/-- A store takes over from its operands and, if it is a variable, along the edges into it. -/
lemma inherits_congr {D E : Nat → Set Nat} {i : Nat}
    (hoperand : ∀ s ∈ (t.nodeAt i).operands, D (t.root s) = E (t.root s))
    (hedge : (t.nodeAt i).isVariable → ∀ edge ∈ t.edges, t.root edge.right = i →
      D (t.root edge.left) = E (t.root edge.left)) :
    t.inherits mentions D i = t.inherits mentions E i := by
  unfold inherits
  cases hnode : t.nodeAt i with
  | var name =>
    rw [hnode] at hedge
    ext a
    constructor
    · rintro ⟨edge, he, hright, ha⟩
      exact ⟨edge, he, hright, hedge rfl edge he hright ▸ ha⟩
    · rintro ⟨edge, he, hright, ha⟩
      exact ⟨edge, he, hright, (hedge rfl edge he hright).symm ▸ ha⟩
  | restrict base e => simp_all [StoreNode.operands]
  | allocate base a fresh => simp_all [StoreNode.operands]
  | update base a type strong position message => simp_all [StoreNode.operands]
  | overlay inside outside e => simp_all [StoreNode.operands]

lemma mem_children {i j : Nat} :
    j ∈ t.children i ↔ j ∈ t.classes.roots ∧ ∃ s ∈ (t.nodeAt j).operands, t.root s = i := by
  simp only [children, operandRoots, List.mem_filter, List.mem_map, decide_eq_true_eq]

lemma mem_dependents {i j : Nat} :
    j ∈ t.dependents i ↔
      j ∈ t.classes.roots ∧ (∃ s ∈ (t.nodeAt j).operands, t.root s = i) ∨
        (t.nodeAt j).isVariable = true ∧
          ∃ edge ∈ t.edges, t.root edge.left = i ∧ t.root edge.right = j := by
  simp only [dependents, List.mem_append, mem_children, List.mem_filter, List.mem_map,
    Prod.exists, mem_edgesFrom]
  refine or_congr_right ?_
  constructor
  · rintro ⟨⟨edge, n, ⟨hget, hleft⟩, hright⟩, hvar⟩
    exact ⟨hvar, edge, Array.mem_of_getElem? hget, hleft, hright⟩
  · rintro ⟨hvar, edge, hedge, hleft, hright⟩
    obtain ⟨n, hget⟩ := Array.mem_iff_getElem?.1 hedge
    exact ⟨⟨edge, n, ⟨hget, hleft⟩, hright⟩, hvar⟩

lemma family_ownDomain (t : Stores τ) (mentions : EffectId → Nat → Bool)
    (classOf : LocationId → Nat) (locations i : Nat) :
    Equations.family (t.domainEquations classOf mentions locations).start i =
      {a | ∃ x, (t.nodeAt i).ownLocation? = some x ∧ classOf x = a} := by
  have hown : Equations.family (t.domainEquations classOf mentions locations).start i =
      {a | a ∈ t.ownDomain classOf i} := by
    by_cases hi : i < t.size
    · simp [Equations.family, domainEquations, hi]
    · have hnode := nodeAt_of_size_le (not_lt.1 hi)
      simp [Equations.family, domainEquations, hi, ownDomain, hnode, StoreNode.ownLocation?]
  rw [hown]
  ext a
  unfold ownDomain
  cases (t.nodeAt i).ownLocation? with
  | none => simp
  | some x => simp [eq_comm]

namespace Sound

/-- What depends on a store is a root. -/
lemma mem_roots_of_mem_dependents (ht : t.Sound) {i j : Nat} (hj : j ∈ t.dependents i) :
    j ∈ t.classes.roots := by
  rcases mem_dependents.1 hj with ⟨hj, -⟩ | ⟨-, edge, hedge, -, rfl⟩
  · exact hj
  · exact ht.root_mem_roots (ht.edge_lt edge hedge).2

/-- The equations for domains saturate, if operators bind existing locations. -/
theorem saturating (ht : t.Sound) (mentions : EffectId → Nat → Bool)
    (hown : ∀ i x, (t.nodeAt i).ownLocation? = some x → classOf x < locations) :
    (t.domainEquations classOf mentions locations).Saturating (t.inherits mentions)
      (Finset.range locations) where
  nodup := Forest.Sound.nodup_roots _
  nodes_lt i hi := by
    simpa [domainEquations] using (ht.mem_roots.1 hi).1
  dependents_mem _ _ _ hj := ht.mem_roots_of_mem_dependents hj
  mem_revise values i _ a := by
    simp only [domainEquations, Ascending.mem_insertAll]
    rw [mem_inherited]
    rfl
  mono i _ D E h := inherits_mono h i
  -- A store inherits from its operands and from the left ends of edges into its class, all of which
  -- it depends on.
  gives_congr i _ j hj hdep D E h := by
    refine inherits_congr (fun s hs => h _ fun hr => hdep ?_) fun hvar edge hedge hright =>
      h _ fun hr => hdep ?_
    · exact mem_dependents.2 (Or.inl ⟨hj, s, hs, hr⟩)
    · exact mem_dependents.2 (Or.inr ⟨hvar, edge, hedge, hr, hright⟩)
  start_mem i := by
    rw [family_ownDomain]
    rintro a ⟨x, hx, rfl⟩
    exact Finset.mem_coe.2 (Finset.mem_range.2 (hown i x hx))
  gives_mem D hD i _ := by
    unfold inherits
    cases t.nodeAt i with
    | var name =>
      rintro a ⟨edge, -, -, ha⟩
      exact hD _ ha
    | restrict base e => exact fun a ha => hD _ ha.1
    | allocate base b fresh => exact hD _
    | update base b type strong position message => exact hD _
    | overlay inside outside e => exact fun a ha => ha.elim (fun h => hD _ h.1) fun h => hD _ h.1
  card_le := (Finset.card_range locations).le

section Found

variable (ht : t.Sound)
  (hown : ∀ i x, (t.nodeAt i).ownLocation? = some x → classOf x < locations)

include ht hown

theorem mem_domain_iff {i a : Nat} (hi : i ∈ t.classes.roots) :
    a ∈ domainAt (t.domainEquations classOf mentions locations).solve.values i ↔
      (∃ x, (t.nodeAt i).ownLocation? = some x ∧ classOf x = a) ∨
        a ∈ t.inherits mentions
          (fun j => {b | b ∈ domainAt
            (t.domainEquations classOf mentions locations).solve.values j}) i := by
  have h := (ht.saturating mentions hown).solve_eq (i := i) hi
  rw [family_ownDomain] at h
  exact Set.ext_iff.1 h a

theorem domainAt_of_not_root {i a : Nat} (hi : i ∉ t.classes.roots) :
    a ∉ domainAt (t.domainEquations classOf mentions locations).solve.values i := by
  intro ha
  have h := (ht.saturating mentions hown).solve_eq_start (i := i) hi
  rw [family_ownDomain] at h
  obtain ⟨x, hx, -⟩ := (Set.ext_iff.1 h a).1 ha
  have hvar : (t.nodeAt i).isVariable = false := by
    cases hnode : t.nodeAt i <;> simp_all [StoreNode.ownLocation?, StoreNode.isVariable]
  exact hi (ht.mem_roots.2 ⟨lt_size_of_not_isVariable hvar, ht.root_eq hvar⟩)

theorem lt_of_mem_domain {i a : Nat}
    (ha : a ∈ domainAt (t.domainEquations classOf mentions locations).solve.values i) :
    a < locations := by
  have hgood := (ht.saturating mentions hown).graded.good_solve i ha
  exact Finset.mem_range.1 (Finset.mem_coe.1 hgood)

theorem exists_own_of_mem_domain {i a : Nat}
    (ha : a ∈ domainAt (t.domainEquations classOf mentions locations).solve.values i) :
    ∃ j x, (t.nodeAt j).ownLocation? = some x ∧ classOf x = a := by
  have hsub := (ht.saturating mentions hown).least
    (S := fun _ => {b | ∃ j x, (t.nodeAt j).ownLocation? = some x ∧ classOf x = b}) ?_ ?_ i
  · exact hsub ha
  · intro j b hb
    rw [family_ownDomain] at hb
    exact ⟨j, hb⟩
  · intro j _
    unfold inherits
    cases t.nodeAt j with
    | var name => exact fun b ⟨_, _, _, hb⟩ => hb
    | restrict base e => exact fun b hb => hb.1
    | allocate base x fresh => exact subset_rfl
    | update base x type strong position message => exact subset_rfl
    | overlay inside outside e => exact fun b hb => hb.elim And.left And.left

lemma size_domains :
    (t.domainEquations classOf mentions locations).solve.values.size = t.size := by
  rw [(ht.saturating mentions hown).graded.size_solve]
  simp [domainEquations]

end Found

end Sound

end Stores

end HeapQual
