import HeapQual.Proofs.Graph

/-!
# The equations between the domains of stores

The domains of stores satisfy one equation for each store: a variable binds what flows into its
class, and an operator binds what its expression says (`Graph.DomainsAgree`).  The domains that are
found satisfy all of these equations, and they are the least that do.

Because they are least, a store binds in a graph what it binds in another graph with the same
stores, if in the former the edges of the latter hold and what the latter joins has one domain
(`Graph.Conveys.boundBy_subset`).
-/

namespace HeapQual

variable {τ : Type}

namespace Graph

variable {g : Graph τ}

/-- A family of domains, read at roots, that satisfies the equation of every store. -/
structure DomainsAgree (g : Graph τ) (D : Nat → Set Nat) : Prop where
  /-- A variable binds what flows into its class. -/
  flowing : ∀ i ∈ g.stores.classes.roots, (g.stores.nodeAt i).isVariable = true →
    D i = {a | ∃ edge ∈ g.stores.edges, g.stores.root edge.right = i ∧
      a ∈ D (g.stores.root edge.left)}
  restrict : ∀ i base e, g.stores.nodeAt i = .restrict base e →
    D i = {a | a ∈ D (g.stores.root base) ∧ g.mentioned e a = true}
  allocate : ∀ i base a fresh, g.stores.nodeAt i = .allocate base a fresh →
    D i = insert (g.classOf a) (D (g.stores.root base))
  update : ∀ i base a type strong position message,
    g.stores.nodeAt i = .update base a type strong position message →
    D i = insert (g.classOf a) (D (g.stores.root base))
  /-- An overlay binds what its effect mentions of the first store, and does not of the second. -/
  overlay : ∀ i inside outside e, g.stores.nodeAt i = .overlay inside outside e →
    D i = {a | a ∈ D (g.stores.root inside) ∧ g.mentioned e a = true} ∪
      {a | a ∈ D (g.stores.root outside) ∧ g.mentioned e a = false}

/-- The domain of a store is the set of the locations that it binds. -/
def boundBy (g : Graph τ) (i : Nat) : Set Nat := {a | a ∈ g.solve.domainOf i}

lemma Sound.mem_roots_of_operator (hg : g.Sound) {i : Nat}
    (h : (g.stores.nodeAt i).isVariable = false) : i ∈ g.stores.classes.roots :=
  hg.stores.mem_roots.2 ⟨Stores.lt_size_of_not_isVariable h, hg.stores.root_eq h⟩

lemma Named.mem_boundBy (h : g.Named) (hg : g.Sound) {i a : Nat}
    (hi : i ∈ g.stores.classes.roots) :
    a ∈ g.boundBy i ↔ (∃ x, (g.stores.nodeAt i).ownLocation? = some x ∧ g.classOf x = a) ∨
      a ∈ g.stores.inherits g.mentioned g.boundBy i := by
  have hbinds := h.binds_iff hg (a := a) hi
  simp only [Solution.binds, decide_eq_true_eq] at hbinds
  exact hbinds

theorem Named.domainsAgree (h : g.Named) (hg : g.Sound) : g.DomainsAgree g.boundBy where
  flowing i hi hvar := by
    ext a
    rw [h.mem_boundBy hg hi]
    unfold Stores.inherits
    cases hnode : g.stores.nodeAt i with
    | var name => simp [StoreNode.ownLocation?]
    | _ => simp [hnode, StoreNode.isVariable] at hvar
  restrict i base e hnode := by
    ext a
    rw [h.mem_boundBy hg (hg.mem_roots_of_operator (by rw [hnode]; rfl))]
    simp [Stores.inherits, hnode, StoreNode.ownLocation?]
  allocate i base x fresh hnode := by
    ext a
    rw [h.mem_boundBy hg (hg.mem_roots_of_operator (by rw [hnode]; rfl))]
    simp [Stores.inherits, hnode, StoreNode.ownLocation?, eq_comm]
  update i base x type strong position message hnode := by
    ext a
    rw [h.mem_boundBy hg (hg.mem_roots_of_operator (by rw [hnode]; rfl))]
    simp [Stores.inherits, hnode, StoreNode.ownLocation?, eq_comm]
  overlay i inside outside e hnode := by
    ext a
    rw [h.mem_boundBy hg (hg.mem_roots_of_operator (by rw [hnode]; rfl))]
    simp [Stores.inherits, hnode, StoreNode.ownLocation?]

/-- What flows into a variable is bound there. -/
lemma Named.boundBy_subset_of_edge (h : g.Named) (hg : g.Sound) {edge : FlowEdge}
    (hedge : edge ∈ g.stores.edges) (hvar : (g.stores.node edge.right).isVariable = true) :
    g.boundBy (g.stores.root edge.left) ⊆ g.boundBy (g.stores.root edge.right) := by
  intro a ha
  rw [(h.domainsAgree hg).flowing _ (hg.stores.root_mem_roots (hg.stores.edge_lt edge hedge).2)
    hvar]
  exact ⟨edge, hedge, rfl, ha⟩

/-- A family that satisfies the equations contains what it gives to a store. -/
lemma DomainsAgree.inherits_subset {D : Nat → Set Nat} (h : g.DomainsAgree D) {i : Nat}
    (hi : i ∈ g.stores.classes.roots) : g.stores.inherits g.mentioned D i ⊆ D i := by
  intro a ha
  unfold Stores.inherits at ha
  cases hnode : g.stores.nodeAt i with
  | var name =>
    rw [hnode] at ha
    rw [h.flowing i hi (by rw [hnode]; rfl)]
    exact ha
  | restrict base e =>
    rw [hnode] at ha
    rw [h.restrict i base e hnode]
    exact ha
  | allocate base x fresh =>
    rw [hnode] at ha
    rw [h.allocate i base x fresh hnode]
    exact Or.inr ha
  | update base x type strong position message =>
    rw [hnode] at ha
    rw [h.update i base x type strong position message hnode]
    exact Or.inr ha
  | overlay inside outside e =>
    rw [hnode] at ha
    rw [h.overlay i inside outside e hnode]
    exact ha

lemma DomainsAgree.own_mem {D : Nat → Set Nat} (h : g.DomainsAgree D) {i : Nat} {x : LocationId}
    (hown : (g.stores.nodeAt i).ownLocation? = some x) : g.classOf x ∈ D i := by
  cases hnode : g.stores.nodeAt i with
  | allocate base y fresh =>
    rw [hnode] at hown
    cases hown
    rw [h.allocate i base x fresh hnode]
    exact Set.mem_insert _ _
  | update base y type strong position message =>
    rw [hnode] at hown
    cases hown
    rw [h.update i base x type strong position message hnode]
    exact Set.mem_insert _ _
  | _ =>
    rw [hnode] at hown
    simp [StoreNode.ownLocation?] at hown

/-- The domains found are within every family that has the own locations of stores and contains what
it gives to each store. -/
lemma Named.boundBy_subset_of_closed (h : g.Named) (hg : g.Sound) {D : Nat → Set Nat}
    (hown : ∀ i x, (g.stores.nodeAt i).ownLocation? = some x → g.classOf x ∈ D i)
    (hinherits : ∀ i ∈ g.stores.classes.roots, g.stores.inherits g.mentioned D i ⊆ D i) (i : Nat) :
    g.boundBy i ⊆ D i := by
  refine (hg.stores.saturating g.mentioned (h.classOf_lt hg)).least (fun j a ha => ?_) hinherits i
  rw [Stores.family_ownDomain] at ha
  obtain ⟨x, hx, rfl⟩ := ha
  exact hown j x hx

theorem Named.boundBy_subset (h : g.Named) (hg : g.Sound) {D : Nat → Set Nat}
    (hD : g.DomainsAgree D) (i : Nat) : g.boundBy i ⊆ D i :=
  h.boundBy_subset_of_closed hg (fun _ _ hown => hD.own_mem hown)
    (fun _ hi => hD.inherits_subset hi) i

lemma Named.queue_solveDomains (h : g.Named) (hg : g.Sound) (members : Array Members) :
    (g.solveDomains members).queue = [] :=
  (hg.stores.saturating _ (h.classOf_lt hg)).queue_solve

/-! ## Comparing the domains of two graphs -/

/-- What effects mention does not depend on stores. -/
lemma mentioned_congr {g' : Graph τ} (heffects : g'.effects = g.effects)
    (hlocations : g'.locations = g.locations) : g'.mentioned = g.mentioned := by
  have hread : ∀ h : Graph τ, h.mentioned = fun e a =>
      (Effects.membersAt h.solveMembers.values (h.effects.root e)).touches a .any := fun _ => rfl
  have hclass : g'.classOf = g.classOf := by
    funext a
    rw [classOf, classOf, hlocations]
  have hmembers : g'.solveMembers = g.solveMembers := by
    rw [solveMembers, solveMembers, heffects, hlocations, hclass]
  rw [hread, hread, hmembers, heffects]

/-- The second graph has the stores of the first, gives the same domain to what the first joins, and
has what the edges of the first into variables ask for. -/
structure Conveys (g g' : Graph τ) : Prop where
  locations_eq : g'.locations = g.locations
  mentioned_eq : g'.mentioned = g.mentioned
  nodes_eq : g'.stores.nodes = g.stores.nodes
  boundBy_root : ∀ x : StoreId,
    g'.boundBy (g'.stores.root ⟨g.stores.root x⟩) = g'.boundBy (g'.stores.root x)
  edge : ∀ edge ∈ g.stores.edges, (g.stores.node edge.right).isVariable = true →
    g'.boundBy (g'.stores.root edge.left) ⊆ g'.boundBy (g'.stores.root edge.right)

section Conveying

variable {g' : Graph τ} (h : g.Conveys g') (hg : g.Sound) (hg' : g'.Sound) (hnamed' : g'.Named)

include h hg' hnamed'

/-- An operator binds, besides its own location, what it takes over from its operands. -/
lemma Conveys.inherits_subset_of_operator {i : Nat}
    (hvar : (g.stores.nodeAt i).isVariable = false) :
    g.stores.inherits g.mentioned (fun j => g'.boundBy (g'.stores.root ⟨j⟩)) i ⊆
      g'.boundBy (g'.stores.root ⟨i⟩) := by
  have hnode : g'.stores.nodeAt i = g.stores.nodeAt i := by
    rw [Stores.nodeAt, Stores.nodeAt, h.nodes_eq]
  rw [← hnode] at hvar
  have hroot : g'.stores.root ⟨i⟩ = i := hg'.stores.root_eq hvar
  intro a ha
  rw [hroot, hnamed'.mem_boundBy hg' (hg'.mem_roots_of_operator hvar)]
  refine Or.inr ?_
  rw [h.mentioned_eq]
  unfold Stores.inherits at ha ⊢
  rw [hnode]
  cases hi : g.stores.nodeAt i with
  | var name => simp [hnode, hi, StoreNode.isVariable] at hvar
  | restrict base e =>
    simp only [hi, h.boundBy_root] at ha
    exact ha
  | allocate base x fresh =>
    simp only [hi, h.boundBy_root] at ha
    exact ha
  | update base x type strong position message =>
    simp only [hi, h.boundBy_root] at ha
    exact ha
  | overlay inside outside e =>
    simp only [hi, h.boundBy_root] at ha
    exact ha

include hg

theorem Conveys.boundBy_subset (hnamed : g.Named) (x : StoreId) :
    g.boundBy (g.stores.root x) ⊆ g'.boundBy (g'.stores.root x) := by
  rw [← h.boundBy_root x]
  refine hnamed.boundBy_subset_of_closed hg (D := fun i => g'.boundBy (g'.stores.root ⟨i⟩))
    (fun i a hown => ?_) (fun i hi => ?_) _
  · have hnode : g'.stores.nodeAt i = g.stores.nodeAt i := by
      rw [Stores.nodeAt, Stores.nodeAt, h.nodes_eq]
    have hvar : (g'.stores.nodeAt i).isVariable = false := by
      rw [hnode]
      cases hi : g.stores.nodeAt i <;> simp_all [StoreNode.ownLocation?, StoreNode.isVariable]
    have hroot : g'.stores.root ⟨i⟩ = i := hg'.stores.root_eq hvar
    have hclass : g'.classOf a = g.classOf a := by
      rw [classOf, classOf, h.locations_eq]
    show g.classOf a ∈ g'.boundBy (g'.stores.root ⟨i⟩)
    rw [hroot, hnamed'.mem_boundBy hg' (hg'.mem_roots_of_operator hvar), hnode]
    exact Or.inl ⟨a, hown, hclass⟩
  · cases hvar : (g.stores.nodeAt i).isVariable with
    | false => exact h.inherits_subset_of_operator hg' hnamed' hvar
    | true =>
      -- What flows into the class flows along an edge whose right end has the domain of the class.
      intro a ha
      unfold Stores.inherits at ha
      cases hnode : g.stores.nodeAt i with
      | var name =>
        rw [hnode] at ha
        obtain ⟨edge, hedge, hright, ha⟩ := ha
        have hflow := h.edge edge hedge (by rw [Stores.node, hright, hvar])
        rw [← hright]
        exact h.boundBy_root edge.right ▸ hflow (h.boundBy_root edge.left ▸ ha)
      | _ => simp [hnode, StoreNode.isVariable] at hvar

end Conveying

end Graph

end HeapQual
