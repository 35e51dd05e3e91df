import HeapQual.Allocation
import HeapQual.Cell
import HeapQual.Proofs.Effect.Coverage
import HeapQual.Proofs.Mirror.Effects

/-!
# Graphs that mirror each other

Two graphs *mirror* each other if they have the same locations, if their effects mirror each other,
if their stores are the same but for related effects in them, and if every inclusion of the one has
a counterpart in the other (`Graph.Mirrors`).  If pivotal effects are told apart in the same way,
related effects have the same members (`Graph.Mirrors.accessesOf_eq`).  So stores bind the same
locations (`Graph.Mirrors.domains_eq`), and are reached by the same allocations
(`Graph.Mirrors.solveSupplies_eq`).

Cells are then read alike, whichever of the two graphs they are read against
(`View.Mirrors`).
-/

namespace HeapQual

variable {τ : Type} {R : EffectId → EffectId → Prop}

/-! ## Stores -/

/-- The expressions are the same, but for related effects in them. -/
inductive StoreNode.Mirrors (R : EffectId → EffectId → Prop) : StoreNode τ → StoreNode τ → Prop
  | var (name : String) : Mirrors R (.var name) (.var name)
  | restrict (base : StoreId) {e e' : EffectId} :
      R e e' → Mirrors R (.restrict base e) (.restrict base e')
  | allocate (base : StoreId) (a : LocationId) (fresh : τ) :
      Mirrors R (.allocate base a fresh) (.allocate base a fresh)
  | overlay (inside outside : StoreId) {e e' : EffectId} :
      R e e' → Mirrors R (.overlay inside outside e) (.overlay inside outside e')
  | update (base : StoreId) (a : LocationId) (type : τ) (strong : Bool) (position : Position)
      (message : String) :
      Mirrors R (.update base a type strong position message)
        (.update base a type strong position message)

namespace StoreNode.Mirrors

variable {n n' : StoreNode τ} {S : EffectId → EffectId → Prop}

lemma mono (h : n.Mirrors R n') (hRS : ∀ e e', R e e' → S e e') : n.Mirrors S n' := by
  cases h with
  | var name => exact .var name
  | restrict base he => exact .restrict base (hRS _ _ he)
  | allocate base a fresh => exact .allocate base a fresh
  | overlay inside outside he => exact .overlay inside outside (hRS _ _ he)
  | update base a type strong position message =>
    exact .update base a type strong position message

lemma symm (h : n.Mirrors R n') : n'.Mirrors (flip R) n := by
  cases h with
  | var name => exact .var name
  | restrict base he => exact .restrict base he
  | allocate base a fresh => exact .allocate base a fresh
  | overlay inside outside he => exact .overlay inside outside he
  | update base a type strong position message =>
    exact .update base a type strong position message

lemma operands_eq (h : n.Mirrors R n') : n.operands = n'.operands := by
  cases h <;> rfl

lemma ownLocation?_eq (h : n.Mirrors R n') : n.ownLocation? = n'.ownLocation? := by
  cases h <;> rfl

lemma isVariable_eq (h : n.Mirrors R n') : n.isVariable = n'.isVariable := by
  cases h <;> rfl

end StoreNode.Mirrors

namespace Stores

variable {t t' : Stores τ} {S : EffectId → EffectId → Prop}
  {mentions mentions' : EffectId → Nat → Bool}

/-- The tables are the same, but for related effects in their expressions. -/
structure Mirrors (R : EffectId → EffectId → Prop) (t t' : Stores τ) : Prop where
  size_eq : t.size = t'.size
  node : ∀ i, (t.nodeAt i).Mirrors R (t'.nodeAt i)
  classes_eq : t.classes = t'.classes
  edges_eq : t.edges = t'.edges

namespace Mirrors

lemma symm (h : t.Mirrors R t') : t'.Mirrors (flip R) t :=
  ⟨h.size_eq.symm, fun i => (h.node i).symm, h.classes_eq.symm, h.edges_eq.symm⟩

lemma mono (h : t.Mirrors R t') (hRS : ∀ e e', R e e' → S e e') : t.Mirrors S t' :=
  ⟨h.size_eq, fun i => (h.node i).mono hRS, h.classes_eq, h.edges_eq⟩

lemma add (h : t.Mirrors R t') {n n' : StoreNode τ} (hn : n.Mirrors R n') :
    (t.add n).2.Mirrors R (t'.add n').2 := by
  have hsize : t.nodes.size = t'.nodes.size := h.size_eq
  refine ⟨?_, fun i => ?_, congrArg Forest.add h.classes_eq, h.edges_eq⟩
  · simp [Stores.add, Stores.size, hsize]
  · have hnode := h.node i
    unfold nodeAt Stores.add at *
    simp only [Array.getElem?_push, hsize]
    split
    · exact hn
    · exact hnode

lemma addEdge (h : t.Mirrors R t') (edge : FlowEdge) :
    (t.addEdge edge).Mirrors R (t'.addEdge edge) :=
  ⟨h.size_eq, h.node, h.classes_eq, congrArg (Array.push · edge) h.edges_eq⟩

lemma join (h : t.Mirrors R t') (survivor child : Nat) :
    (t.join survivor child).Mirrors R (t'.join survivor child) :=
  ⟨h.size_eq, h.node, congrArg (Forest.hang · child survivor) h.classes_eq, h.edges_eq⟩

variable (h : t.Mirrors R t')

include h

lemma root_eq : t.root = t'.root := by
  unfold root
  rw [h.classes_eq]

lemma find_eq (x : StoreId) : t.find x = t'.find x := by
  unfold find
  rw [h.size_eq, h.root_eq]

lemma edgesInto_eq : t.edgesInto = t'.edgesInto := by
  unfold edgesInto numberedEdges
  rw [h.root_eq, h.edges_eq]

lemma edgesFrom_eq : t.edgesFrom = t'.edgesFrom := by
  unfold edgesFrom numberedEdges
  rw [h.root_eq, h.edges_eq]

lemma children_eq : t.children = t'.children := by
  unfold children operandRoots
  funext root
  simp only [(h.node _).operands_eq, h.root_eq, h.classes_eq]

lemma dependents_eq : t.dependents = t'.dependents := by
  unfold dependents
  funext root
  simp only [h.children_eq, h.edgesFrom_eq, h.root_eq, (h.node _).isVariable_eq]

/-- Stores take over the same locations, if related effects mention the same ones. -/
lemma inherited_eq (hm : ∀ e e', R e e' → mentions e = mentions' e') :
    t.inherited mentions = t'.inherited mentions' := by
  funext values i
  unfold inherited
  rw [h.root_eq, h.edgesInto_eq]
  have hnode := h.node i
  generalize t.nodeAt i = n at hnode
  generalize t'.nodeAt i = n' at hnode
  cases hnode with
  | restrict base he => simp only [hm _ _ he]
  | overlay inside outside he => simp only [hm _ _ he]
  | _ => rfl

lemma domainEquations_eq (classOf : LocationId → Nat)
    (hm : ∀ e e', R e e' → mentions e = mentions' e') (locations : Nat) :
    t.domainEquations classOf mentions locations =
      t'.domainEquations classOf mentions' locations := by
  unfold domainEquations ownDomain
  simp only [h.size_eq, (h.node _).ownLocation?_eq, h.classes_eq, h.inherited_eq hm,
    h.dependents_eq]

end Mirrors

end Stores

/-! ## Graphs -/

/-- Every inclusion has a counterpart. -/
def Effects.Includes (R : EffectId → EffectId → Prop) (t t' : Effects) : Prop :=
  ∀ inc ∈ t.inclusions, ∃ inc' ∈ t'.inclusions, R inc.source inc'.source ∧ R inc.target inc'.target

/-- The graphs are the same, but for the effects, which mirror each other. -/
structure Graph.Mirrors (R : EffectId → EffectId → Prop) (g g' : Graph τ) : Prop where
  locations_eq : g.locations = g'.locations
  effects : g.effects.Mirrors R g'.effects
  stores : g.stores.Mirrors R g'.stores
  forth : g.effects.Includes R g'.effects
  back : g'.effects.Includes (flip R) g.effects

namespace Graph.Mirrors

variable {g g' : Graph τ} {e e' : EffectId} {x : Access}

lemma symm (h : g.Mirrors R g') : g'.Mirrors (flip R) g :=
  ⟨h.locations_eq.symm, h.effects.symm, h.stores.symm, h.back, h.forth⟩

lemma classOf_eq (h : g.Mirrors R g') : g.classOf = g'.classOf := by
  unfold classOf
  rw [h.locations_eq]

variable (h : g.Mirrors R g') (hd : g.effects.Distinguishes R g'.effects) (hg : g.Sound)
  (hg' : g'.Sound)

include h hd hg hg'

/-- What related effects have in the second graph contains all that the first graph forces into
it. -/
lemma respects : g.effects.Respects g.classOf
    fun i => {x | ∀ e e', R e e' → g.effects.root e = i → x ∈ g'.accessesOf e'} where
  atom i kind a hnode k hk e e' he hroot := by
    have hmirrors := h.effects.node e e' he
    rw [Effects.node, hroot, hnode] at hmirrors
    generalize hn : g'.effects.node e' = n' at hmirrors
    cases hmirrors
    exact (hg'.mem_atom hn).2 ⟨by rw [h.classOf_eq], hk⟩
  union i a b hnode := by
    have hoperand {c : EffectId} (hc : c = a ∨ c = b) {x : Access}
        (hx : ∀ e e', R e e' → g.effects.root e = g.effects.root c → x ∈ g'.accessesOf e')
        {e e' : EffectId} (he : R e e') (hroot : g.effects.root e = i) : x ∈ g'.accessesOf e' := by
      have hmirrors := h.effects.node e e' he
      rw [Effects.node, hroot, hnode] at hmirrors
      generalize hn : g'.effects.node e' = n' at hmirrors
      cases hmirrors with
      | union ha hb =>
        rcases hc with rfl | rfl
        · exact (hg'.mem_union hn).2 (Or.inl (hx _ _ ha rfl))
        · exact (hg'.mem_union hn).2 (Or.inr (Or.inl (hx _ _ hb rfl)))
      | crossed ha hb =>
        rcases hc with rfl | rfl
        · exact (hg'.mem_union hn).2 (Or.inr (Or.inl (hx _ _ ha rfl)))
        · exact (hg'.mem_union hn).2 (Or.inl (hx _ _ hb rfl))
    exact ⟨fun x hx e e' he hroot => hoperand (Or.inl rfl) hx he hroot,
      fun x hx e e' he hroot => hoperand (Or.inr rfl) hx he hroot⟩
  inter i a b hnode l k₁ k₂ k h₁ h₂ hmeet e e' he hroot := by
    have hmirrors := h.effects.node e e' he
    rw [Effects.node, hroot, hnode] at hmirrors
    generalize hn : g'.effects.node e' = n' at hmirrors
    cases hmirrors with
    | inter ha hb =>
      exact (hg'.effects.respects_members hg'.classOf_lt).inter _ _ _ hn l k₁ k₂ k
        (h₁ _ _ ha rfl) (h₂ _ _ hb rfl) hmeet
  inclusion inc hinc hmentions x hx e e' he hroot := by
    obtain ⟨inc', hinc', hsource, htarget⟩ := h.forth inc hinc
    have hmentions' := (h.effects.mentionsVariable_iff htarget).1 hmentions
    have hgrown := (hg'.effects.respects_members hg'.classOf_lt).inclusion inc' hinc' hmentions'
      (hx _ _ hsource rfl)
    -- The target's class is the same one on both sides.
    have hid := hg.effects.isVariable_or_pivotal hinc hmentions
    have hroot' := (h.effects.root_eq_iff hd hg.effects (h.locations_eq ▸ hg'.effects) htarget he
      hid).1 hroot.symm
    rw [accessesOf, ← hroot']
    exact hgrown

lemma mem_accessesOf (he : R e e') (hx : x ∈ g.accessesOf e) : x ∈ g'.accessesOf e' :=
  hg.effects.members_subset hg.classOf_lt (h.respects hd hg hg') _ hx e e' he rfl

theorem accessesOf_eq (he : R e e') : g.accessesOf e = g'.accessesOf e' :=
  Ascending.ext fun _ => ⟨h.mem_accessesOf hd hg hg' he, h.symm.mem_accessesOf hd.symm hg' hg he⟩

lemma touches_eq (he : R e e') (location : Nat) (kind : Kind) :
    g.solve.touches (g.effects.root e) location kind =
      g'.solve.touches (g'.effects.root e') location kind :=
  congrArg (fun m : Members => m.touches location kind) (h.accessesOf_eq hd hg hg' he)

/-- Related effects mention the same locations. -/
lemma mentions_eq (he : R e e') :
    g.solve.mentions (g.effects.root e) = g'.solve.mentions (g'.effects.root e') :=
  funext fun location => h.touches_eq hd hg hg' he location .any

theorem domains_eq : g.solve.domains = g'.solve.domains := by
  have hequations := h.stores.domainEquations_eq g.classOf
    (fun e e' he => h.mentions_eq hd hg hg' he) g.locations.size
  show (g.solveDomains g.solve.members).values = (g'.solveDomains g'.solve.members).values
  unfold solveDomains
  rw [← h.classOf_eq, ← h.locations_eq]
  exact congrArg (fun eqs : Equations Domain => eqs.solve.values) hequations

lemma incoming_eq : g.incoming g.solve = g'.incoming g'.solve := by
  funext values i location
  unfold incoming
  rw [h.stores.edgesInto_eq, h.stores.root_eq, h.classOf_eq]
  have hnode := h.stores.node i
  generalize g.stores.nodeAt i = n at hnode
  generalize g'.stores.nodeAt i = n' at hnode
  cases hnode with
  | restrict base he => simp only [h.mentions_eq hd hg hg' he]
  | overlay inside outside he => simp only [h.mentions_eq hd hg hg' he]
  | _ => rfl

theorem solveSupplies_eq : g.solveSupplies g.solve = g'.solveSupplies g'.solve := by
  unfold solveSupplies supplyEquations
  rw [h.incoming_eq hd hg hg', h.stores.size_eq, h.locations_eq, h.stores.classes_eq,
    h.stores.dependents_eq]

end Graph.Mirrors

/-! ## Cells -/

/-- Cells are read alike against the views. -/
structure View.Mirrors (R : EffectId → EffectId → Prop) (v v' : View τ) : Prop where
  locations_eq : v.graph.locations = v'.graph.locations
  stores : v.graph.stores.Mirrors R v'.graph.stores
  mentions_eq : ∀ e e', R e e' → v.mentions e = v'.mentions e'
  domains_eq : v.solution.domains = v'.solution.domains
  demoted_eq : v.demoted = v'.demoted

lemma Graph.Mirrors.view {g g' : Graph τ} (h : g.Mirrors R g')
    (hd : g.effects.Distinguishes R g'.effects) (hg : g.Sound) (hg' : g'.Sound)
    (demoted : List Nat) : View.Mirrors R ⟨g, g.solve, demoted⟩ ⟨g', g'.solve, demoted⟩ :=
  ⟨h.locations_eq, h.stores, fun _ _ he => h.mentions_eq hd hg hg' he, h.domains_eq hd hg hg', rfl⟩

namespace View.Mirrors

variable {v v' : View τ} (h : View.Mirrors R v v')

include h

lemma classOf_eq : v.graph.classOf = v'.graph.classOf := by
  unfold Graph.classOf
  rw [h.locations_eq]

lemma storeRoot_eq : v.storeRoot = v'.storeRoot := h.stores.root_eq

lemma binds_eq : v.binds = v'.binds := by
  unfold binds Solution.binds Solution.domainOf
  rw [h.domains_eq]

lemma isBound_eq : v.isBound = v'.isBound := by
  unfold isBound
  rw [h.binds_eq]

lemma step_eq : v.step = v'.step := by
  funext c
  unfold step
  rw [h.isBound_eq, h.classOf_eq, h.storeRoot_eq, h.binds_eq]
  have hnode := h.stores.node c.store
  generalize v.graph.stores.nodeAt c.store = n at hnode
  generalize v'.graph.stores.nodeAt c.store = n' at hnode
  cases hnode with
  | overlay inside outside he => simp only [h.mentions_eq _ _ he]
  | _ => rfl

lemma bindingFrom_eq (fuel : Nat) (c : Cell) : v.bindingFrom fuel c = v'.bindingFrom fuel c := by
  induction fuel generalizing c with
  | zero => rfl
  | succ fuel ih => simp only [bindingFrom, h.step_eq, ih]

lemma binding_eq : v.binding = v'.binding := by
  funext c
  unfold binding
  rw [h.bindingFrom_eq, h.stores.size_eq]

lemma weakBase?_eq : v.weakBase? = v'.weakBase? := by
  funext c
  unfold weakBase?
  rw [h.classOf_eq, h.storeRoot_eq, h.binds_eq, h.demoted_eq]
  have hnode := h.stores.node c.store
  generalize v.graph.stores.nodeAt c.store = n at hnode
  generalize v'.graph.stores.nodeAt c.store = n' at hnode
  cases hnode <;> rfl

lemma sources_eq : v.sources = v'.sources := by
  funext c
  unfold sources lefts below
  rw [h.stores.edgesInto_eq, h.storeRoot_eq, h.binds_eq, h.weakBase?_eq, h.step_eq]

lemma targets_eq : v.targets = v'.targets := by
  funext location s
  unfold targets flowsUp
  rw [h.stores.edgesFrom_eq, h.storeRoot_eq, h.binds_eq, h.stores.children_eq, h.step_eq,
    h.weakBase?_eq]

end View.Mirrors

end HeapQual
