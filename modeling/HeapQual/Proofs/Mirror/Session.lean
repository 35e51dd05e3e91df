import HeapQual.Proofs.Mirror.Flow
import HeapQual.Proofs.Session.Recipes
import Mathlib.Data.Multiset.MapFold

/-!
# Sessions that mirror each other

Two sessions *mirror* each other if their graphs do, if the same inclusions wait or were reported,
and if they agree in everything else that a caller can see (`Session.Mirrors`).  They need not have
made the same effects, and they need not both hold a solution.

What a session remembers besides its graph has to be right for that (`Session.SoundMemory`): a
recipe gives back what it made, and while a solution is held, everything that fails was reported.

This module is about the commands that build.  Sessions that mirror each other still do so after
each of them, and if the command makes an effect, the effects made are related from then on
(`Session.MadeRelated`).
-/

namespace HeapQual

/-! ## Recipes -/

namespace Effects

variable {R : EffectId → EffectId → Prop} {t t' u u' : Effects} {locations locations' : Nat}
  {e e' : EffectId} {node node' : EffectNode}

/-- Effects with expressions of one form are related, whether they were entered or existed. -/
lemma Mirrors.enters (h : t.Mirrors R t') (ht : t.Sound locations) (ht' : t'.Sound locations')
    (hu : t.Enters node e u) (hu' : t'.Enters node' e' u') (hnode : node.Mirrors R node')
    (hvar : node.isVariable = false) : u.Mirrors (With R e e') u' := by
  have hleft : u.Mirrors R t' := by
    rcases hu.grown with rfl | rfl
    · exact h
    · exact h.add_left ht node
  have hboth : u.Mirrors R u' := by
    rcases hu'.grown with rfl | rfl
    · exact hleft
    · exact hleft.add_right ht' node'
  refine hboth.insert hu.lt hu'.lt (hu.isEmpty_eq.trans hu'.isEmpty_eq.symm) ?_ ?_
  · rw [hu.node_eq, hu'.node_eq]
    exact hnode
  · intro hvariable
    rw [hu.node_eq, hvar] at hvariable
    cases hvariable

end Effects

/-! ## Exclusions -/

variable {R S : EffectId → EffectId → Prop}

/-- The restrictions are the same, but for related effects in them. -/
inductive Restriction.Mirrors (R : EffectId → EffectId → Prop) : Restriction → Restriction → Prop
  | location (a : LocationId) (kind : Kind) {e e' : EffectId} :
      R e e' → Mirrors R (.location a kind e) (.location a kind e')
  | disjoint {e₁ e₁' e₂ e₂' : EffectId} :
      R e₁ e₁' → R e₂ e₂' → Mirrors R (.disjoint e₁ e₂) (.disjoint e₁' e₂')
  | everywhere (kind : Kind) {e e' : EffectId} :
      R e e' → Mirrors R (.everywhere kind e) (.everywhere kind e')
  | implies (kind₁ kind₂ : Kind) {e₁ e₁' e₂ e₂' : EffectId} :
      R e₁ e₁' → R e₂ e₂' → Mirrors R (.implies kind₁ e₁ kind₂ e₂) (.implies kind₁ e₁' kind₂ e₂')

/-- The exclusions were made at one position, and are the same but for related effects. -/
structure Exclusion.Mirrors (R : EffectId → EffectId → Prop) (x x' : Exclusion) : Prop where
  position_eq : x.position = x'.position
  restriction : x.restriction.Mirrors R x'.restriction

lemma Exclusion.Mirrors.refl (hR : ∀ e, R e e) (x : Exclusion) : x.Mirrors R x := by
  obtain ⟨position, restriction⟩ := x
  refine ⟨rfl, ?_⟩
  cases restriction with
  | location a kind e => exact .location a kind (hR e)
  | disjoint e₁ e₂ => exact .disjoint (hR e₁) (hR e₂)
  | everywhere kind e => exact .everywhere kind (hR e)
  | implies kind₁ e₁ kind₂ e₂ => exact .implies kind₁ kind₂ (hR e₁) (hR e₂)

lemma Exclusion.Mirrors.mono {x x' : Exclusion} (h : x.Mirrors R x')
    (hRS : ∀ e e', R e e' → S e e') : x.Mirrors S x' := by
  refine ⟨h.position_eq, ?_⟩
  have hrestriction := h.restriction
  generalize x.restriction = r at hrestriction ⊢
  generalize x'.restriction = r' at hrestriction ⊢
  cases hrestriction with
  | location a kind he => exact .location a kind (hRS _ _ he)
  | disjoint h₁ h₂ => exact .disjoint (hRS _ _ h₁) (hRS _ _ h₂)
  | everywhere kind he => exact .everywhere kind (hRS _ _ he)
  | implies kind₁ kind₂ h₁ h₂ => exact .implies kind₁ kind₂ (hRS _ _ h₁) (hRS _ _ h₂)

/-! ## Inclusions -/

/-- The inclusions are between related effects, and were asked for at one position. -/
structure Inclusion.Mirrors (R : EffectId → EffectId → Prop) (inc inc' : Inclusion) : Prop where
  source : R inc.source inc'.source
  target : R inc.target inc'.target
  position_eq : inc.position = inc'.position

lemma Inclusion.Mirrors.mono {inc inc' : Inclusion} (h : inc.Mirrors R inc')
    (hRS : ∀ e e', R e e' → S e e') : inc.Mirrors S inc' :=
  ⟨hRS _ _ h.source, hRS _ _ h.target, h.position_eq⟩

namespace Session

variable {σ τ : Type} {s s' t t' : Session σ τ}

/-- The inclusions, each with whether it was reported. -/
def tracked (s : Session σ τ) : List (Inclusion × Bool) :=
  s.graph.effects.inclusions.toList.zipIdx.map fun numbered =>
    (numbered.1, decide (numbered.2 ∈ s.reported))

/-- The inclusions mirror each other, and were both reported or both not. -/
def TrackedMirrors (R : EffectId → EffectId → Prop) (x x' : Inclusion × Bool) : Prop :=
  x.1.Mirrors R x'.1 ∧ x.2 = x'.2

lemma mem_inclusions_iff {inc : Inclusion} :
    inc ∈ s.graph.effects.inclusions ↔ ∃ told, (inc, told) ∈ s.tracked := by
  simp only [tracked, List.mem_map, Prod.mk.injEq, Prod.exists, List.mem_zipIdx_iff_getElem?,
    Array.getElem?_toList]
  rw [← Array.mem_toList_iff, List.mem_iff_getElem?]
  simp only [Array.getElem?_toList]
  constructor
  · rintro ⟨n, hget⟩
    exact ⟨_, inc, n, hget, rfl, rfl⟩
  · rintro ⟨_, _, n, hget, rfl, rfl⟩
    exact ⟨n, hget⟩

/-- What is remembered besides the graph is right. -/
structure SoundMemory (s : Session σ τ) : Prop where
  recipe : s.recipes.Obeys s.graph.effects.Makes
  reported_lt : ∀ n ∈ s.reported, n < s.graph.effects.inclusions.size
  told : ∀ sol, s.solution = some sol → s.phase ≠ .opened → ∀ n ∈ sol.violations, n ∈ s.reported

/-- The sessions agree in all that a caller can see, but for the effects, which are related. -/
structure Mirrors (R : EffectId → EffectId → Prop) (s s' : Session σ τ) : Prop where
  markedOnly_eq : s.config.markedOnly = s'.config.markedOnly
  phase_eq : s.phase = s'.phase
  locations_eq : s.graph.locations = s'.graph.locations
  effects : s.graph.effects.Mirrors R s'.graph.effects
  stores : s.graph.stores.Mirrors R s'.graph.stores
  inclusions : Multiset.Rel (TrackedMirrors R) (s.tracked : Multiset (Inclusion × Bool)) s'.tracked
  exclusions : List.Forall₂ (Exclusion.Mirrors R) s.exclusions s'.exclusions
  requests_eq : s.requests = s'.requests
  linearities_eq : s.linearities = s'.linearities
  flow : s.flow.Mirrors s'.flow
  left : s.SoundMemory
  right : s'.SoundMemory

/-- The answers are the same, and the sessions mirror each other. -/
def SameAnswer {α : Type} (R : EffectId → EffectId → Prop) (p p' : α × Session σ τ) : Prop :=
  p.1 = p'.1 ∧ p.2.Mirrors R p'.2

/-- The effects made are related from now on. -/
def MadeRelated (R : EffectId → EffectId → Prop) (p p' : EffectId × Session σ τ) : Prop :=
  p.2.Mirrors (Effects.Mirrors.With R p.1 p'.1) p'.2

/-! ## What does not show -/

/-- The sessions differ at most in the solution, in the answers that are remembered, in the order in
which inclusions were reported, and in the log. -/
def SameUpToSolution (s t : Session σ τ) : Prop :=
  ∃ solution questions reported flow, t = { s with solution, questions, reported, flow } ∧
    s.flow.Mirrors flow ∧ ∀ n, n ∈ s.reported ↔ n ∈ reported

namespace SameUpToSolution

lemma refl (s : Session σ τ) : s.SameUpToSolution s :=
  ⟨s.solution, s.questions, s.reported, s.flow, rfl, .refl _, fun _ => .rfl⟩

lemma symm (h : s.SameUpToSolution t) : t.SameUpToSolution s := by
  obtain ⟨solution, questions, reported, flow, rfl, hflow, hreported⟩ := h
  exact ⟨s.solution, s.questions, s.reported, s.flow, rfl, hflow.symm, fun n => (hreported n).symm⟩

lemma tracked_eq (h : s.SameUpToSolution t) : t.tracked = s.tracked := by
  obtain ⟨solution, questions, reported, flow, rfl, -, hreported⟩ := h
  refine List.map_congr_left fun numbered _ => congrArg _ ?_
  exact decide_eq_decide.2 (hreported numbered.2).symm

end SameUpToSolution

/-- The log was continued, and the solution was kept or forgotten. -/
def SameUpToForgetting (s t : Session σ τ) : Prop :=
  ∃ solution questions flow, t = { s with solution, questions, flow } ∧ s.flow.Mirrors flow ∧
    ∀ sol, solution = some sol → s.solution = some sol

namespace SameUpToForgetting

lemma refl (s : Session σ τ) : s.SameUpToForgetting s :=
  ⟨s.solution, s.questions, s.flow, rfl, .refl _, fun _ h => h⟩

lemma trans {u : Session σ τ} (h : s.SameUpToForgetting t) (h' : t.SameUpToForgetting u) :
    s.SameUpToForgetting u := by
  obtain ⟨solution, questions, flow, rfl, hflow, hsol⟩ := h
  obtain ⟨solution', questions', flow', rfl, hflow', hsol'⟩ := h'
  exact ⟨solution', questions', flow', rfl, hflow.trans hflow', fun sol h => hsol sol (hsol' sol h)⟩

lemma note (h : s.SameUpToForgetting t) (n : Notice τ) : s.SameUpToForgetting (t.note n) := by
  refine h.trans ⟨t.solution, t.questions, _, rfl, ?_, fun _ h => h⟩
  exact ⟨.refl _, fun _ => rfl, rfl, rfl, rfl, rfl, .refl _⟩

lemma forget (h : s.SameUpToForgetting t) : s.SameUpToForgetting t.forget := by
  refine h.trans ?_
  cases hsol : t.solution with
  | none =>
    rw [forget_of_none hsol]
    exact .refl t
  | some sol =>
    unfold Session.forget
    rw [hsol]
    refine ⟨none, t.questions.clear, _, rfl, ?_, fun _ h => absurd h (by simp)⟩
    exact ⟨.refl _, fun _ => rfl, rfl, rfl, rfl, rfl, .refl _⟩

lemma withEffects (h : s.SameUpToForgetting t) (u : Effects) :
    (s.withEffects u).SameUpToForgetting (t.withEffects u) := by
  obtain ⟨solution, questions, flow, rfl, hflow, hsol⟩ := h
  exact ⟨solution, questions, flow, rfl, hflow, hsol⟩

end SameUpToForgetting

lemma SameUpToForgetting.sameUpToSolution (h : s.SameUpToForgetting t) : s.SameUpToSolution t := by
  obtain ⟨solution, questions, flow, rfl, hflow, -⟩ := h
  exact ⟨solution, questions, s.reported, flow, rfl, hflow, fun _ => .rfl⟩

lemma SoundMemory.sameUpToForgetting (hs : s.SoundMemory) (h : s.SameUpToForgetting t) :
    t.SoundMemory := by
  obtain ⟨solution, questions, flow, rfl, -, hsol⟩ := h
  exact ⟨hs.recipe, hs.reported_lt, fun sol h => hs.told sol (hsol sol h)⟩

namespace Mirrors

lemma sameUpToSolution (h : s.Mirrors R s') (ht : s.SameUpToSolution t)
    (ht' : s'.SameUpToSolution t') (hleft : t.SoundMemory) (hright : t'.SoundMemory) :
    t.Mirrors R t' := by
  have htracked := ht.tracked_eq
  have htracked' := ht'.tracked_eq
  obtain ⟨solution, questions, reported, flow, rfl, hflow, -⟩ := ht
  obtain ⟨solution', questions', reported', flow', rfl, hflow', -⟩ := ht'
  exact { h with
    inclusions := htracked ▸ htracked' ▸ h.inclusions
    flow := (hflow.symm.trans h.flow).trans hflow'
    left := hleft
    right := hright }

lemma sameUpToForgetting (h : s.Mirrors R s') (ht : s.SameUpToForgetting t)
    (ht' : s'.SameUpToForgetting t') : t.Mirrors R t' :=
  h.sameUpToSolution ht.sameUpToSolution ht'.sameUpToSolution (h.left.sameUpToForgetting ht)
    (h.right.sameUpToForgetting ht')

/-- More effects are related. -/
lemma extend (h : s.Mirrors R s') (hRS : ∀ e e', R e e' → S e e')
    (heffects : s.graph.effects.Mirrors S s'.graph.effects) : s.Mirrors S s' :=
  { h with
    effects := heffects
    stores := h.stores.mono hRS
    inclusions := h.inclusions.mono fun _ _ _ _ hinc => ⟨hinc.1.mono hRS, hinc.2⟩
    exclusions := h.exclusions.imp fun _ _ hx => hx.mono hRS }

/-- Related effects are given out. -/
lemma madeRelated (h : s.Mirrors R s') {e e' : EffectId} (he : R e e') :
    MadeRelated R (e, s) (e', s') :=
  h.extend (fun _ _ => Or.inl) (h.effects.insert_of_rel he)

/-- The graphs of the sessions mirror each other. -/
lemma graph (h : s.Mirrors R s') : s.graph.Mirrors R s'.graph where
  locations_eq := h.locations_eq
  effects := h.effects
  stores := h.stores
  forth inc hinc := by
    obtain ⟨told, hmem⟩ := mem_inclusions_iff.1 hinc
    obtain ⟨⟨inc', told'⟩, hmem', hmirrors, -⟩ :=
      Multiset.exists_mem_of_rel_of_mem h.inclusions hmem
    exact ⟨inc', mem_inclusions_iff.2 ⟨told', hmem'⟩, hmirrors.source, hmirrors.target⟩
  back inc' hinc' := by
    obtain ⟨told', hmem'⟩ := mem_inclusions_iff.1 hinc'
    obtain ⟨⟨inc, told⟩, hmem, hmirrors, -⟩ :=
      Multiset.exists_mem_of_rel_of_mem (Multiset.rel_flip.2 h.inclusions) hmem'
    exact ⟨inc, mem_inclusions_iff.2 ⟨told, hmem⟩, hmirrors.source, hmirrors.target⟩

lemma classOf_eq (h : s.Mirrors R s') : s.graph.classOf = s'.graph.classOf := h.graph.classOf_eq

lemma find_store (h : s.Mirrors R s') (x : StoreId) :
    s.graph.stores.find x = s'.graph.stores.find x :=
  h.stores.find_eq x

lemma find_location (h : s.Mirrors R s') (a : LocationId) :
    s.graph.locations.find a = s'.graph.locations.find a := by
  rw [h.locations_eq]

lemma find_effect (h : s.Mirrors R s') {e e' : EffectId} (he : R e e') :
    s.graph.effects.find e = .ok (s.graph.effects.root e) ∧
      s'.graph.effects.find e' = .ok (s'.graph.effects.root e') :=
  ⟨if_pos (h.effects.left_lt e e' he), if_pos (h.effects.right_lt e e' he)⟩

lemma withTalk (h : s.Mirrors R s') {talk talk' : Dialogue σ τ} (htalk : talk.Mirrors talk') :
    (s.withTalk talk).Mirrors R (s'.withTalk talk') :=
  { h with
    flow := h.flow.withTalk htalk
    left := ⟨h.left.recipe, h.left.reported_lt, h.left.told⟩
    right := ⟨h.right.recipe, h.right.reported_lt, h.right.told⟩ }

lemma note (h : s.Mirrors R s') (n n' : Notice τ) : (s.note n).Mirrors R (s'.note n') :=
  h.sameUpToForgetting ((SameUpToForgetting.refl s).note n) ((SameUpToForgetting.refl s').note n')

lemma forget (h : s.Mirrors R s') : s.forget.Mirrors R s'.forget :=
  h.sameUpToForgetting (SameUpToForgetting.refl s).forget (SameUpToForgetting.refl s').forget

/-! ## Locations -/

lemma withLocations (h : s.Mirrors R s') (t : Locations τ) :
    ({ s with graph := { s.graph with locations := t } } : Session σ τ).Mirrors R
      { s' with graph := { s'.graph with locations := t } } :=
  { h with
    locations_eq := rfl
    left := ⟨h.left.recipe, h.left.reported_lt, h.left.told⟩
    right := ⟨h.right.recipe, h.right.reported_lt, h.right.told⟩ }

lemma makeLocation (h : s.Mirrors R s') (name : String) (holds : τ) :
    SameAnswer R (s.makeLocation name holds) (s'.makeLocation name holds) := by
  unfold Session.makeLocation
  rw [h.locations_eq]
  exact ⟨rfl, (h.withLocations _).note _ _⟩

lemma sameLocation_eq (h : s.Mirrors R s') (a b : LocationId) :
    s.sameLocation a b = s'.sameLocation a b := by
  unfold Session.sameLocation
  rw [h.find_location, h.find_location]

lemma markLocation (h : s.Mirrors R s') (a : LocationId) :
    Concurs (Mirrors R) (s.markLocation a) (s'.markLocation a) := by
  unfold Session.markLocation
  rw [h.locations_eq]
  refine (Concurs.of_eq rfl).bind ?_
  rintro root _ rfl
  exact .ok (h.withLocations _)

section

variable [QualifierLattice σ τ]

lemma equateHeld (h : s.Mirrors R s') (position : Position) (a b : LocationId) (l r : τ) :
    (s.equateHeld position a b l r).Mirrors R (s'.equateHeld position a b l r) := by
  obtain ⟨hholds, htold⟩ := h.flow.talk.equate .locations l r
  have hequated := h.withTalk htold
  have hname (c : LocationId) : s.graph.locationName c = s'.graph.locationName c := by
    unfold Graph.locationName
    rw [h.locations_eq, h.classOf_eq]
  unfold Session.equateHeld
  dsimp only [Session.talk]
  rw [hholds]
  split
  · exact hequated
  · refine hequated.withTalk (htold.report position ?_)
    exact congrArg Cause.plain (congrArg₂ Cause.incompatibleLocations (hname a) (hname b))

lemma mergeLocations (h : s.Mirrors R s') (position : Position) (a b : LocationId) :
    Concurs (Mirrors R) (s.mergeLocations position a b) (s'.mergeLocations position a b) := by
  refine (Concurs.of_eq (h.find_location a)).bind fun _ _ _ => ?_
  refine (Concurs.of_eq (h.find_location b)).bind fun _ _ _ => ?_
  have hnote : (s.note (.locationsMerged a b)).graph = s.graph := rfl
  have hnote' : (s'.note (.locationsMerged a b)).graph = s'.graph := rfl
  simp only [hnote, hnote', h.locations_eq]
  have hmerged := (h.note (.locationsMerged a b) (.locationsMerged a b)).withLocations
    (s'.graph.locations.merge a b).2
  split
  · exact .ok hmerged
  · split
    · exact .ok (hmerged.equateHeld ..).forget
    · exact .ok hmerged.forget

end

/-! ## Effects -/

/-- The tables of effects are replaced, by such with the same inclusions. -/
lemma withEffects (h : s.Mirrors R s') (hRS : ∀ e e', R e e' → S e e') {u u' : Effects}
    (hu : u.Mirrors S u') (hinclusions : u.inclusions = s.graph.effects.inclusions)
    (hinclusions' : u'.inclusions = s'.graph.effects.inclusions)
    {recipes recipes' : Cache Effects.Recipe EffectId} (hrecipes : recipes.Obeys u.Makes)
    (hrecipes' : recipes'.Obeys u'.Makes) :
    ({ s.withEffects u with recipes } : Session σ τ).Mirrors S
      { s'.withEffects u' with recipes := recipes' } where
  markedOnly_eq := h.markedOnly_eq
  phase_eq := h.phase_eq
  locations_eq := h.locations_eq
  effects := hu
  stores := h.stores.mono hRS
  inclusions := by
    unfold tracked
    dsimp only [Session.withEffects]
    rw [hinclusions, hinclusions']
    exact h.inclusions.mono fun _ _ _ _ hinc => ⟨hinc.1.mono hRS, hinc.2⟩
  exclusions := h.exclusions.imp fun _ _ hx => hx.mono hRS
  requests_eq := h.requests_eq
  linearities_eq := h.linearities_eq
  flow := h.flow
  left := ⟨hrecipes, fun n hn => hinclusions ▸ h.left.reported_lt n hn, h.left.told⟩
  right := ⟨hrecipes', fun n hn => hinclusions' ▸ h.right.reported_lt n hn, h.right.told⟩

end Mirrors

/-- An effect that is recalled or entered has the expression that was asked for. -/
lemma SoundMemory.enters (hs : s.SoundMemory) {locations : Nat}
    (ht : s.graph.effects.Sound locations) {node : EffectNode} {recipe : Effects.Recipe}
    (hrecipe : node.recipe? = some recipe) (notice : EffectId → Notice τ) :
    ∃ u recipes, s.graph.effects.Enters node (s.recallOrEnter recipe node notice).1 u ∧
      recipes.Obeys u.Makes ∧ ({ s.withEffects u with recipes } : Session σ τ).SameUpToForgetting
        (s.recallOrEnter recipe node notice).2 := by
  obtain ⟨henters, hobeys⟩ := enters_recallOrEnter hs.recipe ht hrecipe notice
  refine ⟨_, _, henters, hobeys, ?_⟩
  unfold recallOrEnter
  dsimp only
  cases (s.recipes.get? recipe).1 with
  | some e => exact .refl _
  | none =>
    obtain ⟨solution, questions, flow, heq, hflow, hsol⟩ := (SameUpToForgetting.refl
      (({ s with recipes := (s.recipes.get? recipe).2 } : Session σ τ).withEffects
        (s.graph.effects.add node).2)).forget.note (notice ⟨s.graph.effects.size⟩)
    unfold enterEffect
    dsimp only [Effects.add] at heq ⊢
    rw [heq]
    exact ⟨solution, questions, flow, rfl, hflow, hsol⟩

namespace Mirrors

lemma recallOrEnter (h : s.Mirrors R s') (hs : s.graph.Sound) (hs' : s'.graph.Sound)
    {node node' : EffectNode} {recipe recipe' : Effects.Recipe} (hnode : node.Mirrors R node')
    (hrecipe : node.recipe? = some recipe) (hrecipe' : node'.recipe? = some recipe')
    (notice notice' : EffectId → Notice τ) :
    MadeRelated R (s.recallOrEnter recipe node notice)
      (s'.recallOrEnter recipe' node' notice') := by
  obtain ⟨u, recipes, hu, hrecipes, hsame⟩ := h.left.enters hs.effects hrecipe notice
  obtain ⟨u', recipes', hu', hrecipes', hsame'⟩ := h.right.enters hs'.effects hrecipe' notice'
  have hvar : node.isVariable = false := by
    cases node <;> simp_all [EffectNode.recipe?, EffectNode.isVariable]
  have hmirrors := h.effects.enters hs.effects hs'.effects hu hu' hnode hvar
  exact (h.withEffects (fun _ _ => Or.inl) hmirrors hu.inclusions_eq hu'.inclusions_eq hrecipes
    hrecipes').sameUpToForgetting hsame hsame'

lemma atom (h : s.Mirrors R s') (hs : s.graph.Sound) (hs' : s'.graph.Sound) (kind : Kind)
    (a : LocationId) : Concurs (MadeRelated R) (s.atom kind a) (s'.atom kind a) :=
  (Concurs.of_eq (h.find_location a)).bind fun _ _ _ =>
    .ok (h.recallOrEnter hs hs' (.atom kind a) rfl rfl _ _)

lemma effectVariable (h : s.Mirrors R s') (hs : s.graph.Sound) (hs' : s'.graph.Sound)
    (name name' : String) : MadeRelated R (s.effectVariable name) (s'.effectVariable name') := by
  have hmirrors := h.effects.add_variable hs.effects (h.locations_eq ▸ hs'.effects) name name'
  have hentered := h.withEffects (fun _ _ => Or.inl) hmirrors rfl rfl
    (fun entry hentry => (h.left.recipe entry hentry).add _)
    (fun entry hentry => (h.right.recipe entry hentry).add _)
  exact hentered.forget.note _ _

/-- Marks and made-up names do not matter. -/
lemma withLabels (h : s.Mirrors R s') {u u' : Effects} (hnodes : u.nodes = s.graph.effects.nodes)
    (hclasses : u.classes = s.graph.effects.classes)
    (hinclusions : u.inclusions = s.graph.effects.inclusions)
    (hnodes' : u'.nodes = s'.graph.effects.nodes)
    (hclasses' : u'.classes = s'.graph.effects.classes)
    (hinclusions' : u'.inclusions = s'.graph.effects.inclusions) :
    (s.withEffects u).Mirrors R (s'.withEffects u') := by
  obtain ⟨nodes, classes, marked, inclusions, names⟩ := u
  obtain ⟨nodes', classes', marked', inclusions', names'⟩ := u'
  dsimp only at hnodes hclasses hnodes' hclasses'
  subst hnodes hclasses hnodes' hclasses'
  have hmirrors : Effects.Mirrors R ⟨_, _, marked, inclusions, names⟩
      ⟨_, _, marked', inclusions', names'⟩ :=
    ⟨h.effects.left_lt, h.effects.right_lt, h.effects.isEmpty_eq, h.effects.node,
      h.effects.variable_iff⟩
  exact h.withEffects (fun _ _ he => he) hmirrors hinclusions hinclusions' h.left.recipe
    h.right.recipe

lemma freshEffect (h : s.Mirrors R s') (hs : s.graph.Sound) (hs' : s'.graph.Sound) :
    MadeRelated R s.freshEffect s'.freshEffect := by
  have hnamed : (s.withEffects s.graph.effects.freshName.2).Mirrors R
      (s'.withEffects s'.graph.effects.freshName.2) := h.withLabels rfl rfl rfl rfl rfl rfl
  have hsound {s : Session σ τ} (hs : s.graph.Sound) :
      (s.withEffects s.graph.effects.freshName.2).graph.Sound := by
    have hgrows : s.graph.Grows False { s.graph with effects := s.graph.effects.freshName.2 } :=
      hs.grows_labels rfl rfl rfl
    exact hgrows.sound
  exact hnamed.effectVariable (hsound hs) (hsound hs') _ _

lemma markEffect (h : s.Mirrors R s') {e e' : EffectId} (he : R e e') :
    Concurs (Mirrors R) (s.markEffect e) (s'.markEffect e') := by
  unfold Session.markEffect
  rw [(h.find_effect he).1, (h.find_effect he).2]
  exact .ok (h.withLabels rfl rfl rfl rfl rfl rfl)

lemma locationOfAtom_eq (h : s.Mirrors R s') {e e' : EffectId} (he : R e e') :
    s.locationOfAtom e = s'.locationOfAtom e' := by
  have hnode := h.effects.node e e' he
  unfold Effects.node at hnode
  unfold Session.locationOfAtom
  rw [(h.find_effect he).1, (h.find_effect he).2]
  dsimp only [bind, Except.bind]
  generalize s.graph.effects.nodeAt _ = n at hnode
  generalize s'.graph.effects.nodeAt _ = n' at hnode
  cases hnode <;> rfl

section Pairs

variable {e₁ e₂ e₁' e₂' : EffectId} (h : s.Mirrors R s') (hs : s.graph.Sound) (hs' : s'.graph.Sound)
  (hd : s.graph.effects.Separates R s'.graph.effects) (h₁ : R e₁ e₁') (h₂ : R e₂ e₂')

include h hs hs' hd h₁ h₂

lemma knownEqual_eq : s.knownEqual e₁ e₂ = s'.knownEqual e₁' e₂' := by
  unfold Session.knownEqual
  rw [(h.find_effect h₁).1, (h.find_effect h₁).2, (h.find_effect h₂).1, (h.find_effect h₂).2]
  rw [← h.classOf_eq]
  exact congrArg Except.ok
    (h.effects.knownEqual_eq hd hs.effects (h.locations_eq ▸ hs'.effects) h₁ h₂)

/-- An operator is not made of effects that are known to be equal. -/
lemma unlessEqual {node node' : EffectNode} {recipe recipe' : Effects.Recipe}
    (hnode : node.Mirrors R node') (hrecipe : node.recipe? = some recipe)
    (hrecipe' : node'.recipe? = some recipe') (notice notice' : EffectId → Notice τ) :
    Concurs (MadeRelated R)
      (do
        if ← s.knownEqual e₁ e₂ then return (e₁, s)
        else return s.recallOrEnter recipe node notice)
      (do
        if ← s'.knownEqual e₁' e₂' then return (e₁', s')
        else return s'.recallOrEnter recipe' node' notice') := by
  refine (Concurs.of_eq (h.knownEqual_eq hs hs' hd h₁ h₂)).bind ?_
  rintro same _ rfl
  split
  · exact .ok (h.madeRelated h₁)
  · exact .ok (h.recallOrEnter hs hs' hnode hrecipe hrecipe' _ _)

lemma union : Concurs (MadeRelated R) (s.union e₁ e₂) (s'.union e₁' e₂') := by
  unfold Session.union
  rw [h.effects.isEmpty_eq e₁ e₁' h₁, h.effects.isEmpty_eq e₂ e₂' h₂]
  split
  · exact .ok (h.madeRelated h₂)
  · split
    · exact .ok (h.madeRelated h₁)
    · exact h.unlessEqual hs hs' hd h₁ h₂ (.unionNode h₁ h₂) rfl rfl _ _

lemma inter (hempty : R .empty .empty) :
    Concurs (MadeRelated R) (s.inter e₁ e₂) (s'.inter e₁' e₂') := by
  unfold Session.inter
  rw [h.effects.isEmpty_eq e₁ e₁' h₁, h.effects.isEmpty_eq e₂ e₂' h₂]
  split
  · exact .error trivial
  · split
    · exact .ok (h.madeRelated hempty)
    · exact h.unlessEqual hs hs' hd h₁ h₂ (.inter h₁ h₂) rfl rfl _ _

end Pairs

end Mirrors

/-! ## Constraints on effects -/

/-- The inclusions that a split leaves to record. -/
def toInclusions (position : Position) (steps : List Effects.SplitStep) : List Inclusion :=
  (steps.filter (·.recorded)).map fun step => ⟨step.source, step.target, position⟩

lemma foldl_addInclusion_eq (incs : List Inclusion) (u : Effects) :
    ∃ inclusions, incs.foldl Effects.addInclusion u = { u with inclusions } ∧
      inclusions.toList = u.inclusions.toList ++ incs := by
  induction incs generalizing u with
  | nil => exact ⟨u.inclusions, rfl, (List.append_nil _).symm⟩
  | cons inc incs ih =>
    obtain ⟨inclusions, heq, hlist⟩ := ih (u.addInclusion inc)
    refine ⟨inclusions, heq, hlist.trans ?_⟩
    simp [Effects.addInclusion]

/-- Splitting an inclusion does no more than to record what is left of it. -/
lemma sameUpToForgetting_includeSteps (position : Position) (steps : List Effects.SplitStep)
    (s : Session σ τ) :
    (s.withEffects ((toInclusions position steps).foldl Effects.addInclusion
      s.graph.effects)).SameUpToForgetting (steps.foldl (includeStep position) s) := by
  induction steps generalizing s with
  | nil => exact .refl s
  | cons step steps ih =>
    rw [List.foldl_cons]
    refine .trans ?_ (ih _)
    have hnoted (u : Effects) : (s.withEffects u).SameUpToForgetting
        ((s.note (.inclusionAsked step.source step.target)).withEffects u) :=
      ((SameUpToForgetting.refl s).note _).withEffects u
    unfold includeStep
    cases hrec : step.recorded with
    | false =>
      rw [show toInclusions position (step :: steps) = toInclusions position steps by
        simp [toInclusions, hrec]]
      exact hnoted _
    | true =>
      rw [show toInclusions position (step :: steps) = ⟨step.source, step.target, position⟩ ::
        toInclusions position steps by simp [toInclusions, hrec]]
      dsimp only
      rw [if_pos rfl, graph_forget]
      exact (hnoted (s.graph.effects.addInclusion _)).forget.withEffects _

lemma node_includeSteps (position : Position) (steps : List Effects.SplitStep) (s : Session σ τ) :
    (steps.foldl (includeStep position) s).graph.effects.node = s.graph.effects.node := by
  obtain ⟨inclusions, heq, -⟩ :=
    foldl_addInclusion_eq (toInclusions position steps) s.graph.effects
  obtain ⟨solution, questions, flow, hsame, -⟩ := sameUpToForgetting_includeSteps position steps s
  rw [hsame, heq]
  rfl

/-- What is recorded was not reported yet. -/
lemma SoundMemory.tracked_eq (hs : s.SoundMemory) {inclusions : Array Inclusion}
    {incs : List Inclusion}
    (h : inclusions.toList = s.graph.effects.inclusions.toList ++ incs) :
    (s.withEffects { s.graph.effects with inclusions }).tracked =
      s.tracked ++ incs.map fun inc => (inc, false) := by
  have hnew : ∀ numbered ∈ incs.zipIdx s.graph.effects.inclusions.toList.length,
      (numbered.1, decide (numbered.2 ∈ s.reported)) = (numbered.1, false) := by
    intro numbered hmem
    refine congrArg _ (decide_eq_false fun hreported => ?_)
    have hlt := hs.reported_lt _ hreported
    have hle := (List.mem_zipIdx hmem).1
    rw [Array.length_toList] at hle
    omega
  change inclusions.toList.zipIdx.map (fun numbered =>
    (numbered.1, decide (numbered.2 ∈ s.reported))) = _
  have hfirst : (incs.zipIdx s.graph.effects.inclusions.toList.length).map
      (fun numbered => (numbered.1, false)) = incs.map fun inc => (inc, false) := by
    conv_rhs => rw [← List.zipIdx_map_fst s.graph.effects.inclusions.toList.length incs]
    rw [List.map_map]
    rfl
  rw [h, List.zipIdx_append, List.map_append, Nat.zero_add, List.map_congr_left hnew, hfirst]
  rfl

namespace Mirrors

/-- Related inclusions are recorded in both sessions. -/
lemma addInclusions (h : s.Mirrors R s') {incs incs' : List Inclusion}
    (hincs : Multiset.Rel (Inclusion.Mirrors R) (incs : Multiset Inclusion) incs') :
    (s.withEffects (incs.foldl Effects.addInclusion s.graph.effects)).Mirrors R
      (s'.withEffects (incs'.foldl Effects.addInclusion s'.graph.effects)) := by
  obtain ⟨inclusions, heq, hlist⟩ := foldl_addInclusion_eq incs s.graph.effects
  obtain ⟨inclusions', heq', hlist'⟩ := foldl_addInclusion_eq incs' s'.graph.effects
  have hlt {s : Session σ τ} (hs : s.SoundMemory) {inclusions : Array Inclusion}
      {incs : List Inclusion}
      (hlist : inclusions.toList = s.graph.effects.inclusions.toList ++ incs) :
      ∀ n ∈ s.reported, n < inclusions.size := by
    intro n hn
    have hold := hs.reported_lt n hn
    have hsize := congrArg List.length hlist
    rw [List.length_append, Array.length_toList, Array.length_toList] at hsize
    omega
  rw [heq, heq']
  exact { h with
    effects := ⟨h.effects.left_lt, h.effects.right_lt, h.effects.isEmpty_eq, h.effects.node,
      h.effects.variable_iff⟩
    inclusions := by
      rw [h.left.tracked_eq hlist, h.right.tracked_eq hlist', ← Multiset.coe_add,
        ← Multiset.coe_add, ← Multiset.map_coe, ← Multiset.map_coe]
      refine h.inclusions.add (Multiset.rel_map.2 ?_)
      exact hincs.mono fun _ _ _ _ hinc => ⟨hinc, rfl⟩
    left := ⟨h.left.recipe, hlt h.left hlist, h.left.told⟩
    right := ⟨h.right.recipe, hlt h.right hlist', h.right.told⟩ }

section Pairs

variable {e₁ e₂ e₁' e₂' : EffectId} (h : s.Mirrors R s') (hs : s.graph.Sound) (hs' : s'.graph.Sound)
  (hd : s.graph.effects.Separates R s'.graph.effects) (h₁ : R e₁ e₁') (h₂ : R e₂ e₂')

include h hs hs' hd h₁ h₂

lemma includeSteps (position : Position) :
    ((s.graph.effects.split s.graph.classOf e₁ e₂).foldl (includeStep position) s).Mirrors R
      ((s'.graph.effects.split s'.graph.classOf e₁' e₂').foldl (includeStep position) s') := by
  refine (h.addInclusions ?_).sameUpToForgetting (sameUpToForgetting_includeSteps position _ s)
    (sameUpToForgetting_includeSteps position _ s')
  unfold toInclusions
  rw [← Multiset.map_coe, ← Multiset.map_coe, Multiset.rel_map, ← h.classOf_eq]
  exact (h.effects.rel_split hd hs.effects (h.locations_eq ▸ hs'.effects) h₁ h₂).mono
    fun _ _ _ _ hstep => ⟨hstep.1, hstep.2, rfl⟩

lemma includeEffect (position : Position) :
    Concurs (Mirrors R) (s.includeEffect position e₁ e₂) (s'.includeEffect position e₁' e₂') := by
  rw [includeEffect_of_lt fun _ => ⟨h.effects.left_lt _ _ h₁, h.effects.left_lt _ _ h₂⟩,
    includeEffect_of_lt fun _ => ⟨h.effects.right_lt _ _ h₁, h.effects.right_lt _ _ h₂⟩]
  exact .ok (h.includeSteps hs hs' hd h₁ h₂ position)

lemma equateEffects [QualifierLattice σ τ] (position : Position) :
    Concurs (Mirrors R) (s.equateEffects position e₁ e₂) (s'.equateEffects position e₁' e₂') := by
  have hfirst : s.includeEffect position e₁ e₂ = .ok _ :=
    includeEffect_of_lt fun _ => ⟨h.effects.left_lt _ _ h₁, h.effects.left_lt _ _ h₂⟩
  have hfirst' : s'.includeEffect position e₁' e₂' = .ok _ :=
    includeEffect_of_lt fun _ => ⟨h.effects.right_lt _ _ h₁, h.effects.right_lt _ _ h₂⟩
  have hboth := h.includeSteps hs hs' hd h₁ h₂ position
  unfold Session.equateEffects
  rw [hfirst, hfirst']
  refine hboth.includeEffect ?_ ?_ ?_ h₂ h₁ position
  · have hbuilds : Builds False (.includeEffect position e₁ e₂) s _ :=
      builds_includeEffect hs rfl hfirst
    exact (hbuilds.grows hs).sound
  · have hbuilds : Builds False (.includeEffect position e₁' e₂') s' _ :=
      builds_includeEffect hs' rfl hfirst'
    exact (hbuilds.grows hs').sound
  · -- Recording inclusions leaves the expressions as they are.
    intro e e' f f' he hf hinter
    rw [node_includeSteps, node_includeSteps] at hinter
    exact hd e e' f f' he hf hinter

end Pairs

/-- Variables are found in both sessions. -/
lemma findEffectVariable (h : s.Mirrors R s') {e e' : EffectId} (he : R e e') :
    Concurs (fun r r' => r = s.graph.effects.root e ∧ r' = s'.graph.effects.root e' ∧
        (s.graph.effects.node e).isVariable = true)
      (s.findEffectVariable e) (s'.findEffectVariable e') := by
  have hnode := h.effects.node e e' he
  unfold Session.findEffectVariable Effects.isVariable
  rw [(h.find_effect he).1, (h.find_effect he).2]
  dsimp only [bind, Except.bind]
  generalize s.graph.effects.node e = n at hnode ⊢
  generalize s'.graph.effects.node e' = n' at hnode
  cases hnode with
  | var => exact .ok ⟨rfl, rfl, rfl⟩
  | _ => exact .error trivial

lemma mergeEffects (h : s.Mirrors R s') (hs : s.graph.Sound) (hs' : s'.graph.Sound)
    {e₁ e₂ e₁' e₂' : EffectId} (h₁ : R e₁ e₁') (h₂ : R e₂ e₂') :
    Concurs (Mirrors R) (s.mergeEffects e₁ e₂) (s'.mergeEffects e₁' e₂') := by
  refine (h.findEffectVariable h₁).bind ?_
  rintro r₁ r₁' ⟨rfl, rfl, hvar₁⟩
  refine (h.findEffectVariable h₂).bind ?_
  rintro r₂ r₂' ⟨rfl, rfl, hvar₂⟩
  have hsame := h.effects.variable_iff e₁ e₁' e₂ e₂' h₁ h₂ hvar₁
  have hnote := h.note (.effectsMerged e₁ e₂) (.effectsMerged e₁' e₂')
  dsimp only
  by_cases heq : s.graph.effects.root e₁ = s.graph.effects.root e₂
  · rw [if_pos heq, if_pos (hsame.1 heq)]
    exact .ok hnote
  · rw [if_neg heq, if_neg (mt hsame.2 heq)]
    have hjoin := h.effects.join hs.effects (h.locations_eq ▸ hs'.effects) h₁ h₂ hvar₁ hvar₂ heq
    exact .ok (hnote.withEffects (fun _ _ he => he) hjoin rfl rfl hnote.left.recipe
      hnote.right.recipe).forget

/-! ## Stores -/

lemma withStores (h : s.Mirrors R s') {u u' : Stores τ} (hu : u.Mirrors R u') :
    (s.withStores u).Mirrors R (s'.withStores u') :=
  { h with
    stores := hu
    left := ⟨h.left.recipe, h.left.reported_lt, h.left.told⟩
    right := ⟨h.right.recipe, h.right.reported_lt, h.right.told⟩ }

lemma enterStore (h : s.Mirrors R s') {node node' : StoreNode τ} (hnode : node.Mirrors R node') :
    SameAnswer R (s.enterStore node) (s'.enterStore node') :=
  ⟨congrArg StoreId.mk h.stores.size_eq, (h.withStores (h.stores.add hnode)).forget⟩

lemma storeVariable (h : s.Mirrors R s') (position : Position) (name : String) :
    SameAnswer R (s.storeVariable position name) (s'.storeVariable position name) :=
  ⟨(h.enterStore (.var name)).1, (h.enterStore (.var name)).2.note _ _⟩

lemma restrict (h : s.Mirrors R s') (position : Position) (base : StoreId) {e e' : EffectId}
    (he : R e e') : SameAnswer R (s.restrict position base e) (s'.restrict position base e') :=
  ⟨(h.enterStore (.restrict base he)).1, (h.enterStore (.restrict base he)).2.note _ _⟩

lemma overlay (h : s.Mirrors R s') (position : Position) (inside outside : StoreId)
    {e e' : EffectId} (he : R e e') :
    SameAnswer R (s.overlay position inside outside e) (s'.overlay position inside outside e') :=
  ⟨(h.enterStore (.overlay inside outside he)).1,
    (h.enterStore (.overlay inside outside he)).2.note _ _⟩

lemma update (h : s.Mirrors R s') (position : Position) (message : String) (base : StoreId)
    (a : LocationId) (type : τ) (strong : Bool) :
    SameAnswer R (s.update position message base a type strong)
      (s'.update position message base a type strong) :=
  ⟨(h.enterStore (.update base a type strong position message)).1,
    (h.enterStore (.update base a type strong position message)).2.note _ _⟩

lemma sameStore_eq (h : s.Mirrors R s') (x y : StoreId) : s.sameStore x y = s'.sameStore x y := by
  unfold Session.sameStore
  rw [h.find_store, h.find_store]

lemma includeStore (h : s.Mirrors R s') (position : Position) (message : String)
    (left right : StoreId) :
    Concurs (Mirrors R) (s.includeStore position message left right)
      (s'.includeStore position message left right) := by
  refine (Concurs.of_eq (h.sameStore_eq left right)).bind ?_
  rintro same _ rfl
  have hnote := h.note (.edgeAsked left right) (.edgeAsked left right)
  split
  · exact .ok hnote
  · exact .ok (hnote.withStores (hnote.stores.addEdge _)).forget

lemma equateStores (h : s.Mirrors R s') (position : Position) (message : String) (x y : StoreId) :
    Concurs (Mirrors R) (s.equateStores position message x y)
      (s'.equateStores position message x y) :=
  (h.includeStore ..).bind fun _ _ h' => h'.includeStore ..

lemma joinStores (h : s.Mirrors R s') (position : Position) (message : String) (x y : StoreId) :
    Concurs (SameAnswer R) (s.joinStores position message x y)
      (s'.joinStores position message x y) :=
  corresponds_joinStores (fun _ => trivial) (h.storeVariable position "lub")
    (fun h => h.includeStore position message) fun h => h.sameStore_eq x y

lemma findStoreVariable_eq (h : s.Mirrors R s') (x : StoreId) :
    s.findStoreVariable x = s'.findStoreVariable x := by
  unfold Session.findStoreVariable
  simp only [h.find_store, (h.stores.node _).isVariable_eq]

lemma mergeStores (h : s.Mirrors R s') (position : Position) (message : String) (x y : StoreId) :
    Concurs (Mirrors R) (s.mergeStores position message x y)
      (s'.mergeStores position message x y) := by
  refine (Concurs.of_eq (h.findStoreVariable_eq x)).bind ?_
  rintro rx _ rfl
  refine (Concurs.of_eq (h.findStoreVariable_eq y)).bind ?_
  rintro ry _ rfl
  have hnote := h.note (.storesMerged position message x y) (.storesMerged position message x y)
  split
  · exact .ok hnote
  · exact .ok (hnote.withStores (hnote.stores.join _ _)).forget

section

variable [QualifierLattice σ τ]

lemma allocate (h : s.Mirrors R s') (position : Position) (base : StoreId) (a : LocationId) :
    Concurs (SameAnswer R) (s.allocate position base a) (s'.allocate position base a) := by
  unfold Session.allocate
  rw [h.locations_eq]
  refine (Concurs.of_eq rfl).bind ?_
  rintro record _ rfl
  obtain ⟨hfresh, htalk⟩ := h.flow.talk.fresh record.holds
  dsimp only [Session.talk]
  rw [hfresh]
  have hentered := (h.withTalk htalk).enterStore
    (.allocate base a (s'.flow.talk.fresh record.holds).1)
  refine .ok ⟨hentered.1, ?_⟩
  exact hentered.2.note _ _

lemma allocateSteps (position : Position) (locations : List LocationId) (x : StoreId)
    (h : s.Mirrors R s') :
    Concurs (SameAnswer R) (locations.foldlM (fun (x, s) a => s.allocate position x a) (x, s))
      (locations.foldlM (fun (x, s) a => s.allocate position x a) (x, s')) := by
  induction locations generalizing x s s' with
  | nil => exact .ok ⟨rfl, h⟩
  | cons a locations ih =>
    refine (h.allocate position x a).bind ?_
    rintro ⟨y, t⟩ ⟨_, t'⟩ ⟨rfl, ht⟩
    exact ih y ht

/-- Every location of an effect is allocated in both sessions, if its locations come in the same
order. -/
lemma allocateAll (h : s.Mirrors R s') (position : Position) (base : StoreId) {e e' : EffectId}
    (he : R e e')
    (hatoms : (s.graph.effects.atoms e).toOption = (s'.graph.effects.atoms e').toOption) :
    Concurs (SameAnswer R) (s.allocateAll position base e) (s'.allocateAll position base e') := by
  unfold Session.allocateAll
  rw [(h.find_effect he).1, (h.find_effect he).2, h.classOf_eq]
  dsimp only [bind, Except.bind]
  cases hleft : s.graph.effects.atoms e with
  | error part =>
    cases hright : s'.graph.effects.atoms e' with
    | error part' => exact .error trivial
    | ok locations => simp [hleft, hright, Except.toOption] at hatoms
  | ok locations =>
    cases hright : s'.graph.effects.atoms e' with
    | error part' => simp [hleft, hright, Except.toOption] at hatoms
    | ok locations' =>
      obtain rfl : locations = locations' := by
        simpa [hleft, hright, Except.toOption] using hatoms
      exact allocateSteps position _ base h

end

end Mirrors

end Session

end HeapQual
