import HeapQual.Proofs.Session.Invariants
import HeapQual.Proofs.Shape

/-!
# The same commands build the same graph

What a command adds to the graph depends on the shape of the graph and on the memo table of recipes,
and on nothing else: not on the phase, nor on what was asked before, nor on types.  Two sessions
that agree in these two are *alike* (`Session.Alike`).  Alike sessions stay alike when they are
given the same commands, whatever types occur in the commands (`Session.Alike.carries`).  A command
that cannot make the graph grow leaves a session alike to what it was
(`Session.alike_of_not_grows`).

So it does not matter when a question is put, or the graph is closed.
-/

namespace HeapQual

variable {σ τ : Type}

/-! ## Commands that differ in types -/

namespace Command

/-- The commands are the same but for the types in them. -/
inductive Alike : Command τ → Command τ → Prop
  | refl (c : Command τ) : Alike c c
  | makeLocation (name : String) (holds holds' : τ) :
      Alike (.makeLocation name holds) (.makeLocation name holds')
  | update (position : Position) (message : String) (base : StoreId) (a : LocationId)
      (type type' : τ) (strong : Bool) :
      Alike (.update position message base a type strong)
        (.update position message base a type' strong)

end Command

namespace Session

variable {command : Command τ} {s s' s'' : Session σ τ}

/-- The graphs of the sessions have one shape, and the sessions remember the same recipes. -/
structure Alike (s s' : Session σ τ) : Prop where
  shape_eq : s.graph.shape = s'.graph.shape
  recipes_eq : s.recipes = s'.recipes

/-- The answers are the same, and the sessions are related. -/
def Along {α : Type} (R : Session σ τ → Session σ τ → Prop) (p p' : α × Session σ τ) : Prop :=
  p.1 = p'.1 ∧ R p.2 p'.2

/-- The answers are the same, and the sessions are alike. -/
abbrev Twins {α : Type} (p p' : α × Session σ τ) : Prop := Along Alike p p'

lemma Twins.note {α : Type} {p p' : α × Session σ τ} (h : Twins p p') (n n' : Notice τ) :
    Twins (p.1, p.2.note n) (p'.1, p'.2.note n') :=
  ⟨h.1, h.2.shape_eq, h.2.recipes_eq⟩

/-- Stores are joined alike in sessions that make variables, include stores and compare them
alike. -/
lemma corresponds_joinStores {F : Fault → Fault → Prop} {R : Session σ τ → Session σ τ → Prop}
    {position : Position} {message : String} {x y : StoreId} (hF : ∀ fault, F fault fault)
    (hvariable : Along R (s.storeVariable position "lub") (s'.storeVariable position "lub"))
    (hinclude : ∀ {t t'}, R t t' → ∀ x y, Corresponds F R (t.includeStore position message x y)
      (t'.includeStore position message x y))
    (hsame : ∀ {t t'}, R t t' → t.sameStore x y = t'.sameStore x y) :
    Corresponds F (Along R) (s.joinStores position message x y)
      (s'.joinStores position message x y) := by
  unfold joinStores
  obtain ⟨hz, hvariable⟩ := hvariable
  generalize s.storeVariable position "lub" = made at hz hvariable ⊢
  generalize s'.storeVariable position "lub" = made' at hz hvariable ⊢
  obtain ⟨z, t⟩ := made
  obtain ⟨z', t'⟩ := made'
  obtain rfl : z = z' := hz
  refine (hinclude hvariable x z).bind fun t₁ t₁' ht₁ => ?_
  refine (Corresponds.of_eq hF (hsame ht₁)).bind ?_
  rintro same _ rfl
  split
  · exact .ok ⟨rfl, ht₁⟩
  · exact (hinclude ht₁ y z).bind fun t₂ t₂' ht₂ => .ok ⟨rfl, ht₂⟩

lemma recipes_forget (s : Session σ τ) : s.forget.recipes = s.recipes := by
  unfold forget
  split <;> rfl

namespace Alike

lemma symm (h : s.Alike s') : s'.Alike s := ⟨h.shape_eq.symm, h.recipes_eq.symm⟩

lemma trans (h : s.Alike s') (h' : s'.Alike s'') : s.Alike s'' :=
  ⟨h.shape_eq.trans h'.shape_eq, h.recipes_eq.trans h'.recipes_eq⟩

variable (h : s.Alike s')

include h

lemma locations_eq : s.graph.locations.shape = s'.graph.locations.shape :=
  congrArg Graph.locations h.shape_eq

lemma effects_eq : s.graph.effects = s'.graph.effects := by
  have heffects := congrArg Graph.effects h.shape_eq
  exact heffects

lemma stores_eq : s.graph.stores.shape = s'.graph.stores.shape := congrArg Graph.stores h.shape_eq

lemma classOf_eq : s.graph.classOf = s'.graph.classOf := by
  have hclassOf := congrArg Graph.classOf h.shape_eq
  exact hclassOf

lemma find_location (a : LocationId) : s.graph.locations.find a = s'.graph.locations.find a := by
  rw [← Locations.find_shape, h.locations_eq, Locations.find_shape]

lemma find_store (x : StoreId) : s.graph.stores.find x = s'.graph.stores.find x := by
  rw [← Stores.find_shape, h.stores_eq, Stores.find_shape]

lemma size_stores : s.graph.stores.size = s'.graph.stores.size := by
  rw [← Stores.size_shape, h.stores_eq, Stores.size_shape]

lemma isVariable_nodeAt (i : Nat) :
    (s.graph.stores.nodeAt i).isVariable = (s'.graph.stores.nodeAt i).isVariable := by
  rw [← StoreNode.isVariable_shape, ← Stores.nodeAt_shape, h.stores_eq, Stores.nodeAt_shape,
    StoreNode.isVariable_shape]

lemma withTalk (talk talk' : Dialogue σ τ) : (s.withTalk talk).Alike (s'.withTalk talk') :=
  ⟨h.shape_eq, h.recipes_eq⟩

lemma note (n n' : Notice τ) : (s.note n).Alike (s'.note n') := h.withTalk _ _

lemma forget : s.forget.Alike s'.forget := by
  refine ⟨?_, ?_⟩
  · rw [graph_forget, graph_forget]
    exact h.shape_eq
  · rw [recipes_forget, recipes_forget]
    exact h.recipes_eq

lemma withLocations {t t' : Locations τ} (ht : t.shape = t'.shape) :
    ({ s with graph := { s.graph with locations := t } } : Session σ τ).Alike
      { s' with graph := { s'.graph with locations := t' } } := by
  refine ⟨?_, h.recipes_eq⟩
  change (⟨t.shape, s.graph.effects, s.graph.stores.shape⟩ : Graph Unit) =
    ⟨t'.shape, s'.graph.effects, s'.graph.stores.shape⟩
  rw [ht, h.effects_eq, h.stores_eq]

lemma withEffects {t t' : Effects} (ht : t = t') : (s.withEffects t).Alike (s'.withEffects t') := by
  refine ⟨?_, h.recipes_eq⟩
  change (⟨s.graph.locations.shape, t, s.graph.stores.shape⟩ : Graph Unit) =
    ⟨s'.graph.locations.shape, t', s'.graph.stores.shape⟩
  rw [h.locations_eq, ht, h.stores_eq]

lemma withStores {t t' : Stores τ} (ht : t.shape = t'.shape) :
    (s.withStores t).Alike (s'.withStores t') := by
  refine ⟨?_, h.recipes_eq⟩
  change (⟨s.graph.locations.shape, s.graph.effects, t.shape⟩ : Graph Unit) =
    ⟨s'.graph.locations.shape, s'.graph.effects, t'.shape⟩
  rw [h.locations_eq, h.effects_eq, ht]

/-! ## Locations -/

lemma makeLocation (name : String) (holds holds' : τ) :
    Twins (s.makeLocation name holds) (s'.makeLocation name holds') := by
  have hsize : s.graph.locations.size = s'.graph.locations.size := by
    rw [← Locations.size_shape, h.locations_eq, Locations.size_shape]
  have hadd : (s.graph.locations.add name holds).2.shape =
      (s'.graph.locations.add name holds').2.shape := by
    rw [Locations.shape_add, Locations.shape_add, h.locations_eq]
  exact ⟨congrArg LocationId.mk hsize, (h.withLocations hadd).note _ _⟩

lemma markLocation (a : LocationId) : Matches Alike (s.markLocation a) (s'.markLocation a) := by
  refine (Matches.of_eq (h.find_location a)).bind ?_
  rintro root _ rfl
  refine .ok (h.withLocations ?_)
  rw [Locations.shape_mark, Locations.shape_mark, h.locations_eq]

/-! ## Effects -/

lemma enterEffect (node : EffectNode) : Twins (s.enterEffect node) (s'.enterEffect node) := by
  unfold Session.enterEffect
  rw [h.effects_eq]
  exact ⟨rfl, (h.withEffects rfl).forget⟩

lemma recallOrEnter (recipe : Effects.Recipe) (node : EffectNode)
    (notice notice' : EffectId → Notice τ) :
    Twins (s.recallOrEnter recipe node notice) (s'.recallOrEnter recipe node notice') := by
  unfold Session.recallOrEnter
  rw [h.recipes_eq]
  generalize s'.recipes.get? recipe = found
  obtain ⟨held, recipes⟩ := found
  have hrecipes : ({ s with recipes } : Session σ τ).Alike { s' with recipes } := ⟨h.shape_eq, rfl⟩
  cases held with
  | some e => exact ⟨rfl, hrecipes⟩
  | none =>
    obtain ⟨he, hentered⟩ := hrecipes.enterEffect node
    refine ⟨he, hentered.shape_eq, ?_⟩
    exact congrArg₂ (fun (recipes : Cache Effects.Recipe EffectId) e => recipes.insert recipe e)
      hentered.recipes_eq he

lemma atom (kind : Kind) (a : LocationId) : Matches Twins (s.atom kind a) (s'.atom kind a) :=
  (Matches.of_eq (h.find_location a)).bind fun _ _ _ => .ok (h.recallOrEnter ..)

lemma effectVariable (name : String) : Twins (s.effectVariable name) (s'.effectVariable name) :=
  (h.enterEffect (.var name)).note _ _

lemma freshEffect : Twins s.freshEffect s'.freshEffect := by
  unfold Session.freshEffect
  rw [h.effects_eq]
  exact (h.withEffects rfl).effectVariable _

lemma knownEqual (e₁ e₂ : EffectId) : s.knownEqual e₁ e₂ = s'.knownEqual e₁ e₂ := by
  unfold Session.knownEqual
  rw [h.effects_eq, h.classOf_eq]

/-- An operator is not made of effects that are known to be equal. -/
lemma unlessEqual (e₁ e₂ : EffectId) (recipe : Effects.Recipe) (node : EffectNode)
    (notice notice' : EffectId → Notice τ) :
    Matches Twins
      (do
        if ← s.knownEqual e₁ e₂ then return (e₁, s)
        else return s.recallOrEnter recipe node notice)
      (do
        if ← s'.knownEqual e₁ e₂ then return (e₁, s')
        else return s'.recallOrEnter recipe node notice') := by
  refine (Matches.of_eq (h.knownEqual e₁ e₂)).bind ?_
  rintro same _ rfl
  split
  · exact .ok ⟨rfl, h⟩
  · exact .ok (h.recallOrEnter ..)

lemma union (e₁ e₂ : EffectId) : Matches Twins (s.union e₁ e₂) (s'.union e₁ e₂) := by
  unfold Session.union
  split
  · exact .ok ⟨rfl, h⟩
  · split
    · exact .ok ⟨rfl, h⟩
    · exact h.unlessEqual ..

lemma inter (e₁ e₂ : EffectId) : Matches Twins (s.inter e₁ e₂) (s'.inter e₁ e₂) := by
  unfold Session.inter
  split
  · exact .error rfl
  · split
    · exact .ok ⟨rfl, h⟩
    · exact h.unlessEqual ..

lemma markEffect (e : EffectId) : Matches Alike (s.markEffect e) (s'.markEffect e) := by
  unfold Session.markEffect
  rw [h.effects_eq]
  refine (Matches.of_eq rfl).bind ?_
  rintro root _ rfl
  exact .ok (h.withEffects rfl)

lemma includeStep (position : Position) (step : Effects.SplitStep) :
    (includeStep position s step).Alike (includeStep position s' step) := by
  unfold Session.includeStep
  split
  · refine ((h.note _ _).withEffects ?_).forget
    exact congrArg (Effects.addInclusion · _) h.effects_eq
  · exact h.note _ _

omit h in
lemma includeSteps (position : Position) (steps : List Effects.SplitStep) (h : s.Alike s') :
    (steps.foldl (Session.includeStep position) s).Alike
      (steps.foldl (Session.includeStep position) s') := by
  induction steps generalizing s s' with
  | nil => exact h
  | cons step steps ih => exact ih (h.includeStep position step)

lemma includeEffect (position : Position) (e₁ e₂ : EffectId) :
    Matches Alike (s.includeEffect position e₁ e₂) (s'.includeEffect position e₁ e₂) := by
  unfold Session.includeEffect
  rw [h.effects_eq, h.classOf_eq]
  have hsteps := includeSteps position (s'.graph.effects.split s'.graph.classOf e₁ e₂) h
  dsimp only
  split
  · exact .ok hsteps
  · refine (Matches.of_eq rfl).bind fun _ _ _ => ?_
    exact (Matches.of_eq rfl).bind fun _ _ _ => .ok hsteps

lemma equateEffects (position : Position) (e₁ e₂ : EffectId) :
    Matches Alike (s.equateEffects position e₁ e₂) (s'.equateEffects position e₁ e₂) :=
  (h.includeEffect position e₁ e₂).bind fun _ _ h' => h'.includeEffect position e₂ e₁

lemma findEffectVariable (e : EffectId) : s.findEffectVariable e = s'.findEffectVariable e := by
  unfold Session.findEffectVariable
  rw [h.effects_eq]

lemma mergeEffects (e₁ e₂ : EffectId) :
    Matches Alike (s.mergeEffects e₁ e₂) (s'.mergeEffects e₁ e₂) := by
  refine (Matches.of_eq (h.findEffectVariable e₁)).bind ?_
  rintro r₁ _ rfl
  refine (Matches.of_eq (h.findEffectVariable e₂)).bind ?_
  rintro r₂ _ rfl
  have hnote := h.note (.effectsMerged e₁ e₂) (.effectsMerged e₁ e₂)
  split
  · exact .ok hnote
  · refine .ok (hnote.withEffects ?_).forget
    rw [hnote.effects_eq]

/-! ## Stores -/

lemma enterStore (node node' : StoreNode τ) (hnode : node.shape = node'.shape) :
    Twins (s.enterStore node) (s'.enterStore node') := by
  have hadd : (s.graph.stores.add node).2.shape = (s'.graph.stores.add node').2.shape := by
    rw [Stores.shape_add, Stores.shape_add, h.stores_eq, hnode]
  exact ⟨congrArg StoreId.mk h.size_stores, (h.withStores hadd).forget⟩

lemma storeVariable (position : Position) (name : String) :
    Twins (s.storeVariable position name) (s'.storeVariable position name) :=
  (h.enterStore (.var name) (.var name) rfl).note _ _

lemma restrict (position : Position) (base : StoreId) (e : EffectId) :
    Twins (s.restrict position base e) (s'.restrict position base e) :=
  (h.enterStore (.restrict base e) (.restrict base e) rfl).note _ _

lemma overlay (position : Position) (inside outside : StoreId) (e : EffectId) :
    Twins (s.overlay position inside outside e) (s'.overlay position inside outside e) :=
  (h.enterStore (.overlay inside outside e) (.overlay inside outside e) rfl).note _ _

lemma update (position : Position) (message : String) (base : StoreId) (a : LocationId)
    (type type' : τ) (strong : Bool) :
    Twins (s.update position message base a type strong)
      (s'.update position message base a type' strong) :=
  (h.enterStore (.update base a type strong position message)
    (.update base a type' strong position message) rfl).note _ _

lemma sameStore (x y : StoreId) : s.sameStore x y = s'.sameStore x y := by
  unfold Session.sameStore
  rw [h.find_store, h.find_store]

lemma includeStore (position : Position) (message : String) (left right : StoreId) :
    Matches Alike (s.includeStore position message left right)
      (s'.includeStore position message left right) := by
  refine (Matches.of_eq (h.sameStore left right)).bind ?_
  rintro same _ rfl
  have hnote := h.note (.edgeAsked left right) (.edgeAsked left right)
  split
  · exact .ok hnote
  · refine .ok (hnote.withStores ?_).forget
    rw [Stores.shape_addEdge, Stores.shape_addEdge, hnote.stores_eq]

lemma equateStores (position : Position) (message : String) (x y : StoreId) :
    Matches Alike (s.equateStores position message x y) (s'.equateStores position message x y) :=
  (h.includeStore ..).bind fun _ _ h' => h'.includeStore ..

lemma joinStores (position : Position) (message : String) (x y : StoreId) :
    Matches Twins (s.joinStores position message x y) (s'.joinStores position message x y) :=
  corresponds_joinStores (fun _ => rfl) (h.storeVariable position "lub")
    (fun h => h.includeStore position message) fun h => h.sameStore x y

lemma findStoreVariable (x : StoreId) : s.findStoreVariable x = s'.findStoreVariable x := by
  unfold Session.findStoreVariable
  simp only [h.find_store, h.isVariable_nodeAt]

lemma mergeStores (position : Position) (message : String) (x y : StoreId) :
    Matches Alike (s.mergeStores position message x y) (s'.mergeStores position message x y) := by
  refine (Matches.of_eq (h.findStoreVariable x)).bind ?_
  rintro rx _ rfl
  refine (Matches.of_eq (h.findStoreVariable y)).bind ?_
  rintro ry _ rfl
  have hnote := h.note (.storesMerged position message x y) (.storesMerged position message x y)
  split
  · exact .ok hnote
  · refine .ok (hnote.withStores ?_).forget
    rw [Stores.shape_join, Stores.shape_join, hnote.stores_eq]

/-! ## Commands that tell the lattice about types -/

variable [QualifierLattice σ τ]

lemma equateHeld (position : Position) (a b : LocationId) (l r : τ) :
    (s.equateHeld position a b l r).Alike s' := by
  obtain ⟨talk, heq, -⟩ := s.equateHeld_eq position a b l r
  rw [heq]
  exact ⟨h.shape_eq, h.recipes_eq⟩

/-- The types that merged locations hold are told to the lattice, which does not matter here. -/
lemma equated (position : Position) (a b : LocationId)
    (l? r? l?' r?' : Option τ) :
    Matches Alike
      (match l?, r? with
      | some l, some r => pure (s.equateHeld position a b l r).forget
      | _, _ => pure s.forget)
      (match l?', r?' with
      | some l, some r => pure (s'.equateHeld position a b l r).forget
      | _, _ => pure s'.forget) := by
  split <;> split
  · exact .ok ((h.equateHeld ..).symm.equateHeld ..).symm.forget
  · exact .ok (h.equateHeld ..).forget
  · exact .ok (h.symm.equateHeld ..).symm.forget
  · exact .ok h.forget

lemma mergeLocations (position : Position) (a b : LocationId) :
    Matches Alike (s.mergeLocations position a b) (s'.mergeLocations position a b) := by
  refine (Matches.of_eq (h.find_location a)).bind fun _ _ _ => ?_
  refine (Matches.of_eq (h.find_location b)).bind fun _ _ _ => ?_
  -- Which location survives goes by ranks, and these belong to the shape.
  have hmerge : ((s.graph.locations.merge a b).1, (s.graph.locations.merge a b).2.shape) =
      ((s'.graph.locations.merge a b).1, (s'.graph.locations.merge a b).2.shape) := by
    rw [← Locations.merge_shape, h.locations_eq, Locations.merge_shape]
  have hnote : (s.note (.locationsMerged a b)).graph = s.graph := rfl
  have hnote' : (s'.note (.locationsMerged a b)).graph = s'.graph := rfl
  simp only [hnote, hnote']
  generalize s.graph.locations.merge a b = result at hmerge ⊢
  generalize s'.graph.locations.merge a b = result' at hmerge ⊢
  obtain ⟨merged, t⟩ := result
  obtain ⟨merged', t'⟩ := result'
  obtain ⟨rfl, ht⟩ := Prod.mk.inj hmerge
  have hmerged := (h.note (.locationsMerged a b) (.locationsMerged a b)).withLocations ht
  cases merged with
  | none => exact .ok hmerged
  | some pair =>
    exact hmerged.equated position a b (t.held? pair.1) (t.held? pair.2) (t'.held? pair.1)
      (t'.held? pair.2)

lemma allocate (position : Position) (base : StoreId) (a : LocationId) :
    Matches Twins (s.allocate position base a) (s'.allocate position base a) := by
  -- The types that are read may differ, but not whether there is one.
  have hread : Matches (fun _ _ => True) (s.graph.locations.read a)
      (s'.graph.locations.read a) := by
    refine (Matches.of_eq (h.find_location a)).bind ?_
    rintro root _ rfl
    have hrecord := Locations.record?_shape s.graph.locations root
    rw [h.locations_eq, Locations.record?_shape] at hrecord
    cases hr : s.graph.locations.record? root with
    | none =>
      rw [hr, Option.map_none, Option.map_eq_none_iff] at hrecord
      rw [hrecord]
      exact .error rfl
    | some r =>
      rw [hr, Option.map_some, Option.map_eq_some_iff] at hrecord
      obtain ⟨r', hr', -⟩ := hrecord
      rw [hr']
      exact .ok trivial
  refine hread.bind fun record record' _ => ?_
  have hentered := (h.withTalk (s.talk.fresh record.holds).2
    (s'.talk.fresh record'.holds).2).enterStore
      (.allocate base a (s.talk.fresh record.holds).1)
      (.allocate base a (s'.talk.fresh record'.holds).1) rfl
  exact .ok (hentered.note _ _)

omit h in
lemma allocateSteps (position : Position) (locations : List LocationId) (x : StoreId)
    (h : s.Alike s') :
    Matches Twins (locations.foldlM (fun (x, s) a => s.allocate position x a) (x, s))
      (locations.foldlM (fun (x, s) a => s.allocate position x a) (x, s')) := by
  refine Corresponds.foldlM_same (R := Twins) ?_ locations ⟨rfl, h⟩
  rintro ⟨y, t⟩ ⟨_, t'⟩ a ⟨rfl, ht⟩
  exact ht.allocate position y a

lemma allocateAll (position : Position) (base : StoreId) (e : EffectId) :
    Matches Twins (s.allocateAll position base e) (s'.allocateAll position base e) := by
  unfold Session.allocateAll
  rw [h.effects_eq, h.classOf_eq]
  refine (Matches.of_eq rfl).bind fun _ _ _ => ?_
  split
  · exact .error rfl
  · exact allocateSteps position _ base h

end Alike

variable {R : Session σ τ → Session σ τ → Prop}

lemma matches_session {x x' : Except Fault (Session σ τ)} {r : Reply τ} (h : Matches R x x') :
    Matches (Along R) (x >>= fun s => pure (r, s)) (x' >>= fun s => pure (r, s)) :=
  h.bind fun _ _ hs => .ok ⟨rfl, hs⟩

lemma matches_answer {α : Type} {x x' : Except Fault (α × Session σ τ)} {f : α → Reply τ}
    (h : Matches (Along R) x x') :
    Matches (Along R) (x >>= fun p => pure (f p.1, p.2)) (x' >>= fun p => pure (f p.1, p.2)) :=
  h.bind fun _ _ hs => .ok ⟨congrArg f hs.1, hs.2⟩

lemma matches_along {α : Type} {p p' : α × Session σ τ} {f : α → Reply τ} (h : Along R p p') :
    Matches (Along R) (.ok (f p.1, p.2)) (.ok (f p'.1, p'.2)) :=
  .ok ⟨congrArg f h.1, h.2⟩

variable [QualifierLattice σ τ]

/-! ## Commands that leave the graph alone -/

/-- The graph and the recipes are left alone. -/
structure Spares (s s' : Session σ τ) : Prop where
  graph_eq : s'.graph = s.graph
  recipes_eq : s'.recipes = s.recipes

omit [QualifierLattice σ τ] in
lemma Spares.refl (s : Session σ τ) : s.Spares s := ⟨rfl, rfl⟩

omit [QualifierLattice σ τ] in
lemma Spares.alike (h : s.Spares s') : s.Alike s' :=
  ⟨congrArg Graph.shape h.graph_eq.symm, h.recipes_eq.symm⟩

lemma Ask.spares (h : Ask command s s') : s.Spares s' := by
  cases h with
  | chat hchat =>
    obtain ⟨talk, questions, reported, rfl, -⟩ := hchat
    exact ⟨rfl, rfl⟩
  | linearize =>
    rename_i sol _ _ _
    obtain ⟨linearities, flow, heq⟩ := s.demoteAll_eq sol
    rw [heq]
    exact ⟨rfl, rfl⟩
  | _ => exact ⟨rfl, rfl⟩

lemma Asks.spares (h : Asks command s s') : s.Spares s' := by
  induction h with
  | refl => exact .refl s
  | tail _ hmove ih =>
    exact ⟨hmove.spares.graph_eq.trans ih.graph_eq, hmove.spares.recipes_eq.trans ih.recipes_eq⟩

lemma Inquires.spares {declined : Prop} (h : Inquires command declined s s') : s.Spares s' := by
  rcases h.eq_or_asks with rfl | ⟨h, -⟩
  · exact .refl _
  · exact h.spares

lemma Build.spares {P : Prop} (hcommand : command.grows = false) (h : Build P command s s') :
    s.Spares s' := by
  cases h with
  | tweak _ _ _ hgrows => exact absurd (hgrows.symm.trans hcommand) (by simp)
  | grow _ _ hgrows => exact absurd (hgrows.symm.trans hcommand) (by simp)
  | remember hremembers =>
    exact absurd ((Command.grows_of_remembers hremembers).symm.trans hcommand) (by simp)
  | _ => exact ⟨rfl, rfl⟩

lemma Builds.spares {P : Prop} (hcommand : command.grows = false) (h : Builds P command s s') :
    s.Spares s' := by
  induction h with
  | refl => exact .refl s
  | tail _ hmove ih =>
    obtain ⟨hgraph, hrecipes⟩ := hmove.spares hcommand
    exact ⟨hgraph.trans ih.graph_eq, hrecipes.trans ih.recipes_eq⟩

/-- A command that cannot make the graph grow leaves it alone. -/
lemma spares_of_not_grows {reply : Reply τ} (hcommand : command.grows = false)
    (h : s.exec command = .ok (reply, s')) : s.Spares s' := by
  by_cases hinquiring : Inquiring command
  · rcases exec_inquires (P := False) False.elim hinquiring h with ⟨-, hbuilds⟩ | hinquires
    · exact hbuilds.spares hcommand
    · exact hinquires.spares
  · exact (exec_builds_of_not_grows (P := False) hcommand hinquiring h).spares hcommand

lemma alike_of_not_grows {reply : Reply τ} (hcommand : command.grows = false)
    (h : s.exec command = .ok (reply, s')) : s.Alike s' :=
  (spares_of_not_grows hcommand h).alike

/-! ## Commands that make the graph grow -/

/-- A command that makes the graph grow does the same in alike sessions, whatever types occur in
it. -/
lemma Alike.perform (h : s.Alike s') {c c' : Command τ} (hc : c.Alike c')
    (hgrows : c.grows = true) : Matches Twins (s.perform c) (s'.perform c') := by
  cases hc with
  | makeLocation name holds holds' => exact matches_along (h.makeLocation name holds holds')
  | update position message base a type type' strong =>
    exact matches_along (h.update position message base a type type' strong)
  -- Types occur in two kinds of commands only. All others are the same command.
  | refl c =>
    cases c with
    | makeLocation name holds => exact matches_along (h.makeLocation name holds holds)
    | markLocation a => exact matches_session (h.markLocation a)
    | mergeLocations position a b => exact matches_session (h.mergeLocations position a b)
    | atom kind a => exact matches_answer (h.atom kind a)
    | effectVariable name => exact matches_along (h.effectVariable name)
    | freshEffect => exact matches_along h.freshEffect
    | union e₁ e₂ => exact matches_answer (h.union e₁ e₂)
    | inter e₁ e₂ => exact matches_answer (h.inter e₁ e₂)
    | markEffect e => exact matches_session (h.markEffect e)
    | includeEffect position e₁ e₂ => exact matches_session (h.includeEffect position e₁ e₂)
    | equateEffects position e₁ e₂ => exact matches_session (h.equateEffects position e₁ e₂)
    | mergeEffects e₁ e₂ => exact matches_session (h.mergeEffects e₁ e₂)
    | storeVariable position name => exact matches_along (h.storeVariable position name)
    | restrict position base e => exact matches_along (h.restrict position base e)
    | allocate position base a => exact matches_answer (h.allocate position base a)
    | allocateAll position base e => exact matches_answer (h.allocateAll position base e)
    | overlay position inside outside e =>
      exact matches_along (h.overlay position inside outside e)
    | update position message base a type strong =>
      exact matches_along (h.update position message base a type type strong)
    | joinStores position message x y => exact matches_answer (h.joinStores position message x y)
    | includeStore position message left right =>
      exact matches_session (h.includeStore position message left right)
    | equateStores position message x y =>
      exact matches_session (h.equateStores position message x y)
    | mergeStores position message x y =>
      exact matches_session (h.mergeStores position message x y)
    | _ => cases hgrows

/-! ## Scripts -/

/-- Alike sessions stay alike under the same command. -/
lemma Alike.exec (h : s.Alike s') {c c' : Command τ} (hc : c.Alike c') {reply reply' : Reply τ}
    {t t' : Session σ τ} (hexec : s.exec c = .ok (reply, t))
    (hexec' : s'.exec c' = .ok (reply', t')) : t.Alike t' := by
  by_cases hgrows : c.grows = true
  · exact ((h.perform hc hgrows).rel_of_ok (perform_eq_ok_of_exec hexec)
      (perform_eq_ok_of_exec hexec')).2
  · -- Types occur only in commands that make the graph grow.
    have hgrows' : c.grows = false := Bool.eq_false_iff.2 hgrows
    have hsame : c'.grows = false := by
      cases hc with
      | refl => exact hgrows'
      | makeLocation => cases hgrows'
      | update => cases hgrows'
    exact ((alike_of_not_grows hgrows' hexec).symm.trans h).trans
      (alike_of_not_grows hsame hexec')

/-- The commands are carried out in turn without a fault.  Before each of them, and at the end, the
caller may make types of its own. -/
def Carries : List (Command τ) → Session σ τ → Session σ τ → Prop
  | [], s, s' => ∃ lattice, s' = s.withLattice lattice
  | c :: commands, s, s' => ∃ lattice reply s₁,
      (s.withLattice lattice).exec c = .ok (reply, s₁) ∧ Carries commands s₁ s'

lemma Carries.runs {commands : List (Command τ)} (h : Carries commands s s') :
    Runs (fun _ _ => True) s s' := by
  induction commands generalizing s with
  | nil =>
    obtain ⟨lattice, rfl⟩ := h
    exact .withLattice lattice .refl
  | cons c commands ih =>
    obtain ⟨lattice, reply, s₁, hexec, h⟩ := h
    exact (Runs.exec (.withLattice lattice .refl) trivial hexec).trans (ih h)

lemma carries_of_follow {commands : List (Command τ)}
    (h : follow (fun _ _ => True) s commands = some s') : Carries commands s s' := by
  induction commands generalizing s with
  | nil =>
    cases h
    exact ⟨s'.lattice, rfl⟩
  | cons c commands ih =>
    obtain ⟨-, reply, s₁, hexec, hfollow⟩ := follow_cons_eq_some_iff.1 h
    exact ⟨s.lattice, reply, s₁, hexec, ih hfollow⟩

theorem Alike.carries (h : s.Alike s') {commands commands' : List (Command τ)} {t t' : Session σ τ}
    (hcommands : List.Forall₂ Command.Alike commands commands') (ht : Carries commands s t)
    (ht' : Carries commands' s' t') : t.Alike t' := by
  induction hcommands generalizing s s' with
  | nil =>
    obtain ⟨lattice, rfl⟩ := ht
    obtain ⟨lattice', rfl⟩ := ht'
    exact ⟨h.shape_eq, h.recipes_eq⟩
  | cons hc _ ih =>
    obtain ⟨lattice, reply, s₁, hexec, ht⟩ := ht
    obtain ⟨lattice', reply', s₁', hexec', ht'⟩ := ht'
    exact ih ((h.withTalk _ _).exec hc hexec hexec') ht ht'

end Session

end HeapQual
