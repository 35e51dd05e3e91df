import HeapQual.Proofs.Effect.Split
import HeapQual.Proofs.Session.Moves

/-!
# Commands that build

What the commands that make locations, effects, stores and constraints come to, as sequences of
building moves.  Each function of a session has one lemma.  Functions that look handles up before
they act are taken apart by `bind_eq_ok_iff` and the `find_eq_ok_iff` of the three tables.
-/

namespace HeapQual

open Relation (ReflTransGen)

variable {σ τ : Type}

lemma Locations.find_eq_ok_iff {t : Locations τ} {a : LocationId} {root : Nat} :
    t.find a = .ok root ↔ a.index < t.size ∧ t.root a = root := by
  unfold find
  split <;> simp_all

lemma Locations.lt_of_read_eq_ok {t : Locations τ} {a : LocationId} {r : LocationRecord τ}
    (h : t.read a = .ok r) : a.index < t.size := by
  obtain ⟨root, hroot, -⟩ := bind_eq_ok_iff.1 h
  exact (find_eq_ok_iff.1 hroot).1

lemma Effects.find_eq_ok_iff {t : Effects} {e : EffectId} {root : Nat} :
    t.find e = .ok root ↔ e.index < t.size ∧ t.root e = root := by
  unfold find
  split <;> simp_all

lemma Stores.find_eq_ok_iff {t : Stores τ} {s : StoreId} {root : Nat} :
    t.find s = .ok root ↔ s.index < t.size ∧ t.root s = root := by
  unfold find
  split <;> simp_all

namespace Session

variable {P : Prop} {c : Command τ} {s s' s'' : Session σ τ}

lemma graph_forget (s : Session σ τ) : s.forget.graph = s.graph := by
  unfold forget
  split <;> rfl

/-! ## Taking functions apart -/

lemma knownEqual_eq_ok_iff {e₁ e₂ : EffectId} {equal : Bool} :
    s.knownEqual e₁ e₂ = .ok equal ↔
      (e₁.index < s.graph.effects.size ∧ e₂.index < s.graph.effects.size) ∧
        s.graph.effects.knownEqual s.graph.classOf e₁ e₂ = equal := by
  constructor
  · intro h
    obtain ⟨r₁, h₁, h⟩ := bind_eq_ok_iff.1 h
    obtain ⟨r₂, h₂, h⟩ := bind_eq_ok_iff.1 h
    exact ⟨⟨(Effects.find_eq_ok_iff.1 h₁).1, (Effects.find_eq_ok_iff.1 h₂).1⟩, Except.ok.inj h⟩
  · rintro ⟨⟨h₁, h₂⟩, rfl⟩
    unfold knownEqual
    rw [Effects.find_eq_ok_iff.2 ⟨h₁, rfl⟩, Effects.find_eq_ok_iff.2 ⟨h₂, rfl⟩]
    rfl

lemma lt_of_knownEqual_eq_ok {e₁ e₂ : EffectId} {equal : Bool}
    (h : s.knownEqual e₁ e₂ = .ok equal) :
    e₁.index < s.graph.effects.size ∧ e₂.index < s.graph.effects.size :=
  (knownEqual_eq_ok_iff.1 h).1

/-- A union is one of its operands, because the other one adds nothing to it, or it is recalled or
entered. -/
lemma union_eq_ok {e₁ e₂ e : EffectId} (h : s.union e₁ e₂ = .ok (e, s')) :
    (s' = s ∧ (e₁ = .empty ∧ e = e₂ ∨ e₂ = .empty ∧ e = e₁ ∨
      s.knownEqual e₁ e₂ = .ok true ∧ e = e₁)) ∨
    s.knownEqual e₁ e₂ = .ok false ∧
      e = (s.recallOrEnter (.ofUnion e₁ e₂) (Effects.unionNode e₁ e₂) (.unionMade e₁ e₂)).1 ∧
      s' = (s.recallOrEnter (.ofUnion e₁ e₂) (Effects.unionNode e₁ e₂) (.unionMade e₁ e₂)).2 := by
  unfold union at h
  split at h
  · rename_i hempty
    cases h
    exact Or.inl ⟨rfl, Or.inl ⟨of_decide_eq_true hempty, rfl⟩⟩
  · split at h
    · rename_i hempty
      cases h
      exact Or.inl ⟨rfl, Or.inr (Or.inl ⟨of_decide_eq_true hempty, rfl⟩)⟩
    · obtain ⟨equal, hequal, h⟩ := bind_eq_ok_iff.1 h
      split at h
      · rename_i htrue
        cases h
        exact Or.inl ⟨rfl, Or.inr (Or.inr ⟨htrue ▸ hequal, rfl⟩)⟩
      · rename_i hfalse
        have hmade := (Except.ok.inj h).symm
        exact Or.inr ⟨Bool.eq_false_of_not_eq_true hfalse ▸ hequal, congrArg Prod.fst hmade,
          congrArg Prod.snd hmade⟩

/-- An intersection is empty because its first operand is, or is the first operand because it is
known to be the second, or it is recalled or entered. -/
lemma inter_eq_ok {e₁ e₂ e : EffectId} (h : s.inter e₁ e₂ = .ok (e, s')) :
    (s' = s ∧ (e₁ = .empty ∧ e = .empty ∨ s.knownEqual e₁ e₂ = .ok true ∧ e = e₁)) ∨
    s.knownEqual e₁ e₂ = .ok false ∧
      e = (s.recallOrEnter (.ofInter e₁ e₂) (.inter e₁ e₂) (.interMade e₁ e₂)).1 ∧
      s' = (s.recallOrEnter (.ofInter e₁ e₂) (.inter e₁ e₂) (.interMade e₁ e₂)).2 := by
  unfold inter at h
  split at h
  · cases h
  · split at h
    · rename_i hempty
      cases h
      exact Or.inl ⟨rfl, Or.inl ⟨of_decide_eq_true hempty, rfl⟩⟩
    · obtain ⟨equal, hequal, h⟩ := bind_eq_ok_iff.1 h
      split at h
      · rename_i htrue
        cases h
        exact Or.inl ⟨rfl, Or.inr ⟨htrue ▸ hequal, rfl⟩⟩
      · rename_i hfalse
        have hmade := (Except.ok.inj h).symm
        exact Or.inr ⟨Bool.eq_false_of_not_eq_true hfalse ▸ hequal, congrArg Prod.fst hmade,
          congrArg Prod.snd hmade⟩

lemma includeEffect_eq_ok {position : Position} {e₁ e₂ : EffectId}
    (h : s.includeEffect position e₁ e₂ = .ok s') :
    (e₁.isEmpty = false → e₁.index < s.graph.effects.size ∧ e₂.index < s.graph.effects.size) ∧
      s' = (s.graph.effects.split s.graph.classOf e₁ e₂).foldl (includeStep position) s := by
  unfold includeEffect at h
  dsimp only at h
  split at h
  · rename_i hempty
    exact ⟨fun hne => by simp_all, (Except.ok.inj h).symm⟩
  · obtain ⟨r₁, h₁, h⟩ := bind_eq_ok_iff.1 h
    obtain ⟨r₂, h₂, h⟩ := bind_eq_ok_iff.1 h
    exact ⟨fun _ => ⟨(Effects.find_eq_ok_iff.1 h₁).1, (Effects.find_eq_ok_iff.1 h₂).1⟩,
      (Except.ok.inj h).symm⟩

/-- Effects that exist can be constrained. -/
lemma includeEffect_of_lt {position : Position} {e₁ e₂ : EffectId}
    (h : e₁.isEmpty = false →
      e₁.index < s.graph.effects.size ∧ e₂.index < s.graph.effects.size) :
    s.includeEffect position e₁ e₂ =
      .ok ((s.graph.effects.split s.graph.classOf e₁ e₂).foldl (includeStep position) s) := by
  unfold includeEffect
  cases hempty : e₁.isEmpty with
  | true => rfl
  | false =>
    obtain ⟨h₁, h₂⟩ := h hempty
    rw [Effects.find_eq_ok_iff.2 ⟨h₁, rfl⟩, Effects.find_eq_ok_iff.2 ⟨h₂, rfl⟩]
    rfl

lemma findEffectVariable_eq_ok (hs : s.graph.Sound) {e : EffectId} {root : Nat}
    (h : s.findEffectVariable e = .ok root) :
    s.graph.effects.root e = root ∧ root ∈ s.graph.effects.classes.roots ∧
      (s.graph.effects.nodeAt root).isVariable := by
  obtain ⟨r, hr, h⟩ := bind_eq_ok_iff.1 h
  obtain ⟨hlt, rfl⟩ := Effects.find_eq_ok_iff.1 hr
  split at h
  · rename_i hvar
    cases h
    refine ⟨rfl, hs.effects.root_mem_roots hlt, ?_⟩
    unfold Effects.isVariable Effects.node at hvar
    cases hnode : s.graph.effects.nodeAt (s.graph.effects.root e) <;>
      simp_all [EffectNode.isVariable]
  · cases h

lemma lt_of_sameStore_eq_ok {x y : StoreId} {same : Bool} (h : s.sameStore x y = .ok same) :
    x.index < s.graph.stores.size ∧ y.index < s.graph.stores.size := by
  obtain ⟨rx, hx, h⟩ := bind_eq_ok_iff.1 h
  obtain ⟨ry, hy, -⟩ := bind_eq_ok_iff.1 h
  exact ⟨(Stores.find_eq_ok_iff.1 hx).1, (Stores.find_eq_ok_iff.1 hy).1⟩

lemma findStoreVariable_eq_ok (hs : s.graph.Sound) {x : StoreId} {root : Nat}
    (h : s.findStoreVariable x = .ok root) :
    s.graph.stores.root x = root ∧ root ∈ s.graph.stores.classes.roots ∧
      (s.graph.stores.nodeAt root).isVariable := by
  obtain ⟨r, hr, h⟩ := bind_eq_ok_iff.1 h
  obtain ⟨hlt, rfl⟩ := Stores.find_eq_ok_iff.1 hr
  split at h
  · rename_i hvar
    cases h
    exact ⟨rfl, hs.stores.root_mem_roots hlt, hvar⟩
  · cases h

variable [QualifierLattice σ τ]

/-! ## Building in general -/

lemma Builds.edits (h : Builds P c s s') : Graph.Edits P c s.graph s'.graph := by
  induction h with
  | refl => exact .refl
  | tail _ hmove ih =>
    cases hmove with
    | tweak _ _ hedit => exact ih.tail hedit
    | grow _ hedit =>
      rw [graph_forget]
      exact ih.tail hedit
    | _ => exact ih

theorem Builds.grows (h : Builds P c s s') (hs : s.graph.Sound) : s.graph.Grows P s'.graph :=
  h.edits.grows hs

/-! ## Single moves -/

lemma builds_speak {talk : Dialogue σ τ} (h : s.talk.Speaks c.Occasions Cause.Discreet talk) :
    Builds P c s (s.withTalk talk) := .single (.speak h)

lemma builds_note (s : Session σ τ) (n : Notice τ) : Builds P c s (s.note n) :=
  builds_speak (Dialogue.speaks_note _ n)

section

variable (hs : s.graph.Sound) (hc : c.grows = true)

include hs hc

lemma builds_tweak {graph : Graph τ} (h : s.graph.Edit P c graph) (ht : s.graph.Tweaks graph) :
    Builds P c s { s with graph } := .single (.tweak (h.grows hs) ht h hc)

lemma builds_grow {graph : Graph τ} (h : s.graph.Edit P c graph) :
    Builds P c s ({ s with graph } : Session σ τ).forget := .single (.grow (h.grows hs) h hc)

/-- Labels of effects are changed. -/
lemma builds_labels {effects : Effects} (hnodes : effects.nodes = s.graph.effects.nodes)
    (hclasses : effects.classes = s.graph.effects.classes)
    (hinclusions : effects.inclusions = s.graph.effects.inclusions) :
    Builds P c s (s.withEffects effects) :=
  builds_tweak hs hc (.label hnodes hclasses hinclusions)
    ⟨rfl, hnodes, hclasses, hinclusions, rfl, le_rfl⟩

end

/-! ## Locations -/

lemma builds_makeLocation (hs : s.graph.Sound) (name : String) (holds : τ) :
    Builds P (.makeLocation name holds) s (s.makeLocation name holds).2 := by
  refine (builds_tweak hs rfl (.addLocation name holds rfl) ?_).trans (builds_note _ _)
  refine ⟨rfl, rfl, rfl, rfl, ?_, (hs.grows_addLocation (P := P) name holds).size_locations⟩
  funext a
  exact hs.locations.classes.root_add a.index

lemma builds_markLocation (hs : s.graph.Sound) {a : LocationId} (h : s.markLocation a = .ok s') :
    Builds P (.markLocation a) s s' := by
  obtain ⟨root, -, h⟩ := bind_eq_ok_iff.1 h
  cases h
  refine builds_tweak hs rfl (.markLocation root rfl) ⟨rfl, rfl, rfl, rfl, rfl, ?_⟩
  exact (Locations.Sound.size_mark _ _).ge

/-- Equating what two locations hold goes on with the dialogue, and does nothing else. -/
lemma equateHeld_eq (s : Session σ τ) (position : Position) (a b : LocationId) (l r : τ) :
    ∃ talk, s.equateHeld position a b l r = s.withTalk talk ∧
      s.talk.Speaks (· = .locations) Cause.Discreet talk := by
  have hequate : s.talk.Speaks (· = .locations) Cause.Discreet (s.talk.equate .locations l r).2 :=
    Dialogue.speaks_equate (p := (· = .locations)) rfl Reason.not_markable_locations _ l r
  unfold equateHeld
  simp only
  split
  · exact ⟨_, rfl, hequate⟩
  · exact ⟨_, rfl, hequate.trans (Dialogue.speaks_report _ _ rfl rfl)⟩

/-- A merge of locations changes the table of locations and goes on with the dialogue.  If it joins
two classes, the solution is forgotten. -/
lemma mergeLocations_cases {position : Position} {a b : LocationId}
    (h : s.mergeLocations position a b = .ok s') :
    (a.index < s.graph.locations.size ∧ b.index < s.graph.locations.size) ∧
      ∃ talk, ∃ merged : Session σ τ, merged = { s with
        graph := { s.graph with locations := (s.graph.locations.merge a b).2 },
        flow := { s.flow with talk } } ∧ (s' = merged ∨ s' = merged.forget) := by
  obtain ⟨_, ha, h⟩ := bind_eq_ok_iff.1 h
  obtain ⟨_, hb, h⟩ := bind_eq_ok_iff.1 h
  refine ⟨⟨(Locations.find_eq_ok_iff.1 ha).1, (Locations.find_eq_ok_iff.1 hb).1⟩, ?_⟩
  dsimp only at h
  split at h
  · cases h
    exact ⟨_, _, rfl, Or.inl rfl⟩
  · split at h
    · obtain ⟨talk, heq, -⟩ := equateHeld_eq
        { s.note (.locationsMerged a b) with
          graph := { s.graph with locations := (s.graph.locations.merge a b).2 } } position a b _ _
      rw [show (s.note (.locationsMerged a b)).graph = s.graph from rfl, heq] at h
      cases h
      exact ⟨talk, _, rfl, Or.inr rfl⟩
    · cases h
      exact ⟨_, _, rfl, Or.inr rfl⟩

lemma builds_mergeLocations (hs : s.graph.Sound) {position : Position} {a b : LocationId}
    (h : s.mergeLocations position a b = .ok s') :
    Builds P (.mergeLocations position a b) s s' := by
  obtain ⟨ra, ha, h⟩ := bind_eq_ok_iff.1 h
  obtain ⟨rb, hb, h⟩ := bind_eq_ok_iff.1 h
  have halt := (Locations.find_eq_ok_iff.1 ha).1
  have hblt := (Locations.find_eq_ok_iff.1 hb).1
  obtain ⟨hshort, hroot⟩ := hs.locations.shorten a b
  let short : Session σ τ := { s.note (.locationsMerged a b) with
    graph := { s.graph with locations := s.graph.locations.shorten a b } }
  have hshorten :
      Builds P (.mergeLocations position a b) (s.note (.locationsMerged a b)) short := by
    refine builds_tweak (s := s.note (.locationsMerged a b)) hs rfl (.shorten a b rfl)
      ⟨rfl, rfl, rfl, rfl, ?_, le_rfl⟩
    funext x
    exact hroot x.index
  have hsound : short.graph.Sound := (hshorten.grows hs).sound
  refine (builds_note s (.locationsMerged a b)).trans (hshorten.trans ?_)
  have hgraph : (s.note (.locationsMerged a b)).graph = s.graph := rfl
  simp only [hgraph] at h
  rcases hs.locations.merge_roots a b with ⟨-, hmerge⟩ | ⟨hne, survivor, child, hmerge, hroots⟩
  · rw [hmerge] at h
    cases h
    exact .refl
  · rw [hmerge] at h
    have hunites : short.graph.locations.classes.Unites
        (Command.mergeLocations position a b : Command τ).mergedLocations survivor child := by
      have hra := hs.locations.root_shorten_mem_roots halt a b
      have hrb := hs.locations.root_shorten_mem_roots hblt a b
      rcases hroots with ⟨rfl, rfl⟩ | ⟨rfl, rfl⟩
      · exact ⟨hra, hrb, hne.symm, _, List.mem_singleton_self _,
          Or.inr ⟨hroot a.index, hroot b.index⟩⟩
      · exact ⟨hrb, hra, hne, _, List.mem_singleton_self _,
          Or.inl ⟨hroot a.index, hroot b.index⟩⟩
    simp only at h
    split at h
    · -- The types are equated before the solution is forgotten.
      obtain ⟨talk, heq, hspeaks⟩ := equateHeld_eq
        { s.note (.locationsMerged a b) with
          graph := { s.graph with
            locations := (s.graph.locations.shorten a b).join survivor child } } position a b _ _
      rw [heq] at h
      cases h
      have hoccasions : short.talk.Speaks
          (Command.mergeLocations position a b : Command τ).Occasions Cause.Discreet talk :=
        hspeaks.mono (fun _ hreason => ⟨hreason, List.cons_ne_nil _ _⟩) fun _ => id
      exact (builds_speak hoccasions).trans
        (builds_grow (s := short.withTalk talk) hsound rfl (.joinLocations rfl hunites))
    · cases h
      exact builds_grow (s := short) hsound rfl (.joinLocations rfl hunites)

/-! ## Effects -/

section

variable (hs : s.graph.Sound) (hc : c.grows = true)

include hs hc

lemma builds_enterEffect {node : EffectNode}
    (hatom : ∀ kind a, node = .atom kind a → a.index < s.graph.locations.size)
    (hoperand : ∀ e ∈ node.operands, e.index < s.graph.effects.size) :
    Builds P c s (s.enterEffect node).2 :=
  builds_grow hs hc (.addEffect hatom hoperand)

lemma builds_effectVariable (name : String) : Builds P c s (s.effectVariable name).2 :=
  (builds_enterEffect hs hc (fun _ _ h => absurd h (by simp))
    (fun e he => absurd he List.not_mem_nil)).trans (builds_note _ _)

lemma builds_freshEffect : Builds P c s s.freshEffect.2 := by
  have hlabels : Builds P c s (s.withEffects s.graph.effects.freshName.2) :=
    builds_labels hs hc rfl rfl rfl
  exact hlabels.trans (builds_effectVariable (hlabels.grows hs).sound hc _)

end

lemma builds_recall (hs : s.graph.Sound) (hc : c.remembers = true) {node : EffectNode}
    (hatom : ∀ kind a, node = .atom kind a → a.index < s.graph.locations.size)
    (hoperand : ∀ e ∈ node.operands, e.index < s.graph.effects.size) (recipe : Effects.Recipe)
    (notice : EffectId → Notice τ) : Builds P c s (s.recallOrEnter recipe node notice).2 := by
  unfold recallOrEnter
  simp only
  have hlookup : Builds P c s { s with recipes := (s.recipes.get? recipe).2 } :=
    .single (.remember hc)
  cases (s.recipes.get? recipe).1 with
  | some e => exact hlookup
  | none =>
    have henter := builds_enterEffect (P := P)
      (s := { s with recipes := (s.recipes.get? recipe).2 }) hs (Command.grows_of_remembers hc)
      hatom hoperand
    exact ((hlookup.trans henter).trans (builds_note _ _)).tail (.remember hc)

lemma builds_atom (hs : s.graph.Sound) {kind : Kind} {a : LocationId} {e : EffectId}
    (h : s.atom kind a = .ok (e, s')) : Builds P (.atom kind a) s s' := by
  obtain ⟨root, hroot, h⟩ := bind_eq_ok_iff.1 h
  have hlt := (Locations.find_eq_ok_iff.1 hroot).1
  rw [← snd_eq_of_pure_eq_ok h]
  refine builds_recall hs rfl (fun k b hb => ?_) (fun e he => absurd he List.not_mem_nil) _ _
  cases hb
  exact hlt

lemma builds_union (hs : s.graph.Sound) {e₁ e₂ e : EffectId} (h : s.union e₁ e₂ = .ok (e, s')) :
    Builds P (.union e₁ e₂) s s' := by
  rcases union_eq_ok h with ⟨rfl, -⟩ | ⟨hunknown, -, rfl⟩
  · exact .refl
  · obtain ⟨h₁, h₂⟩ := lt_of_knownEqual_eq_ok hunknown
    refine builds_recall hs rfl (fun _ _ h => absurd h (by simp [Effects.unionNode])) ?_ _ _
    intro e he
    simp only [Effects.unionNode, EffectNode.operands, List.mem_cons, List.not_mem_nil,
      or_false] at he
    rcases he with rfl | rfl
    · exact (min_le_left _ _).trans_lt h₁
    · exact max_lt h₁ h₂

lemma builds_inter (hs : s.graph.Sound) {e₁ e₂ e : EffectId} (h : s.inter e₁ e₂ = .ok (e, s')) :
    Builds P (.inter e₁ e₂) s s' := by
  rcases inter_eq_ok h with ⟨rfl, -⟩ | ⟨hunknown, -, rfl⟩
  · exact .refl
  · obtain ⟨h₁, h₂⟩ := lt_of_knownEqual_eq_ok hunknown
    refine builds_recall hs rfl (fun _ _ h => absurd h (by simp)) ?_ _ _
    intro e he
    simp only [EffectNode.operands, List.mem_cons, List.not_mem_nil, or_false] at he
    rcases he with rfl | rfl
    · exact h₁
    · exact h₂

lemma builds_markEffect (hs : s.graph.Sound) {e : EffectId} (h : s.markEffect e = .ok s') :
    Builds P (.markEffect e) s s' := by
  obtain ⟨root, -, h⟩ := bind_eq_ok_iff.1 h
  cases h
  exact builds_labels hs rfl rfl rfl rfl

lemma builds_includeSteps (hs : s.graph.Sound) (hc : c.grows = true) (position : Position)
    {steps : List Effects.SplitStep}
    (hsteps : ∀ step ∈ steps, step.recorded = true → step.Recordable s.graph.effects) :
    Builds P c s (steps.foldl (includeStep position) s) := by
  induction steps generalizing s with
  | nil => exact .refl
  | cons step steps ih =>
    have hrest : ∀ later ∈ steps, later.recorded = true → later.Recordable s.graph.effects :=
      fun later hlater => hsteps later (List.mem_cons_of_mem _ hlater)
    have hnote : Builds P c s (s.note (.inclusionAsked step.source step.target)) := builds_note s _
    rw [List.foldl_cons, includeStep]
    cases hrec : step.recorded with
    | false => exact hnote.trans (ih hs hrest)
    | true =>
      obtain ⟨hsource, htarget, hinter⟩ := hsteps step (List.mem_cons_self ..) hrec
      have hedit : s.graph.Edit P c { s.graph with
          effects := s.graph.effects.addInclusion ⟨step.source, step.target, position⟩ } :=
        .addInclusion hsource htarget hinter
      have hmove : Builds P c s _ := hnote.trans
        (builds_grow (s := s.note (.inclusionAsked step.source step.target)) hs hc hedit)
      refine hmove.trans (ih (hmove.grows hs).sound ?_)
      rw [graph_forget]
      -- Recording an inclusion leaves the expressions and the classes as they are.
      exact fun later hlater hr =>
        ⟨(hrest later hlater hr).1, (hrest later hlater hr).2, (hrest later hlater hr).3⟩

lemma builds_includeEffect (hs : s.graph.Sound) (hc : c.grows = true) {position : Position}
    {e₁ e₂ : EffectId} (h : s.includeEffect position e₁ e₂ = .ok s') : Builds P c s s' := by
  obtain ⟨hlt, rfl⟩ := includeEffect_eq_ok h
  exact builds_includeSteps hs hc position fun step hmem hrec =>
    (hs.effects.splits_split hlt).recordable hs.effects hlt hmem hrec

lemma builds_equateEffects (hs : s.graph.Sound) {position : Position} {e₁ e₂ : EffectId}
    (h : s.equateEffects position e₁ e₂ = .ok s') :
    Builds P (.equateEffects position e₁ e₂) s s' := by
  obtain ⟨s₁, h₁, h₂⟩ := bind_eq_ok_iff.1 h
  have hfirst : Builds P (.equateEffects position e₁ e₂) s s₁ := builds_includeEffect hs rfl h₁
  exact hfirst.trans (builds_includeEffect (hfirst.grows hs).sound rfl h₂)

lemma builds_mergeEffects (hs : s.graph.Sound) {e₁ e₂ : EffectId}
    (h : s.mergeEffects e₁ e₂ = .ok s') : Builds P (.mergeEffects e₁ e₂) s s' := by
  obtain ⟨r₁, h₁, h⟩ := bind_eq_ok_iff.1 h
  obtain ⟨r₂, h₂, h⟩ := bind_eq_ok_iff.1 h
  obtain ⟨hroot₁, hmem₁, hvar₁⟩ := findEffectVariable_eq_ok hs h₁
  obtain ⟨hroot₂, hmem₂, hvar₂⟩ := findEffectVariable_eq_ok hs h₂
  refine (builds_note s (.effectsMerged e₁ e₂)).trans ?_
  dsimp only at h
  split at h
  · cases h
    exact .refl
  · rename_i hne
    cases h
    have hunites : s.graph.effects.classes.Unites [(e₁.index, e₂.index)] r₁ r₂ :=
      ⟨hmem₁, hmem₂, Ne.symm hne, _, List.mem_singleton_self _, Or.inr ⟨hroot₁, hroot₂⟩⟩
    exact builds_grow (s := s.note (.effectsMerged e₁ e₂)) hs rfl
      (.joinEffects hunites hvar₁ hvar₂)

/-! ## Stores -/

section

variable (hs : s.graph.Sound) (hc : c.grows = true)

include hs hc

lemma builds_enterStore (node : StoreNode τ)
    (hnode : P → (∀ x ∈ node.operands, x.index < s.graph.stores.size) ∧
      (∀ a, node.ownLocation? = some a → a.index < s.graph.locations.size) ∧
      ∀ e, node.effect? = some e → e.index < s.graph.effects.size)
    (hnamed : ∀ x ∈ node.operands, x ∈ c.operands ∨ x.index < s.graph.stores.size) :
    Builds P c s (s.enterStore node).2 :=
  builds_grow hs hc (.addStore hnode hnamed)

lemma builds_storeVariable (position : Position) (name : String) :
    Builds P c s (s.storeVariable position name).2 := by
  refine (builds_enterStore hs hc _ (fun _ => ⟨fun x hx => ?_, fun a ha => ?_, fun e he => ?_⟩)
    fun x hx => ?_).trans (builds_note _ _)
  · exact absurd hx List.not_mem_nil
  · exact absurd ha (by simp [StoreNode.ownLocation?])
  · exact absurd he (by simp [StoreNode.effect?])
  · exact absurd hx List.not_mem_nil

end

lemma builds_restrict (hs : s.graph.Sound) (position : Position) {base : StoreId} {e : EffectId}
    (hbase : P → base.index < s.graph.stores.size) (he : P → e.index < s.graph.effects.size) :
    Builds P (.restrict position base e) s (s.restrict position base e).2 := by
  refine (builds_enterStore (c := .restrict position base e) hs rfl
    (.restrict base e) (fun hP => ⟨fun x hx => ?_, fun a ha => ?_, fun e' he' => ?_⟩)
    fun x hx => Or.inl hx).trans (builds_note _ _)
  · exact List.mem_singleton.1 hx ▸ hbase hP
  · exact absurd ha (by simp [StoreNode.ownLocation?])
  · cases he'
    exact he hP

lemma builds_overlay (hs : s.graph.Sound) (position : Position) {inside outside : StoreId}
    {e : EffectId} (hin : P → inside.index < s.graph.stores.size)
    (hout : P → outside.index < s.graph.stores.size) (he : P → e.index < s.graph.effects.size) :
    Builds P (.overlay position inside outside e) s (s.overlay position inside outside e).2 := by
  refine (builds_enterStore (c := .overlay position inside outside e) hs rfl
    (.overlay inside outside e) (fun hP => ⟨fun x hx => ?_, fun a ha => ?_, fun e' he' => ?_⟩)
    fun x hx => Or.inl hx).trans (builds_note _ _)
  · simp only [StoreNode.operands, List.mem_cons, List.not_mem_nil, or_false] at hx
    rcases hx with rfl | rfl
    · exact hin hP
    · exact hout hP
  · exact absurd ha (by simp [StoreNode.ownLocation?])
  · cases he'
    exact he hP

lemma builds_update (hs : s.graph.Sound) (position : Position) (message : String)
    {base : StoreId} {a : LocationId} (type : τ) (strong : Bool)
    (hbase : P → base.index < s.graph.stores.size)
    (ha : P → a.index < s.graph.locations.size) :
    Builds P (.update position message base a type strong) s
      (s.update position message base a type strong).2 := by
  refine (builds_enterStore (c := .update position message base a type strong) hs rfl
    (.update base a type strong position message)
    (fun hP => ⟨fun x hx => ?_, fun b hb => ?_, fun e he => ?_⟩)
    fun x hx => Or.inl hx).trans (builds_note _ _)
  · exact List.mem_singleton.1 hx ▸ hbase hP
  · cases hb
    exact ha hP
  · exact absurd he (by simp [StoreNode.effect?])

lemma builds_includeStore (hs : s.graph.Sound) (hc : c.grows = true) {position : Position}
    {message : String} {left right : StoreId}
    (h : s.includeStore position message left right = .ok s') : Builds P c s s' := by
  obtain ⟨same, hsame, h⟩ := bind_eq_ok_iff.1 h
  obtain ⟨hleft, hright⟩ := lt_of_sameStore_eq_ok hsame
  refine (builds_note s (.edgeAsked left right)).trans ?_
  dsimp only at h
  split at h
  · cases h
    exact .refl
  · cases h
    exact builds_grow (s := s.note (.edgeAsked left right)) hs hc (.addEdge hleft hright)

lemma builds_equateStores (hs : s.graph.Sound) {position : Position} {message : String}
    {x y : StoreId} (h : s.equateStores position message x y = .ok s') :
    Builds P (.equateStores position message x y) s s' := by
  obtain ⟨s₁, h₁, h₂⟩ := bind_eq_ok_iff.1 h
  have hfirst : Builds P (.equateStores position message x y) s s₁ :=
    builds_includeStore hs rfl h₁
  exact hfirst.trans (builds_includeStore (hfirst.grows hs).sound rfl h₂)

lemma builds_joinStores (hs : s.graph.Sound) {position : Position} {message : String}
    {x y z : StoreId} (h : s.joinStores position message x y = .ok (z, s')) :
    Builds P (.joinStores position message x y) s s' := by
  have hvar : Builds P (.joinStores position message x y) s (s.storeVariable position "lub").2 :=
    builds_storeVariable hs rfl position _
  obtain ⟨s₁, h₁, h⟩ := bind_eq_ok_iff.1 h
  have hfirst := hvar.trans (builds_includeStore (hvar.grows hs).sound rfl h₁)
  obtain ⟨same, -, h⟩ := bind_eq_ok_iff.1 h
  split at h
  · cases h
    exact hfirst
  · obtain ⟨s₂, h₂, h⟩ := bind_eq_ok_iff.1 h
    cases h
    exact hfirst.trans (builds_includeStore (Builds.grows hfirst hs).sound rfl h₂)

lemma builds_mergeStores (hs : s.graph.Sound) {position : Position} {message : String}
    {x y : StoreId} (h : s.mergeStores position message x y = .ok s') :
    Builds P (.mergeStores position message x y) s s' := by
  obtain ⟨rx, hx, h⟩ := bind_eq_ok_iff.1 h
  obtain ⟨ry, hy, h⟩ := bind_eq_ok_iff.1 h
  obtain ⟨hrootx, hmemx, hvarx⟩ := findStoreVariable_eq_ok hs hx
  obtain ⟨hrooty, hmemy, hvary⟩ := findStoreVariable_eq_ok hs hy
  refine (builds_note s (.storesMerged position message x y)).trans ?_
  dsimp only at h
  split at h
  · cases h
    exact .refl
  · rename_i hne
    cases h
    have hunites : s.graph.stores.classes.Unites [(x.index, y.index)] rx ry :=
      ⟨hmemx, hmemy, Ne.symm hne, _, List.mem_singleton_self _, Or.inr ⟨hrootx, hrooty⟩⟩
    exact builds_grow (s := s.note (.storesMerged position message x y)) hs rfl
      (.joinStores hunites hvarx hvary)

/-- What is allocated is made from a store that the command names or that exists, and exists itself
afterwards. -/
lemma builds_allocate (hs : s.graph.Sound) (hc : c.grows = true) {position : Position}
    {base x : StoreId} {a : LocationId} (hbase : P → base.index < s.graph.stores.size)
    (hnamed : base ∈ c.operands ∨ base.index < s.graph.stores.size)
    (h : s.allocate position base a = .ok (x, s')) :
    Builds P c s s' ∧ x.index < s'.graph.stores.size := by
  obtain ⟨record, hrecord, h⟩ := bind_eq_ok_iff.1 h
  have hlt := Locations.lt_of_read_eq_ok hrecord
  cases h
  have hfresh : Builds P c s (s.withTalk (s.talk.fresh record.holds).2) :=
    builds_speak (.single (.require (.fresh _)))
  have henter := builds_enterStore (P := P) (s := s.withTalk (s.talk.fresh record.holds).2) hs hc
    (.allocate base a (s.talk.fresh record.holds).1)
    (fun hP => ⟨fun x hx => List.mem_singleton.1 hx ▸ hbase hP, fun b hb => ?_, fun e he => ?_⟩)
    fun x hx => List.mem_singleton.1 hx ▸ hnamed
  · refine ⟨(hfresh.trans henter).trans (builds_note _ _), ?_⟩
    have hsize : (((s.withTalk (s.talk.fresh record.holds).2).enterStore
        (.allocate base a (s.talk.fresh record.holds).1)).2).graph.stores.size =
          s.graph.stores.size + 1 := by
      simp only [enterStore, graph_forget]
      exact Stores.size_add _ _
    exact hsize ▸ Nat.lt_succ_self _
  · cases hb
    exact hlt
  · exact absurd he (by simp [StoreNode.effect?])

lemma builds_allocateSteps {position : Position} {locations : List LocationId} (hs : s.graph.Sound)
    (hc : c.grows = true) {base x : StoreId} (hbase : P → base.index < s.graph.stores.size)
    (hnamed : base ∈ c.operands ∨ base.index < s.graph.stores.size)
    (h : locations.foldlM (fun (x, s) a => s.allocate position x a) (base, s) = .ok (x, s')) :
    Builds P c s s' := by
  induction locations generalizing base s with
  | nil =>
    cases h
    exact .refl
  | cons a locations ih =>
    obtain ⟨⟨y, s₁⟩, h₁, h⟩ := bind_eq_ok_iff.1 h
    obtain ⟨hfirst, hlt⟩ := builds_allocate (P := P) hs hc hbase hnamed h₁
    -- The next allocation is made from the store that this one has appended.
    exact hfirst.trans (ih (hfirst.grows hs).sound (fun _ => hlt) (Or.inr hlt) h)

lemma builds_allocateAll (hs : s.graph.Sound) {position : Position} {base x : StoreId}
    {e : EffectId} (hbase : P → base.index < s.graph.stores.size)
    (h : s.allocateAll position base e = .ok (x, s')) :
    Builds P (.allocateAll position base e) s s' := by
  obtain ⟨root, -, h⟩ := bind_eq_ok_iff.1 h
  split at h
  · cases h
  · exact builds_allocateSteps hs rfl hbase (Or.inl (List.mem_singleton_self _)) h

end Session

end HeapQual
