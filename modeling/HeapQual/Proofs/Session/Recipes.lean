import HeapQual.Proofs.Cache
import HeapQual.Proofs.Session.Replaying

/-!
# Recipes give back what they made

Atoms, unions and intersections are remembered by what they were made of.  The memo table forgets
entries as it pleases, but what it still holds is right: in every session that can exist, the effect
that is remembered by a recipe has the expression of that recipe
(`Session.ReachableBy.recipes_obey`).  The other commands leave the memo table alone
(`Session.recipes_of_not_remembers`), and expressions are never changed.

So whether an effect is recalled or entered anew, it has the expression that was asked for
(`Session.enters_recallOrEnter`).
-/

namespace HeapQual

/-! ## Expressions and their recipes -/

/-- The recipe by which an expression is remembered. -/
def EffectNode.recipe? : EffectNode → Option Effects.Recipe
  | .atom kind a => some (.ofAtom kind a)
  | .union a b => some (.union a.index b.index)
  | .inter a b => some (.ofInter a b)
  | .empty => none
  | .var _ => none

lemma EffectNode.recipe?_inj {n n' : EffectNode} {r : Effects.Recipe} (h : n.recipe? = some r)
    (h' : n'.recipe? = some r) : n = n' := by
  have heffect {a b : EffectId} (hab : a.index = b.index) : a = b := by
    cases a
    exact congrArg EffectId.mk hab
  have heq := h.trans h'.symm
  cases n <;> cases n' <;> simp only [recipe?, Option.some.injEq, reduceCtorEq,
    Effects.Recipe.ofAtom, Effects.Recipe.ofInter, Effects.Recipe.atom.injEq,
    Effects.Recipe.union.injEq, Effects.Recipe.inter.injEq, Kind.rank_inj] at h heq
  · rename_i kind a kind' a'
    obtain ⟨rfl, ha⟩ := heq
    cases a
    cases a'
    cases ha
    rfl
  · rw [heffect heq.1, heffect heq.2]
  · rw [heffect heq.1, heffect heq.2]

namespace Effects

variable {t u : Effects} {locations : Nat} {e : EffectId} {node : EffectNode} {recipe : Recipe}

/-- The effect is remembered by the recipe of its expression. -/
def Makes (t : Effects) (recipe : Recipe) (e : EffectId) : Prop :=
  e.index < t.size ∧ (t.nodeAt e.index).recipe? = some recipe

lemma Makes.add (h : t.Makes recipe e) (node : EffectNode) : (t.add node).2.Makes recipe e := by
  refine ⟨?_, ?_⟩
  · rw [Sound.size_add]
    exact h.1.trans (Nat.lt_succ_self _)
  · rw [Sound.nodeAt_add, if_neg h.1.ne]
    exact h.2

/-- The effect has this expression in the second table, which is the first one or has the effect in
addition. -/
structure Enters (t : Effects) (node : EffectNode) (e : EffectId) (u : Effects) : Prop where
  grown : u = t ∨ u = (t.add node).2
  lt : e.index < u.size
  isEmpty_eq : e.isEmpty = false
  node_eq : u.node e = node

lemma Enters.inclusions_eq (h : t.Enters node e u) : u.inclusions = t.inclusions := by
  rcases h.grown with rfl | rfl <;> rfl

/-- What is remembered by the recipe of an expression has the expression. -/
lemma Makes.enters (h : t.Makes recipe e) (ht : t.Sound locations)
    (hrecipe : node.recipe? = some recipe) : t.Enters node e t := by
  have hnode := EffectNode.recipe?_inj h.2 hrecipe
  have hroot : t.root e = e.index := by
    refine ht.root_eq ?_
    rw [hnode]
    cases node <;> simp_all [EffectNode.recipe?, EffectNode.isVariable]
  have heq : t.node e = node := by rw [Effects.node, hroot, hnode]
  refine ⟨Or.inl rfl, h.1, decide_eq_false fun hempty => ?_, heq⟩
  rw [hempty, ht.node_empty] at heq
  rw [← heq] at hrecipe
  cases hrecipe

lemma Sound.enters (ht : t.Sound locations) (node : EffectNode) :
    t.Enters node ⟨t.size⟩ (t.add node).2 :=
  let ⟨hlt, hempty, _, hnode⟩ := ht.add_self node
  ⟨Or.inr rfl, hlt, hempty, hnode⟩

end Effects

lemma Graph.Extends.makes {τ : Type} {g g' : Graph τ} (h : g.Extends g') {recipe : Effects.Recipe}
    {e : EffectId} (he : g.effects.Makes recipe e) : g'.effects.Makes recipe e := by
  refine ⟨he.1.trans_le h.size_effects, ?_⟩
  rw [h.effect_eq e.index he.1]
  exact he.2

namespace Session

variable {σ τ : Type} {command : Command τ} {s s' : Session σ τ} [QualifierLattice σ τ]

/-! ## Commands that remember nothing -/

lemma Build.recipes_eq {P : Prop} (hcommand : command.remembers = false)
    (h : Build P command s s') : s'.recipes = s.recipes := by
  cases h with
  | grow => exact recipes_forget _
  | remember hremembers => exact absurd (hremembers.symm.trans hcommand) (by simp)
  | _ => rfl

theorem recipes_of_not_remembers {reply : Reply τ} (hs : s.graph.Sound)
    (hcommand : command.remembers = false) (h : s.exec command = .ok (reply, s')) :
    s'.recipes = s.recipes := by
  rcases exec_moves (P := False) hs False.elim h with hbuilds | ⟨hasks, -⟩
  · clear h
    induction hbuilds with
    | refl => rfl
    | tail _ hmove ih => exact (hmove.recipes_eq hcommand).trans ih
  · exact hasks.spares.recipes_eq

/-! ## Commands that remember -/

omit [QualifierLattice σ τ] in
/-- An effect that is recalled or entered has the expression that was asked for, and is remembered
rightly. -/
lemma enters_recallOrEnter (hrecipes : s.recipes.Obeys s.graph.effects.Makes) {locations : Nat}
    (ht : s.graph.effects.Sound locations) {node : EffectNode} {recipe : Effects.Recipe}
    (hrecipe : node.recipe? = some recipe) (notice : EffectId → Notice τ) :
    s.graph.effects.Enters node (s.recallOrEnter recipe node notice).1
        (s.recallOrEnter recipe node notice).2.graph.effects ∧
      (s.recallOrEnter recipe node notice).2.recipes.Obeys
        (s.recallOrEnter recipe node notice).2.graph.effects.Makes := by
  have hlookup := hrecipes.get? recipe
  unfold recallOrEnter
  dsimp only
  cases hheld : (s.recipes.get? recipe).1 with
  | some e =>
    rw [Cache.fst_get?] at hheld
    exact ⟨(hrecipes.rel_of_peek? hheld).enters ht hrecipe, hlookup⟩
  | none =>
    -- A new entry leaves all other recipes in place, and is what its own recipe made.
    have henters := ht.enters node
    have hgraph (s : Session σ τ) (n : Notice τ) : (s.forget.note n).graph = s.graph :=
      graph_forget s
    have hkept (s : Session σ τ) (n : Notice τ) : (s.forget.note n).recipes = s.recipes :=
      recipes_forget s
    unfold enterEffect
    dsimp only
    rw [hgraph, hkept]
    refine ⟨henters, Cache.Obeys.insert (fun entry hentry => (hlookup entry hentry).add node) ?_⟩
    refine ⟨henters.lt, ?_⟩
    show ((s.graph.effects.add node).2.nodeAt s.graph.effects.size).recipe? = some recipe
    rw [Effects.Sound.nodeAt_add, if_pos rfl]
    exact hrecipe

omit [QualifierLattice σ τ] in
/-- A union is one of its operands, because the other one adds nothing to it, or it is recalled or
entered. -/
lemma union_cases (hrecipes : s.recipes.Obeys s.graph.effects.Makes) (hs : s.graph.Sound)
    {e₁ e₂ u : EffectId} (h : s.union e₁ e₂ = .ok (u, s')) :
    (s' = s ∧ (e₁ = .empty ∧ u = e₂ ∨ e₂ = .empty ∧ u = e₁ ∨
      s.knownEqual e₁ e₂ = .ok true ∧ u = e₁)) ∨
    (e₁.index < s.graph.effects.size ∧ e₂.index < s.graph.effects.size) ∧
      s.graph.effects.Enters (Effects.unionNode e₁ e₂) u s'.graph.effects ∧
      s'.recipes.Obeys s'.graph.effects.Makes := by
  rcases union_eq_ok h with hsame | ⟨hunknown, rfl, rfl⟩
  · exact Or.inl hsame
  · have hrecipe : (Effects.unionNode e₁ e₂).recipe? = some (.ofUnion e₁ e₂) := rfl
    exact Or.inr ⟨lt_of_knownEqual_eq_ok hunknown,
      enters_recallOrEnter hrecipes hs.effects hrecipe (.unionMade e₁ e₂)⟩

omit [QualifierLattice σ τ] in
lemma obeys_of_atom (hrecipes : s.recipes.Obeys s.graph.effects.Makes) (hs : s.graph.Sound)
    {kind : Kind} {a : LocationId} {e : EffectId} (h : s.atom kind a = .ok (e, s')) :
    s'.recipes.Obeys s'.graph.effects.Makes := by
  obtain ⟨_, -, h⟩ := bind_eq_ok_iff.1 h
  rw [← snd_eq_of_pure_eq_ok h]
  exact (enters_recallOrEnter hrecipes hs.effects rfl _).2

omit [QualifierLattice σ τ] in
lemma obeys_of_union (hrecipes : s.recipes.Obeys s.graph.effects.Makes) (hs : s.graph.Sound)
    {e₁ e₂ u : EffectId} (h : s.union e₁ e₂ = .ok (u, s')) :
    s'.recipes.Obeys s'.graph.effects.Makes := by
  rcases union_cases hrecipes hs h with ⟨rfl, -⟩ | ⟨-, -, hmade⟩
  · exact hrecipes
  · exact hmade

omit [QualifierLattice σ τ] in
lemma obeys_of_inter (hrecipes : s.recipes.Obeys s.graph.effects.Makes) (hs : s.graph.Sound)
    {e₁ e₂ e : EffectId} (h : s.inter e₁ e₂ = .ok (e, s')) :
    s'.recipes.Obeys s'.graph.effects.Makes := by
  rcases inter_eq_ok h with ⟨rfl, -⟩ | ⟨-, -, rfl⟩
  · exact hrecipes
  · exact (enters_recallOrEnter hrecipes hs.effects rfl _).2

theorem ReachableBy.recipes_obey {allowed : Session σ τ → Command τ → Prop}
    (h : ReachableBy allowed s) : s.recipes.Obeys s.graph.effects.Makes := by
  obtain ⟨config, lattice, orders, hrun⟩ := h
  induction hrun with
  | refl => exact Cache.obeys_of_slots_eq_nil rfl
  | @exec s₁ s₂ c reply hbefore hallowed hexec ih =>
    have hs := (ReachableBy.coherent ⟨config, lattice, orders, hbefore⟩).sound
    cases hc : c.remembers with
    | false =>
      have hgrows := (Runs.exec .refl hallowed hexec).grows (P := False) hs fun _ _ _ => False.elim
      rw [recipes_of_not_remembers hs hc hexec]
      exact fun entry hentry => hgrows.toExtends.makes (ih entry hentry)
    | true =>
      have hperform := perform_eq_ok_of_exec hexec
      cases c with
      | atom kind a => exact of_bind_answer (fun _ _ => obeys_of_atom ih hs) hperform
      | union e₁ e₂ => exact of_bind_answer (fun _ _ => obeys_of_union ih hs) hperform
      | inter e₁ e₂ => exact of_bind_answer (fun _ _ => obeys_of_inter ih hs) hperform
      | _ => cases hc
  | withLattice lattice _ ih => exact ih

end Session

end HeapQual
