import HeapQual.Proofs.Effect.Coverage

/-!
# Comparing the members of two graphs

Let a graph have the effects of another one, and let it join whatever the other one joins
(`Graph.Coarser`).  If moreover the inclusions of the other graph hold in it, it absorbs that graph
(`Graph.Absorbs`), and every effect has in it what the effect has in the other graph, where an
access stands at the root that its location has now (`Graph.Absorbs.mem_accessesOf`).  The reason is
that members are least: what an effect has in the larger graph, read back in the smaller one, is a
family of sets that respects the smaller one.  For this it need not join effects of one class, as
long as they have the same members in it (`Graph.Carries`).

A graph absorbs every graph that it has grown out of (`Graph.Extends.absorbs`), so members are never
lost.
-/

namespace HeapQual

namespace Graph

variable {τ : Type} {g g' : Graph τ} {e : EffectId} {x : Access}

/-- The access, at the root that its location has in the graph. -/
def relocate (g : Graph τ) (x : Access) : Access := ⟨g.classOf ⟨x.location⟩, x.kind⟩

/-- The second graph has the effects of the first, and joins what the first joins. -/
structure Coarser (g g' : Graph τ) : Prop where
  classOf_root : ∀ a, g'.classOf ⟨g.classOf a⟩ = g'.classOf a
  root_root : ∀ e, g'.effects.root ⟨g.effects.root e⟩ = g'.effects.root e
  effect_eq : ∀ i < g.effects.size, g'.effects.nodeAt i = g.effects.nodeAt i

section SameExpressions

variable (h : ∀ i < g.effects.size, g'.effects.nodeAt i = g.effects.nodeAt i)
  {i : Nat} {node : EffectNode} (hnode : g.effects.nodeAt i = node) (hne : node ≠ .empty)

include h hnode hne

lemma nodeAt_of_effect_eq : g'.effects.nodeAt i = node :=
  (h i (Effects.lt_size_of_nodeAt_ne (hnode ▸ hne))).trans hnode

/-- What is no variable is alone in its class, so its expression is that of its class. -/
lemma Sound.node_of_effect_eq (hg' : g'.Sound) (hvar : node.isVariable = false) :
    g'.effects.node ⟨i⟩ = node := by
  have hat := nodeAt_of_effect_eq h hnode hne
  have hroot : g'.effects.root ⟨i⟩ = i := hg'.effects.root_eq (hat ▸ hvar)
  rw [Effects.node, hroot, hat]

end SameExpressions

namespace Coarser

variable (h : g.Coarser g')

include h

/-- An effect has what the root of its former class has. -/
lemma accessesOf_root (e : EffectId) : g'.accessesOf ⟨g.effects.root e⟩ = g'.accessesOf e :=
  congrArg g'.solve.membersOf (h.root_root e)

/-- What mentions a variable still does. -/
lemma mentionsVariable (hg' : g'.Sound) {i : Nat} (hi : g.effects.MentionsVariable i) :
    g'.effects.MentionsVariable (g'.effects.root ⟨i⟩) := by
  induction hi with
  | @var i hvar =>
    have hne : g.effects.nodeAt i ≠ .empty := by
      intro hempty
      rw [hempty] at hvar
      cases hvar
    refine .var ?_
    rw [← nodeAt_of_effect_eq h.effect_eq rfl hne] at hvar
    exact (hg'.effects.isVariable_node ⟨i⟩).trans hvar
  | @operand i e he _ ih =>
    have hne : g.effects.nodeAt i ≠ .empty := fun hempty => by
      rw [hempty] at he
      exact List.not_mem_nil he
    have hvar : (g.effects.nodeAt i).isVariable = false := by
      cases hnode : g.effects.nodeAt i <;> simp_all [EffectNode.operands, EffectNode.isVariable]
    refine .operand (e := e) ?_ (h.root_root e ▸ ih)
    rw [show g'.effects.nodeAt _ = _ from hg'.node_of_effect_eq h.effect_eq rfl hne hvar]
    exact he

end Coarser

/-- The second graph has the effects of the first, joins what the first joins, and has what the
inclusions of the first that make an effect grow ask for. -/
structure Absorbs (g g' : Graph τ) : Prop extends Coarser g g' where
  inclusion : ∀ inc ∈ g.effects.inclusions, g.effects.MentionsVariable (g.effects.root inc.target) →
    ∀ x ∈ g'.accessesOf inc.source, x ∈ g'.accessesOf inc.target

/-- The second graph has the effects of the first, gives the same to what the first joins, and has
what the inclusions of the first that make an effect grow ask for. -/
structure Carries (g g' : Graph τ) : Prop where
  classOf_root : ∀ a, g'.classOf ⟨g.classOf a⟩ = g'.classOf a
  accessesOf_root : ∀ e, g'.accessesOf ⟨g.effects.root e⟩ = g'.accessesOf e
  effect_eq : ∀ i < g.effects.size, g'.effects.nodeAt i = g.effects.nodeAt i
  inclusion : ∀ inc ∈ g.effects.inclusions, g.effects.MentionsVariable (g.effects.root inc.target) →
    ∀ x ∈ g'.accessesOf inc.source, x ∈ g'.accessesOf inc.target

namespace Carries

variable (h : g.Carries g')

include h

/-- What the effects have in a graph is, read back in a graph that it carries, enough for that
graph. -/
lemma respects (hg' : g'.Sound) :
    g.effects.Respects g.classOf fun i => {x | g'.relocate x ∈ g'.accessesOf ⟨i⟩} where
  atom i kind a hnode k hk := by
    have hatom := hg'.node_of_effect_eq h.effect_eq hnode (by simp) rfl
    exact (hg'.mem_atom hatom).2 ⟨h.classOf_root a, hk⟩
  union i a b hnode := by
    have hunion := hg'.node_of_effect_eq h.effect_eq hnode (by simp) rfl
    refine ⟨fun x hx => (hg'.mem_union hunion).2 (Or.inl ?_),
      fun x hx => (hg'.mem_union hunion).2 (Or.inr (Or.inl ?_))⟩
    · exact h.accessesOf_root a ▸ hx
    · exact h.accessesOf_root b ▸ hx
  inter i a b hnode l k₁ k₂ k hx₁ hx₂ hmeet := by
    have hinter := hg'.node_of_effect_eq h.effect_eq hnode (by simp) rfl
    have ha : g'.relocate ⟨l, k₁⟩ ∈ g'.accessesOf a := h.accessesOf_root a ▸ hx₁
    have hb : g'.relocate ⟨l, k₂⟩ ∈ g'.accessesOf b := h.accessesOf_root b ▸ hx₂
    exact (hg'.effects.respects_members hg'.classOf_lt).inter _ a b hinter _ k₁ k₂ k ha hb hmeet
  inclusion inc hinc hmentions x hx := by
    have hsource : g'.relocate x ∈ g'.accessesOf inc.source := h.accessesOf_root inc.source ▸ hx
    exact (h.accessesOf_root inc.target).symm ▸ h.inclusion inc hinc hmentions _ hsource

theorem relocate_mem (hg : g.Sound) (hg' : g'.Sound) (hx : x ∈ g.accessesOf e) :
    g'.relocate x ∈ g'.accessesOf e := by
  rw [← h.accessesOf_root e]
  exact hg.effects.members_subset hg.classOf_lt (h.respects hg') _ hx

/-- If the locations are the same, an access need not be moved. -/
lemma mem_of_locations_eq (hg : g.Sound) (hg' : g'.Sound) (hlocations : g'.locations = g.locations)
    (hx : x ∈ g.accessesOf e) : x ∈ g'.accessesOf e := by
  have hroot : x.location ∈ g'.locations.roots := by
    rw [hlocations]
    exact hg.mem_roots_of_mem_members hx
  have hsame : g'.relocate x = x := by
    rw [relocate, show g'.classOf ⟨x.location⟩ = x.location from
      ((Forest.Sound.mem_roots _).1 hroot).2]
  exact hsame ▸ h.relocate_mem hg hg' hx

end Carries

lemma Absorbs.carries (h : g.Absorbs g') : g.Carries g' :=
  ⟨h.classOf_root, h.accessesOf_root, h.effect_eq, h.inclusion⟩

theorem Absorbs.mem_accessesOf (h : g.Absorbs g') (hg : g.Sound) (hg' : g'.Sound)
    (hx : x ∈ g.accessesOf e) : g'.relocate x ∈ g'.accessesOf e :=
  h.carries.relocate_mem hg hg' hx

/-! ## Growing -/

lemma Extends.coarser (h : g.Extends g') : g.Coarser g' :=
  ⟨fun a => h.locations.root_root a.index, fun e => h.effects.root_root e.index, h.effect_eq⟩

/-- The inclusions that made an effect grow are still there, and still make it grow. -/
theorem Extends.absorbs (h : g.Extends g') (hg' : g'.Sound) : g.Absorbs g' where
  toCoarser := h.coarser
  inclusion inc hinc hmentions x hx := by
    obtain ⟨n, hget⟩ := Array.mem_iff_getElem?.1 hinc
    have hmentions' : g'.effects.MentionsVariable (g'.effects.root inc.target) :=
      h.coarser.root_root inc.target ▸ h.coarser.mentionsVariable hg' hmentions
    exact (hg'.effects.respects_members hg'.classOf_lt).inclusion inc
      (Array.mem_of_getElem? (h.inclusion_eq n inc hget)) hmentions' hx

end Graph

end HeapQual
