import HeapQual.Proofs.Effect.Coverage

/-!
# Effects without variables

An effect that mentions no variable is a finite expression over atoms (`Expression`), and an
expression stands for a set of accesses once it is known which locations are the same
(`Expression.denote`): the parts of an atom's kind, the union of two sets, the meets of two sets at
one location.  Nothing else has a say in what its members are, whatever inclusions are recorded and
whatever variables are merged (`Graph.Sound.mem_accessesOf_of_shows`).

Two things keep inclusions out.  An inclusion into an effect without variables is checked and brings
nothing, and no inclusion is into an intersection, because those are split before they are recorded.
The second also settles what an intersection of any two effects has
(`Graph.Sound.mem_inter`).
-/

namespace HeapQual

/-- An expression without variables. -/
inductive Expression where
  | empty
  | atom (kind : Kind) (location : LocationId)
  | union (left right : Expression)
  | inter (left right : Expression)
  deriving DecidableEq

/-- The accesses that two sets have in common: the meets at one location. -/
def commonAccesses (m n : Set Access) : Set Access :=
  {x | ∃ k₁ k₂, ⟨x.location, k₁⟩ ∈ m ∧ ⟨x.location, k₂⟩ ∈ n ∧ k₁.meet k₂ = some x.kind}

namespace Expression

/-- The accesses that an expression stands for, given the root of each location's class. -/
def denote (classOf : LocationId → Nat) : Expression → Set Access
  | empty => ∅
  | atom kind l => {x | x.location = classOf l ∧ x.kind ∈ kind.parts}
  | union left right => left.denote classOf ∪ right.denote classOf
  | inter left right => commonAccesses (left.denote classOf) (right.denote classOf)

/-- The locations that an expression names. -/
def locations : Expression → List LocationId
  | empty => []
  | atom _ l => [l]
  | union left right => left.locations ++ right.locations
  | inter left right => left.locations ++ right.locations

/-- Only the classes of the locations that it names matter for what an expression stands for. -/
lemma denote_congr {p : Expression} {classOf classOf' : LocationId → Nat}
    (h : ∀ l ∈ p.locations, classOf l = classOf' l) : p.denote classOf = p.denote classOf' := by
  induction p with
  | empty => rfl
  | atom kind l => simp [denote, h l (List.mem_singleton_self l)]
  | union left right ihl ihr =>
    rw [denote, denote, ihl fun l hl => h l (List.mem_append_left _ hl),
      ihr fun l hl => h l (List.mem_append_right _ hl)]
  | inter left right ihl ihr =>
    rw [denote, denote, ihl fun l hl => h l (List.mem_append_left _ hl),
      ihr fun l hl => h l (List.mem_append_right _ hl)]

end Expression

namespace Effects

variable {t : Effects} {locations : Nat} {e : EffectId}

/-- The expression of the effect, with the expressions of its operands put in, is this one. -/
inductive Shows (t : Effects) : EffectId → Expression → Prop
  | empty {e : EffectId} : t.node e = .empty → Shows t e .empty
  | atom {e : EffectId} {kind : Kind} {l : LocationId} :
      t.node e = .atom kind l → Shows t e (.atom kind l)
  | union {e a b : EffectId} {left right : Expression} :
      t.node e = .union a b → Shows t a left → Shows t b right → Shows t e (.union left right)
  | inter {e a b : EffectId} {left right : Expression} :
      t.node e = .inter a b → Shows t a left → Shows t b right → Shows t e (.inter left right)

namespace Shows

variable {p q : Expression}

/-- An effect shows one expression only. -/
lemma unique (hp : t.Shows e p) (hq : t.Shows e q) : p = q := by
  induction hp generalizing q with
  | empty hnode => cases hq <;> simp_all
  | atom hnode => cases hq <;> simp_all
  | union hnode _ _ iha ihb =>
    cases hq with
    | union hnode' ha hb =>
      obtain ⟨rfl, rfl⟩ := EffectNode.union.inj (hnode.symm.trans hnode')
      rw [iha ha, ihb hb]
    | _ => simp_all
  | inter hnode _ _ iha ihb =>
    cases hq with
    | inter hnode' ha hb =>
      obtain ⟨rfl, rfl⟩ := EffectNode.inter.inj (hnode.symm.trans hnode')
      rw [iha ha, ihb hb]
    | _ => simp_all

/-- What shows an expression mentions no variable. -/
lemma not_mentionsVariable (h : t.Shows e p) :
    ¬t.MentionsVariable (t.root e) := by
  induction h with
  | empty hnode =>
    rw [mentionsVariable_root_iff]
    simp [hnode, EffectNode.isVariable, EffectNode.operands]
  | atom hnode =>
    rw [mentionsVariable_root_iff]
    simp [hnode, EffectNode.isVariable, EffectNode.operands]
  | union hnode _ _ iha ihb =>
    rw [mentionsVariable_root_iff]
    simp [hnode, EffectNode.isVariable, EffectNode.operands, iha, ihb]
  | inter hnode _ _ iha ihb =>
    rw [mentionsVariable_root_iff]
    simp [hnode, EffectNode.isVariable, EffectNode.operands, iha, ihb]

end Shows

namespace Sound

/-- What mentions no variable shows an expression. -/
lemma exists_shows (ht : t.Sound locations) (h : ¬t.MentionsVariable (t.root e)) :
    ∃ p, t.Shows e p := by
  -- Operands come before their operators.
  induction hi : e.index using Nat.strongRecOn generalizing e with
  | _ i ih =>
    rw [mentionsVariable_root_iff, not_or] at h
    obtain ⟨hvar, hoperands⟩ := h
    have hshown : ∀ a ∈ (t.node e).operands, ∃ p, t.Shows a p := fun a ha =>
      ih a.index (hi ▸ ht.operand_lt_index ha) (fun hmentions => hoperands ⟨a, ha, hmentions⟩) rfl
    cases hnode : t.node e with
    | empty => exact ⟨_, .empty hnode⟩
    | atom kind l => exact ⟨_, .atom hnode⟩
    | var name => exact absurd (by rw [hnode]; rfl) hvar
    | union a b =>
      rw [hnode] at hshown
      obtain ⟨left, ha⟩ := hshown a (by simp [EffectNode.operands])
      obtain ⟨right, hb⟩ := hshown b (by simp [EffectNode.operands])
      exact ⟨_, .union hnode ha hb⟩
    | inter a b =>
      rw [hnode] at hshown
      obtain ⟨left, ha⟩ := hshown a (by simp [EffectNode.operands])
      obtain ⟨right, hb⟩ := hshown b (by simp [EffectNode.operands])
      exact ⟨_, .inter hnode ha hb⟩

theorem hasVariables_eq_false_iff (ht : t.Sound locations) (he : e.index < t.size) :
    t.hasVariables e = false ↔ ∃ p, t.Shows e p := by
  rw [← Bool.not_eq_true, ht.hasVariables_iff he]
  exact ⟨ht.exists_shows, fun ⟨_, h⟩ => h.not_mentionsVariable⟩

/-- Descending into the expression and sweeping over the table come to the same. -/
theorem hasVariables_eq_false_iff_closed (ht : t.Sound locations) (he : e.index < t.size) :
    t.hasVariables e = false ↔ t.closedTable[t.root e]? = some true := by
  have hclosed := ht.closed_iff (ht.root_lt he)
  rw [getElem?_closedTable (ht.root_lt he), Option.getD_some] at hclosed
  rw [← Bool.not_eq_true, ht.hasVariables_iff he, ← hclosed, getElem?_closedTable (ht.root_lt he),
    Option.some_inj]

end Sound

end Effects

namespace Graph

variable {τ : Type} {g g₀ : Graph τ} {e a b : EffectId} {p : Expression} {x : Access}

/-- An effect without variables shows the same expression for good. -/
lemma Extends.shows (hext : g₀.Extends g) (hg₀ : g₀.Sound) (hg : g.Sound)
    (he : e.index < g₀.effects.size) (h : g₀.effects.Shows e p) : g.effects.Shows e p := by
  induction h with
  | empty hnode => exact .empty ((hext.node_eq hg₀ hg he (by rw [hnode]; rfl)).trans hnode)
  | atom hnode => exact .atom ((hext.node_eq hg₀ hg he (by rw [hnode]; rfl)).trans hnode)
  | @union e a b left right hnode _ _ iha ihb =>
    have hlt : ∀ c ∈ [a, b], c.index < g₀.effects.size := fun c hc =>
      (hg₀.effects.operand_lt_index (e := e) (by rw [hnode]; exact hc)).trans he
    exact .union ((hext.node_eq hg₀ hg he (by rw [hnode]; rfl)).trans hnode)
      (iha (hlt a (by simp))) (ihb (hlt b (by simp)))
  | @inter e a b left right hnode _ _ iha ihb =>
    have hlt : ∀ c ∈ [a, b], c.index < g₀.effects.size := fun c hc =>
      (hg₀.effects.operand_lt_index (e := e) (by rw [hnode]; exact hc)).trans he
    exact .inter ((hext.node_eq hg₀ hg he (by rw [hnode]; rfl)).trans hnode)
      (iha (hlt a (by simp))) (ihb (hlt b (by simp)))

namespace Sound

variable (hg : g.Sound)

include hg

/-- An intersection has what its operands have in common, and nothing else. -/
lemma mem_inter (hnode : g.effects.node e = .inter a b) :
    x ∈ g.accessesOf e ↔ x ∈ commonAccesses {y | y ∈ g.accessesOf a} {y | y ∈ g.accessesOf b} := by
  have hbuilt : x ∈ g.effects.built (fun i => {y | y ∈ g.solve.membersOf i}) (g.effects.root e) ↔
      x ∈ commonAccesses {y | y ∈ g.accessesOf a} {y | y ∈ g.accessesOf b} := by
    rw [Effects.built, show g.effects.nodeAt (g.effects.root e) = .inter a b from hnode]
    constructor
    · rintro ⟨⟨l, k₁⟩, hy, ⟨l', k₂⟩, hz, rfl, rfl, hmeet⟩
      exact ⟨k₁, k₂, hy, hz, hmeet⟩
    · rintro ⟨k₁, k₂, hy, hz, hmeet⟩
      exact ⟨_, hy, _, hz, rfl, rfl, hmeet⟩
  -- Inclusions into an intersection are split before they are recorded.
  have hnone : ¬g.FlowsInto x e := by
    rintro ⟨-, inc, hinc, htarget, -⟩
    have hinter := hg.effects.target_not_inter inc hinc
    rw [Effects.node, htarget, ← Effects.node, hnode] at hinter
    exact absurd hinter (by simp [EffectNode.isInter])
  rw [hg.mem_accessesOf_iff (hg.root_mem_roots_of_node (by simp [hnode])), hbuilt, hnode]
  simp [hnone]

theorem mem_accessesOf_of_shows (he : e.index < g.effects.size) (h : g.effects.Shows e p) :
    x ∈ g.accessesOf e ↔ x ∈ p.denote g.classOf := by
  have hlt {e c : EffectId} (he : e.index < g.effects.size)
      (hc : c ∈ (g.effects.node e).operands) : c.index < g.effects.size :=
    (hg.effects.operand_lt_index hc).trans he
  induction h generalizing x with
  | empty hnode => simp [hg.not_mem_empty he hnode, Expression.denote]
  | atom hnode => exact hg.mem_atom hnode
  | @union e a b left right hnode ha hb iha ihb =>
    have hclosed : ¬g.FlowsInto x e := fun hflow =>
      (Effects.Shows.union hnode ha hb).not_mentionsVariable hflow.1
    have hleft : x ∈ g.accessesOf a ↔ x ∈ left.denote g.classOf :=
      iha (hlt he (by simp [hnode, EffectNode.operands]))
    have hright : x ∈ g.accessesOf b ↔ x ∈ right.denote g.classOf :=
      ihb (hlt he (by simp [hnode, EffectNode.operands]))
    rw [hg.mem_union hnode, hleft, hright]
    simp [hclosed, Expression.denote]
  | @inter e a b left right hnode ha hb iha ihb =>
    have hleft : {y | y ∈ g.accessesOf a} = left.denote g.classOf :=
      Set.ext fun y => iha (hlt he (by simp [hnode, EffectNode.operands]))
    have hright : {y | y ∈ g.accessesOf b} = right.denote g.classOf :=
      Set.ext fun y => ihb (hlt he (by simp [hnode, EffectNode.operands]))
    rw [hg.mem_inter hnode, hleft, hright, Expression.denote]

end Sound

end Graph

end HeapQual
