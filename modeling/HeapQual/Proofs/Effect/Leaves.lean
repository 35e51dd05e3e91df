import HeapQual.Proofs.Effect.Coverage

/-!
# The parts of unions

A union is known by its parts: effects with the same parts are known to be equal
(`Effects.knownEqual_iff`).  While a graph grows, parts may become one, but none comes and none
goes: the parts that an effect has later are what has become of the parts that it has now
(`Graph.Extends.partsOf_eq`).

So effects that are known to be equal stay so (`Graph.Extends.knownEqual`), and an inclusion that is
split later leaves no more to be recorded than it leaves now
(`Graph.Extends.recorded_split_sublist`).
-/

namespace HeapQual

namespace Effects

variable {t : Effects} {locations : Nat} {classOf : LocationId → Nat} {e f a b : EffectId}

/-! ## Known to be equal -/

lemma leavesFrom_congr (h : t.root e = t.root f) (fuel : Nat) :
    t.leavesFrom classOf fuel e = t.leavesFrom classOf fuel f := by
  cases fuel with
  | zero => rfl
  | succ fuel => simp only [leavesFrom, node, h]

/-- Effects are known to be equal if they have the same parts. -/
lemma knownEqual_iff : t.knownEqual classOf e f = true ↔
    (∀ x ∈ t.leaves classOf e, x ∈ t.leaves classOf f) ∧
      ∀ x ∈ t.leaves classOf f, x ∈ t.leaves classOf e := by
  rw [knownEqual, Bool.or_eq_true_iff, decide_eq_true_eq, sameLeaves, Bool.and_eq_true_iff,
    List.all_eq_true, List.all_eq_true]
  simp only [decide_eq_true_eq]
  constructor
  · rintro (hroot | hsame)
    · rw [leaves, leaves, leavesFrom_congr hroot]
      exact ⟨fun _ hx => hx, fun _ hx => hx⟩
    · exact hsame
  · exact Or.inr

lemma knownEqual_self (t : Effects) (classOf : LocationId → Nat) (e : EffectId) :
    t.knownEqual classOf e e = true := by
  simp [knownEqual]

lemma knownEqual_comm (t : Effects) (classOf : LocationId → Nat) (e₁ e₂ : EffectId) :
    t.knownEqual classOf e₁ e₂ = t.knownEqual classOf e₂ e₁ := by
  rw [knownEqual, knownEqual, sameLeaves, sameLeaves, Bool.and_comm]
  congr 1
  exact decide_eq_decide.2 eq_comm

/-! ## Parts by expression -/

namespace Sound

variable (ht : t.Sound locations)

include ht

/-- Operators come after their operands, so an effect's own handle is enough fuel. -/
lemma leavesFrom_eq {fuel fuel' : Nat} (h : e.index < fuel) (h' : e.index < fuel') :
    t.leavesFrom classOf fuel e = t.leavesFrom classOf fuel' e := by
  induction fuel generalizing e fuel' with
  | zero => exact absurd h (Nat.not_lt_zero _)
  | succ fuel ih =>
    obtain ⟨fuel', rfl⟩ := Nat.exists_eq_succ_of_ne_zero (Nat.ne_of_gt (Nat.zero_lt_of_lt h'))
    rw [leavesFrom, leavesFrom]
    cases hnode : t.node e with
    | union a b =>
      have ha := ht.operand_lt_index (e := e) (a := a) (by simp [hnode, EffectNode.operands])
      have hb := ht.operand_lt_index (e := e) (a := b) (by simp [hnode, EffectNode.operands])
      exact congrArg₂ (· ++ ·) (ih (by omega) (by omega)) (ih (by omega) (by omega))
    | _ => rfl

/-- The parts of a union are those of its operands. -/
lemma leaves_of_union (hnode : t.node e = .union a b) :
    t.leaves classOf e = t.leaves classOf a ++ t.leaves classOf b := by
  have hat : t.nodeAt e.index = .union a b :=
    (ht.node_eq (by rw [hnode]; rfl)).2.symm.trans hnode
  have he : e.index < t.size := lt_size_of_nodeAt_ne (by simp [hat])
  rw [leaves, ht.leavesFrom_eq he (Nat.lt_succ_of_lt he), leavesFrom, hnode]
  rfl

lemma leaves_of_inter (hnode : t.node e = .inter a b) :
    t.leaves classOf e = [.other (t.root e)] := by
  obtain ⟨n, hn⟩ := Nat.exists_eq_succ_of_ne_zero (Nat.ne_of_gt ht.size_pos)
  rw [leaves, hn, leavesFrom, hnode]

lemma leaves_of_variable (hvar : (t.node e).isVariable = true) :
    t.leaves classOf e = [.other (t.root e)] := by
  obtain ⟨name, hnode⟩ := EffectNode.exists_of_isVariable hvar
  obtain ⟨n, hn⟩ := Nat.exists_eq_succ_of_ne_zero (Nat.ne_of_gt ht.size_pos)
  rw [leaves, hn, leavesFrom, hnode]

lemma leaves_empty : t.leaves classOf .empty = [] := by
  obtain ⟨n, hn⟩ := Nat.exists_eq_succ_of_ne_zero (Nat.ne_of_gt ht.size_pos)
  rw [leaves, hn, leavesFrom, ht.node_empty]

/-- Variables are known to be equal only if they are of one class. -/
lemma knownEqual_variables_iff (he : (t.node e).isVariable = true)
    (hf : (t.node f).isVariable = true) :
    t.knownEqual classOf e f = true ↔ t.root e = t.root f := by
  rw [knownEqual_iff, ht.leaves_of_variable he, ht.leaves_of_variable hf]
  simp [eq_comm]

end Sound

end Effects

namespace Graph

variable {τ : Type} {g g₀ : Graph τ} {e e₁ e₂ : EffectId}

/-- The parts of an effect. -/
def partsOf (g : Graph τ) (e : EffectId) : List Effects.Leaf := g.effects.leaves g.classOf e

/-- What has become of a part, now that more is merged. -/
def reroot (g : Graph τ) : Effects.Leaf → Effects.Leaf
  | .atom kind l => .atom kind (g.locations.classes.root l)
  | .other root => .other (g.effects.classes.root root)

namespace Extends

variable (hext : g₀.Extends g) (hg₀ : g₀.Sound) (hg : g.Sound)

include hext hg₀ hg

/-- Variables stay variables, and nothing becomes one. -/
lemma isVariable_node (he : e.index < g₀.effects.size) :
    (g.effects.node e).isVariable = (g₀.effects.node e).isVariable := by
  rw [hg.effects.isVariable_node, hg₀.effects.isVariable_node, hext.effect_eq e.index he]

lemma leavesFrom_eq (fuel : Nat) (he : e.index < g₀.effects.size) :
    g.effects.leavesFrom g.classOf fuel e =
      (g₀.effects.leavesFrom g₀.classOf fuel e).map g.reroot := by
  induction fuel generalizing e with
  | zero => rfl
  | succ fuel ih =>
    have hroot : g.effects.root e = g.effects.classes.root (g₀.effects.root e) :=
      (hext.effects.root_root e.index).symm
    cases hvar : (g₀.effects.node e).isVariable with
    | true =>
      -- A variable may have been merged under another one, so only its class is known.
      have hvar' := (hext.isVariable_node hg₀ hg he).trans hvar
      rw [Effects.leavesFrom, Effects.leavesFrom]
      cases hnode : g₀.effects.node e <;> cases hnode' : g.effects.node e <;>
        simp_all [EffectNode.isVariable, reroot]
    | false =>
      rw [Effects.leavesFrom, Effects.leavesFrom, hext.node_eq hg₀ hg he hvar]
      cases hnode : g₀.effects.node e with
      | empty => rfl
      | atom kind l =>
        have hclass : g.classOf l = g.locations.classes.root (g₀.classOf l) :=
          (hext.locations.root_root l.index).symm
        simp [reroot, hclass]
      | union a b =>
        have hlt : ∀ c ∈ [a, b], c.index < g₀.effects.size := fun c hc =>
          (hg₀.effects.operand_lt_index (by rw [hnode]; exact hc)).trans he
        dsimp only
        rw [ih (hlt a (by simp)), ih (hlt b (by simp)), List.map_append]
      | var name => simp [reroot, hroot]
      | inter a b => simp [reroot, hroot]

theorem partsOf_eq (he : e.index < g₀.effects.size) :
    g.partsOf e = (g₀.partsOf e).map g.reroot := by
  rw [partsOf, Effects.leaves, hg.effects.leavesFrom_eq (he.trans_le hext.size_effects) he,
    hext.leavesFrom_eq hg₀ hg _ he]
  rfl

/-- An effect that has the parts of another keeps having them. -/
lemma partsOf_subset (he₁ : e₁.index < g₀.effects.size) (he₂ : e₂.index < g₀.effects.size)
    (hsub : g₀.partsOf e₁ ⊆ g₀.partsOf e₂) : g.partsOf e₁ ⊆ g.partsOf e₂ := by
  rw [hext.partsOf_eq hg₀ hg he₁, hext.partsOf_eq hg₀ hg he₂]
  exact List.map_subset _ hsub

theorem knownEqual (he₁ : e₁.index < g₀.effects.size) (he₂ : e₂.index < g₀.effects.size)
    (h : g₀.effects.knownEqual g₀.classOf e₁ e₂ = true) :
    g.effects.knownEqual g.classOf e₁ e₂ = true := by
  obtain ⟨hforth, hback⟩ := Effects.knownEqual_iff.1 h
  exact Effects.knownEqual_iff.2
    ⟨hext.partsOf_subset hg₀ hg he₁ he₂ hforth, hext.partsOf_subset hg₀ hg he₂ he₁ hback⟩

/-! ## Splitting later -/

/-- A property that no variable has is kept. -/
lemma node_congr (p : EffectNode → Bool) (hp : ∀ name, p (.var name) = false)
    (he : e.index < g₀.effects.size) : p (g.effects.node e) = p (g₀.effects.node e) := by
  cases hvar : (g₀.effects.node e).isVariable with
  | false => rw [hext.node_eq hg₀ hg he hvar]
  | true =>
    obtain ⟨name, hnode⟩ := EffectNode.exists_of_isVariable hvar
    obtain ⟨name', hnode'⟩ :=
      EffectNode.exists_of_isVariable ((hext.isVariable_node hg₀ hg he).trans hvar)
    rw [hnode, hnode', hp, hp]

lemma recorded_splitFrom_sublist {fuel : Nat} (fuel' : Nat) (he₁ : e₁.index < g₀.effects.size)
    (he₂ : e₂.index < g₀.effects.size) (hfuel : e₁.index + e₂.index < fuel) :
    ((g.effects.splitFrom g.classOf fuel' e₁ e₂).filter (·.recorded)).Sublist
      ((g₀.effects.splitFrom g₀.classOf fuel e₁ e₂).filter (·.recorded)) := by
  induction fuel generalizing fuel' e₁ e₂ with
  | zero => exact absurd hfuel (Nat.not_lt_zero _)
  | succ fuel ih =>
    cases fuel' with
    | zero => exact List.nil_sublist _
    | succ fuel' =>
      cases hopen' : e₁.isEmpty || g.effects.knownEqual g.classOf e₁ e₂ with
      | true =>
        rw [Effects.splitFrom_of_known hopen']
        exact List.nil_sublist _
      | false =>
        -- What is not known later is not known now, so the same round is made now.
        have hopen : (e₁.isEmpty || g₀.effects.knownEqual g₀.classOf e₁ e₂) = false := by
          rw [Bool.or_eq_false_iff] at hopen' ⊢
          refine ⟨hopen'.1, Bool.eq_false_iff.2 fun hknown => ?_⟩
          rw [hext.knownEqual hg₀ hg he₁ he₂ hknown] at hopen'
          cases hopen'.2
        cases hunion : (g₀.effects.node e₁).isUnion with
        | true =>
          obtain ⟨a, b, hnode⟩ := EffectNode.exists_of_isUnion hunion
          have hlt : ∀ c ∈ [a, b], c.index < e₁.index := fun c hc =>
            hg₀.effects.operand_lt_index (by rw [hnode]; exact hc)
          have ha := hlt a (by simp)
          have hb := hlt b (by simp)
          have hnode' := (hext.node_eq hg₀ hg he₁ (by rw [hnode]; rfl)).trans hnode
          rw [Effects.splitFrom_of_union hopen' hnode',
            Effects.splitFrom_of_union hopen hnode, List.filter_cons_of_neg (by simp),
            List.filter_cons_of_neg (by simp), List.filter_append, List.filter_append]
          exact (ih _ (ha.trans he₁) he₂ (by omega)).append (ih _ (hb.trans he₁) he₂ (by omega))
        | false =>
          have hunion' :=
            (hext.node_congr hg₀ hg EffectNode.isUnion (fun _ => rfl) he₁).trans hunion
          cases hinter : (g₀.effects.node e₂).isInter with
          | true =>
            obtain ⟨a, b, hnode⟩ := EffectNode.exists_of_isInter hinter
            have hlt : ∀ c ∈ [a, b], c.index < e₂.index := fun c hc =>
              hg₀.effects.operand_lt_index (by rw [hnode]; exact hc)
            have ha := hlt a (by simp)
            have hb := hlt b (by simp)
            have hnode' := (hext.node_eq hg₀ hg he₂ (by rw [hnode]; rfl)).trans hnode
            rw [Effects.splitFrom_of_inter hopen' hunion' hnode',
              Effects.splitFrom_of_inter hopen hunion hnode, List.filter_cons_of_neg (by simp),
              List.filter_cons_of_neg (by simp), List.filter_append, List.filter_append]
            exact (ih _ he₁ (ha.trans he₂) (by omega)).append (ih _ he₁ (hb.trans he₂) (by omega))
          | false =>
            have hinter' :=
              (hext.node_congr hg₀ hg EffectNode.isInter (fun _ => rfl) he₂).trans hinter
            rw [Effects.splitFrom_of_rest hopen' hunion' hinter',
              Effects.splitFrom_of_rest hopen hunion hinter]

/-- An inclusion that is split later leaves no more to be recorded than it leaves now. -/
theorem recorded_split_sublist
    (hlt : e₁.isEmpty = false → e₁.index < g₀.effects.size ∧ e₂.index < g₀.effects.size) :
    ((g.effects.split g.classOf e₁ e₂).filter (·.recorded)).Sublist
      ((g₀.effects.split g₀.classOf e₁ e₂).filter (·.recorded)) := by
  cases hempty : e₁.isEmpty with
  | false =>
    obtain ⟨he₁, he₂⟩ := hlt hempty
    exact hext.recorded_splitFrom_sublist hg₀ hg _ he₁ he₂ (by omega)
  | true =>
    obtain ⟨fuel, hfuel⟩ := Nat.exists_eq_succ_of_ne_zero
      (Nat.mul_ne_zero two_ne_zero hg.effects.size_pos.ne')
    rw [Effects.split, hfuel, Effects.splitFrom_of_known (by rw [hempty, Bool.true_or])]
    exact List.nil_sublist _

end Extends

end Graph

end HeapQual
