import HeapQual.Proofs.Effect.Members

/-!
# Splitting inclusions

An inclusion between effects is split before it is recorded.  `Effects.Splits` says what a split
does, without the fuel: it stops at inclusions that hold anyway, takes unions on the left and then
intersections on the right apart, and leaves the rest to be recorded
(`Effects.Sound.splits_split`).

What it leaves to record is between existing effects, and its targets are no intersections
(`Effects.Splits.recordable`).
-/

namespace HeapQual

namespace EffectNode

/-- Is this a union? -/
def isUnion : EffectNode → Bool
  | union _ _ => true
  | _ => false

variable {node : EffectNode}

lemma exists_of_isVariable (h : node.isVariable = true) : ∃ name, node = .var name := by
  cases node with
  | var name => exact ⟨name, rfl⟩
  | _ => cases h

lemma exists_of_isUnion (h : node.isUnion = true) : ∃ a b, node = .union a b := by
  cases node with
  | union a b => exact ⟨a, b, rfl⟩
  | _ => cases h

lemma exists_of_isInter (h : node.isInter = true) : ∃ a b, node = .inter a b := by
  cases node with
  | inter a b => exact ⟨a, b, rfl⟩
  | _ => cases h

end EffectNode

namespace Effects

variable {t : Effects} {locations : Nat} {classOf : LocationId → Nat} {e₁ e₂ : EffectId}

/-! ## One round -/

lemma splitFrom_of_known {fuel : Nat} (h : (e₁.isEmpty || t.knownEqual classOf e₁ e₂) = true) :
    t.splitFrom classOf (fuel + 1) e₁ e₂ = [⟨e₁, e₂, false⟩] := by
  rw [splitFrom, if_pos h]

section Unknown

variable {fuel : Nat} {a b : EffectId} (hopen : (e₁.isEmpty || t.knownEqual classOf e₁ e₂) = false)

include hopen

lemma splitFrom_of_union (hnode : t.node e₁ = .union a b) :
    t.splitFrom classOf (fuel + 1) e₁ e₂ =
      ⟨e₁, e₂, false⟩ :: (t.splitFrom classOf fuel a e₂ ++ t.splitFrom classOf fuel b e₂) := by
  simp only [splitFrom, hopen, hnode, Bool.false_eq_true, if_false]

lemma splitFrom_of_inter (hunion : (t.node e₁).isUnion = false) (hnode : t.node e₂ = .inter a b) :
    t.splitFrom classOf (fuel + 1) e₁ e₂ =
      ⟨e₁, e₂, false⟩ :: (t.splitFrom classOf fuel e₁ a ++ t.splitFrom classOf fuel e₁ b) := by
  simp only [splitFrom, hopen, hnode, Bool.false_eq_true, if_false]
  split
  · rename_i hleft
    rw [hleft] at hunion
    cases hunion
  · rename_i hright _
    cases hright
    rfl
  · rename_i hright
    exact absurd rfl (hright a b)

lemma splitFrom_of_rest (hunion : (t.node e₁).isUnion = false)
    (hinter : (t.node e₂).isInter = false) :
    t.splitFrom classOf (fuel + 1) e₁ e₂ = [⟨e₁, e₂, true⟩] := by
  simp only [splitFrom, hopen, Bool.false_eq_true, if_false]
  split
  · rename_i hleft
    rw [hleft] at hunion
    cases hunion
  · rename_i hright _
    rw [hright] at hinter
    cases hinter
  · rfl

end Unknown

/-! ## All rounds -/

/-- These are the inclusions met while one inclusion is split. -/
inductive Splits (t : Effects) (classOf : LocationId → Nat) :
    EffectId → EffectId → List SplitStep → Prop
  | known {e₁ e₂ : EffectId} : e₁.isEmpty = true ∨ t.knownEqual classOf e₁ e₂ = true →
      Splits t classOf e₁ e₂ [⟨e₁, e₂, false⟩]
  /-- Both parts of a union are included. -/
  | union {e₁ e₂ a b : EffectId} {left right : List SplitStep} :
      e₁.isEmpty = false → t.node e₁ = .union a b →
      Splits t classOf a e₂ left → Splits t classOf b e₂ right →
      Splits t classOf e₁ e₂ (⟨e₁, e₂, false⟩ :: (left ++ right))
  /-- Both sides of an intersection include the effect. -/
  | inter {e₁ e₂ a b : EffectId} {left right : List SplitStep} :
      e₁.isEmpty = false → (t.node e₁).isUnion = false → t.node e₂ = .inter a b →
      Splits t classOf e₁ a left → Splits t classOf e₁ b right →
      Splits t classOf e₁ e₂ (⟨e₁, e₂, false⟩ :: (left ++ right))
  | recorded {e₁ e₂ : EffectId} :
      e₁.isEmpty = false → (t.node e₁).isUnion = false → (t.node e₂).isInter = false →
      Splits t classOf e₁ e₂ [⟨e₁, e₂, true⟩]

namespace Sound

/-- Every round of a split lowers one of the two handles, so the fuel is enough. -/
lemma splits_splitFrom (ht : t.Sound locations) {fuel : Nat}
    (hfuel : e₁.index + e₂.index < fuel) :
    t.Splits classOf e₁ e₂ (t.splitFrom classOf fuel e₁ e₂) := by
  -- Either the effect on the left or the one on the right is replaced by an operand, whose handle
  -- is smaller.
  induction fuel generalizing e₁ e₂ with
  | zero => exact absurd hfuel (Nat.not_lt_zero _)
  | succ fuel ih =>
    unfold splitFrom
    split
    · rename_i h
      exact .known (by simpa using h)
    · rename_i h
      have hne : e₁.isEmpty = false := by
        cases he : e₁.isEmpty with
        | false => rfl
        | true => exact absurd (by simp [he]) h
      split
      · rename_i a b hnode
        have ha := ht.operand_lt_index (e := e₁) (a := a) (by simp [hnode, EffectNode.operands])
        have hb := ht.operand_lt_index (e := e₁) (a := b) (by simp [hnode, EffectNode.operands])
        exact .union hne hnode (ih (by omega)) (ih (by omega))
      · rename_i a b hnode hunion
        have ha := ht.operand_lt_index (e := e₂) (a := a) (by simp [hnode, EffectNode.operands])
        have hb := ht.operand_lt_index (e := e₂) (a := b) (by simp [hnode, EffectNode.operands])
        refine .inter hne ?_ hnode (ih (by omega)) (ih (by omega))
        cases h : t.node e₁ with
        | union c d => exact (hunion c d h).elim
        | _ => rfl
      · rename_i hunion hinter
        refine .recorded hne ?_ ?_
        · cases h : t.node e₁ with
          | union c d => exact (hunion c d h).elim
          | _ => rfl
        · cases h : t.node e₂ with
          | inter c d => exact (hinter c d h).elim
          | _ => rfl

theorem splits_split (ht : t.Sound locations)
    (h : e₁.isEmpty = false → e₁.index < t.size ∧ e₂.index < t.size) :
    t.Splits classOf e₁ e₂ (t.split classOf e₁ e₂) := by
  have hpos := ht.size_pos
  cases hempty : e₁.isEmpty with
  | false =>
    obtain ⟨h₁, h₂⟩ := h hempty
    exact ht.splits_splitFrom (by omega)
  | true =>
    -- Nothing need be known of the right-hand side of an inclusion of the empty effect.
    obtain ⟨fuel, hfuel⟩ := Nat.exists_eq_succ_of_ne_zero (n := 2 * t.size) (by omega)
    rw [split, hfuel, splitFrom, hempty, Bool.true_or, if_pos rfl]
    exact .known (Or.inl hempty)

end Sound

/-! ## What is recorded -/

/-- An inclusion that can be recorded. -/
structure SplitStep.Recordable (t : Effects) (step : SplitStep) : Prop where
  source_lt : step.source.index < t.size
  target_lt : step.target.index < t.size
  not_inter : (t.node step.target).isInter = false

theorem Splits.recordable {steps : List SplitStep} (hs : t.Splits classOf e₁ e₂ steps)
    (ht : t.Sound locations) (h : e₁.isEmpty = false → e₁.index < t.size ∧ e₂.index < t.size)
    {step : SplitStep} (hmem : step ∈ steps) (hrec : step.recorded = true) :
    step.Recordable t := by
  have hoperand : ∀ {e a : EffectId}, a ∈ (t.node e).operands → a.index < t.size :=
    fun ha => ht.operand_lt_size ha
  induction hs with
  | known => simp_all
  | @union e₁ e₂ a b left right hne hnode _ _ iha ihb =>
    rcases List.mem_cons.1 hmem with rfl | hmem
    · exact absurd hrec (by simp)
    · have hlt : ∀ c ∈ (t.node e₁).operands, c.isEmpty = false →
          c.index < t.size ∧ e₂.index < t.size := fun c hc _ => ⟨hoperand hc, (h hne).2⟩
      rcases List.mem_append.1 hmem with hmem | hmem
      · exact iha (hlt a (by simp [hnode, EffectNode.operands])) hmem
      · exact ihb (hlt b (by simp [hnode, EffectNode.operands])) hmem
  | @inter e₁ e₂ a b left right hne _ hnode _ _ iha ihb =>
    rcases List.mem_cons.1 hmem with rfl | hmem
    · exact absurd hrec (by simp)
    · have hlt : ∀ c ∈ (t.node e₂).operands, e₁.isEmpty = false →
          e₁.index < t.size ∧ c.index < t.size := fun c hc _ => ⟨(h hne).1, hoperand hc⟩
      rcases List.mem_append.1 hmem with hmem | hmem
      · exact iha (hlt a (by simp [hnode, EffectNode.operands])) hmem
      · exact ihb (hlt b (by simp [hnode, EffectNode.operands])) hmem
  | recorded hne _ hinter =>
    rw [List.mem_singleton.1 hmem]
    exact ⟨(h hne).1, (h hne).2, hinter⟩

end Effects

end HeapQual
