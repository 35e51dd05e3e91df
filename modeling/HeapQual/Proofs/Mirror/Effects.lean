import HeapQual.Proofs.Effect.Leaves
import Mathlib.Data.Multiset.AddSub

/-!
# Tables of effects that mirror each other

A memo table forgets, so what is one entry in one table of effects may be several entries with the
same expression in another.  Two tables *mirror* each other with respect to a relation `R` between
their handles if related handles have expressions of one form with related operands, and variables
are told apart in the one table as they are in the other (`Effects.Mirrors`).  The order of the
operands of a union goes by their handles, so it may differ.

Of intersections, and of unions that an inclusion makes grow, it matters which entry is meant:
these are *pivotal* (`Effects.Pivotal`).  If the tables tell the pivotal effects apart in the same
way (`Effects.Distinguishes`), then they agree on which effects are known to be equal
(`Effects.Mirrors.knownEqual_eq`), and an inclusion is split in the same way
(`Effects.Mirrors.rel_split`).
-/

namespace HeapQual

namespace EffectNode

variable {R S : EffectId → EffectId → Prop} {n n' : EffectNode} {a : EffectId}

/-- The expressions are of one form, and their operands are related. -/
inductive Mirrors (R : EffectId → EffectId → Prop) : EffectNode → EffectNode → Prop
  | empty : Mirrors R .empty .empty
  | atom (kind : Kind) (a : LocationId) : Mirrors R (.atom kind a) (.atom kind a)
  | var (name name' : String) : Mirrors R (.var name) (.var name')
  | union {a b a' b' : EffectId} : R a a' → R b b' → Mirrors R (.union a b) (.union a' b')
  | crossed {a b a' b' : EffectId} : R a b' → R b a' → Mirrors R (.union a b) (.union a' b')
  | inter {a b a' b' : EffectId} : R a a' → R b b' → Mirrors R (.inter a b) (.inter a' b')

namespace Mirrors

lemma mono (h : n.Mirrors R n') (hRS : ∀ e e', R e e' → S e e') : n.Mirrors S n' := by
  cases h with
  | empty => exact .empty
  | atom kind location => exact .atom kind location
  | var name name' => exact .var name name'
  | union ha hb => exact .union (hRS _ _ ha) (hRS _ _ hb)
  | crossed ha hb => exact .crossed (hRS _ _ ha) (hRS _ _ hb)
  | inter ha hb => exact .inter (hRS _ _ ha) (hRS _ _ hb)

lemma symm (h : n.Mirrors R n') : n'.Mirrors (flip R) n := by
  cases h with
  | empty => exact .empty
  | atom kind location => exact .atom kind location
  | var name name' => exact .var name' name
  | union ha hb => exact .union ha hb
  | crossed ha hb => exact .crossed hb ha
  | inter ha hb => exact .inter ha hb

lemma isVariable_eq (h : n.Mirrors R n') : n.isVariable = n'.isVariable := by
  cases h <;> rfl

lemma isInter_eq (h : n.Mirrors R n') : n.isInter = n'.isInter := by
  cases h <;> rfl

lemma isUnion_eq (h : n.Mirrors R n') : n.isUnion = n'.isUnion := by
  cases h <;> rfl

lemma exists_operand (h : n.Mirrors R n') (ha : a ∈ n.operands) :
    ∃ a' ∈ n'.operands, R a a' := by
  cases h with
  | empty | atom | var => exact absurd ha List.not_mem_nil
  | union h₁ h₂ | inter h₁ h₂ =>
    rcases List.mem_pair.1 ha with rfl | rfl
    · exact ⟨_, List.mem_cons_self, h₁⟩
    · exact ⟨_, List.mem_cons_of_mem _ List.mem_cons_self, h₂⟩
  | crossed h₁ h₂ =>
    rcases List.mem_pair.1 ha with rfl | rfl
    · exact ⟨_, List.mem_cons_of_mem _ List.mem_cons_self, h₁⟩
    · exact ⟨_, List.mem_cons_self, h₂⟩

/-- Unions put the smaller handle first, whichever operand that is. -/
lemma unionNode {e₁ e₂ e₁' e₂' : EffectId} (h₁ : R e₁ e₁') (h₂ : R e₂ e₂') :
    (Effects.unionNode e₁ e₂).Mirrors R (Effects.unionNode e₁' e₂') := by
  have hsorted (a b : EffectId) : Effects.unionNode a b = .union a b ∨
      Effects.unionNode a b = .union b a := by
    unfold Effects.unionNode
    rcases le_total a.index b.index with hle | hle
    · exact Or.inl (by rw [min_eq_left hle, max_eq_right hle])
    · exact Or.inr (by rw [min_eq_right hle, max_eq_left hle])
  rcases hsorted e₁ e₂ with h | h <;> rcases hsorted e₁' e₂' with h' | h' <;> rw [h, h']
  · exact .union h₁ h₂
  · exact .crossed h₁ h₂
  · exact .crossed h₂ h₁
  · exact .union h₂ h₁

end Mirrors

end EffectNode

namespace Effects

variable {R S : EffectId → EffectId → Prop} {t t' : Effects} {locations : Nat}
  {classOf : LocationId → Nat} {e f e' f' e₁ e₂ e₁' e₂' : EffectId}

/-- Related effects have expressions of one form with related operands, and variables are told apart
in the one table as in the other. -/
structure Mirrors (R : EffectId → EffectId → Prop) (t t' : Effects) : Prop where
  left_lt : ∀ e e', R e e' → e.index < t.size
  right_lt : ∀ e e', R e e' → e'.index < t'.size
  isEmpty_eq : ∀ e e', R e e' → e.isEmpty = e'.isEmpty
  node : ∀ e e', R e e' → (t.node e).Mirrors R (t'.node e')
  variable_iff : ∀ e e' f f', R e e' → R f f' → (t.node e).isVariable = true →
    (t.root e = t.root f ↔ t'.root e' = t'.root f')

/-- It matters which one of several effects with this expression is meant: the effect is an
intersection, or a union that an inclusion makes grow. -/
def Pivotal (t : Effects) (e : EffectId) : Prop :=
  (t.node e).isInter = true ∨
    (t.node e).isUnion = true ∧ t.hasVariables e = true ∧
      ∃ inc ∈ t.inclusions.toList, inc.target = e

instance (t : Effects) (e : EffectId) : Decidable (t.Pivotal e) := by
  unfold Pivotal
  infer_instance

/-- Only variables and pivotal effects are made to grow. -/
lemma Sound.isVariable_or_pivotal (ht : t.Sound locations) {inc : Inclusion}
    (hinc : inc ∈ t.inclusions) (hmentions : t.MentionsVariable (t.root inc.target)) :
    (t.node inc.target).isVariable = true ∨ t.Pivotal inc.target := by
  have hvariables := (ht.hasVariables_iff (ht.inclusion_lt inc hinc).2).2 hmentions
  cases hnode : t.node inc.target with
  | var name => exact Or.inl rfl
  | union a b =>
    exact Or.inr (Or.inr ⟨by rw [hnode]; rfl, hvariables, inc, Array.mem_toList_iff.2 hinc, rfl⟩)
  | inter a b =>
    have hinter := ht.target_not_inter inc hinc
    rw [hnode] at hinter
    cases hinter
  | empty | atom =>
    -- Such an effect mentions no variable.
    cases hmentions with
    | var hvar => exact Or.inl (hnode ▸ hvar)
    | operand ha =>
      rw [show t.nodeAt (t.root inc.target) = _ from hnode] at ha
      exact absurd ha List.not_mem_nil

/-- Intersections are told apart in the one table as in the other. -/
def Separates (R : EffectId → EffectId → Prop) (t t' : Effects) : Prop :=
  ∀ e e' f f', R e e' → R f f' → (t.node e).isInter = true ∨ (t'.node e').isInter = true →
    (e = f ↔ e' = f')

lemma Separates.symm (h : t.Separates R t') : t'.Separates (flip R) t :=
  fun e' e f' f he hf hinter => (h e e' f f' he hf hinter.symm).symm

/-- Pivotal effects are told apart in the one table as in the other. -/
def Distinguishes (R : EffectId → EffectId → Prop) (t t' : Effects) : Prop :=
  ∀ e e' f f', R e e' → R f f' → t.Pivotal e ∨ t'.Pivotal e' → (e = f ↔ e' = f')

lemma Distinguishes.symm (h : t.Distinguishes R t') : t'.Distinguishes (flip R) t :=
  fun e' e f' f he hf hpivotal => (h e e' f f' he hf hpivotal.symm).symm

lemma Distinguishes.separates (h : t.Distinguishes R t') : t.Separates R t' :=
  fun e e' f f' he hf hinter => h e e' f f' he hf (hinter.imp Or.inl Or.inl)

/-- An effect that is no variable is alone in its class. -/
lemma Sound.eq_of_root_eq (ht : t.Sound locations) (hvar : (t.node e).isVariable = false)
    (h : t.root e = t.root f) : e = f := by
  have hvar' : (t.node f).isVariable = false := by
    rw [Effects.node, ← h]
    exact hvar
  have hindex : e.index = f.index := by
    rw [← (ht.node_eq hvar).1, ← (ht.node_eq hvar').1, h]
  cases e
  cases f
  exact congrArg EffectId.mk hindex

namespace Mirrors

lemma symm (h : t.Mirrors R t') : t'.Mirrors (flip R) t where
  left_lt e' e he := h.right_lt e e' he
  right_lt e' e he := h.left_lt e e' he
  isEmpty_eq e' e he := (h.isEmpty_eq e e' he).symm
  node e' e he := (h.node e e' he).symm
  variable_iff e' e f' f he hf hvar :=
    (h.variable_iff e e' f f' he hf ((h.node e e' he).isVariable_eq.trans hvar)).symm

lemma congr (h : t.Mirrors R t') (hRS : ∀ e e', S e e' ↔ R e e') : t.Mirrors S t' := by
  obtain rfl : S = R := funext fun e => funext fun e' => propext (hRS e e')
  exact h

/-- Effects that are no variables are of one class if they are the same. -/
lemma root_eq_iff_of_eq_iff (h : t.Mirrors R t') (ht : t.Sound locations)
    (ht' : t'.Sound locations) (he : R e e') (hvar : (t.node e).isVariable = false)
    (hsame : e = f ↔ e' = f') : t.root e = t.root f ↔ t'.root e' = t'.root f' := by
  have hvar' : (t'.node e').isVariable = false := (h.node e e' he).isVariable_eq ▸ hvar
  constructor
  · intro hroot
    rw [hsame.1 (ht.eq_of_root_eq hvar hroot)]
  · intro hroot
    rw [hsame.2 (ht'.eq_of_root_eq hvar' hroot)]

/-- Variables and pivotal effects are of one class in the one table as in the other. -/
lemma root_eq_iff (h : t.Mirrors R t') (hd : t.Distinguishes R t') (ht : t.Sound locations)
    (ht' : t'.Sound locations) (he : R e e') (hf : R f f')
    (hid : (t.node e).isVariable = true ∨ t.Pivotal e) :
    t.root e = t.root f ↔ t'.root e' = t'.root f' := by
  rcases hid with hvar | hpivotal
  · exact h.variable_iff e e' f f' he hf hvar
  · have hvar : (t.node e).isVariable = false := by
      rcases hpivotal with hinter | ⟨hunion, -⟩
      · cases hnode : t.node e <;> simp_all [EffectNode.isInter, EffectNode.isVariable]
      · cases hnode : t.node e <;> simp_all [EffectNode.isUnion, EffectNode.isVariable]
    exact h.root_eq_iff_of_eq_iff ht ht' he hvar (hd e e' f f' he hf (Or.inl hpivotal))

/-! ## Which effects mention a variable -/

lemma mentionsVariable_of (h : t.Mirrors R t') {i : Nat} (hi : t.MentionsVariable i)
    (he : R e e') (hroot : t.root e = i) : t'.MentionsVariable (t'.root e') := by
  induction hi generalizing e e' with
  | var hvar =>
    have hnode := (h.node e e' he).isVariable_eq
    rw [Effects.node, hroot, hvar] at hnode
    exact .var hnode.symm
  | operand ha _ ih =>
    obtain ⟨a', ha', hR⟩ := (h.node e e' he).exists_operand (by rw [Effects.node, hroot]; exact ha)
    exact .operand ha' (ih hR rfl)

lemma mentionsVariable_iff (h : t.Mirrors R t') (he : R e e') :
    t.MentionsVariable (t.root e) ↔ t'.MentionsVariable (t'.root e') :=
  ⟨fun hi => h.mentionsVariable_of hi he rfl, fun hi => h.symm.mentionsVariable_of hi he rfl⟩

lemma hasVariables_eq (h : t.Mirrors R t') (ht : t.Sound locations) (ht' : t'.Sound locations')
    (he : R e e') : t.hasVariables e = t'.hasVariables e' := by
  rw [Bool.eq_iff_iff, ht.hasVariables_iff (h.left_lt e e' he),
    ht'.hasVariables_iff (h.right_lt e e' he)]
  exact h.mentionsVariable_iff he

end Mirrors

/-! ## Effects that are known to be equal -/

/-- The parts of unions are the same atom, or of related classes that are told apart. -/
inductive Leaf.Mirrors (R : EffectId → EffectId → Prop) (t t' : Effects) : Leaf → Leaf → Prop
  | atom (kind : Kind) (location : Nat) : Mirrors R t t' (.atom kind location) (.atom kind location)
  | other {f f' : EffectId} : R f f' → (t.node f).isVariable = true ∨ (t.node f).isInter = true →
      Mirrors R t t' (.other (t.root f)) (.other (t'.root f'))

namespace Mirrors

/-- Related effects have related parts. -/
lemma exists_leaf (h : t.Mirrors R t') (ht' : t'.Sound locations) {fuel fuel' : Nat} {x : Leaf}
    (he : R e e') (hx : x ∈ t.leavesFrom classOf fuel e) (hfuel : e'.index < fuel') :
    ∃ x' ∈ t'.leavesFrom classOf fuel' e', Leaf.Mirrors R t t' x x' := by
  induction fuel generalizing e e' fuel' with
  | zero => exact absurd hx List.not_mem_nil
  | succ fuel ih =>
    obtain ⟨fuel', rfl⟩ : ∃ n, fuel' = n + 1 := ⟨fuel' - 1, by omega⟩
    have hnode := h.node e e' he
    have hlower : ∀ a' ∈ (t'.node e').operands, a'.index < fuel' := by
      intro a' ha'
      have hlt := ht'.operand_lt_index ha'
      omega
    have hother (hid : (t.node e).isVariable = true ∨ (t.node e).isInter = true)
        (hx : x ∈ [Leaf.other (t.root e)]) :
        ∃ x' ∈ [Leaf.other (t'.root e')], Leaf.Mirrors R t t' x x' :=
      ⟨_, List.mem_singleton_self _, List.mem_singleton.1 hx ▸ .other he hid⟩
    rw [leavesFrom] at hx ⊢
    generalize hn : t.node e = n at hnode hx hother
    generalize hn' : t'.node e' = n' at hnode hlower ⊢
    cases hnode with
    | empty => exact absurd hx List.not_mem_nil
    | atom kind location =>
      rw [List.mem_singleton.1 hx]
      exact ⟨_, List.mem_singleton_self _, .atom kind _⟩
    | var => exact hother (Or.inl rfl) hx
    | inter => exact hother (Or.inr rfl) hx
    | @union a b a' b' ha hb =>
      rcases List.mem_append.1 hx with hx | hx
      · obtain ⟨x', hx', hmirrors⟩ := ih ha hx (hlower a' (by simp [EffectNode.operands]))
        exact ⟨x', List.mem_append_left _ hx', hmirrors⟩
      · obtain ⟨x', hx', hmirrors⟩ := ih hb hx (hlower b' (by simp [EffectNode.operands]))
        exact ⟨x', List.mem_append_right _ hx', hmirrors⟩
    -- The operands of a union go by their handles, which need not be in the same order.
    | @crossed a b a' b' ha hb =>
      rcases List.mem_append.1 hx with hx | hx
      · obtain ⟨x', hx', hmirrors⟩ := ih ha hx (hlower b' (by simp [EffectNode.operands]))
        exact ⟨x', List.mem_append_right _ hx', hmirrors⟩
      · obtain ⟨x', hx', hmirrors⟩ := ih hb hx (hlower a' (by simp [EffectNode.operands]))
        exact ⟨x', List.mem_append_left _ hx', hmirrors⟩

lemma leaf_symm (h : t.Mirrors R t') {x x' : Leaf} (hx : Leaf.Mirrors R t t' x x') :
    Leaf.Mirrors (flip R) t' t x' x := by
  cases hx with
  | atom kind location => exact .atom kind location
  | other hf hid =>
    have hnode := h.node _ _ hf
    exact .other hf (hid.imp hnode.isVariable_eq.symm.trans hnode.isInter_eq.symm.trans)

/-- Parts are told apart in the one table as in the other. -/
lemma leaf_eq_iff (h : t.Mirrors R t') (hd : t.Separates R t') (ht : t.Sound locations)
    (ht' : t'.Sound locations) {x x' y y' : Leaf} (hx : Leaf.Mirrors R t t' x x')
    (hy : Leaf.Mirrors R t t' y y') : x = y ↔ x' = y' := by
  cases hx with
  | atom kind location =>
    cases hy with
    | atom => exact Iff.rfl
    | other => exact ⟨nofun, nofun⟩
  | other hf hid =>
    cases hy with
    | atom => exact ⟨nofun, nofun⟩
    | other hf₁ =>
      rw [Leaf.other.injEq, Leaf.other.injEq]
      rcases hid with hvar | hinter
      · exact h.variable_iff _ _ _ _ hf hf₁ hvar
      · refine h.root_eq_iff_of_eq_iff ht ht' hf ?_ (hd _ _ _ _ hf hf₁ (Or.inl hinter))
        cases hnode : t.node _ <;> simp_all [EffectNode.isInter, EffectNode.isVariable]

lemma leaves_subset (h : t.Mirrors R t') (hd : t.Separates R t') (ht : t.Sound locations)
    (ht' : t'.Sound locations) (he : R e e') (hf : R f f')
    (hsub : ∀ x ∈ t.leaves classOf e, x ∈ t.leaves classOf f) :
    ∀ x ∈ t'.leaves classOf e', x ∈ t'.leaves classOf f' := by
  intro x' hx'
  obtain ⟨x, hx, hmirrors⟩ := h.symm.exists_leaf ht he hx' (h.left_lt e e' he)
  obtain ⟨y', hy', hmirrors'⟩ := h.exists_leaf ht' hf (hsub x hx) (h.right_lt f f' hf)
  rwa [(h.leaf_eq_iff hd ht ht' (h.symm.leaf_symm hmirrors) hmirrors').1 rfl]

theorem knownEqual_eq (h : t.Mirrors R t') (hd : t.Separates R t') (ht : t.Sound locations)
    (ht' : t'.Sound locations) (he : R e e') (hf : R f f') :
    t.knownEqual classOf e f = t'.knownEqual classOf e' f' := by
  rw [Bool.eq_iff_iff, knownEqual_iff, knownEqual_iff]
  constructor
  · rintro ⟨hef, hfe⟩
    exact ⟨h.leaves_subset hd ht ht' he hf hef, h.leaves_subset hd ht ht' hf he hfe⟩
  · rintro ⟨hef, hfe⟩
    exact ⟨h.symm.leaves_subset hd.symm ht' ht he hf hef,
      h.symm.leaves_subset hd.symm ht' ht hf he hfe⟩

end Mirrors

/-! ## Splitting inclusions -/

/-- What a split leaves to record. -/
def toRecord (steps : List SplitStep) : Multiset SplitStep :=
  (steps.filter SplitStep.recorded : List SplitStep)

/-- The steps are between related effects. -/
def SplitStep.Mirrors (R : EffectId → EffectId → Prop) (step step' : SplitStep) : Prop :=
  R step.source step'.source ∧ R step.target step'.target

lemma toRecord_halves (e f : EffectId) (left right : List SplitStep) :
    toRecord (⟨e, f, false⟩ :: (left ++ right)) = toRecord left + toRecord right := by
  simp [toRecord]

section Unknown

variable {fuel : Nat} {a b : EffectId} (hopen : (e₁.isEmpty || t.knownEqual classOf e₁ e₂) = false)

include hopen

lemma toRecord_splitFrom_union (hnode : t.node e₁ = .union a b) :
    toRecord (t.splitFrom classOf (fuel + 1) e₁ e₂) =
      toRecord (t.splitFrom classOf fuel a e₂) + toRecord (t.splitFrom classOf fuel b e₂) := by
  rw [splitFrom_of_union hopen hnode]
  exact toRecord_halves ..

lemma toRecord_splitFrom_inter (hunion : (t.node e₁).isUnion = false)
    (hnode : t.node e₂ = .inter a b) :
    toRecord (t.splitFrom classOf (fuel + 1) e₁ e₂) =
      toRecord (t.splitFrom classOf fuel e₁ a) + toRecord (t.splitFrom classOf fuel e₁ b) := by
  rw [splitFrom_of_inter hopen hunion hnode]
  exact toRecord_halves ..

lemma toRecord_splitFrom_rest (hunion : (t.node e₁).isUnion = false)
    (hinter : (t.node e₂).isInter = false) :
    toRecord (t.splitFrom classOf (fuel + 1) e₁ e₂) = {⟨e₁, e₂, true⟩} := by
  rw [splitFrom_of_rest hopen hunion hinter]
  rfl

end Unknown

namespace Mirrors

variable (h : t.Mirrors R t') (hd : t.Separates R t') (ht : t.Sound locations)
  (ht' : t'.Sound locations)

include h hd ht ht'

lemma rel_splitFrom {fuel fuel' : Nat} (he₁ : R e₁ e₁') (he₂ : R e₂ e₂')
    (hfuel : e₁.index + e₂.index < fuel) (hfuel' : e₁'.index + e₂'.index < fuel') :
    Multiset.Rel (SplitStep.Mirrors R) (toRecord (t.splitFrom classOf fuel e₁ e₂))
      (toRecord (t'.splitFrom classOf fuel' e₁' e₂')) := by
  induction fuel generalizing e₁ e₂ e₁' e₂' fuel' with
  | zero => exact absurd hfuel (Nat.not_lt_zero _)
  | succ fuel ih =>
    obtain ⟨fuel', rfl⟩ : ∃ n, fuel' = n + 1 := ⟨fuel' - 1, by omega⟩
    have hknown : (e₁'.isEmpty || t'.knownEqual classOf e₁' e₂') =
        (e₁.isEmpty || t.knownEqual classOf e₁ e₂) := by
      rw [h.isEmpty_eq e₁ e₁' he₁, h.knownEqual_eq hd ht ht' he₁ he₂]
    cases hopen : e₁.isEmpty || t.knownEqual classOf e₁ e₂ with
    | true =>
      simp only [splitFrom, hknown, hopen, if_true]
      exact .zero
    | false =>
      have hopen' := hknown.trans hopen
      -- Each round goes on with operands of the one side, whose handles are smaller.
      have hleft {a a' : EffectId} (ha : a ∈ (t.node e₁).operands)
          (ha' : a' ∈ (t'.node e₁').operands) (hR : R a a') :
          Multiset.Rel (SplitStep.Mirrors R) (toRecord (t.splitFrom classOf fuel a e₂))
            (toRecord (t'.splitFrom classOf fuel' a' e₂')) := by
        have hlt := ht.operand_lt_index ha
        have hlt' := ht'.operand_lt_index ha'
        exact ih hR he₂ (by omega) (by omega)
      have hright {a a' : EffectId} (ha : a ∈ (t.node e₂).operands)
          (ha' : a' ∈ (t'.node e₂').operands) (hR : R a a') :
          Multiset.Rel (SplitStep.Mirrors R) (toRecord (t.splitFrom classOf fuel e₁ a))
            (toRecord (t'.splitFrom classOf fuel' e₁' a')) := by
        have hlt := ht.operand_lt_index ha
        have hlt' := ht'.operand_lt_index ha'
        exact ih he₁ hR (by omega) (by omega)
      have hnode₁ := h.node e₁ e₁' he₁
      have hnode₂ := h.node e₂ e₂' he₂
      cases hunion : (t.node e₁).isUnion with
      | true =>
        generalize hn : t.node e₁ = n at hnode₁ hunion hleft
        generalize hn' : t'.node e₁' = n' at hnode₁ hleft
        cases hnode₁ with
        | union ha hb =>
          rw [toRecord_splitFrom_union hopen hn, toRecord_splitFrom_union hopen' hn']
          exact (hleft (by simp [EffectNode.operands]) (by simp [EffectNode.operands]) ha).add
            (hleft (by simp [EffectNode.operands]) (by simp [EffectNode.operands]) hb)
        | crossed ha hb =>
          rw [toRecord_splitFrom_union hopen hn, toRecord_splitFrom_union hopen' hn', add_comm]
          exact (hleft (by simp [EffectNode.operands]) (by simp [EffectNode.operands]) hb).add
            (hleft (by simp [EffectNode.operands]) (by simp [EffectNode.operands]) ha)
        | _ => cases hunion
      | false =>
        have hunion' : (t'.node e₁').isUnion = false := hnode₁.isUnion_eq ▸ hunion
        cases hinter : (t.node e₂).isInter with
        | true =>
          generalize hn : t.node e₂ = n at hnode₂ hinter hright
          generalize hn' : t'.node e₂' = n' at hnode₂ hright
          cases hnode₂ with
          | inter ha hb =>
            rw [toRecord_splitFrom_inter hopen hunion hn,
              toRecord_splitFrom_inter hopen' hunion' hn']
            exact (hright (by simp [EffectNode.operands]) (by simp [EffectNode.operands]) ha).add
              (hright (by simp [EffectNode.operands]) (by simp [EffectNode.operands]) hb)
          | _ => cases hinter
        | false =>
          rw [toRecord_splitFrom_rest hopen hunion hinter,
            toRecord_splitFrom_rest hopen' hunion' (hnode₂.isInter_eq ▸ hinter)]
          exact .cons ⟨he₁, he₂⟩ .zero

theorem rel_split (he₁ : R e₁ e₁') (he₂ : R e₂ e₂') :
    Multiset.Rel (SplitStep.Mirrors R) (toRecord (t.split classOf e₁ e₂))
      (toRecord (t'.split classOf e₁' e₂')) := by
  have h₁ := h.left_lt e₁ e₁' he₁
  have h₂ := h.left_lt e₂ e₂' he₂
  have h₁' := h.right_lt e₁ e₁' he₁
  have h₂' := h.right_lt e₂ e₂' he₂
  exact h.rel_splitFrom hd ht ht' he₁ he₂ (by omega) (by omega)

end Mirrors

/-! ## Tables that grow -/

namespace Mirrors

/-- An entry that only one table has does not matter. -/
lemma add_left (h : t.Mirrors R t') (ht : t.Sound locations) (node : EffectNode) :
    (t.add node).2.Mirrors R t' where
  left_lt e e' he := by
    rw [Sound.size_add]
    exact (h.left_lt e e' he).trans (Nat.lt_succ_self _)
  right_lt := h.right_lt
  isEmpty_eq := h.isEmpty_eq
  node e e' he := by
    rw [ht.node_add node (h.left_lt e e' he)]
    exact h.node e e' he
  variable_iff e e' f f' he hf hvar := by
    rw [ht.node_add node (h.left_lt e e' he)] at hvar
    rw [ht.root_add, ht.root_add]
    exact h.variable_iff e e' f f' he hf hvar

lemma add_right (h : t.Mirrors R t') (ht' : t'.Sound locations) (node : EffectNode) :
    t.Mirrors R (t'.add node).2 :=
  (h.symm.add_left ht' node).symm

/-- The relation, and one more pair. -/
def With (R : EffectId → EffectId → Prop) (e₀ e₀' e e' : EffectId) : Prop :=
  R e e' ∨ e = e₀ ∧ e' = e₀'

lemma insert_of_rel (h : t.Mirrors R t') (he : R e e') : t.Mirrors (With R e e') t' :=
  h.congr fun f f' => ⟨fun hf => hf.elim id (by rintro ⟨rfl, rfl⟩; exact he), Or.inl⟩

/-- Two effects with expressions of one form are related, too. -/
lemma insert (h : t.Mirrors R t') (hlt : e.index < t.size) (hlt' : e'.index < t'.size)
    (hempty : e.isEmpty = e'.isEmpty) (hnode : (t.node e).Mirrors R (t'.node e'))
    (hvar : (t.node e).isVariable = true →
      ∀ f f', R f f' → (t.root e = t.root f ↔ t'.root e' = t'.root f')) :
    t.Mirrors (With R e e') t' where
  left_lt := by
    rintro f f' (hf | ⟨rfl, rfl⟩)
    · exact h.left_lt f f' hf
    · exact hlt
  right_lt := by
    rintro f f' (hf | ⟨rfl, rfl⟩)
    · exact h.right_lt f f' hf
    · exact hlt'
  isEmpty_eq := by
    rintro f f' (hf | ⟨rfl, rfl⟩)
    · exact h.isEmpty_eq f f' hf
    · exact hempty
  node := by
    rintro f f' (hf | ⟨rfl, rfl⟩)
    · exact (h.node f f' hf).mono fun _ _ => Or.inl
    · exact hnode.mono fun _ _ => Or.inl
  variable_iff := by
    rintro f f' k k' (hf | ⟨rfl, rfl⟩) (hk | ⟨rfl, rfl⟩) hvariable
    · exact h.variable_iff f f' k k' hf hk hvariable
    · -- If the new effect is no variable, it is of no variable's class.
      by_cases he : (t.node k).isVariable = true
      · exact eq_comm.trans ((hvar he f f' hf).trans eq_comm)
      · have hvariable' := (h.node f f' hf).isVariable_eq ▸ hvariable
        have he' : ¬(t'.node k').isVariable = true := hnode.isVariable_eq ▸ he
        constructor
        · intro hroot
          rw [Effects.node, hroot] at hvariable
          exact absurd hvariable he
        · intro hroot
          rw [Effects.node, hroot] at hvariable'
          exact absurd hvariable' he'
    · exact hvar hvariable k k' hk
    · exact ⟨fun _ => rfl, fun _ => rfl⟩

/-- A variable is made in both tables. -/
lemma add_variable (h : t.Mirrors R t') (ht : t.Sound locations) (ht' : t'.Sound locations)
    (name name' : String) :
    (t.add (.var name)).2.Mirrors (With R ⟨t.size⟩ ⟨t'.size⟩) (t'.add (.var name')).2 := by
  obtain ⟨hlt, hempty, hroot, hnode⟩ := ht.add_self (.var name)
  obtain ⟨hlt', hempty', hroot', hnode'⟩ := ht'.add_self (.var name')
  refine ((h.add_left ht _).add_right ht' _).insert hlt hlt' (hempty.trans hempty'.symm) ?_
    fun _ f f' hf => ?_
  · rw [hnode, hnode']
    exact .var name name'
  · rw [hroot, hroot', ht.root_add, ht'.root_add]
    have hold := ht.root_lt (h.left_lt f f' hf)
    have hold' := ht'.root_lt (h.right_lt f f' hf)
    constructor <;> intro heq <;> omega

/-- Related variables are merged in both tables. -/
lemma join (h : t.Mirrors R t') (ht : t.Sound locations) (ht' : t'.Sound locations)
    (he₁ : R e₁ e₁') (he₂ : R e₂ e₂') (hvar₁ : (t.node e₁).isVariable = true)
    (hvar₂ : (t.node e₂).isVariable = true) (hne : t.root e₁ ≠ t.root e₂) :
    (t.join (t.root e₁) (t.root e₂)).Mirrors R (t'.join (t'.root e₁') (t'.root e₂')) := by
  have hne' : t'.root e₁' ≠ t'.root e₂' := fun heq =>
    hne ((h.variable_iff e₁ e₁' e₂ e₂' he₁ he₂ hvar₁).2 heq)
  have hroot := ht.root_join (ht.root_mem_roots (h.left_lt _ _ he₁))
    (ht.root_mem_roots (h.left_lt _ _ he₂)) hne.symm
  have hroot' := ht'.root_join (ht'.root_mem_roots (h.right_lt _ _ he₁))
    (ht'.root_mem_roots (h.right_lt _ _ he₂)) hne'.symm
  -- Both roots are those of variables, so which classes are redirected is the same in both tables.
  have hchild {e e' : EffectId} (he : R e e') :
      t.root e = t.root e₂ ↔ t'.root e' = t'.root e₂' :=
    eq_comm.trans ((h.variable_iff e₂ e₂' e e' he₂ he hvar₂).trans eq_comm)
  have hsurvivor {e e' : EffectId} (he : R e e') :
      t.root e₁ = t.root e ↔ t'.root e₁' = t'.root e' :=
    h.variable_iff e₁ e₁' e e' he₁ he hvar₁
  refine ⟨h.left_lt, h.right_lt, h.isEmpty_eq, fun e e' he => ?_, fun e e' f f' he hf hvar => ?_⟩
  · unfold Effects.node
    rw [hroot, hroot']
    by_cases hc : t.root e = t.root e₂
    · rw [if_pos hc, if_pos ((hchild he).1 hc)]
      exact h.node e₁ e₁' he₁
    · rw [if_neg hc, if_neg (mt (hchild he).2 hc)]
      exact h.node e e' he
  · rw [hroot, hroot, hroot', hroot']
    by_cases hc : t.root e = t.root e₂
    · rw [if_pos hc, if_pos ((hchild he).1 hc)]
      by_cases hd : t.root f = t.root e₂
      · rw [if_pos hd, if_pos ((hchild hf).1 hd)]
        exact ⟨fun _ => rfl, fun _ => rfl⟩
      · rw [if_neg hd, if_neg (mt (hchild hf).2 hd)]
        exact hsurvivor hf
    · rw [if_neg hc, if_neg (mt (hchild he).2 hc)]
      by_cases hd : t.root f = t.root e₂
      · rw [if_pos hd, if_pos ((hchild hf).1 hd)]
        exact eq_comm.trans ((hsurvivor he).trans eq_comm)
      · rw [if_neg hd, if_neg (mt (hchild hf).2 hd)]
        rw [Effects.node, hroot, if_neg hc] at hvar
        exact h.variable_iff e e' f f' he hf hvar

end Mirrors

end Effects

end HeapQual
