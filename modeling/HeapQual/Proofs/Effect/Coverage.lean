import HeapQual.Proofs.Effect.Split
import HeapQual.Proofs.Graph

/-!
# What an inclusion comes to

An inclusion is split when it is asked for, and what is recorded of it is solved later, after the
graph has grown.  If everything that was recorded holds then, the inclusion itself holds with two
exceptions (`Graph.covered_of_splits`).

* A union on the left is taken apart into its operands.  What an inclusion brings into the union as
  a whole is in neither of them, so it is not included (`Graph.Stray`).
* An intersection on the right has only what its operands have in common.  An access of unknown kind
  may overlap a read in the one operand and a write in the other, which have nothing in common.

That an inclusion was dropped because the effects were known to be equal loses no more than that:
unions of the same parts stay unions of the same parts.
-/

namespace HeapQual

namespace Kind

lemma overlaps_self (k : Kind) : k.overlaps k = true := by
  cases k <;> simp [overlaps, parts, covers]

lemma not_mem_parts (k : Kind) : readWrite ∉ k.parts := by
  cases k <;> simp [parts]

/-- Only the same kind and an access of unknown kind overlap a known simple kind. -/
lemma eq_or_eq_any {k k₁ : Kind} (hany : k ≠ any) (h : k ≠ readWrite) (h₁ : k₁ ≠ readWrite)
    (ho : k₁.overlaps k = true) : k₁ = k ∨ k₁ = any ∧ k ≠ alloc := by
  cases k <;> cases k₁ <;> simp_all [overlaps, parts, covers]

/-- What overlaps a known simple kind on both sides has it in common. -/
lemma exists_meet {k k₁ k₂ : Kind} (hany : k ≠ any) (h : k ≠ readWrite) (h₁ : k₁ ≠ readWrite)
    (h₂ : k₂ ≠ readWrite) (ho₁ : k₁.overlaps k = true) (ho₂ : k₂.overlaps k = true) :
    ∃ m, k₁.meet k₂ = some m ∧ m.overlaps k = true := by
  have hself : k.meet k = some k := by cases k <;> simp [meet]
  rcases eq_or_eq_any hany h h₁ ho₁ with rfl | ⟨rfl, halloc⟩
  · rcases eq_or_eq_any hany h h₂ ho₂ with rfl | ⟨rfl, halloc⟩
    · exact ⟨_, hself, overlaps_self _⟩
    · exact ⟨k₁, by cases k₁ <;> simp_all [meet], overlaps_self _⟩
  · exact ⟨k₂, by cases k₂ <;> simp_all [meet, overlaps, parts, covers], ho₂⟩

end Kind

namespace Graph

variable {τ : Type} {g g₀ : Graph τ} {e e₁ e₂ a b : EffectId} {x : Access}

/-- The members of an effect. -/
def accessesOf (g : Graph τ) (e : EffectId) : Members := g.solve.membersOf (g.effects.root e)

/-- The access overlaps one of the effect to the same location. -/
def Touched (g : Graph τ) (e : EffectId) (x : Access) : Prop :=
  ∃ y ∈ g.accessesOf e, y.location = x.location ∧ y.kind.overlaps x.kind = true

/-- An inclusion brings the access into the effect as a whole. -/
def FlowsInto (g : Graph τ) (x : Access) (e : EffectId) : Prop :=
  g.effects.MentionsVariable (g.effects.root e) ∧
    ∃ inc ∈ g.effects.inclusions, g.effects.root inc.target = g.effects.root e ∧
      x ∈ g.accessesOf inc.source

/-- An inclusion brings the access into a union that the effect is made of, but not into the
operands of the union. -/
inductive Stray (g : Graph τ) (x : Access) : EffectId → Prop
  | whole {e a b : EffectId} : g.effects.node e = .union a b → g.FlowsInto x e → Stray g x e
  | left {e a b : EffectId} : g.effects.node e = .union a b → Stray g x a → Stray g x e
  | right {e a b : EffectId} : g.effects.node e = .union a b → Stray g x b → Stray g x e

lemma touches_iff_touched {l : Nat} {kind : Kind} :
    g.solve.touches (g.effects.root e) l kind = true ↔ g.Touched e ⟨l, kind⟩ :=
  Members.touches_iff

lemma touched_of_mem (h : x ∈ g.accessesOf e) : g.Touched e x :=
  ⟨x, h, rfl, x.kind.overlaps_self⟩

/-- No inclusion makes an effect grow that has no operands and is no variable. -/
lemma not_flowsInto (hvar : (g.effects.node e).isVariable = false)
    (hoperands : (g.effects.node e).operands = []) : ¬g.FlowsInto x e := by
  rintro ⟨hmentions, -⟩
  unfold Effects.node at hvar hoperands
  cases hmentions with
  | var h => exact absurd (h.symm.trans hvar) (by simp)
  | operand h => exact absurd (hoperands ▸ h) List.not_mem_nil

/-! ## Inclusions that fail -/

/-- Is the inclusion into an effect without variables, and does it fail? -/
def fails (g : Graph τ) (inc : Inclusion) : Bool :=
  !g.effects.hasVariables inc.target &&
    !(g.accessesOf inc.source).within (g.accessesOf inc.target)

/-- The inclusions that the solution lists as failing are those that fail. -/
lemma Sound.violations_eq (hg : g.Sound) :
    g.solve.violations =
      (g.effects.inclusions.toList.zipIdx.filter fun numbered => g.fails numbered.1).map
        Prod.snd := by
  show g.effects.violations g.solve.members = _
  unfold Effects.violations Effects.edges
  dsimp only
  rw [List.filter_map, List.map_map]
  refine congrArg (List.map Prod.snd) (List.filter_congr fun numbered hmem => ?_)
  obtain ⟨-, -, hget⟩ := List.mem_zipIdx hmem
  have hinc : numbered.1 ∈ g.effects.inclusions := by
    rw [hget, ← Array.mem_toList_iff]
    exact List.getElem_mem _
  have hlt := (hg.effects.inclusion_lt _ hinc).2
  have hclosed : g.effects.closedTable[g.effects.root numbered.1.target]?.getD false =
      !g.effects.hasVariables numbered.1.target := by
    rw [Bool.eq_iff_iff, hg.effects.closed_iff (hg.effects.root_lt hlt), Bool.not_eq_true',
      ← Bool.not_eq_true, hg.effects.hasVariables_iff hlt]
  show (g.effects.closedTable[g.effects.root numbered.1.target]?.getD false && _) = _
  rw [hclosed]
  rfl

/-! ## Members by expression -/

namespace Sound

variable (hg : g.Sound)

include hg

lemma mem_accessesOf_iff (he : g.effects.root e ∈ g.effects.classes.roots) :
    x ∈ g.accessesOf e ↔
      (∃ kind l, g.effects.node e = .atom kind l ∧ x.location = g.classOf l ∧ x.kind ∈ kind.parts) ∨
        x ∈ g.effects.built (fun i => {y | y ∈ g.solve.membersOf i}) (g.effects.root e) ∨
        g.FlowsInto x e :=
  hg.effects.mem_members_iff hg.classOf_lt he

lemma root_mem_roots_of_node (h : g.effects.node e ≠ .empty) :
    g.effects.root e ∈ g.effects.classes.roots :=
  hg.effects.mem_roots.2 ⟨Effects.lt_size_of_nodeAt_ne h, hg.effects.classes.root_root e.index⟩

lemma mem_union (hnode : g.effects.node e = .union a b) :
    x ∈ g.accessesOf e ↔ x ∈ g.accessesOf a ∨ x ∈ g.accessesOf b ∨ g.FlowsInto x e := by
  have hbuilt : g.effects.built (fun i => {y | y ∈ g.solve.membersOf i}) (g.effects.root e) =
      {y | y ∈ g.accessesOf a} ∪ {y | y ∈ g.accessesOf b} := by
    rw [Effects.built, show g.effects.nodeAt (g.effects.root e) = .union a b from hnode]
    rfl
  rw [hg.mem_accessesOf_iff (hg.root_mem_roots_of_node (by simp [hnode])), hbuilt, hnode]
  simp [or_assoc]

lemma mem_atom {kind : Kind} {l : LocationId} (hnode : g.effects.node e = .atom kind l) :
    x ∈ g.accessesOf e ↔ x.location = g.classOf l ∧ x.kind ∈ kind.parts := by
  have hbuilt :
      g.effects.built (fun i => {y | y ∈ g.solve.membersOf i}) (g.effects.root e) = ∅ := by
    rw [Effects.built, show g.effects.nodeAt (g.effects.root e) = .atom kind l from hnode]
  have hnone : ¬g.FlowsInto x e := not_flowsInto (by rw [hnode]; rfl) (by rw [hnode]; rfl)
  rw [hg.mem_accessesOf_iff (hg.root_mem_roots_of_node (by simp [hnode])), hbuilt, hnode]
  simp [hnone]

lemma not_mem_empty (he : e.index < g.effects.size) (hnode : g.effects.node e = .empty) :
    x ∉ g.accessesOf e := by
  have hbuilt :
      g.effects.built (fun i => {y | y ∈ g.solve.membersOf i}) (g.effects.root e) = ∅ := by
    rw [Effects.built, show g.effects.nodeAt (g.effects.root e) = .empty from hnode]
  have hnone : ¬g.FlowsInto x e := not_flowsInto (by rw [hnode]; rfl) (by rw [hnode]; rfl)
  rw [hg.mem_accessesOf_iff (hg.effects.root_mem_roots he), hbuilt, hnode]
  simp [hnone]

lemma node_empty : g.effects.node .empty = .empty := hg.effects.node_empty

/-- A recorded inclusion that is not listed as failing holds: it made its target grow, or it was
checked. -/
lemma touched_of_not_violation {number : Nat} {inc : Inclusion}
    (hinc : g.effects.inclusions[number]? = some inc) (hholds : number ∉ g.solve.violations)
    (hx : x ∈ g.accessesOf inc.source) : g.Touched inc.target x := by
  by_cases hmentions : g.effects.MentionsVariable (g.effects.root inc.target)
  · exact touched_of_mem ((hg.effects.respects_members hg.classOf_lt).inclusion inc
      (Array.mem_of_getElem? hinc) hmentions hx)
  · by_contra huntouched
    refine hholds (hg.effects.mem_violations.2
      ⟨inc, hinc, hmentions, x, hx, fun y hy hlocation => ?_⟩)
    by_contra hoverlaps
    exact huntouched ⟨y, hy, hlocation, Bool.eq_true_of_not_eq_false hoverlaps⟩

/-- Members are of simple kinds. -/
lemma kind_ne_readWrite_of_mem {i : Nat} (hx : x ∈ g.solve.membersOf i) : x.kind ≠ .readWrite := by
  refine hg.effects.members_subset hg.classOf_lt (M := fun _ => {y | y.kind ≠ .readWrite})
    ⟨fun _ kind _ _ k hk => ?_, fun _ _ _ _ => ⟨subset_rfl, subset_rfl⟩,
      fun _ _ _ _ l k₁ k₂ k h₁ h₂ hmeet => ?_, fun _ _ _ => subset_rfl⟩ _ hx
  · rintro rfl
    exact kind.not_mem_parts hk
  · rcases Kind.eq_of_meet hmeet with rfl | rfl
    · exact h₁
    · exact h₂

lemma kind_ne_readWrite (hx : x ∈ g.accessesOf e) : x.kind ≠ .readWrite :=
  hg.kind_ne_readWrite_of_mem hx

end Sound

/-! ## Growing -/

/-- What a part of a union has in the end, given by what it was. -/
def leafAccesses (g : Graph τ) : Effects.Leaf → Set Access
  | .atom kind location =>
    {x | x.location = g.locations.classes.root location ∧ x.kind ∈ kind.parts}
  | .other root => {x | x ∈ g.solve.membersOf (g.effects.classes.root root)}

section Growing

variable (hext : g₀.Extends g) (hg₀ : g₀.Sound) (hg : g.Sound)

include hext

/-- Effects of one class stay of one class. -/
lemma Extends.accessesOf_eq (h : g₀.effects.root e₁ = g₀.effects.root e₂) :
    g.accessesOf e₁ = g.accessesOf e₂ := by
  have hroot : ∀ e : EffectId, g.effects.root e = g.effects.classes.root (g₀.effects.root e) :=
    fun e => (hext.effects.root_root e.index).symm
  rw [accessesOf, accessesOf, hroot e₁, hroot e₂, h]

include hg₀ hg

/-- What is no variable keeps its expression. -/
lemma Extends.node_eq (he : e.index < g₀.effects.size)
    (hvar : (g₀.effects.node e).isVariable = false) : g.effects.node e = g₀.effects.node e := by
  obtain ⟨-, hnode⟩ := hg₀.effects.node_eq hvar
  have hat := hext.effect_eq e.index he
  have hroot : g.effects.root e = e.index := by
    refine hg.effects.root_eq ?_
    rw [hat, ← hnode]
    exact hvar
  rw [Effects.node, hroot, hat, hnode]

/-! ## Parts of unions -/

/-- A union has what its parts have. -/
lemma mem_accessesOf_of_leaf {fuel : Nat} {leaf : Effects.Leaf} (he : e.index < g₀.effects.size)
    (hleaf : leaf ∈ g₀.effects.leavesFrom g₀.classOf fuel e) (hx : x ∈ g.leafAccesses leaf) :
    x ∈ g.accessesOf e := by
  induction fuel generalizing e with
  | zero => exact absurd hleaf List.not_mem_nil
  | succ fuel ih =>
    have hother : x ∈ g.solve.membersOf (g.effects.classes.root (g₀.effects.root e)) →
        x ∈ g.accessesOf e := by
      rw [show g.effects.classes.root (g₀.effects.root e) = g.effects.root e from
        hext.effects.root_root e.index]
      exact id
    unfold Effects.leavesFrom at hleaf
    split at hleaf
    · exact absurd hleaf List.not_mem_nil
    · rename_i kind l hnode
      rw [List.mem_singleton.1 hleaf] at hx
      rw [hg.mem_atom ((hext.node_eq hg₀ hg he (by rw [hnode]; rfl)).trans hnode)]
      have hroot : g.locations.classes.root (g₀.classOf l) = g.classOf l :=
        hext.locations.root_root l.index
      rw [← hroot]
      exact hx
    · rename_i a b hnode
      have hlt : ∀ c ∈ [a, b], c.index < g₀.effects.size := fun c hc =>
        hg₀.effects.operand_lt_size (i := g₀.effects.root e)
          (by rw [show g₀.effects.nodeAt (g₀.effects.root e) = _ from hnode]; exact hc)
      rw [hg.mem_union ((hext.node_eq hg₀ hg he (by rw [hnode]; rfl)).trans hnode)]
      rcases List.mem_append.1 hleaf with hleaf | hleaf
      · exact Or.inl (ih (hlt a (by simp)) hleaf)
      · exact Or.inr (Or.inl (ih (hlt b (by simp)) hleaf))
    · rw [List.mem_singleton.1 hleaf] at hx
      exact hother hx
    · rw [List.mem_singleton.1 hleaf] at hx
      exact hother hx

/-- Whatever is in a union is in one of its parts, or strays into it. -/
lemma exists_leaf {fuel : Nat} (hfuel : e.index < fuel) (he : e.index < g₀.effects.size)
    (hx : x ∈ g.accessesOf e) :
    g.Stray x e ∨
      ∃ leaf ∈ g₀.effects.leavesFrom g₀.classOf fuel e, x ∈ g.leafAccesses leaf := by
  -- The parts are those in the earlier graph, the members those in the later one.
  induction fuel generalizing e with
  | zero => exact absurd hfuel (Nat.not_lt_zero _)
  | succ fuel ih =>
    have hother : x ∈ g.leafAccesses (.other (g₀.effects.root e)) := by
      show x ∈ g.solve.membersOf (g.effects.classes.root (g₀.effects.root e))
      rw [show g.effects.classes.root (g₀.effects.root e) = g.effects.root e from
        hext.effects.root_root e.index]
      exact hx
    unfold Effects.leavesFrom
    split
    · rename_i hnode
      have hnode' := (hext.node_eq hg₀ hg he (by rw [hnode]; rfl)).trans hnode
      exact absurd hx (hg.not_mem_empty (he.trans_le hext.size_effects) hnode')
    · rename_i kind l hnode
      have hnode' := (hext.node_eq hg₀ hg he (by rw [hnode]; rfl)).trans hnode
      have hroot : g.locations.classes.root (g₀.classOf l) = g.classOf l :=
        hext.locations.root_root l.index
      refine Or.inr ⟨_, List.mem_singleton_self _, ?_⟩
      show x.location = g.locations.classes.root (g₀.classOf l) ∧ x.kind ∈ kind.parts
      rw [hroot]
      exact (hg.mem_atom hnode').1 hx
    · rename_i a b hnode
      have hnode' := (hext.node_eq hg₀ hg he (by rw [hnode]; rfl)).trans hnode
      have hlt : ∀ c ∈ [a, b], c.index < e.index := fun c hc =>
        hg₀.effects.operand_lt_index (by rw [hnode]; exact hc)
      have ha := hlt a (by simp)
      have hb := hlt b (by simp)
      -- A member of a union is one of an operand, unless an inclusion brought it into the union as
      -- a whole: then it strays.
      rcases (hg.mem_union hnode').1 hx with hx | hx | hflow
      · rcases ih (by omega) (ha.trans he) hx with hstray | ⟨leaf, hleaf, hx⟩
        · exact Or.inl (.left hnode' hstray)
        · exact Or.inr ⟨leaf, List.mem_append_left _ hleaf, hx⟩
      · rcases ih (by omega) (hb.trans he) hx with hstray | ⟨leaf, hleaf, hx⟩
        · exact Or.inl (.right hnode' hstray)
        · exact Or.inr ⟨leaf, List.mem_append_right _ hleaf, hx⟩
      · exact Or.inl (.whole hnode' hflow)
    · exact Or.inr ⟨_, List.mem_singleton_self _, hother⟩
    · exact Or.inr ⟨_, List.mem_singleton_self _, hother⟩

/-- If two effects were known to be equal, the one has what the other has, apart from strays. -/
lemma mem_of_knownEqual (he₁ : e₁.index < g₀.effects.size) (he₂ : e₂.index < g₀.effects.size)
    (hknown : g₀.effects.knownEqual g₀.classOf e₁ e₂ = true) (hx : x ∈ g.accessesOf e₁) :
    g.Stray x e₁ ∨ x ∈ g.accessesOf e₂ := by
  unfold Effects.knownEqual at hknown
  rcases Bool.or_eq_true_iff.1 hknown with hroot | hsame
  · exact Or.inr (hext.accessesOf_eq (of_decide_eq_true hroot) ▸ hx)
  · have hsub := (Bool.and_eq_true_iff.1 hsame).1
    rcases exists_leaf hext hg₀ hg he₁ he₁ hx with hstray | ⟨leaf, hleaf, hx⟩
    · exact Or.inl hstray
    · have hleaf₂ := of_decide_eq_true (List.all_eq_true.1 hsub leaf hleaf)
      exact Or.inr (mem_accessesOf_of_leaf hext hg₀ hg he₂ hleaf₂ hx)

/-! ## Splitting -/

/-- If whatever was recorded of an inclusion holds in the end, then so does the inclusion, apart
from strays on the left and, if an intersection is on the right, accesses of unknown kind. -/
theorem covered_of_splits {steps : List Effects.SplitStep}
    (hsplits : g₀.effects.Splits g₀.classOf e₁ e₂ steps)
    (hlt : e₁.isEmpty = false → e₁.index < g₀.effects.size ∧ e₂.index < g₀.effects.size)
    (hsteps : ∀ step ∈ steps, step.recorded = true →
      ∀ y ∈ g.accessesOf step.source, g.Touched step.target y)
    (hx : x ∈ g.accessesOf e₁) :
    g.Touched e₂ x ∨ g.Stray x e₁ ∨ x.kind = .any ∧ (g.effects.node e₂).isInter = true := by
  induction hsplits generalizing x with
  | @known e₁ e₂ hknown =>
    cases hempty : e₁.isEmpty with
    | true =>
      rw [of_decide_eq_true hempty] at hx
      exact absurd hx (hg.not_mem_empty hg.effects.size_pos hg.node_empty)
    | false =>
      obtain ⟨he₁, he₂⟩ := hlt hempty
      have hequal := hknown.resolve_left (by simp [hempty])
      rcases mem_of_knownEqual hext hg₀ hg he₁ he₂ hequal hx with hstray | hx
      · exact Or.inr (Or.inl hstray)
      · exact Or.inl (touched_of_mem hx)
  | @union e₁ e₂ a b left right hne hnode _ _ iha ihb =>
    obtain ⟨he₁, he₂⟩ := hlt hne
    have hnode' := (hext.node_eq hg₀ hg he₁ (by rw [hnode]; rfl)).trans hnode
    have hoperand : ∀ c ∈ [a, b], c.isEmpty = false →
        c.index < g₀.effects.size ∧ e₂.index < g₀.effects.size := fun c hc _ =>
      ⟨(hg₀.effects.operand_lt_index (e := e₁) (by rw [hnode]; exact hc)).trans he₁, he₂⟩
    rcases (hg.mem_union hnode').1 hx with hx | hx | hflow
    · refine (iha (hoperand a (by simp)) (fun step hstep => hsteps step ?_) hx).imp_right
        (Or.imp_left fun hstray => .left hnode' hstray)
      exact List.mem_cons_of_mem _ (List.mem_append_left _ hstep)
    · refine (ihb (hoperand b (by simp)) (fun step hstep => hsteps step ?_) hx).imp_right
        (Or.imp_left fun hstray => .right hnode' hstray)
      exact List.mem_cons_of_mem _ (List.mem_append_right _ hstep)
    · exact Or.inr (Or.inl (.whole hnode' hflow))
  | @inter e₁ e₂ a b left right hne _ hnode _ _ iha ihb =>
    obtain ⟨he₁, he₂⟩ := hlt hne
    have hnode' := (hext.node_eq hg₀ hg he₂ (by rw [hnode]; rfl)).trans hnode
    have hoperand : ∀ c ∈ [a, b], e₁.isEmpty = false →
        e₁.index < g₀.effects.size ∧ c.index < g₀.effects.size := fun c hc _ =>
      ⟨he₁, (hg₀.effects.operand_lt_index (e := e₂) (by rw [hnode]; exact hc)).trans he₂⟩
    by_cases hany : x.kind = .any
    · exact Or.inr (Or.inr ⟨hany, by rw [hnode']; rfl⟩)
    · have ha := iha (hoperand a (by simp)) (fun step hstep => hsteps step
        (List.mem_cons_of_mem _ (List.mem_append_left _ hstep))) hx
      have hb := ihb (hoperand b (by simp)) (fun step hstep => hsteps step
        (List.mem_cons_of_mem _ (List.mem_append_right _ hstep))) hx
      rcases ha with ⟨y, hy, hylocation, hyo⟩ | hstray | ⟨h, -⟩
      · rcases hb with ⟨z, hz, hzlocation, hzo⟩ | hstray | ⟨h, -⟩
        · -- Both operands overlap the access, and so does what they have in common.
          obtain ⟨m, hmeet, hm⟩ := Kind.exists_meet hany (hg.kind_ne_readWrite hx)
            (hg.kind_ne_readWrite hy) (hg.kind_ne_readWrite hz) hyo hzo
          refine Or.inl ⟨⟨x.location, m⟩, ?_, rfl, hm⟩
          refine (hg.effects.respects_members hg.classOf_lt).inter _ a b hnode' x.location y.kind
            z.kind m ?_ ?_ hmeet
          · rw [← hylocation]
            exact hy
          · rw [← hzlocation]
            exact hz
        · exact Or.inr (Or.inl hstray)
        · exact absurd h hany
      · exact Or.inr (Or.inl hstray)
      · exact absurd h hany
  | recorded => exact Or.inl (hsteps _ (List.mem_singleton_self _) rfl x hx)

end Growing

end Graph

end HeapQual
