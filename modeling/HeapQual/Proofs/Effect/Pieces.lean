import HeapQual.Proofs.Effect.Leaves

/-!
# The pieces of an inclusion

When an inclusion is split, the parts that are known to hold are dropped, and what is known depends
on what was merged before.  The *pieces* of an inclusion (`Effects.pieces`) are the parts that are
left if nothing is known but that an effect includes itself.  They are given by expressions alone,
so they stay the same while effects and locations are merged.

What a split records are pieces.  The pieces that it drops are redundant for good: in every graph
that grows out of the present one, their targets have what their sources have
(`Graph.Sound.exists_dropped`).
-/

namespace HeapQual

namespace Effects

variable {t : Effects} {locations : Nat} {position : Position} {e e₁ e₂ : EffectId} {fuel : Nat}

/-- The parts of an inclusion that are left when it is split all the way, by expressions alone. -/
def piecesFrom (t : Effects) (position : Position) :
    (fuel : Nat) → EffectId → EffectId → List Inclusion
  | 0, _, _ => []
  | fuel + 1, e₁, e₂ =>
    if e₁.isEmpty || decide (e₁ = e₂) then []
    else
      match t.nodeAt e₁.index, t.nodeAt e₂.index with
      | .union a b, _ => t.piecesFrom position fuel a e₂ ++ t.piecesFrom position fuel b e₂
      | _, .inter a b => t.piecesFrom position fuel e₁ a ++ t.piecesFrom position fuel e₁ b
      | _, _ => [⟨e₁, e₂, position⟩]

/-- The pieces of the inclusion `e₁ ⊆ e₂`. -/
def pieces (t : Effects) (position : Position) (e₁ e₂ : EffectId) : List Inclusion :=
  t.piecesFrom position (2 * t.size) e₁ e₂

lemma piecesFrom_of_isEmpty (h : e₁.isEmpty = true) : t.piecesFrom position fuel e₁ e₂ = [] := by
  cases fuel with
  | zero => rfl
  | succ fuel => rw [piecesFrom, h, Bool.true_or, if_pos rfl]

lemma piecesFrom_congr {t' : Effects} (h : t'.nodes = t.nodes) (fuel : Nat) (e₁ e₂ : EffectId) :
    t'.piecesFrom position fuel e₁ e₂ = t.piecesFrom position fuel e₁ e₂ := by
  induction fuel generalizing e₁ e₂ with
  | zero => rfl
  | succ fuel ih => simp only [piecesFrom, nodeAt, h, ih]

/-- Pieces are given by expressions alone. -/
lemma pieces_congr {t' : Effects} (h : t'.nodes = t.nodes) : t'.pieces position e₁ e₂ =
    t.pieces position e₁ e₂ := by
  unfold pieces
  rw [piecesFrom_congr h, size, size, h]

/-- Only variables have the expression of another effect. -/
lemma Sound.node_cases (ht : t.Sound locations) (e : EffectId) :
    t.node e = t.nodeAt e.index ∨ ∃ name name', t.node e = .var name ∧
      t.nodeAt e.index = .var name' := by
  cases hvar : (t.node e).isVariable with
  | false => exact Or.inl (ht.node_eq hvar).2
  | true =>
    have hat : (t.nodeAt e.index).isVariable = true := (ht.isVariable_node e).symm.trans hvar
    cases hnode : t.node e with
    | var name =>
      cases hnode' : t.nodeAt e.index with
      | var name' => exact Or.inr ⟨name, name', rfl, rfl⟩
      | _ =>
        rw [hnode'] at hat
        cases hat
    | _ =>
      rw [hnode] at hvar
      cases hvar

/-- The pieces by the expressions that effects have now. -/
lemma Sound.piecesFrom_succ (ht : t.Sound locations) (fuel : Nat) (e₁ e₂ : EffectId) :
    t.piecesFrom position (fuel + 1) e₁ e₂ =
      if e₁.isEmpty || decide (e₁ = e₂) then []
      else
        match t.node e₁, t.node e₂ with
        | .union a b, _ => t.piecesFrom position fuel a e₂ ++ t.piecesFrom position fuel b e₂
        | _, .inter a b => t.piecesFrom position fuel e₁ a ++ t.piecesFrom position fuel e₁ b
        | _, _ => [⟨e₁, e₂, position⟩] := by
  rw [piecesFrom]
  split
  · rfl
  · rcases ht.node_cases e₁ with h₁ | ⟨name₁, name₁', h₁, h₁'⟩
    · rcases ht.node_cases e₂ with h₂ | ⟨name₂, name₂', h₂, h₂'⟩
      · rw [h₁, h₂]
      · rw [h₁, h₂, h₂']
        cases t.nodeAt e₁.index <;> rfl
    · rcases ht.node_cases e₂ with h₂ | ⟨name₂, name₂', h₂, h₂'⟩
      · rw [h₁, h₁', h₂]
        cases t.nodeAt e₂.index <;> rfl
      · rw [h₁, h₁', h₂, h₂']

lemma Sound.piecesFrom_union (ht : t.Sound locations) (hempty : e₁.isEmpty = false)
    (hne : e₁ ≠ e₂) {a b : EffectId} (hnode : t.node e₁ = .union a b) :
    t.piecesFrom position (fuel + 1) e₁ e₂ =
      t.piecesFrom position fuel a e₂ ++ t.piecesFrom position fuel b e₂ := by
  rw [ht.piecesFrom_succ, if_neg (by simp [hempty, hne]), hnode]

lemma Sound.piecesFrom_inter (ht : t.Sound locations) (hempty : e₁.isEmpty = false)
    (hne : e₁ ≠ e₂) {a b : EffectId} (hunion : ∀ c d, t.node e₁ ≠ .union c d)
    (hnode : t.node e₂ = .inter a b) :
    t.piecesFrom position (fuel + 1) e₁ e₂ =
      t.piecesFrom position fuel e₁ a ++ t.piecesFrom position fuel e₁ b := by
  rw [ht.piecesFrom_succ, if_neg (by simp [hempty, hne]), hnode]
  cases hnode₁ : t.node e₁ with
  | union c d => exact absurd hnode₁ (hunion c d)
  | _ => rfl

lemma Sound.piecesFrom_single (ht : t.Sound locations) (hempty : e₁.isEmpty = false)
    (hne : e₁ ≠ e₂) (hunion : ∀ c d, t.node e₁ ≠ .union c d)
    (hinter : ∀ c d, t.node e₂ ≠ .inter c d) :
    t.piecesFrom position (fuel + 1) e₁ e₂ = [⟨e₁, e₂, position⟩] := by
  rw [ht.piecesFrom_succ, if_neg (by simp [hempty, hne])]
  split
  · rename_i c d hnode₁
    exact absurd hnode₁ (hunion c d)
  · rename_i c d hnode₂ _
    exact absurd hnode₂ (hinter c d)
  · rfl

/-- What is no union stands on the left of all pieces. -/
lemma Sound.source_of_mem_piecesFrom (ht : t.Sound locations)
    (hnode : (t.node e₁).isUnion = false) {inc : Inclusion}
    (hinc : inc ∈ t.piecesFrom position fuel e₁ e₂) : inc.source = e₁ := by
  induction fuel generalizing e₂ with
  | zero => exact absurd hinc List.not_mem_nil
  | succ fuel ih =>
    rw [ht.piecesFrom_succ] at hinc
    split at hinc
    · exact absurd hinc List.not_mem_nil
    · split at hinc
      · rename_i a b hunion
        rw [hunion] at hnode
        cases hnode
      · rcases List.mem_append.1 hinc with hinc | hinc
        · exact ih hinc
        · exact ih hinc
      · rw [List.mem_singleton.1 hinc]

/-! ## Variables -/

/-- Effects with the same expressions are the same now, or both are variables. -/
lemma Sound.node_congr {t' : Effects} {locations' : Nat} (ht : t.Sound locations)
    (ht' : t'.Sound locations') (h : t'.nodes = t.nodes) (e : EffectId) :
    t'.node e = t.node e ∨ ∃ name name', t'.node e = .var name ∧ t.node e = .var name' := by
  have hat : t'.nodeAt e.index = t.nodeAt e.index := by rw [nodeAt, nodeAt, h]
  rcases ht.node_cases e with hnode | ⟨name, name', hnode, hvar⟩
  · rcases ht'.node_cases e with hnode' | ⟨name, name', hnode', hvar'⟩
    · exact Or.inl (hnode'.trans (hat.trans hnode.symm))
    · exact Or.inr ⟨name, name', hnode', hnode.trans (hat.symm.trans hvar')⟩
  · rcases ht'.node_cases e with hnode' | ⟨name₁, _, hnode', -⟩
    · exact Or.inr ⟨name', name, hnode'.trans (hat.trans hvar), hnode⟩
    · exact Or.inr ⟨name₁, name, hnode', hnode⟩

/-- Whether variables are mentioned is given by expressions alone. -/
lemma Sound.hasVariables_congr {t' : Effects} {locations' : Nat} (ht : t.Sound locations)
    (ht' : t'.Sound locations') (h : t'.nodes = t.nodes) (e : EffectId) :
    t'.hasVariables e = t.hasVariables e := by
  have hfrom : ∀ fuel e, t'.hasVariablesFrom fuel e = t.hasVariablesFrom fuel e := by
    intro fuel
    induction fuel with
    | zero => exact fun _ => rfl
    | succ fuel ih =>
      intro e
      rw [hasVariablesFrom, hasVariablesFrom]
      rcases ht.node_congr ht' h e with hnode | ⟨_, _, hnode', hnode⟩
      · simp only [hnode, ih]
      · rw [hnode, hnode']
  rw [hasVariables, hasVariables, size, size, h, hfrom]

/-! ## Leaves -/

/-- An intersection has no part but itself.  So what has at most the parts of an intersection, and
is no union and not the intersection, is empty. -/
lemma Sound.node_eq_empty_of_leaves (ht : t.Sound locations) {classOf : LocationId → Nat}
    {depth : Nat} {a b : EffectId} (hne : e₁ ≠ e₂) (hunion : ∀ c d, t.node e₁ ≠ .union c d)
    (hnode₂ : t.node e₂ = .inter a b)
    (hleaves : ∀ leaf ∈ t.leavesFrom classOf (depth + 1) e₁, leaf ∈ t.leaves classOf e₂) :
    t.node e₁ = .empty := by
  -- The only leaf of an intersection is its own root, and no other operator shares that root.
  rw [ht.leaves_of_inter hnode₂, leavesFrom] at hleaves
  cases hnode₁ : t.node e₁ with
  | empty => rfl
  | union c d => exact absurd hnode₁ (hunion c d)
  | atom kind l =>
    rw [hnode₁] at hleaves
    cases List.mem_singleton.1 (hleaves _ (List.mem_singleton_self _))
  | var name =>
    rw [hnode₁] at hleaves
    have hroot := List.mem_singleton.1 (hleaves _ (List.mem_singleton_self _))
    have hsame : t.node e₁ = t.node e₂ := congrArg t.nodeAt (Leaf.other.inj hroot)
    rw [hnode₁, hnode₂] at hsame
    cases hsame
  | inter c d =>
    rw [hnode₁] at hleaves
    have hroot := Leaf.other.inj (List.mem_singleton.1 (hleaves _ (List.mem_singleton_self _)))
    have hroot₁ := (ht.node_eq (e := e₁) (by rw [hnode₁]; rfl)).1
    have hroot₂ := (ht.node_eq (e := e₂) (by rw [hnode₂]; rfl)).1
    refine absurd ?_ hne
    cases e₁
    cases e₂
    exact congrArg EffectId.mk (hroot₁.symm.trans (hroot.trans hroot₂))

end Effects

lemma EffectNode.isUnion_eq_false {node : EffectNode} (h : ∀ a b, node ≠ .union a b) :
    node.isUnion = false := by
  cases node with
  | union a b => exact absurd rfl (h a b)
  | _ => rfl

/-- Two lists, each split in two, are split in two together. -/
lemma perm_append_append {α : Type} {kept kept' dropped dropped' all all' : List α}
    (h : (kept ++ dropped).Perm all) (h' : (kept' ++ dropped').Perm all') :
    ((kept ++ kept') ++ (dropped ++ dropped')).Perm (all ++ all') := by
  refine List.Perm.trans ?_ (h.append h')
  rw [List.append_assoc, List.append_assoc]
  exact List.Perm.append_left kept (List.perm_append_comm_assoc ..)

namespace Graph

variable {τ : Type} {g g₀ : Graph τ} {e e₁ e₂ : EffectId} {x : Access} {position : Position}

/-- Whatever the source has, the target has. -/
def Redundant (g : Graph τ) (inc : Inclusion) : Prop :=
  ∀ x ∈ g.accessesOf inc.source, x ∈ g.accessesOf inc.target

section Growing

variable (hext : g₀.Extends g) (hg₀ : g₀.Sound) (hg : g.Sound)

include hext hg₀ hg

/-- Nothing strays into what is no union. -/
lemma not_stray (he : e.index < g₀.effects.size) (hnode : (g₀.effects.node e).isUnion = false) :
    ¬g.Stray x e := by
  intro hstray
  obtain ⟨a, b, hunion⟩ : ∃ a b, g.effects.node e = .union a b := by
    cases hstray with
    | whole h => exact ⟨_, _, h⟩
    | left h => exact ⟨_, _, h⟩
    | right h => exact ⟨_, _, h⟩
  have hat : g₀.effects.nodeAt e.index = .union a b := by
    rw [← hext.effect_eq e.index he, ← (hg.effects.node_eq (by rw [hunion]; rfl)).2, hunion]
  rcases hg₀.effects.node_cases e with heq | ⟨_, _, -, hvar⟩
  · rw [heq, hat] at hnode
    cases hnode
  · rw [hat] at hvar
    cases hvar

/-- If the parts of one union are parts of another, then all pieces of the inclusion of the one in
the other are redundant. -/
lemma redundant_of_leaves {depth fuel : Nat} (hdepth : e₁.index < depth)
    (he₁ : e₁.index < g₀.effects.size) (he₂ : e₂.index < g₀.effects.size)
    (hleaves : ∀ leaf ∈ g₀.effects.leavesFrom g₀.classOf depth e₁,
      leaf ∈ g₀.effects.leaves g₀.classOf e₂)
    {inc : Inclusion} (hinc : inc ∈ g₀.effects.piecesFrom position fuel e₁ e₂) :
    g.Redundant inc := by
  induction fuel generalizing e₁ depth with
  | zero => exact absurd hinc List.not_mem_nil
  | succ fuel ih =>
    obtain ⟨depth, rfl⟩ := Nat.exists_eq_succ_of_ne_zero (Nat.ne_of_gt (Nat.zero_lt_of_lt hdepth))
    rw [hg₀.effects.piecesFrom_succ] at hinc
    split at hinc
    · exact absurd hinc List.not_mem_nil
    · rename_i hne
      split at hinc
      · rename_i a b hnode
        have hlt : ∀ c ∈ [a, b], c.index < e₁.index := fun c hc =>
          hg₀.effects.operand_lt_index (by rw [hnode]; exact hc)
        have ha := hlt a (by simp)
        have hb := hlt b (by simp)
        rw [Effects.leavesFrom, hnode] at hleaves
        rcases List.mem_append.1 hinc with hinc | hinc
        · exact ih (by omega) (ha.trans he₁)
            (fun leaf hleaf => hleaves leaf (List.mem_append_left _ hleaf)) hinc
        · exact ih (by omega) (hb.trans he₁)
            (fun leaf hleaf => hleaves leaf (List.mem_append_right _ hleaf)) hinc
      · -- The first effect has at most the parts of an intersection, so it is empty.
        rename_i a b hnode₂ hunion
        have hnotUnion := EffectNode.isUnion_eq_false hunion
        have hsource : inc.source = e₁ := by
          rcases List.mem_append.1 hinc with hinc | hinc
          · exact hg₀.effects.source_of_mem_piecesFrom hnotUnion hinc
          · exact hg₀.effects.source_of_mem_piecesFrom hnotUnion hinc
        have hempty : g₀.effects.node e₁ = .empty :=
          hg₀.effects.node_eq_empty_of_leaves (fun heq => hne (by simp [heq])) hunion hnode₂ hleaves
        intro x hx
        rw [hsource] at hx
        have hnode := (hext.node_eq hg₀ hg he₁ (by rw [hempty]; rfl)).trans hempty
        exact absurd hx (hg.not_mem_empty (he₁.trans_le hext.size_effects) hnode)
      · rename_i hunion _
        rw [List.mem_singleton.1 hinc]
        intro x hx
        rcases exists_leaf hext hg₀ hg hdepth he₁ hx with hstray | ⟨leaf, hleaf, hx⟩
        · exact absurd hstray
            (not_stray hext hg₀ hg he₁ (EffectNode.isUnion_eq_false hunion))
        · exact mem_accessesOf_of_leaf hext hg₀ hg he₂ (hleaves leaf hleaf) hx

end Growing

namespace Sound

variable (hg₀ : g₀.Sound)

include hg₀

lemma exists_dropped_from (position : Position) {fuel : Nat}
    (hlt : e₁.isEmpty = false → e₁.index < g₀.effects.size ∧ e₂.index < g₀.effects.size) :
    ∃ dropped : List Inclusion,
      (((g₀.effects.splitFrom g₀.classOf fuel e₁ e₂).filter Effects.SplitStep.recorded).map
        (fun step => Inclusion.mk step.source step.target position) ++ dropped).Perm
          (g₀.effects.piecesFrom position fuel e₁ e₂) ∧
      ∀ inc ∈ dropped, ∀ g, g₀.Extends g → g.Sound → g.Redundant inc := by
  induction fuel generalizing e₁ e₂ with
  | zero => exact ⟨[], .nil, fun inc hinc => absurd hinc List.not_mem_nil⟩
  | succ fuel ih =>
    rw [Effects.splitFrom]
    split
    · rename_i hknown
      -- Nothing is recorded, so all pieces are dropped: each has its source among the parts of its
      -- target.
      refine ⟨g₀.effects.piecesFrom position (fuel + 1) e₁ e₂, ?_, fun inc hinc g hext hg => ?_⟩
      · exact .refl _
      · cases hempty : e₁.isEmpty with
        | true =>
          rw [Effects.piecesFrom_of_isEmpty hempty] at hinc
          exact absurd hinc List.not_mem_nil
        | false =>
          rw [hempty, Bool.false_or] at hknown
          obtain ⟨he₁, he₂⟩ := hlt hempty
          exact redundant_of_leaves hext hg₀ hg he₁ he₁ he₂
            (Effects.knownEqual_iff.1 hknown).1 hinc
    · rename_i hknown
      rw [Bool.or_eq_true_iff, not_or] at hknown
      have hempty : e₁.isEmpty = false := Bool.eq_false_iff.2 hknown.1
      -- The split and the pieces recurse alike from here on, so what they drop adds up.
      have hne : e₁ ≠ e₂ := by
        rintro rfl
        exact hknown.2 (Effects.knownEqual_self ..)
      obtain ⟨he₁, he₂⟩ := hlt hempty
      split
      · rename_i a b hnode
        rw [hg₀.effects.piecesFrom_union hempty hne hnode]
        have hoperand : ∀ c ∈ [a, b], c.isEmpty = false →
            c.index < g₀.effects.size ∧ e₂.index < g₀.effects.size := fun c hc _ =>
          ⟨(hg₀.effects.operand_lt_index (e := e₁) (by rw [hnode]; exact hc)).trans he₁, he₂⟩
        obtain ⟨left, hleft, hredundant⟩ := ih (hoperand a (by simp))
        obtain ⟨right, hright, hredundant'⟩ := ih (hoperand b (by simp))
        refine ⟨left ++ right, ?_, fun inc hinc => ?_⟩
        · rw [List.filter_cons_of_neg (by simp), List.filter_append, List.map_append]
          exact perm_append_append hleft hright
        · exact (List.mem_append.1 hinc).elim (hredundant inc) (hredundant' inc)
      · rename_i a b hnode hunion
        rw [hg₀.effects.piecesFrom_inter hempty hne hunion hnode]
        have hoperand : ∀ c ∈ [a, b], e₁.isEmpty = false →
            e₁.index < g₀.effects.size ∧ c.index < g₀.effects.size := fun c hc _ =>
          ⟨he₁, (hg₀.effects.operand_lt_index (e := e₂) (by rw [hnode]; exact hc)).trans he₂⟩
        obtain ⟨left, hleft, hredundant⟩ := ih (hoperand a (by simp))
        obtain ⟨right, hright, hredundant'⟩ := ih (hoperand b (by simp))
        refine ⟨left ++ right, ?_, fun inc hinc => ?_⟩
        · rw [List.filter_cons_of_neg (by simp), List.filter_append, List.map_append]
          exact perm_append_append hleft hright
        · exact (List.mem_append.1 hinc).elim (hredundant inc) (hredundant' inc)
      · rename_i hunion hinter
        rw [hg₀.effects.piecesFrom_single hempty hne hunion hinter]
        exact ⟨[], .refl _, fun inc hinc => absurd hinc List.not_mem_nil⟩

/-- A split records some of the pieces, and the others are redundant for good. -/
theorem exists_dropped (position : Position)
    (hlt : e₁.isEmpty = false → e₁.index < g₀.effects.size ∧ e₂.index < g₀.effects.size) :
    ∃ dropped : List Inclusion,
      (((g₀.effects.split g₀.classOf e₁ e₂).filter Effects.SplitStep.recorded).map
        (fun step => Inclusion.mk step.source step.target position) ++ dropped).Perm
          (g₀.effects.pieces position e₁ e₂) ∧
      ∀ inc ∈ dropped, ∀ g, g₀.Extends g → g.Sound → g.Redundant inc :=
  hg₀.exists_dropped_from position hlt

end Sound

end Graph

end HeapQual
