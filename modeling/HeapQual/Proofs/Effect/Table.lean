import HeapQual.Effect.Members
import HeapQual.Proofs.Forest

/-!
# Tables of effects

What holds of every table of effects that a session can hold, and which of its effects mention a
variable.

A table is *sound* when its classes are, when operators come after their operands, when only
variables were ever merged, and when inclusions and atoms name what exists
(`Effects.Sound`).  Entering an expression, merging two variables and recording an inclusion keep
it so.

Whether an effect mentions a variable decides whether an inclusion makes it grow or is checked.
`Effects.MentionsVariable` says what that means, by the expression; the solver finds it by one
sweep over the table, although merging can make an operand's root a later entry than the operator.
A root that is later than the operator is a variable, so the sweep is right not to have seen it
(`Effects.Sound.closed_iff`).
-/

namespace HeapQual

namespace EffectNode

/-- The effects that an expression is built on. -/
def operands : EffectNode → List EffectId
  | empty => []
  | atom _ _ => []
  | var _ => []
  | union a b => [a, b]
  | inter a b => [a, b]

/-- Is this a variable? -/
def isVariable : EffectNode → Bool
  | var _ => true
  | _ => false

/-- Is this an intersection? -/
def isInter : EffectNode → Bool
  | inter _ _ => true
  | _ => false

end EffectNode

namespace Effects

variable {t : Effects} {locations : Nat}

/-- What holds of a table of effects over this many locations. -/
structure Sound (t : Effects) (locations : Nat) : Prop where
  classes : t.classes.Sound
  size_classes : t.classes.size = t.size
  head : t.nodes[0]? = some .empty
  atom_lt : ∀ i kind a, t.nodeAt i = .atom kind a → a.index < locations
  operand_lt : ∀ i, ∀ e ∈ (t.nodeAt i).operands, e.index < i
  merged : t.classes.MergesOnly fun i => (t.nodeAt i).isVariable
  inclusion_lt : ∀ inc ∈ t.inclusions, inc.source.index < t.size ∧ inc.target.index < t.size
  target_not_inter : ∀ inc ∈ t.inclusions, (t.node inc.target).isInter = false

lemma nodeAt_of_size_le {i : Nat} (h : t.size ≤ i) : t.nodeAt i = .empty := by
  simp [nodeAt, Array.getElem?_eq_none h]

lemma lt_size_of_nodeAt_ne {i : Nat} (h : t.nodeAt i ≠ .empty) : i < t.size := by
  by_contra hi
  exact h (nodeAt_of_size_le (not_lt.1 hi))

lemma lt_size_of_mem_operands {i : Nat} {e : EffectId} (h : e ∈ (t.nodeAt i).operands) :
    i < t.size := by
  refine lt_size_of_nodeAt_ne fun hi => ?_
  rw [hi] at h
  exact List.not_mem_nil h

lemma getElem?_nodes {i : Nat} (h : i < t.size) : t.nodes[i]? = some (t.nodeAt i) := by
  have h' : i < t.nodes.size := h
  simp [nodeAt, h']

namespace Sound

lemma size_pos (ht : t.Sound locations) : 0 < t.size := by
  have h := ht.head
  rw [Array.getElem?_eq_some_iff] at h
  exact h.1

/-- What is no variable is a root. -/
lemma root_eq (ht : t.Sound locations) {i : Nat} (h : (t.nodeAt i).isVariable = false) :
    t.classes.root i = i := by
  by_contra hne
  rw [(ht.merged i hne).1] at h
  exact absurd h (by simp)

lemma root_lt (ht : t.Sound locations) {e : EffectId} (h : e.index < t.size) :
    t.root e < t.size := by
  have hlt := ht.classes.root_lt (i := e.index) (ht.size_classes ▸ h)
  exact ht.size_classes ▸ hlt

lemma mem_roots (ht : t.Sound locations) {i : Nat} :
    i ∈ t.classes.roots ↔ i < t.size ∧ t.classes.root i = i := by
  rw [Forest.Sound.mem_roots, ht.size_classes]

lemma root_mem_roots (ht : t.Sound locations) {e : EffectId} (h : e.index < t.size) :
    t.root e ∈ t.classes.roots :=
  ht.classes.root_mem_roots (ht.size_classes ▸ h)

/-- The expression of an effect is a variable exactly if the effect was entered as one. -/
lemma isVariable_node (ht : t.Sound locations) (e : EffectId) :
    (t.node e).isVariable = (t.nodeAt e.index).isVariable := by
  unfold node root
  by_cases h : t.classes.root e.index = e.index
  · rw [h]
  · rw [(ht.merged _ h).1, (ht.merged _ h).2]

/-- An effect that was entered as no variable keeps its expression. -/
lemma node_eq (ht : t.Sound locations) {e : EffectId} (h : (t.node e).isVariable = false) :
    t.root e = e.index ∧ t.node e = t.nodeAt e.index := by
  have hroot : t.root e = e.index := ht.root_eq (ht.isVariable_node e ▸ h)
  exact ⟨hroot, by rw [node, hroot]⟩

lemma node_empty (ht : t.Sound locations) : t.node .empty = .empty := by
  have hhead : t.nodeAt 0 = .empty := by
    rw [nodeAt, ht.head]
    rfl
  have hroot : t.root .empty = 0 := ht.root_eq (i := 0) (by rw [hhead]; rfl)
  rw [node, hroot, hhead]

/-- The operands of an operator's class are below it. -/
lemma operand_lt_index (ht : t.Sound locations) {e a : EffectId} (h : a ∈ (t.node e).operands) :
    a.index < e.index := by
  have hvar : (t.node e).isVariable = false := by
    cases hnode : t.node e <;> simp_all [EffectNode.operands, EffectNode.isVariable]
  obtain ⟨-, hnode⟩ := ht.node_eq hvar
  exact ht.operand_lt _ a (hnode ▸ h)

lemma operand_lt_size (ht : t.Sound locations) {i : Nat} {a : EffectId}
    (h : a ∈ (t.nodeAt i).operands) : a.index < t.size :=
  (ht.operand_lt i a h).trans (lt_size_of_mem_operands h)

/-! ## Growing -/

lemma mono (ht : t.Sound locations) {n : Nat} (h : locations ≤ n) : t.Sound n :=
  { ht with atom_lt := fun i kind a hi => (ht.atom_lt i kind a hi).trans_le h }

lemma nodeAt_add (t : Effects) (node : EffectNode) (i : Nat) :
    (t.add node).2.nodeAt i = if i = t.size then node else t.nodeAt i := by
  unfold nodeAt add size
  simp only [Array.getElem?_push]
  split <;> simp

lemma size_add (t : Effects) (node : EffectNode) : (t.add node).2.size = t.size + 1 := by
  simp [add, size]

lemma root_add (ht : t.Sound locations) (node : EffectNode) (e : EffectId) :
    (t.add node).2.root e = t.root e :=
  ht.classes.root_add e.index

lemma node_add (ht : t.Sound locations) (node : EffectNode) {e : EffectId} (he : e.index < t.size) :
    (t.add node).2.node e = t.node e := by
  rw [Effects.node, ht.root_add, nodeAt_add, if_neg (ht.root_lt he).ne, Effects.node]

/-- What was entered last is not the empty effect, and has the expression given for it. -/
lemma add_self (ht : t.Sound locations) (node : EffectNode) :
    t.size < (t.add node).2.size ∧ (⟨t.size⟩ : EffectId).isEmpty = false ∧
      (t.add node).2.root ⟨t.size⟩ = t.size ∧ (t.add node).2.node ⟨t.size⟩ = node := by
  have hroot : (t.add node).2.root ⟨t.size⟩ = t.size :=
    (ht.root_add _ _).trans (Forest.Sound.root_of_size_le ht.size_classes.le)
  refine ⟨?_, ?_, hroot, ?_⟩
  · rw [size_add]
    exact Nat.lt_succ_self _
  · exact decide_eq_false fun he => ht.size_pos.ne' (congrArg EffectId.index he)
  · rw [Effects.node, hroot, nodeAt_add, if_pos rfl]

theorem start : Effects.start.Sound 0 where
  classes := Forest.Sound.empty.add
  size_classes := rfl
  head := rfl
  atom_lt i kind a h := by
    match i with
    | 0 => cases h
    | i + 1 =>
      rw [nodeAt_of_size_le (Nat.le_add_left 1 i)] at h
      exact absurd h (by simp)
  operand_lt i e he := by
    match i with
    | 0 => cases he
    | i + 1 =>
      rw [nodeAt_of_size_le (Nat.le_add_left 1 i)] at he
      exact absurd he List.not_mem_nil
  merged i h := by
    have hroot : Effects.start.classes.root i = i :=
      Forest.Sound.empty.root_add i ▸ Forest.Sound.root_of_size_le (Nat.zero_le i)
    exact absurd hroot h
  inclusion_lt inc h := absurd h (Array.not_mem_empty inc)
  target_not_inter inc h := absurd h (Array.not_mem_empty inc)

theorem add (ht : t.Sound locations) {node : EffectNode}
    (hatom : ∀ kind a, node = .atom kind a → a.index < locations)
    (hoperand : ∀ e ∈ node.operands, e.index < t.size) : (t.add node).2.Sound locations := by
  have hroot : ∀ i, (t.add node).2.classes.root i = t.classes.root i := ht.classes.root_add
  -- Entries that were there keep their expressions and their roots, so only the new one is to be
  -- looked at.
  have hnode : ∀ i < t.size, (t.add node).2.nodeAt i = t.nodeAt i := fun i hi => by
    rw [nodeAt_add, if_neg hi.ne]
  exact
    { classes := ht.classes.add
      size_classes := by
        rw [size_add, ← ht.size_classes]
        exact Forest.Sound.size_add _
      head := by
        rw [getElem?_nodes (by rw [size_add]; exact Nat.succ_pos _), hnode 0 ht.size_pos,
          ← getElem?_nodes ht.size_pos, ht.head]
      atom_lt := fun i kind a h => by
        rw [nodeAt_add] at h
        split at h
        · exact hatom kind a h
        · exact ht.atom_lt i kind a h
      operand_lt := fun i e he => by
        rw [nodeAt_add] at he
        split at he
        · rename_i hi
          exact hi ▸ hoperand e he
        · exact ht.operand_lt i e he
      merged := ht.merged.add ht.classes fun i hi hvar => by
        rwa [hnode i (ht.size_classes ▸ hi)]
      inclusion_lt := fun inc h => by
        rw [size_add]
        exact ⟨(ht.inclusion_lt inc h).1.trans (Nat.lt_succ_self _),
          (ht.inclusion_lt inc h).2.trans (Nat.lt_succ_self _)⟩
      target_not_inter := fun inc h => by
        have hlt := ht.root_lt (ht.inclusion_lt inc h).2
        have hsame : (t.add node).2.node inc.target = t.node inc.target := by
          unfold Effects.node Effects.root at *
          rw [hroot, hnode _ hlt]
        rw [hsame]
        exact ht.target_not_inter inc h }

lemma root_join (ht : t.Sound locations) {survivor child : Nat} (hs : survivor ∈ t.classes.roots)
    (hc : child ∈ t.classes.roots) (hne : child ≠ survivor) (e : EffectId) :
    (t.join survivor child).root e = if t.root e = child then survivor else t.root e :=
  ht.classes.root_hang hc hs hne e.index

theorem join (ht : t.Sound locations) {survivor child : Nat} (hs : survivor ∈ t.classes.roots)
    (hc : child ∈ t.classes.roots) (hne : child ≠ survivor)
    (hsv : (t.nodeAt survivor).isVariable) (hcv : (t.nodeAt child).isVariable) :
    (t.join survivor child).Sound locations :=
  { classes := ht.classes.hang hc hs hne
    size_classes := (Forest.size_hang _ _ _).trans ht.size_classes
    head := ht.head
    atom_lt := ht.atom_lt
    operand_lt := ht.operand_lt
    merged := ht.merged.hang ht.classes hc hs hne hcv hsv
    inclusion_lt := ht.inclusion_lt
    target_not_inter := fun inc h => by
      have hnode : (t.join survivor child).node inc.target =
        t.nodeAt ((t.join survivor child).root inc.target) := rfl
      rw [hnode, ht.root_join hs hc hne]
      split
      · cases hv : t.nodeAt survivor <;> simp_all [EffectNode.isVariable, EffectNode.isInter]
      · exact ht.target_not_inter inc h }

theorem addInclusion (ht : t.Sound locations) {inc : Inclusion}
    (hsource : inc.source.index < t.size) (htarget : inc.target.index < t.size)
    (hinter : (t.node inc.target).isInter = false) : (t.addInclusion inc).Sound locations :=
  { classes := ht.classes
    size_classes := ht.size_classes
    head := ht.head
    atom_lt := ht.atom_lt
    operand_lt := ht.operand_lt
    merged := ht.merged
    inclusion_lt := fun i h => by
      rcases Array.mem_push.1 h with h | rfl
      · exact ht.inclusion_lt i h
      · exact ⟨hsource, htarget⟩
    target_not_inter := fun i h => by
      rcases Array.mem_push.1 h with h | rfl
      · exact ht.target_not_inter i h
      · exact hinter }

/-- Marks and made-up names have no part in it. -/
lemma of_eq (ht : t.Sound locations) {t' : Effects} (hnodes : t'.nodes = t.nodes)
    (hclasses : t'.classes = t.classes) (hinclusions : t'.inclusions = t.inclusions) :
    t'.Sound locations := by
  obtain ⟨nodes, classes, marked, inclusions, freshNames⟩ := t'
  subst hnodes hclasses hinclusions
  exact ⟨ht.classes, ht.size_classes, ht.head, ht.atom_lt, ht.operand_lt, ht.merged,
    ht.inclusion_lt, ht.target_not_inter⟩

end Sound

/-! ## Which effects mention a variable -/

/-- The effect at this position mentions a variable: it is one, or an operand's class mentions
one. -/
inductive MentionsVariable (t : Effects) : Nat → Prop
  | var {i : Nat} : (t.nodeAt i).isVariable → MentionsVariable t i
  | operand {i : Nat} {e : EffectId} :
      e ∈ (t.nodeAt i).operands → MentionsVariable t (t.root e) → MentionsVariable t i

/-- An effect mentions a variable if it is one or if an operand mentions one. -/
lemma mentionsVariable_root_iff {e : EffectId} :
    t.MentionsVariable (t.root e) ↔
      (t.node e).isVariable = true ∨ ∃ a ∈ (t.node e).operands, t.MentionsVariable (t.root a) := by
  constructor
  · rintro (hvar | ⟨ha, hmentions⟩)
    · exact Or.inl hvar
    · exact Or.inr ⟨_, ha, hmentions⟩
  · rintro (hvar | ⟨a, ha, hmentions⟩)
    · exact .var hvar
    · exact .operand ha hmentions

/-- The sweep over a part of the table. -/
def sweep (t : Effects) (nodes : List EffectNode) : Array Bool :=
  nodes.foldl (fun closed node => closed.push (t.closedNode closed node)) #[]

lemma sweep_concat (t : Effects) (nodes : List EffectNode) (node : EffectNode) :
    t.sweep (nodes ++ [node]) = (t.sweep nodes).push (t.closedNode (t.sweep nodes) node) := by
  simp [sweep]

lemma size_sweep (t : Effects) (nodes : List EffectNode) : (t.sweep nodes).size = nodes.length := by
  induction nodes using List.reverseRecOn with
  | nil => rfl
  | append_singleton nodes node ih => simp [sweep_concat, ih]

/-- What the sweep has found stays. -/
lemma getElem?_sweep_append (t : Effects) (nodes rest : List EffectNode) {i : Nat}
    (hi : i < nodes.length) : (t.sweep (nodes ++ rest))[i]? = (t.sweep nodes)[i]? := by
  induction rest using List.reverseRecOn with
  | nil => simp
  | append_singleton rest node ih =>
    have hne : i ≠ (t.sweep (nodes ++ rest)).size := by
      rw [size_sweep, List.length_append]
      omega
    rw [← List.append_assoc, sweep_concat, Array.getElem?_push, if_neg hne, ih]

lemma closedTable_eq (t : Effects) : t.closedTable = t.sweep t.nodes.toList := by
  rw [closedTable, sweep, Array.foldl_toList]

/-- The sweep judges an entry by what it has found before. -/
lemma getElem?_closedTable {i : Nat} (hi : i < t.size) :
    t.closedTable[i]? = some (t.closedNode (t.sweep (t.nodes.toList.take i)) (t.nodeAt i)) := by
  have hlength : i < t.nodes.toList.length := by simpa [size] using hi
  have hget : t.nodes.toList[i] = t.nodeAt i := by
    have h := getElem?_nodes hi
    rw [← Array.getElem?_toList, List.getElem?_eq_getElem hlength] at h
    exact Option.some.inj h
  have hsplit : t.nodes.toList =
      (t.nodes.toList.take i ++ [t.nodeAt i]) ++ t.nodes.toList.drop (i + 1) := by
    conv_lhs =>
      rw [← List.take_append_drop i t.nodes.toList, List.drop_eq_getElem_cons hlength, hget]
    simp
  have htake : (t.nodes.toList.take i).length = i := by
    rw [List.length_take]
    exact min_eq_left hlength.le
  rw [closedTable_eq]
  conv_lhs => rw [hsplit]
  rw [getElem?_sweep_append _ _ _ (by simp [htake]), sweep_concat, Array.getElem?_push,
    if_pos (by rw [size_sweep, htake])]

namespace Sound

/-- For an operand, the part of the sweep before the operator says the same as the whole. -/
lemma sweep_take_operand (ht : t.Sound locations) {i : Nat} (hi : i < t.size) {e : EffectId}
    (he : e.index < i) :
    (t.sweep (t.nodes.toList.take i))[t.root e]?.getD false =
      t.closedTable[t.root e]?.getD false := by
  have htake : (t.nodes.toList.take i).length = i := by
    rw [List.length_take]
    exact min_eq_left (by simpa [size] using hi.le)
  by_cases hlt : t.root e < i
  · have h := getElem?_sweep_append t (t.nodes.toList.take i) (t.nodes.toList.drop i)
      (i := t.root e) (by rwa [htake])
    rw [List.take_append_drop, ← closedTable_eq] at h
    rw [h]
  · -- The root has moved past the operator, so it is a variable.
    have hnone : (t.sweep (t.nodes.toList.take i))[t.root e]? = none := by
      apply Array.getElem?_eq_none
      rw [size_sweep, htake]
      exact not_lt.1 hlt
    have hvar : (t.nodeAt (t.root e)).isVariable :=
      (ht.merged e.index (by unfold root at hlt; omega)).2
    have hroot : t.root e < t.size := ht.root_lt (he.trans hi)
    rw [hnone, getElem?_closedTable hroot]
    cases hnode : t.nodeAt (t.root e) <;> simp_all [EffectNode.isVariable, closedNode]

/-- An entry is found to be free of variables exactly if it is no variable and all its operands
were found to be. -/
lemma closed_eq (ht : t.Sound locations) {i : Nat} (hi : i < t.size) :
    t.closedTable[i]?.getD false = true ↔
      (t.nodeAt i).isVariable = false ∧
        ∀ e ∈ (t.nodeAt i).operands, t.closedTable[t.root e]?.getD false = true := by
  have hoperand : ∀ e ∈ (t.nodeAt i).operands,
      (t.sweep (t.nodes.toList.take i))[t.root e]?.getD false =
        t.closedTable[t.root e]?.getD false := fun e he =>
    ht.sweep_take_operand hi (ht.operand_lt i e he)
  rw [getElem?_closedTable hi, Option.getD_some]
  cases hnode : t.nodeAt i <;>
    simp_all [EffectNode.operands, EffectNode.isVariable, closedNode]

/-- The sweep finds exactly the effects that mention no variable. -/
theorem closed_iff (ht : t.Sound locations) {i : Nat} (hi : i < t.size) :
    t.closedTable[i]?.getD false = true ↔ ¬ t.MentionsVariable i := by
  constructor
  · intro hclosed hmentions
    induction hmentions with
    | var hvar =>
      rw [((ht.closed_eq hi).1 hclosed).1] at hvar
      exact absurd hvar (by simp)
    | operand he _ ih =>
      exact ih (ht.root_lt (ht.operand_lt_size he)) (((ht.closed_eq hi).1 hclosed).2 _ he)
  · intro hmentions
    induction i using Nat.strongRecOn with
    | _ i ih =>
      have hvar : (t.nodeAt i).isVariable = false := by
        by_contra h
        exact hmentions (.var (by simpa using h))
      refine (ht.closed_eq hi).2 ⟨hvar, fun e he => ?_⟩
      have hsub : ¬ t.MentionsVariable (t.root e) := fun h => hmentions (.operand he h)
      -- An operand that mentions no variable was never merged, so it is below the operator.
      have hroot : t.root e = e.index := by
        by_contra hne
        exact hsub (.var (ht.merged e.index hne).2)
      exact ih _ (hroot ▸ ht.operand_lt i e he) (ht.root_lt (ht.operand_lt_size he)) hsub

lemma hasVariablesFrom_iff (ht : t.Sound locations) {fuel : Nat} {e : EffectId}
    (hfuel : e.index < fuel) :
    t.hasVariablesFrom fuel e = true ↔ t.MentionsVariable (t.root e) := by
  induction fuel generalizing e with
  | zero => exact absurd hfuel (Nat.not_lt_zero _)
  | succ fuel ih =>
    have hoperand : ∀ a ∈ (t.node e).operands,
        (t.hasVariablesFrom fuel a = true ↔ t.MentionsVariable (t.root a)) := by
      intro a ha
      have hlt := ht.operand_lt_index ha
      exact ih (by omega)
    rw [mentionsVariable_root_iff, hasVariablesFrom]
    cases hnode : t.node e <;> simp_all [EffectNode.operands, EffectNode.isVariable]

/-- Descending into the expression finds out whether it mentions a variable. -/
lemma hasVariables_iff (ht : t.Sound locations) {e : EffectId} (he : e.index < t.size) :
    t.hasVariables e = true ↔ t.MentionsVariable (t.root e) :=
  ht.hasVariablesFrom_iff he

end Sound

end Effects

end HeapQual
