import HeapQual.Proofs.Effect.Table
import HeapQual.Proofs.Saturation

/-!
# The least members of effects

`Effects.Respects` says what a family of sets of accesses has to contain: the parts of every atom,
what the operands of a union contain, the meets of what the operands of an intersection contain,
and, where the target of an inclusion mentions a variable, what the source contains.  The members
that the solver finds are the least such family (`Effects.Sound.respects_members`,
`Effects.Sound.members_subset`), and nothing is in it without a reason
(`Effects.Sound.mem_members_iff`).

A kind in the family is always a part of some atom's kind, because a meet is one of the two kinds
that met (`Kind.eq_of_meet`).  This is what bounds how often a set can grow.

The inclusions that are checked and fail are listed by `Effects.violations`
(`Effects.Sound.mem_violations`).
-/

namespace HeapQual

lemma Kind.eq_of_meet {k q m : Kind} (h : k.meet q = some m) : m = k ∨ m = q := by
  cases k <;> cases q <;> simp_all [Kind.meet]

lemma Kind.length_parts_le (k : Kind) : k.parts.length ≤ 2 := by
  cases k <;> simp [Kind.parts]

namespace Members

lemma mem_ofAtom {kind : Kind} {location : Nat} {x : Access} :
    x ∈ ofAtom kind location ↔ x.location = location ∧ x.kind ∈ kind.parts := by
  obtain ⟨l, k⟩ := x
  simp only [ofAtom, Ascending.mem_ofList, List.mem_map, Access.mk.injEq]
  constructor
  · rintro ⟨p, hp, rfl, rfl⟩
    exact ⟨rfl, hp⟩
  · rintro ⟨rfl, hk⟩
    exact ⟨k, hk, rfl, rfl⟩

lemma mem_meets {m n : Members} {x : Access} :
    x ∈ meets m n ↔ ∃ y ∈ m, ∃ z ∈ n, y.location = x.location ∧ z.location = x.location ∧
      y.kind.meet z.kind = some x.kind := by
  obtain ⟨l, k⟩ := x
  simp only [meets, List.mem_flatMap, List.mem_filterMap, List.mem_filter, Ascending.mem_toList,
    decide_eq_true_eq, Option.map_eq_some_iff, Access.mk.injEq]
  constructor
  · rintro ⟨y, hy, z, ⟨hz, hloc⟩, q, hmeet, rfl, rfl⟩
    exact ⟨y, hy, z, hz, rfl, hloc, hmeet⟩
  · rintro ⟨y, hy, z, hz, rfl, hloc, hmeet⟩
    exact ⟨y, hy, z, ⟨hz, hloc⟩, k, hmeet, rfl, rfl⟩

lemma touches_iff {m : Members} {location : Nat} {kind : Kind} :
    m.touches location kind = true ↔
      ∃ y ∈ m, y.location = location ∧ y.kind.overlaps kind = true := by
  simp [touches]

lemma within_iff {m n : Members} :
    m.within n = true ↔ ∀ x ∈ m, n.touches x.location x.kind = true := by
  simp [within]

end Members

namespace Effects

variable {t : Effects} {classOf : LocationId → Nat} {locations : Nat}

/-- A family of sets of accesses contains what expressions and inclusions force into it.  It is
read at the roots of classes. -/
structure Respects (t : Effects) (classOf : LocationId → Nat) (M : Nat → Set Access) : Prop where
  atom : ∀ i kind a, t.nodeAt i = .atom kind a → ∀ k ∈ kind.parts, ⟨classOf a, k⟩ ∈ M i
  union : ∀ i a b, t.nodeAt i = .union a b → M (t.root a) ⊆ M i ∧ M (t.root b) ⊆ M i
  inter : ∀ i a b, t.nodeAt i = .inter a b → ∀ l k₁ k₂ k,
    ⟨l, k₁⟩ ∈ M (t.root a) → ⟨l, k₂⟩ ∈ M (t.root b) → k₁.meet k₂ = some k → ⟨l, k⟩ ∈ M i
  inclusion : ∀ inc ∈ t.inclusions, t.MentionsVariable (t.root inc.target) →
    M (t.root inc.source) ⊆ M (t.root inc.target)

/-! ## What a family gives to an effect -/

/-- What the expression at a position has from its operands. -/
def built (t : Effects) (M : Nat → Set Access) (i : Nat) : Set Access :=
  match t.nodeAt i with
  | .union a b => M (t.root a) ∪ M (t.root b)
  | .inter a b => {x | ∃ y ∈ M (t.root a), ∃ z ∈ M (t.root b),
      y.location = x.location ∧ z.location = x.location ∧ y.kind.meet z.kind = some x.kind}
  | _ => ∅

/-- What the inclusions into a position bring there, if they make it grow. -/
def included (t : Effects) (M : Nat → Set Access) (i : Nat) : Set Access :=
  {x | t.MentionsVariable i ∧
    ∃ inc ∈ t.inclusions, t.root inc.target = i ∧ x ∈ M (t.root inc.source)}

/-- What a family gives to the effect at a position. -/
def gives (t : Effects) (M : Nat → Set Access) (i : Nat) : Set Access :=
  t.built M i ∪ t.included M i

lemma built_mono {M N : Nat → Set Access} (h : ∀ i, M i ⊆ N i) (i : Nat) :
    t.built M i ⊆ t.built N i := by
  unfold built
  split
  · exact Set.union_subset_union (h _) (h _)
  · rintro x ⟨y, hy, z, hz, hx⟩
    exact ⟨y, h _ hy, z, h _ hz, hx⟩
  · exact subset_rfl

lemma included_mono {M N : Nat → Set Access} (h : ∀ i, M i ⊆ N i) (i : Nat) :
    t.included M i ⊆ t.included N i := by
  rintro x ⟨hvar, inc, hinc, htarget, hx⟩
  exact ⟨hvar, inc, hinc, htarget, h _ hx⟩

/-- Only the operands matter for what an expression has from them. -/
lemma built_congr {M N : Nat → Set Access} {i : Nat}
    (h : ∀ e ∈ (t.nodeAt i).operands, M (t.root e) = N (t.root e)) : t.built M i = t.built N i := by
  unfold built
  split
  · rename_i a b hnode
    rw [hnode] at h
    rw [h a (by simp [EffectNode.operands]), h b (by simp [EffectNode.operands])]
  · rename_i a b hnode
    rw [hnode] at h
    rw [h a (by simp [EffectNode.operands]), h b (by simp [EffectNode.operands])]
  · rfl

/-- Only the sources matter for what inclusions bring. -/
lemma included_congr {M N : Nat → Set Access} {i : Nat}
    (h : ∀ inc ∈ t.inclusions, t.root inc.target = i → t.MentionsVariable i →
      M (t.root inc.source) = N (t.root inc.source)) :
    t.included M i = t.included N i := by
  ext x
  constructor
  · rintro ⟨hvar, inc, hinc, htarget, hx⟩
    exact ⟨hvar, inc, hinc, htarget, h inc hinc htarget hvar ▸ hx⟩
  · rintro ⟨hvar, inc, hinc, htarget, hx⟩
    exact ⟨hvar, inc, hinc, htarget, (h inc hinc htarget hvar).symm ▸ hx⟩

lemma mem_built_of_operandMembers {values : Array Members} {i : Nat} {x : Access} :
    x ∈ t.operandMembers values (t.nodeAt i) ↔ x ∈ t.built (Equations.family values) i := by
  unfold built
  split
  · rename_i a b hnode
    simp [hnode, operandMembers, Equations.family, membersAt]
  · rename_i a b hnode
    rw [hnode]
    exact Members.mem_meets
  · rename_i hunion hinter
    cases hnode : t.nodeAt i <;> simp_all [operandMembers]

/-! ## How many accesses there can be -/

/-- The simple kinds of which atoms are made. -/
def atomKinds (t : Effects) : List Kind :=
  t.nodes.toList.flatMap fun node =>
    match node with
    | .atom kind _ => kind.parts
    | _ => []

lemma mem_atomKinds {i : Nat} {kind k : Kind} {a : LocationId} (h : t.nodeAt i = .atom kind a)
    (hk : k ∈ kind.parts) : k ∈ t.atomKinds := by
  have hi : i < t.size := lt_size_of_nodeAt_ne (by simp [h])
  have hget := getElem?_nodes hi
  rw [h] at hget
  exact List.mem_flatMap.2 ⟨.atom kind a, Array.mem_toList_iff.2 (Array.mem_of_getElem? hget), hk⟩

lemma length_atomKinds_le (t : Effects) : t.atomKinds.length ≤ 2 * t.size := by
  have hlist : ∀ nodes : List EffectNode, (nodes.flatMap fun node =>
      match node with
      | .atom kind _ => kind.parts
      | _ => []).length ≤ 2 * nodes.length := by
    intro nodes
    induction nodes with
    | nil => simp
    | cons node nodes ih =>
      have hnode : (match node with
        | .atom kind _ => kind.parts
        | _ => []).length ≤ 2 := by
        cases node <;> simp [Kind.length_parts_le]
      rw [List.flatMap_cons, List.length_append, List.length_cons]
      omega
  exact hlist t.nodes.toList

/-- The accesses there can be. -/
def accesses (t : Effects) (locations : Nat) : Finset Access :=
  (Finset.range locations ×ˢ t.atomKinds.toFinset).image fun p => ⟨p.1, p.2⟩

lemma mem_accesses {x : Access} :
    x ∈ t.accesses locations ↔ x.location < locations ∧ x.kind ∈ t.atomKinds := by
  obtain ⟨l, k⟩ := x
  simp [accesses]

lemma card_accesses_le (t : Effects) (locations : Nat) :
    (t.accesses locations).card ≤ locations * (2 * t.size) := by
  calc (t.accesses locations).card
      ≤ (Finset.range locations ×ˢ t.atomKinds.toFinset).card := Finset.card_image_le
    _ = locations * t.atomKinds.toFinset.card := by rw [Finset.card_product, Finset.card_range]
    _ ≤ locations * (2 * t.size) :=
        Nat.mul_le_mul_left _ ((List.toFinset_card_le _).trans t.length_atomKinds_le)

/-! ## The equations -/

lemma mem_users {root i : Nat} :
    i ∈ t.users root ↔
      i ∈ t.classes.roots ∧ ∃ e ∈ (t.nodeAt i).operands, t.root e = root := by
  have huses : t.users root = t.classes.roots.flatMap fun j =>
      ((t.nodeAt j).operands.filter fun e => decide (t.root e = root)).map fun _ => j := by
    unfold users
    congr 1
    funext j
    cases t.nodeAt j <;> rfl
  simp only [huses, List.mem_flatMap, List.mem_map, List.mem_filter, decide_eq_true_eq]
  constructor
  · rintro ⟨j, hj, e, he, rfl⟩
    exact ⟨hj, e, he⟩
  · rintro ⟨hi, e, he⟩
    exact ⟨i, hi, e, he, rfl⟩

lemma mem_edges {number source target : Nat} :
    (number, source, target) ∈ t.edges ↔
      ∃ inc, t.inclusions[number]? = some inc ∧ t.root inc.source = source ∧
        t.root inc.target = target := by
  simp only [edges, List.mem_map, Prod.exists, Prod.mk.injEq, List.mem_zipIdx_iff_getElem?,
    Array.getElem?_toList]
  constructor
  · rintro ⟨inc, n, hget, rfl, rfl, rfl⟩
    exact ⟨inc, hget, rfl, rfl⟩
  · rintro ⟨inc, hget, rfl, rfl⟩
    exact ⟨inc, number, hget, rfl, rfl, rfl⟩

/-- The failing inclusions are listed by ascending number. -/
lemma pairwise_violations (t : Effects) (values : Array Members) :
    (t.violations values).Pairwise (· < ·) := by
  have hnumbers : t.edges.map Prod.fst = List.range t.inclusions.size := by
    simp [edges, Function.comp_def, List.range_eq_range', List.zipIdx_map_snd]
  have hsub : (t.violations values).Sublist (t.edges.map Prod.fst) :=
    List.filter_sublist.map _
  exact (hnumbers ▸ List.pairwise_lt_range).sublist hsub

namespace Sound

/-- The inclusions that make their target grow are those into effects that mention a variable. -/
lemma mem_growingEdges (ht : t.Sound locations) {number source target : Nat} :
    (number, source, target) ∈ t.growingEdges t.closedTable ↔
      (∃ inc, t.inclusions[number]? = some inc ∧ t.root inc.source = source ∧
        t.root inc.target = target) ∧ t.MentionsVariable target := by
  rw [growingEdges, List.mem_filter, mem_edges]
  refine and_congr_right fun h => ?_
  obtain ⟨inc, hget, -, rfl⟩ := h
  have hlt := ht.root_lt (ht.inclusion_lt inc (Array.mem_of_getElem? hget)).2
  have hclosed := ht.closed_iff hlt
  simp only [Bool.not_eq_true']
  rw [← Bool.not_eq_true, hclosed, not_not]

lemma mem_growing_sources (ht : t.Sound locations) {values : Array Members} {i : Nat}
    {x : Access} :
    x ∈ ((t.growingEdges t.closedTable).filter fun (_, _, target) => decide (target = i)).flatMap
        (fun (_, source, _) => (membersAt values source).toList) ↔
      x ∈ t.included (Equations.family values) i := by
  simp only [List.mem_flatMap, List.mem_filter, decide_eq_true_eq, Prod.exists]
  constructor
  · rintro ⟨n, source, target, ⟨hmem, rfl⟩, hx⟩
    obtain ⟨⟨inc, hget, rfl, hroot⟩, hvar⟩ := ht.mem_growingEdges.1 hmem
    exact ⟨hvar, inc, Array.mem_of_getElem? hget, hroot, hx⟩
  · rintro ⟨hvar, inc, hinc, hroot, hx⟩
    obtain ⟨n, hget⟩ := Array.mem_iff_getElem?.1 hinc
    have hmem := ht.mem_growingEdges.2 ⟨⟨inc, hget, rfl, hroot⟩, hvar⟩
    exact ⟨n, t.root inc.source, i, ⟨hmem, rfl⟩, hx⟩

/-- A position depends on the roots that its expression and the inclusions into it use. -/
lemma mem_dependents (ht : t.Sound locations) {i j : Nat} :
    j ∈ (t.memberEquations classOf locations).dependents i ↔
      j ∈ t.users i ∨
        t.MentionsVariable j ∧
          ∃ inc ∈ t.inclusions, t.root inc.target = j ∧ t.root inc.source = i := by
  simp only [memberEquations, List.mem_append, List.mem_map, List.mem_filter, decide_eq_true_eq,
    Prod.exists]
  refine or_congr_right ⟨?_, ?_⟩
  · rintro ⟨n, source, target, ⟨hmem, rfl⟩, rfl⟩
    obtain ⟨⟨inc, hget, hsource, htarget⟩, hvar⟩ := ht.mem_growingEdges.1 hmem
    exact ⟨hvar, inc, Array.mem_of_getElem? hget, htarget, hsource⟩
  · rintro ⟨hvar, inc, hinc, htarget, hsource⟩
    obtain ⟨n, hget⟩ := Array.mem_iff_getElem?.1 hinc
    exact ⟨n, i, j, ⟨ht.mem_growingEdges.2 ⟨⟨inc, hget, hsource, htarget⟩, hvar⟩, rfl⟩, rfl⟩

lemma family_start (ht : t.Sound locations) (i : Nat) :
    Equations.family (t.memberEquations classOf locations).start i =
      {x | ∃ kind a, t.nodeAt i = .atom kind a ∧ x.location = classOf a ∧ x.kind ∈ kind.parts} := by
  have hseed : Equations.family (t.memberEquations classOf locations).start i =
      {x | x ∈ t.seed classOf i} := by
    by_cases hi : i < t.size
    · simp [Equations.family, memberEquations, hi]
    · have hnode := nodeAt_of_size_le (not_lt.1 hi)
      simp [Equations.family, memberEquations, hi, seed, hnode]
  rw [hseed]
  ext x
  cases hnode : t.nodeAt i with
  | atom kind a =>
    have hroot : t.classes.isRoot i = true := by
      have h := ht.root_eq (i := i) (by simp [hnode, EffectNode.isVariable])
      simp [Forest.isRoot, h]
    simp [seed, hnode, hroot, Members.mem_ofAtom]
  | empty => simp [seed, hnode]
  | var name => simp [seed, hnode]
  | union a b => simp [seed, hnode]
  | inter a b => simp [seed, hnode]

theorem saturating (ht : t.Sound locations)
    (hclass : ∀ a, a.index < locations → classOf a < locations) :
    (t.memberEquations classOf locations).Saturating t.gives (t.accesses locations) where
  nodup := Forest.Sound.nodup_roots _
  nodes_lt i hi := by
    simpa [memberEquations] using (ht.mem_roots.1 hi).1
  dependents_mem i _ j hj := by
    rcases ht.mem_dependents.1 hj with hj | ⟨-, inc, hinc, rfl, -⟩
    · exact (mem_users.1 hj).1
    · exact ht.root_mem_roots (ht.inclusion_lt inc hinc).2
  mem_revise values i _ x := by
    simp only [memberEquations, Ascending.mem_insertAll]
    rw [mem_built_of_operandMembers, ht.mem_growing_sources, or_assoc]
    rfl
  mono i _ M N h := Set.union_subset_union (built_mono h i) (included_mono h i)
  -- An effect is revised when one of its operands or of the sources of its inclusions has changed,
  -- and depends on nothing else.
  gives_congr i _ j hj hdep M N h := by
    have hne : ∀ r, r ≠ i → M r = N r := h
    rw [gives, gives, built_congr fun e he => ?_, included_congr fun inc hinc htarget hvar => ?_]
    · refine hne _ fun hr => hdep (ht.mem_dependents.2 (Or.inr ?_))
      exact ⟨hvar, inc, hinc, htarget, hr⟩
    · exact hne _ fun hr => hdep (ht.mem_dependents.2 (Or.inl (mem_users.2 ⟨hj, e, he, hr⟩)))
  start_mem i := by
    rw [ht.family_start]
    rintro x ⟨kind, a, hnode, hlocation, hkind⟩
    refine mem_accesses.2 ⟨?_, mem_atomKinds hnode hkind⟩
    exact hlocation ▸ hclass a (ht.atom_lt i kind a hnode)
  gives_mem M hM i _ := by
    rintro x (hx | ⟨-, inc, -, -, hx⟩)
    · unfold built at hx
      split at hx
      · exact hx.elim (fun hx => hM _ hx) fun hx => hM _ hx
      · obtain ⟨y, hy, z, hz, hyl, -, hmeet⟩ := hx
        obtain ⟨hylt, hyk⟩ := mem_accesses.1 (hM _ hy)
        obtain ⟨-, hzk⟩ := mem_accesses.1 (hM _ hz)
        refine mem_accesses.2 ⟨hyl ▸ hylt, ?_⟩
        -- The kind of a common access is that of one side, so intersecting makes no new kinds.
        rcases Kind.eq_of_meet hmeet with h | h
        · exact h ▸ hyk
        · exact h ▸ hzk
      · exact absurd hx (Set.notMem_empty x)
    · exact hM _ hx
  card_le := t.card_accesses_le locations

/-! ## The members found -/

section Found

variable (ht : t.Sound locations) (hclass : ∀ a, a.index < locations → classOf a < locations)

include ht hclass

theorem queue_members : (t.memberEquations classOf locations).solve.queue = [] :=
  (ht.saturating hclass).queue_solve

lemma size_members : (t.memberEquations classOf locations).solve.values.size = t.size := by
  rw [(ht.saturating hclass).graded.size_solve]
  simp [memberEquations]

theorem mem_members_iff {i : Nat} {x : Access} (hi : i ∈ t.classes.roots) :
    x ∈ membersAt (t.memberEquations classOf locations).solve.values i ↔
      (∃ kind a, t.nodeAt i = .atom kind a ∧ x.location = classOf a ∧ x.kind ∈ kind.parts) ∨
        x ∈ t.gives (fun j => {y | y ∈ membersAt
          (t.memberEquations classOf locations).solve.values j}) i := by
  have h := (ht.saturating hclass).solve_eq (i := i) hi
  rw [ht.family_start] at h
  exact Set.ext_iff.1 h x

theorem respects_members :
    t.Respects classOf
      fun i => {x | x ∈ membersAt (t.memberEquations classOf locations).solve.values i} := by
  have hsat := ht.saturating hclass
  have hoperator : ∀ i, (t.nodeAt i).operands ≠ [] → i ∈ t.classes.roots := by
    intro i hne
    have hlt : i < t.size := lt_size_of_nodeAt_ne fun h => hne (by rw [h]; rfl)
    refine ht.mem_roots.2 ⟨hlt, ht.root_eq ?_⟩
    cases hnode : t.nodeAt i <;> simp_all [EffectNode.operands, EffectNode.isVariable]
  refine ⟨fun i kind a hnode k hk => ?_, fun i a b hnode => ?_, ?_, fun inc hinc hvar x hx => ?_⟩
  · refine hsat.start_subset i ?_
    rw [ht.family_start]
    exact ⟨kind, a, hnode, rfl, hk⟩
  · have hsub := hsat.gives_subset (hoperator i (by simp [hnode, EffectNode.operands]))
    simp only [gives, built, hnode] at hsub
    exact ⟨fun x hx => hsub (Or.inl (Or.inl hx)), fun x hx => hsub (Or.inl (Or.inr hx))⟩
  · intro i a b hnode l k₁ k₂ k h₁ h₂ hmeet
    have hsub := hsat.gives_subset (hoperator i (by simp [hnode, EffectNode.operands]))
    simp only [gives, built, hnode] at hsub
    exact hsub (Or.inl ⟨⟨l, k₁⟩, h₁, ⟨l, k₂⟩, h₂, rfl, rfl, hmeet⟩)
  · exact hsat.gives_subset (ht.root_mem_roots (ht.inclusion_lt inc hinc).2)
      (Or.inr ⟨hvar, inc, hinc, rfl, hx⟩)

theorem members_subset {M : Nat → Set Access} (hM : t.Respects classOf M) (i : Nat) {x : Access}
    (hx : x ∈ membersAt (t.memberEquations classOf locations).solve.values i) : x ∈ M i := by
  refine (ht.saturating hclass).least (S := M) (fun j => ?_) (fun j _ => ?_) i hx
  · rw [ht.family_start]
    rintro ⟨l, k⟩ ⟨kind, a, hnode, rfl, hk⟩
    exact hM.atom j kind a hnode k hk
  · rintro ⟨l, k⟩ (hx | ⟨hvar, inc, hinc, rfl, hx⟩)
    · unfold built at hx
      split at hx
      · rename_i a b hnode
        exact hx.elim (fun hx => (hM.union j a b hnode).1 hx) fun hx => (hM.union j a b hnode).2 hx
      · rename_i a b hnode
        obtain ⟨⟨_, k₁⟩, hy, ⟨_, k₂⟩, hz, rfl, rfl, hmeet⟩ := hx
        exact hM.inter j a b hnode _ k₁ k₂ k hy hz hmeet
      · exact absurd hx (Set.notMem_empty _)
    · exact hM.inclusion inc hinc hvar hx

end Found

/-! ## The inclusions that fail -/

/-- An inclusion fails if its target mentions no variable and an access of the source finds no
access in the target that it overlaps. -/
theorem mem_violations (ht : t.Sound locations) {values : Array Members} {number : Nat} :
    number ∈ t.violations values ↔
      ∃ inc, t.inclusions[number]? = some inc ∧ ¬ t.MentionsVariable (t.root inc.target) ∧
        ∃ x ∈ membersAt values (t.root inc.source),
          ∀ y ∈ membersAt values (t.root inc.target), y.location = x.location →
            y.kind.overlaps x.kind = false := by
  have hwithin : ∀ m n : Members, (!m.within n) = true ↔
      ∃ x ∈ m, ∀ y ∈ n, y.location = x.location → y.kind.overlaps x.kind = false := by
    intro m n
    rw [Bool.not_eq_true', ← Bool.not_eq_true, Members.within_iff]
    simp only [Members.touches_iff]
    push Not
    simp
  have hclosed : ∀ inc ∈ t.inclusions, t.closedTable[t.root inc.target]?.getD false = true ↔
      ¬ t.MentionsVariable (t.root inc.target) := fun inc hinc =>
    ht.closed_iff (ht.root_lt (ht.inclusion_lt inc hinc).2)
  simp only [violations, List.mem_map, List.mem_filter, Prod.exists, Bool.and_eq_true, hwithin]
  constructor
  · rintro ⟨n, source, target, ⟨hmem, hc, hx⟩, rfl⟩
    obtain ⟨inc, hget, rfl, rfl⟩ := mem_edges.1 hmem
    exact ⟨inc, hget, (hclosed inc (Array.mem_of_getElem? hget)).1 hc, hx⟩
  · rintro ⟨inc, hget, hc, hx⟩
    exact ⟨number, _, _, ⟨mem_edges.2 ⟨inc, hget, rfl, rfl⟩,
      (hclosed inc (Array.mem_of_getElem? hget)).2 hc, hx⟩, rfl⟩

end Sound

end Effects

end HeapQual
