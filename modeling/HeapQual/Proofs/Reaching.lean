import HeapQual.Proofs.Allocation
import Mathlib.Data.Finset.Lattice.Fold
import Mathlib.Logic.Relation
import Mathlib.Order.Lattice

/-!
# Which allocations are found to reach a store

An allocation of a location reaches the stores to which there is a path in the graph: from a store
to an operator that is built on it and lets the location through, and along an edge into a variable
(`Graph.Reaches`).

What solving finds at a store is exactly this (`Graph.Sound.counts_supply`): nothing if no
allocation reaches the store, one allocation if it alone reaches the store and does not reach its
own base, and several otherwise.  The values found satisfy all equations, so no path is missed; and
a value that arises on the way is always justified by paths, so nothing is made up.
-/

namespace HeapQual

open Relation (ReflTransGen)

/-! ## Supplies are ordered by how much they say -/

namespace Supply

lemma join_comm (w w' : Supply) : w.join w' = w'.join w := by
  cases w <;> cases w' <;> grind [join]

lemma join_assoc (w w' w'' : Supply) : (w.join w').join w'' = w.join (w'.join w'') := by
  cases w <;> cases w' <;> cases w'' <;> grind [join]

lemma join_self (w : Supply) : w.join w = w := by
  cases w <;> simp [join]

instance : Max Supply := ⟨join⟩

instance : SemilatticeSup Supply := .mk' join_comm join_assoc join_self

instance : OrderBot Supply where
  bot := .none
  bot_le _ := rfl

lemma join_eq_sup (w w' : Supply) : w.join w' = w ⊔ w' := rfl

lemma eq_many_of_le {w : Supply} (h : .many ≤ w) : w = .many := by
  have hjoin : Supply.many.join w = w := h
  cases w with
  | many => rfl
  | _ => simp [join] at hjoin

lemma le_many (w : Supply) : w ≤ .many := by
  change w.join .many = .many
  cases w <;> rfl

/-- At least this allocation is known to reach. -/
lemma once_le_iff {site : Nat} {w : Supply} : .once site ≤ w ↔ w = .once site ∨ w = .many := by
  change (Supply.once site).join w = w ↔ _
  cases w with
  | none => simp [join]
  | many => simp [join]
  | once site' =>
    by_cases hsite : site = site'
    · simp [join, hsite]
    · simp [join, hsite, Ne.symm hsite]

lemma once_le_bump (site : Nat) (w : Supply) : .once site ≤ w.bump site := by
  cases w with
  | none => exact le_rfl
  | _ => exact le_many _

lemma le_bump (site : Nat) (w : Supply) : w ≤ w.bump site := by
  cases w with
  | none => exact bot_le
  | _ => exact le_many _

lemma bump_eq_many {site site' : Nat} {w : Supply} (h : .once site' ≤ w) :
    w.bump site = .many := by
  rcases once_le_iff.1 h with rfl | rfl
  · rfl
  · rfl

/-- How often a supply has grown. -/
def rank : Supply → Nat
  | none => 0
  | once _ => 1
  | many => 2

lemma rank_le (w : Supply) : w.rank ≤ 2 := by
  cases w <;> simp [rank]

lemma rank_lt_of_lt {w w' : Supply} (h : w < w') : w.rank < w'.rank := by
  cases w with
  | none =>
    cases w' with
    | none => exact absurd h (lt_irrefl _)
    | once _ => exact Nat.one_pos
    | many => exact Nat.two_pos
  | once site =>
    rcases once_le_iff.1 h.le with rfl | rfl
    · exact absurd h (lt_irrefl _)
    · exact Nat.one_lt_two
  | many =>
    rw [eq_many_of_le h.le] at h
    exact absurd h (lt_irrefl _)

lemma rank_le_of_le {w w' : Supply} (h : w ≤ w') : w.rank ≤ w'.rank := by
  rcases h.eq_or_lt with rfl | hlt
  · exact le_rfl
  · exact (rank_lt_of_lt hlt).le

lemma foldl_join_eq_sup {α : Type} [DecidableEq α] (f : α → Supply) (items : List α) (w : Supply) :
    items.foldl (fun w item => w.join (f item)) w = w ⊔ items.toFinset.sup f := by
  induction items generalizing w with
  | nil => simp
  | cons item items ih =>
    rw [List.foldl_cons, ih, List.toFinset_cons, Finset.sup_insert, join_eq_sup, sup_assoc]

end Supply

namespace Graph

variable {τ : Type} {g : Graph τ} {a : Nat}

/-! ## Paths of a location -/

/-- The store allocates the location. -/
def IsSite (g : Graph τ) (a r : Nat) : Prop :=
  ∃ base x fresh, g.stores.nodeAt r = .allocate base x fresh ∧ g.classOf x = a

/-- One step of a location through the graph, between roots. -/
inductive Passes (g : Graph τ) (a : Nat) : Nat → Nat → Prop
  /-- Along an edge into a variable. -/
  | edge {edge : FlowEdge} : edge ∈ g.stores.edges →
      (g.stores.node edge.right).isVariable = true →
      Passes g a (g.stores.root edge.left) (g.stores.root edge.right)
  /-- Through a restriction to an effect that mentions the location. -/
  | restrict {i : Nat} {base : StoreId} {e : EffectId} :
      g.stores.nodeAt i = .restrict base e → g.mentioned e a = true →
      Passes g a (g.stores.root base) i
  | allocate {i : Nat} {base : StoreId} {x : LocationId} {fresh : τ} :
      g.stores.nodeAt i = .allocate base x fresh → Passes g a (g.stores.root base) i
  /-- Through an update, of whatever location. -/
  | update {i : Nat} {base : StoreId} {x : LocationId} {type : τ} {strong : Bool}
      {position : Position} {message : String} :
      g.stores.nodeAt i = .update base x type strong position message →
      Passes g a (g.stores.root base) i
  /-- Through the inside of an overlay by an effect that mentions the location. -/
  | inside {i : Nat} {inside outside : StoreId} {e : EffectId} :
      g.stores.nodeAt i = .overlay inside outside e → g.mentioned e a = true →
      Passes g a (g.stores.root inside) i
  /-- Through the outside of an overlay by an effect that does not mention the location. -/
  | outside {i : Nat} {inside outside : StoreId} {e : EffectId} :
      g.stores.nodeAt i = .overlay inside outside e → g.mentioned e a = false →
      Passes g a (g.stores.root outside) i

/-- There is a path of the location from one store to another. -/
abbrev Reaches (g : Graph τ) (a : Nat) : Nat → Nat → Prop := ReflTransGen (g.Passes a)

/-- The allocation reaches its own base, around a loop. -/
def Recurs (g : Graph τ) (a r : Nat) : Prop :=
  ∃ base x fresh, g.stores.nodeAt r = .allocate base x fresh ∧ g.Reaches a r (g.stores.root base)

/-- The roots from which the location passes to the store. -/
def passing (g : Graph τ) (a i : Nat) : List Nat :=
  match g.stores.nodeAt i with
  | .var _ => (g.stores.edgesInto i).map fun (edge, _) => g.stores.root edge.left
  | .restrict base e => if g.mentioned e a then [g.stores.root base] else []
  | .allocate base _ _ => [g.stores.root base]
  | .update base _ _ _ _ _ => [g.stores.root base]
  | .overlay inside outside e =>
    [if g.mentioned e a then g.stores.root inside else g.stores.root outside]

lemma Passes.mem_passing {i j : Nat} (h : g.Passes a i j) : i ∈ g.passing a j := by
  unfold passing
  cases h with
  | @edge edge hedge hvar =>
    obtain ⟨n, hn⟩ := Array.mem_iff_getElem?.1 hedge
    change (g.stores.nodeAt (g.stores.root edge.right)).isVariable = true at hvar
    cases hnode : g.stores.nodeAt (g.stores.root edge.right) with
    | var name => exact List.mem_map.2 ⟨(edge, n), Stores.mem_edgesInto.2 ⟨hn, rfl⟩, rfl⟩
    | _ => simp [hnode, StoreNode.isVariable] at hvar
  | restrict hnode hmentioned => simp [hnode, hmentioned]
  | allocate hnode => simp [hnode]
  | update hnode => simp [hnode]
  | inside hnode hmentioned => simp [hnode, hmentioned]
  | outside hnode hmentioned => simp [hnode, hmentioned]

lemma passes_of_mem_passing {i j : Nat} (h : i ∈ g.passing a j) : g.Passes a i j := by
  unfold passing at h
  cases hnode : g.stores.nodeAt j with
  | var name =>
    simp only [hnode, List.mem_map, Prod.exists, Stores.mem_edgesInto] at h
    obtain ⟨edge, n, ⟨hn, rfl⟩, rfl⟩ := h
    apply Passes.edge (Array.mem_of_getElem? hn)
    rw [Stores.node, hnode]
    rfl
  | restrict base e =>
    simp only [hnode] at h
    split at h
    · rename_i hmentioned
      rw [List.mem_singleton.1 h]
      exact .restrict hnode hmentioned
    · exact absurd h List.not_mem_nil
  | allocate base x fresh =>
    simp only [hnode] at h
    rw [List.mem_singleton.1 h]
    exact .allocate hnode
  | update base x type strong position message =>
    simp only [hnode] at h
    rw [List.mem_singleton.1 h]
    exact .update hnode
  | overlay inside outside e =>
    simp only [hnode] at h
    rw [List.mem_singleton.1 h]
    split
    · rename_i hmentioned
      exact .inside hnode hmentioned
    · rename_i hmentioned
      exact .outside hnode (Bool.eq_false_iff.2 hmentioned)

/-- A location passes only to stores that depend on where it comes from. -/
lemma Passes.mem_dependents (hg : g.Sound) {i j : Nat} (h : g.Passes a i j) :
    j ∈ g.stores.dependents i := by
  have operator : ∀ {base : StoreId} {j : Nat}, (g.stores.nodeAt j).isVariable = false →
      base ∈ (g.stores.nodeAt j).operands → j ∈ g.stores.dependents (g.stores.root base) := by
    intro base j hvar hbase
    refine Stores.mem_dependents.2 (Or.inl ⟨?_, base, hbase, rfl⟩)
    exact hg.stores.mem_roots.2 ⟨Stores.lt_size_of_not_isVariable hvar, hg.stores.root_eq hvar⟩
  cases h with
  | edge hedge hvar => exact Stores.mem_dependents.2 (Or.inr ⟨hvar, _, hedge, rfl, rfl⟩)
  | restrict hnode _ => exact operator (by rw [hnode]; rfl) (by simp [hnode, StoreNode.operands])
  | allocate hnode => exact operator (by rw [hnode]; rfl) (by simp [hnode, StoreNode.operands])
  | update hnode => exact operator (by rw [hnode]; rfl) (by simp [hnode, StoreNode.operands])
  | inside hnode _ => exact operator (by rw [hnode]; rfl) (by simp [hnode, StoreNode.operands])
  | outside hnode _ => exact operator (by rw [hnode]; rfl) (by simp [hnode, StoreNode.operands])

/-! ## The equations -/

/-- What comes in at a store that does not allocate the location: all that passes to it. -/
lemma incoming_of_not_isSite {values : Array Supplies} {i : Nat} (h : ¬g.IsSite a i) :
    g.incoming g.solve values i a = (g.passing a i).toFinset.sup fun j => supplyAt values j a := by
  unfold incoming passing
  cases hnode : g.stores.nodeAt i with
  | var name =>
    dsimp only
    calc
      _ = ((g.stores.edgesInto i).map fun (edge, _) => g.stores.root edge.left).foldl
          (fun w j => Supply.join w (supplyAt values j a)) Supply.none := List.foldl_map.symm
      _ = _ := (Supply.foldl_join_eq_sup _ _ _).trans (bot_sup_eq _)
  | restrict base e =>
    dsimp only
    change (if g.mentioned e a = true then _ else _) = _
    split
    · simp
    · rfl
  | allocate base x fresh =>
    dsimp only
    rw [if_neg fun heq => h ⟨base, x, fresh, hnode, heq⟩]
    simp
  | update base x type strong position message => simp
  | overlay inside outside e =>
    dsimp only
    change (if g.mentioned e a = true then _ else _) = _
    split
    · simp
    · simp

/-- An allocation of the location adds itself. -/
lemma incoming_of_allocate {values : Array Supplies} {i : Nat} {base : StoreId} {x : LocationId}
    {fresh : τ} (h : g.stores.nodeAt i = .allocate base x fresh) (hx : g.classOf x = a) :
    g.incoming g.solve values i a = (supplyAt values (g.stores.root base) a).bump i := by
  unfold incoming
  rw [h]
  exact if_pos hx

/-- What comes in depends only on what passes. -/
lemma incoming_congr {values values' : Array Supplies} {i : Nat}
    (h : ∀ j, g.Passes a j i → supplyAt values j a = supplyAt values' j a) :
    g.incoming g.solve values i a = g.incoming g.solve values' i a := by
  by_cases hsite : g.IsSite a i
  · obtain ⟨base, x, fresh, hnode, hx⟩ := hsite
    rw [incoming_of_allocate hnode hx, incoming_of_allocate hnode hx, h _ (.allocate hnode)]
  · rw [incoming_of_not_isSite hsite, incoming_of_not_isSite hsite]
    refine Finset.sup_congr rfl fun j hj => h j (passes_of_mem_passing (List.mem_toFinset.1 hj))

/-- What passes to a store comes in. -/
lemma Passes.le_incoming {values : Array Supplies} {i j : Nat} (h : g.Passes a i j) :
    supplyAt values i a ≤ g.incoming g.solve values j a := by
  by_cases hsite : g.IsSite a j
  · obtain ⟨base, x, fresh, hnode, hx⟩ := hsite
    have hi : i = g.stores.root base := by
      have hmem := h.mem_passing
      unfold passing at hmem
      rw [hnode] at hmem
      exact List.mem_singleton.1 hmem
    rw [incoming_of_allocate hnode hx, hi]
    exact Supply.le_bump j _
  · rw [incoming_of_not_isSite hsite]
    exact Finset.le_sup (f := fun j => supplyAt values j a) (List.mem_toFinset.2 h.mem_passing)

lemma size_revise {values : Array Supplies} {i : Nat} :
    ((g.supplyEquations g.solve).revise values i).size = g.locations.size := by
  simp [supplyEquations]

lemma getElem?_revise {values : Array Supplies} {i : Nat} (ha : a < g.locations.size) :
    ((g.supplyEquations g.solve).revise values i)[a]? =
      some (g.incoming g.solve values i a ⊔ supplyAt values i a) := by
  simp only [supplyEquations, List.getElem?_toArray, List.getElem?_map]
  rw [List.getElem?_range ha]
  rfl

lemma supplyAt_set_self {values : Array Supplies} {i : Nat} {v : Supplies} (hi : i < values.size) :
    supplyAt (values.setIfInBounds i v) i a = v[a]?.getD .none := by
  unfold supplyAt
  rw [Array.getElem?_setIfInBounds_self_of_lt hi]
  rfl

lemma supplyAt_set_ne {values : Array Supplies} {i j : Nat} {v : Supplies} (hne : i ≠ j) :
    supplyAt (values.setIfInBounds i v) j a = supplyAt values j a := by
  unfold supplyAt
  rw [Array.getElem?_setIfInBounds_ne hne]

/-- How often the supplies of one store have grown. -/
def supplyRank (g : Graph τ) (v : Supplies) : Nat :=
  ∑ a ∈ Finset.range g.locations.size, (v[a]?.getD .none).rank

/-- Every store has a supply of every location. -/
def SuppliesAll (g : Graph τ) (values : Array Supplies) : Prop :=
  ∀ (i : Nat) v, values[i]? = some v → v.size = g.locations.size

/-- The equations for supplies reach a fixed point: a supply grows at most twice. -/
theorem Sound.graded_supplyEquations (hg : g.Sound) :
    (g.supplyEquations g.solve).Graded g.supplyRank g.SuppliesAll where
  nodup := Forest.Sound.nodup_roots _
  nodes_lt i hi := by
    simp only [supplyEquations, Array.size_replicate]
    exact (hg.stores.mem_roots.1 hi).1
  dependents_mem i _ j hj := hg.stores.mem_roots_of_mem_dependents hj
  good_start := by
    intro i v hv
    simp only [supplyEquations, Array.getElem?_replicate] at hv
    split at hv
    · rw [← Option.some.inj hv, Array.size_replicate]
    · cases hv
  good_revise values _ hgood i _ := by
    intro j v hv
    rw [Array.getElem?_setIfInBounds] at hv
    split at hv
    · split at hv
      · rw [← Option.some.inj hv, size_revise]
      · cases hv
    · exact hgood j v hv
  rank_le values _ i v _ := by
    calc
      g.supplyRank v ≤ ∑ _a ∈ Finset.range g.locations.size, 2 :=
        Finset.sum_le_sum fun a _ => Supply.rank_le _
      _ = 2 * g.locations.size := by simp [Nat.mul_comm]
  rank_lt values hgood i _ v hv hne := by
    have hat : ∀ a, supplyAt values i a = v[a]?.getD .none := by
      intro a
      rw [supplyAt, hv]
      rfl
    have hle : ∀ a < g.locations.size, v[a]?.getD .none ≤
        ((g.supplyEquations g.solve).revise values i)[a]?.getD .none := by
      intro a ha
      rw [getElem?_revise ha, ← hat, Option.getD_some]
      exact le_sup_right
    -- Some location has another supply now, and it is greater.
    obtain ⟨a, ha, hdiff⟩ : ∃ a < g.locations.size, v[a]?.getD .none ≠
        ((g.supplyEquations g.solve).revise values i)[a]?.getD .none := by
      by_contra hall
      push Not at hall
      refine hne (Array.ext ((hgood i v hv).trans size_revise.symm) fun a ha ha' => ?_)
      have heq := hall a (hgood i v hv ▸ ha)
      rwa [Array.getElem?_eq_getElem ha, Array.getElem?_eq_getElem ha'] at heq
    refine Finset.sum_lt_sum (fun b hb => ?_) ⟨a, Finset.mem_range.2 ha, ?_⟩
    · exact Supply.rank_le_of_le (hle b (Finset.mem_range.1 hb))
    · exact Supply.rank_lt_of_lt (lt_of_le_of_ne (hle a ha) hdiff)
  revise_revised values hsize _ i hi j hj hdep := by
    have hlt : i < values.size := by
      rw [hsize, supplyEquations, Array.size_replicate]
      exact (hg.stores.mem_roots.1 hi).1
    refine Array.ext (size_revise.trans size_revise.symm) fun a hlt₁ hlt₂ => ?_
    have ha : a < g.locations.size := size_revise ▸ hlt₁
    refine Option.some.inj ?_
    rw [← Array.getElem?_eq_getElem, ← Array.getElem?_eq_getElem, getElem?_revise ha,
      getElem?_revise ha]
    congr 1
    -- Nothing passes from the revised node to this one, so the same comes in.
    have hin : g.incoming g.solve (values.setIfInBounds i
        ((g.supplyEquations g.solve).revise values i)) j a = g.incoming g.solve values j a := by
      apply incoming_congr
      intro k hk
      apply supplyAt_set_ne
      rintro rfl
      exact hdep (hk.mem_dependents hg)
    rw [hin]
    by_cases hij : i = j
    · subst hij
      rw [supplyAt_set_self hlt, getElem?_revise ha, Option.getD_some, ← sup_assoc, sup_idem]
    · rw [supplyAt_set_ne hij]

/-! ## What is found -/

/-- What is found to reach a store. -/
def supply (g : Graph τ) (i a : Nat) : Supply := supplyAt (g.solveSupplies g.solve).values i a

/-- What comes in at a store is part of what is found there. -/
lemma Sound.incoming_le_supply (hg : g.Sound) {i : Nat} (hi : i ∈ g.stores.classes.roots)
    (ha : a < g.locations.size) :
    g.incoming g.solve (g.solveSupplies g.solve).values i a ≤ g.supply i a := by
  have hfixed := hg.graded_supplyEquations.solve_fixed hi
  have hsupply : g.supply i a =
      g.incoming g.solve (g.solveSupplies g.solve).values i a ⊔ g.supply i a := by
    conv_lhs => rw [supply, supplyAt, solveSupplies, hfixed, Option.getD_some, getElem?_revise ha]
    rfl
  rw [hsupply]
  exact le_sup_left

/-- What is found at a store is found wherever there is a path to. -/
lemma Sound.supply_le_supply (hg : g.Sound) (ha : a < g.locations.size) {i j : Nat}
    (h : g.Reaches a i j) : g.supply i a ≤ g.supply j a := by
  induction h with
  | refl => exact le_rfl
  | tail _ hstep ih =>
    have hroot := hg.stores.mem_roots_of_mem_dependents (hstep.mem_dependents hg)
    exact ih.trans (hstep.le_incoming.trans (hg.incoming_le_supply hroot ha))

/-- No path from an allocation is missed. -/
lemma Sound.once_le_supply (hg : g.Sound) (ha : a < g.locations.size) {r i : Nat}
    (hsite : g.IsSite a r) (h : g.Reaches a r i) : .once r ≤ g.supply i a := by
  obtain ⟨base, x, fresh, hnode, hx⟩ := hsite
  have hroot := hg.stores.mem_roots_of_mem_dependents
    (Passes.mem_dependents (a := a) hg (.allocate hnode))
  refine le_trans ?_ (hg.supply_le_supply ha h)
  refine le_trans ?_ (hg.incoming_le_supply hroot ha)
  rw [incoming_of_allocate hnode hx]
  exact Supply.once_le_bump r _

/-- An allocation that reaches its own base is found to be several. -/
lemma Sound.supply_eq_many (hg : g.Sound) (ha : a < g.locations.size) {r i : Nat}
    (hsite : g.IsSite a r) (hrecurs : g.Recurs a r) (h : g.Reaches a r i) :
    g.supply i a = .many := by
  have honce := hsite
  obtain ⟨base, x, fresh, hnode, hx⟩ := hsite
  obtain ⟨base', x', fresh', hnode', hloop⟩ := hrecurs
  cases hnode.symm.trans hnode'
  have hroot := hg.stores.mem_roots_of_mem_dependents
    (Passes.mem_dependents (a := a) hg (.allocate hnode))
  apply Supply.eq_many_of_le
  refine le_trans ?_ (hg.supply_le_supply ha h)
  refine le_trans ?_ (hg.incoming_le_supply hroot ha)
  rw [incoming_of_allocate hnode hx]
  exact (Supply.bump_eq_many (hg.once_le_supply ha honce hloop)).ge

/-- Two different allocations reach the store, or one that reaches its own base. -/
def Several (g : Graph τ) (a i : Nat) : Prop :=
  (∃ r r', r ≠ r' ∧ (g.IsSite a r ∧ g.Reaches a r i) ∧ g.IsSite a r' ∧ g.Reaches a r' i) ∨
    ∃ r, (g.IsSite a r ∧ g.Reaches a r i) ∧ g.Recurs a r

/-- A supply says no more than the paths of the graph do. -/
def Justifies (g : Graph τ) (a i : Nat) : Supply → Prop
  | .none => True
  | .once r => g.IsSite a r ∧ g.Reaches a r i
  | .many => g.Several a i

lemma Justifies.sup {i : Nat} {w w' : Supply} (h : g.Justifies a i w) (h' : g.Justifies a i w') :
    g.Justifies a i (w ⊔ w') := by
  cases w with
  | none => exact h'
  | many =>
    cases w' with
    | _ => exact h
  | once r =>
    cases w' with
    | none => exact h
    | many => exact h'
    | once r' =>
      by_cases hr : r = r'
      · subst hr
        rwa [sup_idem]
      · have hjoin : Supply.once r ⊔ Supply.once r' = .many := if_neg hr
        rw [hjoin]
        exact Or.inl ⟨r, r', hr, h, h'⟩

lemma Justifies.pass {i j : Nat} {w : Supply} (h : g.Justifies a i w) (hpass : g.Passes a i j) :
    g.Justifies a j w := by
  cases w with
  | none => trivial
  | once r => exact ⟨h.1, h.2.tail hpass⟩
  | many =>
    rcases h with ⟨r, r', hne, ⟨hsite, hr⟩, hsite', hr'⟩ | ⟨r, ⟨hsite, hr⟩, hrecurs⟩
    · exact Or.inl ⟨r, r', hne, ⟨hsite, hr.tail hpass⟩, hsite', hr'.tail hpass⟩
    · exact Or.inr ⟨r, ⟨hsite, hr.tail hpass⟩, hrecurs⟩

/-- Something reaches where a supply says so. -/
lemma Justifies.exists_site {i : Nat} {w : Supply} (h : g.Justifies a i w) (hw : w ≠ .none) :
    ∃ r, g.IsSite a r ∧ g.Reaches a r i := by
  cases w with
  | none => exact absurd rfl hw
  | once r => exact ⟨r, h⟩
  | many =>
    rcases h with ⟨r, -, -, hr, -⟩ | ⟨r, hr, -⟩
    · exact ⟨r, hr⟩
    · exact ⟨r, hr⟩

/-- What an allocation adds is justified: if anything reaches its base, then either another
allocation does, or it does itself. -/
lemma Justifies.bump {i : Nat} {base : StoreId} {x : LocationId} {fresh : τ} {w : Supply}
    (hnode : g.stores.nodeAt i = .allocate base x fresh) (hx : g.classOf x = a)
    (h : g.Justifies a (g.stores.root base) w) : g.Justifies a i (w.bump i) := by
  have hsite : g.IsSite a i := ⟨base, x, fresh, hnode, hx⟩
  by_cases hw : w = .none
  · subst hw
    exact ⟨hsite, .refl⟩
  · have hbump : w.bump i = .many := by
      cases w with
      | none => exact absurd rfl hw
      | _ => rfl
    rw [hbump]
    obtain ⟨r, hsite', hr⟩ := h.exists_site hw
    by_cases hri : r = i
    · subst hri
      exact Or.inr ⟨r, ⟨hsite, .refl⟩, base, x, fresh, hnode, hr⟩
    · exact Or.inl ⟨r, i, hri, ⟨hsite', hr.tail (.allocate hnode)⟩, hsite, .refl⟩

/-- What comes in is justified, if all that passes is. -/
lemma Justifies.incoming {values : Array Supplies} {i : Nat}
    (h : ∀ j, g.Justifies a j (supplyAt values j a)) :
    g.Justifies a i (g.incoming g.solve values i a) := by
  by_cases hsite : g.IsSite a i
  · obtain ⟨base, x, fresh, hnode, hx⟩ := hsite
    rw [incoming_of_allocate hnode hx]
    exact .bump hnode hx (h _)
  · rw [incoming_of_not_isSite hsite]
    refine Finset.sup_induction trivial (fun w hw w' hw' => hw.sup hw') fun j hj => ?_
    exact (h j).pass (passes_of_mem_passing (List.mem_toFinset.1 hj))

theorem Sound.justifies_supply (hg : g.Sound) (i a : Nat) : g.Justifies a i (g.supply i a) := by
  have hall : ∀ i a, g.Justifies a i
      (supplyAt (g.supplyEquations g.solve).solve.values i a) := by
    refine hg.graded_supplyEquations.solve_induction
      (P := fun values => ∀ i a, g.Justifies a i (supplyAt values i a)) ?_ ?_
    · intro i a
      have hnone : supplyAt (g.supplyEquations g.solve).start i a = .none := by
        by_cases hi : i < g.stores.size
        · by_cases ha : a < g.locations.size
          · simp [supplyAt, supplyEquations, hi, ha]
          · simp [supplyAt, supplyEquations, hi, ha]
        · simp [supplyAt, supplyEquations, hi]
      rw [hnone]
      trivial
    -- One revision: what comes in is justified by what the operands had before it.
    · intro values hsize _ hvalues j hj i a
      by_cases hji : j = i
      · subst hji
        have hlt : j < values.size := by
          rw [hsize, supplyEquations, Array.size_replicate]
          exact (hg.stores.mem_roots.1 hj).1
        rw [supplyAt_set_self hlt]
        by_cases ha : a < g.locations.size
        · rw [getElem?_revise ha, Option.getD_some]
          exact (Justifies.incoming fun k => hvalues k a).sup (hvalues j a)
        · rw [Array.getElem?_eq_none (by rw [size_revise]; exact not_lt.1 ha)]
          trivial
      · rw [supplyAt_set_ne hji]
        exact hvalues i a
  exact hall i a

/-- A supply says exactly which allocations reach. -/
def Counts (g : Graph τ) (a i : Nat) : Supply → Prop
  | .none => ∀ r, g.IsSite a r → ¬g.Reaches a r i
  | .once r => (g.IsSite a r ∧ g.Reaches a r i) ∧
      (∀ r', g.IsSite a r' → g.Reaches a r' i → r' = r) ∧ ¬g.Recurs a r
  | .many => g.Several a i

/-- What is found to reach a store is what reaches it. -/
theorem Sound.counts_supply (hg : g.Sound) (ha : a < g.locations.size) (i : Nat) :
    g.Counts a i (g.supply i a) := by
  -- This bounds the supply from above, `once_le_supply` and `supply_eq_many` from below.
  have hjust := hg.justifies_supply i a
  cases hsupply : g.supply i a with
  | none =>
    intro r hsite hr
    have honce := hg.once_le_supply ha hsite hr
    rw [hsupply] at honce
    rcases Supply.once_le_iff.1 honce with heq | heq
    · cases heq
    · cases heq
  | once r =>
    rw [hsupply] at hjust
    refine ⟨hjust, ?_, ?_⟩
    · intro r' hsite' hr'
      have honce := hg.once_le_supply ha hsite' hr'
      rw [hsupply] at honce
      rcases Supply.once_le_iff.1 honce with heq | heq
      · exact (Supply.once.inj heq).symm
      · cases heq
    · intro hrecurs
      have hmany := hg.supply_eq_many ha hjust.1 hrecurs hjust.2
      rw [hsupply] at hmany
      cases hmany
  | many =>
    rw [hsupply] at hjust
    exact hjust

end Graph

end HeapQual
