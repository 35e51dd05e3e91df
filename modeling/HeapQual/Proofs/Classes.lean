import Mathlib.Logic.Relation
import HeapQual.Proofs.Constraints

/-!
# Classes and the pairs that were merged

A forest that was grown from nothing by merging pairs has the classes that the pairs connect
(`Forest.Reflects`).  That it has no others is the leastness of `Forest.Joins`, applied to a choice
of one position from each connected set.

Look-ups change a forest, and they may be made at any time while it grows (`Forest.Grown`).  The
roots are decided by the other steps (`Forest.Grown.root_eq`), and no look-up makes a cycle
(`Forest.Grown.sound`), so every later one comes to an end.

Ranks stay small (`Locations.Ranked`).  A class of rank `r` has at least `2 ^ r` locations: a rank
is raised only when two classes of the same rank become one, and then the new class has the
locations of both.  So ranks are logarithmic in the number of locations.
-/

namespace HeapQual

/-! ## Connected positions -/

namespace Forest

variable {f f' : Forest} {pairs : List (Nat × Nat)}

/-- The pairs connect the two positions. -/
def Connected (pairs : List (Nat × Nat)) : Nat → Nat → Prop :=
  Relation.EqvGen fun i j => (i, j) ∈ pairs

/-- Joining some of the pairs is enough if all of them end up in one class. -/
lemma Joins.of_subset {joined : List (Nat × Nat)} (h : Joins joined f f') (hsub : joined ⊆ pairs)
    (hjoined : ∀ p ∈ pairs, f'.root p.1 = f'.root p.2) : Joins pairs f f' where
  root_root := h.root_root
  joined := hjoined
  least c hc hpairs := h.least c hc fun p hp => hpairs p (hsub hp)

/-- Classes that grew out of single positions are the connected sets. -/
theorem Joins.root_eq_iff (h : Joins pairs f f') (hf : ∀ i, f.root i = i) {i j : Nat} :
    f'.root i = f'.root j ↔ Connected pairs i j := by
  constructor
  · intro hroot
    let chosen (k : Nat) : Nat := (Quot.mk (fun i j => (i, j) ∈ pairs) k).out
    have hchosen : ∀ k, chosen (f'.root k) = chosen k := by
      refine h.least chosen (fun k => by rw [hf]) fun p hp => ?_
      exact congrArg Quot.out (Quot.sound hp)
    have hsame : chosen i = chosen j := by rw [← hchosen i, hroot, hchosen]
    have hclass := congrArg (Quot.mk fun i j => (i, j) ∈ pairs) hsame
    rw [Quot.out_eq, Quot.out_eq] at hclass
    exact Quot.eqvGen_exact hclass
  · intro hconnected
    induction hconnected with
    | rel i j hij => exact h.joined (i, j) hij
    | refl i => rfl
    | symm i j _ ih => exact ih.symm
    | trans i j k _ _ ih₁ ih₂ => exact ih₁.trans ih₂

/-! ## Look-ups at any time -/

/-- A step that changes the classes, or adds one. -/
inductive Op where
  | add
  | hang (child under : Nat)
  deriving DecidableEq

/-- The forest was grown from nothing by these steps in this order, with look-ups before, between
and after them.  Only roots are hung, and only under other roots. -/
inductive Grown : Forest → List Op → Prop
  | empty : Grown Forest.empty []
  | add {f : Forest} {steps : List Op} : Grown f steps → Grown f.add (steps ++ [.add])
  | hang {f : Forest} {steps : List Op} {child under : Nat} : Grown f steps → child ∈ f.roots →
      under ∈ f.roots → child ≠ under → Grown (f.hang child under) (steps ++ [.hang child under])
  | find {f : Forest} {steps : List Op} (i : Nat) : Grown f steps → Grown (f.find i).2 steps

/-- What a step makes of the roots. -/
def Op.redirect (root : Nat → Nat) : Op → Nat → Nat
  | add, i => root i
  | hang child under, i => if root i = child then under else root i

namespace Grown

variable {steps : List Op}

theorem sound (h : f.Grown steps) : f.Sound := by
  induction h with
  | empty => exact .empty
  | add _ ih => exact ih.add
  | hang _ hchild hunder hne ih => exact ih.hang hchild hunder hne
  | find i _ ih => exact ih.halve i

/-- The steps alone decide about the roots. -/
theorem root_eq (h : f.Grown steps) : f.root = steps.foldl Op.redirect id := by
  induction h with
  | empty => rfl
  | add h ih =>
    rw [List.foldl_append, ← ih]
    exact funext h.sound.root_add
  | hang h hchild hunder hne ih =>
    rw [List.foldl_append, ← ih]
    exact funext (h.sound.root_hang hchild hunder hne)
  | find i h ih =>
    rw [← ih]
    exact funext (h.sound.root_halve i)

theorem size_eq (h : f.Grown steps) : f.size = steps.count .add := by
  induction h with
  | empty => rfl
  | add _ ih => rw [Sound.size_add, ih, List.count_append, List.count_singleton_self]
  | hang _ _ _ _ ih => simpa using ih
  | find i h ih => exact (h.sound.size_halve i).trans ih

end Grown

/-- The classes of the forest are the positions that the pairs connect.  So they are whatever
look-ups are made while the forest grows: it never has a cycle, and every look-up comes to an end at
the same root. -/
structure Reflects (f : Forest) (pairs : List (Nat × Nat)) : Prop where
  root_eq_iff : ∀ i j, f.root i = f.root j ↔ Connected pairs i j
  look_ups : ∃ steps, f.Grown steps ∧ ∀ f' : Forest, f'.Grown steps →
    f'.Sound ∧ f'.size = f.size ∧ ∀ i, f'.Finds i (f.root i) (f'.find i).2

lemma Joins.reflects {steps : List Op} (h : Joins pairs f f') (hf : ∀ i, f.root i = i)
    (hf' : f'.Grown steps) : f'.Reflects pairs where
  root_eq_iff _ _ := h.root_eq_iff hf
  look_ups := by
    refine ⟨steps, hf', fun f'' hf'' => ⟨hf''.sound, ?_, fun i => ?_⟩⟩
    · rw [hf'.size_eq, hf''.size_eq]
    · rw [hf'.root_eq, ← hf''.root_eq]
      exact hf''.sound.finds_find i

/-- A position that is not merged with others is alone in its class. -/
lemma MergesOnly.root_eq_iff {p : Nat → Prop} (h : f.MergesOnly p) {i : Nat} (hi : ¬ p i)
    (j : Nat) : f.root j = i ↔ j = i := by
  constructor
  · intro hj
    by_contra hne
    obtain ⟨-, hroot⟩ := h j fun heq => hne (heq.symm.trans hj)
    exact hi (hj ▸ hroot)
  · rintro rfl
    by_contra hne
    exact hi (h j hne).1

end Forest

/-! ## Ranks -/

namespace Locations

variable {τ : Type} {t t' : Locations τ}

/-- The locations of the class with this root. -/
def classAt (t : Locations τ) (root : Nat) : Finset Nat :=
  (Finset.range t.size).filter fun i => t.classes.root i = root

lemma mem_classAt {root i : Nat} : i ∈ t.classAt root ↔ i < t.size ∧ t.classes.root i = root := by
  simp [classAt]

lemma classAt_subset (hsize : t.size ≤ t'.size) (hclasses : t.classes.Coarsens t'.classes)
    (i : Nat) : t.classAt (t.classes.root i) ⊆ t'.classAt (t'.classes.root i) := by
  intro j hj
  obtain ⟨hlt, hroot⟩ := mem_classAt.1 hj
  exact mem_classAt.2 ⟨hlt.trans_le hsize, hclasses.root_congr hroot⟩

lemma disjoint_classAt {i j : Nat} (h : i ≠ j) : Disjoint (t.classAt i) (t.classAt j) := by
  refine Finset.disjoint_left.2 fun k hi hj => h ?_
  rw [← (mem_classAt.1 hi).2, ← (mem_classAt.1 hj).2]

/-- A location of rank `r` is in a class of at least `2 ^ r` locations. -/
def Ranked (t : Locations τ) : Prop :=
  ∀ i < t.size, 2 ^ t.rankOf i ≤ (t.classAt (t.classes.root i)).card

lemma Ranked.empty : (Locations.empty : Locations τ).Ranked :=
  fun _ hi => absurd hi (Nat.not_lt_zero _)

/-- Classes that only grow keep up with ranks that stay. -/
lemma Ranked.le_card (h : t.Ranked) (hsize : t.size ≤ t'.size)
    (hclasses : t.classes.Coarsens t'.classes) {i : Nat} (hi : i < t.size) :
    2 ^ t.rankOf i ≤ (t'.classAt (t'.classes.root i)).card :=
  (h i hi).trans (Finset.card_le_card (classAt_subset hsize hclasses i))

/-! ## What happens to ranks -/

lemma rankOf_of_size_le {i : Nat} (hi : t.size ≤ i) : t.rankOf i = 0 := by
  have hnone : t.record? i = none := Array.getElem?_eq_none hi
  rw [rankOf, hnone]
  rfl

/-- Ranks are at most the logarithm of the number of locations. -/
lemma Ranked.rankOf_le (h : t.Ranked) {n : Nat} (hsize : t.size ≤ 2 ^ n) (i : Nat) :
    t.rankOf i ≤ n := by
  by_cases hi : i < t.size
  · have hcard : (t.classAt (t.classes.root i)).card ≤ t.size := by
      have hle := Finset.card_filter_le (Finset.range t.size)
        fun j => t.classes.root j = t.classes.root i
      rwa [Finset.card_range] at hle
    apply (Nat.pow_le_pow_iff_right Nat.one_lt_two).1
    exact (h i hi).trans (hcard.trans hsize)
  · rw [rankOf_of_size_le (not_lt.1 hi)]
    exact Nat.zero_le n

lemma rankOf_add (t : Locations τ) (name : String) (holds : τ) (i : Nat) :
    (t.add name holds).2.rankOf i = t.rankOf i := by
  simp only [rankOf, record?, add, Array.getElem?_push]
  split
  · rename_i hi
    rw [hi, Array.getElem?_eq_none le_rfl]
    rfl
  · rfl

lemma rankOf_mark (t : Locations τ) (root i : Nat) : (t.mark root).rankOf i = t.rankOf i := by
  simp only [rankOf, record?, mark, Array.getElem?_modify]
  split
  · rw [Option.map_map]
    rfl
  · rfl

lemma rankOf_join_self {survivor : Nat} (hs : survivor < t.size) (child : Nat) :
    (t.join survivor child).rankOf survivor =
      if t.rankOf survivor = t.rankOf child then t.rankOf survivor + 1 else t.rankOf survivor := by
  have hrecord : t.records[survivor]? = some t.records[survivor] := Array.getElem?_eq_getElem hs
  have hrank : t.rankOf survivor = t.records[survivor].rank := by simp [rankOf, record?, hrecord]
  rw [hrank]
  simp [rankOf, record?, join, Array.getElem?_modify, hrecord]

lemma rankOf_join_of_ne {survivor i : Nat} (h : i ≠ survivor) (child : Nat) :
    (t.join survivor child).rankOf i = t.rankOf i := by
  simp [rankOf, record?, join, Array.getElem?_modify, Ne.symm h]

namespace Sound

variable (ht : t.Sound)

include ht

lemma ranked_add (h : t.Ranked) (name : String) (holds : τ) : (t.add name holds).2.Ranked := by
  intro i hi
  rw [rankOf_add]
  have hsize : t.size ≤ (t.add name holds).2.size := by
    rw [size_add]
    exact Nat.le_succ _
  by_cases hlt : i < t.size
  · exact h.le_card hsize (.add ht.classes) hlt
  · rw [rankOf_of_size_le (not_lt.1 hlt), pow_zero]
    exact Finset.card_pos.2 ⟨i, mem_classAt.2 ⟨hi, rfl⟩⟩

lemma ranked_mark (h : t.Ranked) (root : Nat) : (t.mark root).Ranked := by
  intro i hi
  rw [rankOf_mark]
  rw [size_mark] at hi
  exact h.le_card (size_mark t root).ge (.refl ht.classes) hi

/-- Halving a path changes neither ranks nor classes. -/
lemma ranked_halve (h : t.Ranked) (i : Nat) :
    ({ t with classes := t.classes.halve i } : Locations τ).Ranked := by
  have hcoarsens : t.classes.Coarsens (t.classes.halve i) :=
    .of_root_eq ht.classes (ht.classes.size_halve i).ge (ht.classes.root_halve i)
  have hsize : t.size ≤ ({ t with classes := t.classes.halve i } : Locations τ).size := le_rfl
  intro j hj
  exact h.le_card hsize hcoarsens hj

lemma ranked_shorten (h : t.Ranked) (a b : LocationId) : (t.shorten a b).Ranked := by
  have hfirst : ({ t with classes := t.classes.halve a.index } : Locations τ).Sound :=
    ⟨ht.classes.halve _, (ht.classes.size_halve _).trans ht.size_classes⟩
  exact hfirst.ranked_halve (ht.ranked_halve h a.index) b.index

/-- The class that comes of joining two has the locations of both. -/
lemma card_add_card_le_join {survivor child : Nat} (hs : survivor ∈ t.classes.roots)
    (hc : child ∈ t.classes.roots) (hne : child ≠ survivor) :
    (t.classAt survivor).card + (t.classAt child).card ≤
      ((t.join survivor child).classAt ((t.join survivor child).classes.root survivor)).card := by
  have hsroot := ((Forest.Sound.mem_roots _).1 hs).2
  have hcroot := ((Forest.Sound.mem_roots _).1 hc).2
  have hroot := ht.classes.root_hang hc hs hne
  rw [← Finset.card_union_of_disjoint (disjoint_classAt hne.symm)]
  refine Finset.card_le_card fun i hi => ?_
  rw [mem_classAt, size_join, Locations.join, hroot, hroot, hsroot, if_neg hne.symm]
  rcases Finset.mem_union.1 hi with hi | hi
  · obtain ⟨hlt, hi⟩ := mem_classAt.1 hi
    rw [hi, if_neg hne.symm]
    exact ⟨hlt, rfl⟩
  · obtain ⟨hlt, hi⟩ := mem_classAt.1 hi
    rw [hi, if_pos rfl]
    exact ⟨hlt, rfl⟩

/-- Two classes of one rank together are large enough for the next rank. -/
lemma ranked_join (h : t.Ranked) {survivor child : Nat} (hs : survivor ∈ t.classes.roots)
    (hc : child ∈ t.classes.roots) (hne : child ≠ survivor) : (t.join survivor child).Ranked := by
  obtain ⟨hslt, hsroot⟩ := (Forest.Sound.mem_roots _).1 hs
  obtain ⟨hclt, hcroot⟩ := (Forest.Sound.mem_roots _).1 hc
  rw [ht.size_classes] at hslt hclt
  intro i hi
  rw [size_join] at hi
  have hgrown : 2 ^ t.rankOf i ≤
      ((t.join survivor child).classAt ((t.join survivor child).classes.root i)).card :=
    h.le_card (size_join t survivor child).ge (.hang ht.classes hc hs hne) hi
  by_cases hsurvivor : i = survivor
  · subst hsurvivor
    rw [rankOf_join_self hslt]
    split
    -- Only a tie raises the rank, and then either side has as many members as that rank asks for.
    · rename_i htie
      have hleft := h i hslt
      have hright := h child hclt
      rw [hsroot] at hleft
      rw [hcroot, ← htie] at hright
      calc
        2 ^ (t.rankOf i + 1) = 2 ^ t.rankOf i + 2 ^ t.rankOf i := by omega
        _ ≤ (t.classAt i).card + (t.classAt child).card := Nat.add_le_add hleft hright
        _ ≤ _ := ht.card_add_card_le_join hs hc hne
    · exact hgrown
  · rw [rankOf_join_of_ne hsurvivor]
    exact hgrown

end Sound

end Locations

end HeapQual
