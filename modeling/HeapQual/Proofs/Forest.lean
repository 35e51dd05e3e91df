import Mathlib.Data.Finset.Card
import Mathlib.Logic.Function.Iterate
import Mathlib.Tactic.Common
import HeapQual.Forest

/-!
# The classes of a forest

`Forest.find` climbs with as much fuel as there are positions, and changes the forest on the way.
This file shows that the fuel is enough for every forest that arises, and says what each operation
does to the roots; after it nothing looks at parents any more.

A forest is *sound* when parents stay inside and some depth falls with every step to a parent.
Depths fall strictly, so the positions on a climb are distinct, and a climb that had used up its
fuel would have met more positions than there are (`Forest.Sound.parentOf_iterate`).  Letting a
position skip its parent keeps the depths falling, and a climb never comes back to a position that
it has changed, so it ends where a climb in the unchanged forest ends (`Forest.Sound.finds_find`,
`Forest.Sound.root_eq_iterate`).

Adding a position changes no root, hanging a root under another redirects its class and nothing
else (`Forest.Sound.root_hang`), and a look-up changes no root (`Forest.Sound.root_halve`).  So
along any sequence of these operations classes are only ever joined, and a position that was once
redirected is never a root again (`Forest.Coarsens`).
-/

namespace HeapQual

namespace Forest

variable {f : Forest}

/-- Parents stay inside, and climbing to a parent decreases some depth. -/
structure Sound (f : Forest) : Prop where
  parentOf_lt : ∀ i < f.size, f.parentOf i < f.size
  descends : ∃ depth : Nat → Nat, ∀ i, f.parentOf i ≠ i → depth (f.parentOf i) < depth i

/-! ## Parents -/

lemma parentOf_of_size_le {i : Nat} (h : f.size ≤ i) : f.parentOf i = i := by
  simp [parentOf, Array.getElem?_eq_none h]

lemma lt_size_of_parentOf_ne {i : Nat} (h : f.parentOf i ≠ i) : i < f.size := by
  by_contra hi
  exact h (parentOf_of_size_le (not_lt.1 hi))

lemma depth_parentOf_le {depth : Nat → Nat}
    (hdepth : ∀ i, f.parentOf i ≠ i → depth (f.parentOf i) < depth i) (i : Nat) :
    depth (f.parentOf i) ≤ depth i := by
  by_cases hi : f.parentOf i = i
  · rw [hi]
  · exact (hdepth i hi).le

/-- A climb that ends below a root has met one new position at each step. -/
lemma exists_nodup_of_iterate_ne {depth : Nat → Nat}
    (hdepth : ∀ i, f.parentOf i ≠ i → depth (f.parentOf i) < depth i) (n i : Nat)
    (h : f.parentOf (f.parentOf^[n] i) ≠ f.parentOf^[n] i) :
    ∃ l : List Nat, l.Nodup ∧ l.length = n + 1 ∧ ∀ x ∈ l, x < f.size ∧ depth x ≤ depth i := by
  induction n generalizing i with
  | zero =>
    refine ⟨[i], by simp, rfl, ?_⟩
    intro x hx
    rw [List.mem_singleton.1 hx]
    exact ⟨lt_size_of_parentOf_ne h, le_rfl⟩
  | succ n ih =>
    have hi : f.parentOf i ≠ i := by
      intro hi
      rw [Function.iterate_fixed hi] at h
      exact h hi
    rw [Function.iterate_succ_apply] at h
    obtain ⟨l, hnodup, hlength, hl⟩ := ih _ h
    -- Depth falls along the path, so `i` is not among what follows it.
    have hlt := hdepth i hi
    refine ⟨i :: l, ?_, by simp [hlength], ?_⟩
    · refine List.nodup_cons.2 ⟨fun hmem => ?_, hnodup⟩
      have := (hl i hmem).2
      omega
    · intro x hx
      rcases List.mem_cons.1 hx with rfl | hx
      · exact ⟨lt_size_of_parentOf_ne hi, le_rfl⟩
      · exact ⟨(hl x hx).1, (hl x hx).2.trans hlt.le⟩

@[simp] lemma size_hang (f : Forest) (child under : Nat) : (f.hang child under).size = f.size := by
  simp [hang, size]

lemma parentOf_hang {child : Nat} (hc : child < f.size) (under i : Nat) :
    (f.hang child under).parentOf i = if i = child then under else f.parentOf i := by
  have hc' : child < f.parent.size := hc
  simp only [parentOf, hang, Array.getElem?_setIfInBounds]
  by_cases h : child = i
  · subst h
    simp [hc']
  · simp [h, Ne.symm h]

/-! ## Look-ups -/

/-- The loop of a look-up from `i` comes to an end at `r`, and leaves the forest `f'`. -/
inductive Finds : Forest → Nat → Nat → Forest → Prop
  | here {f : Forest} {i : Nat} : f.parentOf i = i → Finds f i i f
  | climb {f f' : Forest} {i r : Nat} : f.parentOf i ≠ i →
      Finds (f.hang i (f.parentOf (f.parentOf i))) (f.parentOf (f.parentOf i)) r f' →
      Finds f i r f'

/-- The loop has one outcome. -/
lemma Finds.unique {f' f'' : Forest} {i r r' : Nat} (h : f.Finds i r f') (h' : f.Finds i r' f'') :
    r = r' ∧ f' = f'' := by
  induction h with
  | here hi =>
    cases h' with
    | here => exact ⟨rfl, rfl⟩
    | climb hne => exact absurd hi hne
  | climb hne _ ih =>
    cases h' with
    | here hi => exact absurd hi hne
    | climb _ hrest => exact ih hrest

lemma findFrom_of_parentOf_eq {i : Nat} (h : f.parentOf i = i) (fuel : Nat) :
    f.findFrom fuel i = (i, f) := by
  cases fuel with
  | zero => rfl
  | succ fuel => simp [findFrom, h]

lemma findFrom_succ_of_parentOf_ne {i : Nat} (h : f.parentOf i ≠ i) (fuel : Nat) :
    f.findFrom (fuel + 1) i =
      (f.hang i (f.parentOf (f.parentOf i))).findFrom fuel (f.parentOf (f.parentOf i)) := by
  simp [findFrom, h]

namespace Sound

/-- As many steps to the parent as there are positions end at a root. -/
theorem parentOf_iterate (hf : f.Sound) {n : Nat} (hn : f.size ≤ n) (i : Nat) :
    f.parentOf (f.parentOf^[n] i) = f.parentOf^[n] i := by
  obtain ⟨depth, hdepth⟩ := hf.descends
  by_contra h
  obtain ⟨l, hnodup, hlength, hl⟩ := exists_nodup_of_iterate_ne hdepth n i h
  have hsub : l ⊆ List.range f.size := fun x hx => List.mem_range.2 (hl x hx).1
  have hle := (List.subperm_of_subset hnodup hsub).length_le
  rw [hlength, List.length_range] at hle
  omega

/-- Letting one position skip its parent keeps a forest sound. -/
lemma hang_above (hf : f.Sound) {i : Nat} (hi : i < f.size) :
    (f.hang i (f.parentOf (f.parentOf i))).Sound where
  parentOf_lt j hj := by
    rw [size_hang] at hj ⊢
    rw [parentOf_hang hi]
    split
    · exact hf.parentOf_lt _ (hf.parentOf_lt i hi)
    · exact hf.parentOf_lt j hj
  descends := by
    obtain ⟨depth, hdepth⟩ := hf.descends
    refine ⟨depth, fun j hj => ?_⟩
    rw [parentOf_hang hi] at hj ⊢
    split at hj
    · rename_i hji
      rw [if_pos hji, hji]
      -- A position that is its own parent would be its own grandparent.
      have hne : f.parentOf i ≠ i := fun h => hj (by rw [hji, h, h])
      exact (depth_parentOf_le hdepth _).trans_lt (hdepth i hne)
    · rename_i hji
      rw [if_neg hji]
      exact hdepth j hj

/-- Past a position that skips its parent, climbs go on as before. -/
lemma iterate_hang_above (hf : f.Sound) {i : Nat} (hi : f.parentOf i ≠ i) (n : Nat) :
    (f.hang i (f.parentOf (f.parentOf i))).parentOf^[n] (f.parentOf (f.parentOf i)) =
      f.parentOf^[n] (f.parentOf (f.parentOf i)) := by
  obtain ⟨depth, hdepth⟩ := hf.descends
  have hbelow (n : Nat) : depth (f.parentOf^[n] (f.parentOf (f.parentOf i))) < depth i := by
    induction n with
    | zero => exact (depth_parentOf_le hdepth _).trans_lt (hdepth i hi)
    | succ n ih =>
      rw [Function.iterate_succ_apply']
      exact (depth_parentOf_le hdepth _).trans_lt ih
  induction n with
  | zero => rfl
  | succ n ih =>
    have hne : f.parentOf^[n] (f.parentOf (f.parentOf i)) ≠ i := by
      intro heq
      have hlt := hbelow n
      rw [heq] at hlt
      exact lt_irrefl _ hlt
    rw [Function.iterate_succ_apply', Function.iterate_succ_apply', ih,
      parentOf_hang (lt_size_of_parentOf_ne hi), if_neg hne]

/-- A look-up with enough fuel for a climb in the unchanged forest ends where that climb ends. -/
lemma finds_findFrom (hf : f.Sound) {fuel i : Nat}
    (hroot : f.parentOf (f.parentOf^[fuel] i) = f.parentOf^[fuel] i) :
    f.Finds i (f.parentOf^[fuel] i) (f.findFrom fuel i).2 ∧
      (f.findFrom fuel i).1 = f.parentOf^[fuel] i := by
  induction fuel generalizing f i with
  | zero => exact ⟨.here hroot, rfl⟩
  | succ fuel ih =>
    by_cases hi : f.parentOf i = i
    · rw [findFrom_of_parentOf_eq hi, Function.iterate_fixed hi]
      exact ⟨.here hi, rfl⟩
    · -- The look-up is two steps ahead, so it reaches the root with one step less.
      have habove : f.parentOf^[fuel] (f.parentOf (f.parentOf i)) = f.parentOf^[fuel + 1] i := by
        rw [← Function.iterate_succ_apply, ← Function.iterate_succ_apply,
          Function.iterate_succ_apply']
        exact hroot
      have hsame := hf.iterate_hang_above hi fuel
      have hend := hf.iterate_hang_above hi (fuel + 1)
      rw [Function.iterate_succ_apply', Function.iterate_succ_apply', habove, hroot] at hend
      obtain ⟨hfinds, hfst⟩ := ih (hf.hang_above (lt_size_of_parentOf_ne hi))
        (i := f.parentOf (f.parentOf i)) (by rw [hend, hsame, habove])
      rw [hsame, habove] at hfinds hfst
      rw [findFrom_succ_of_parentOf_ne hi]
      exact ⟨.climb hi hfinds, hfst⟩

theorem root_eq_iterate (hf : f.Sound) {n : Nat} (hn : f.size ≤ n) (i : Nat) :
    f.root i = f.parentOf^[n] i := by
  induction n, hn using Nat.le_induction with
  | base => exact (hf.finds_findFrom (hf.parentOf_iterate le_rfl i)).2
  | succ n hn ih => rw [Function.iterate_succ_apply', hf.parentOf_iterate hn, ih]

theorem finds_find (hf : f.Sound) (i : Nat) : f.Finds i (f.root i) (f.halve i) := by
  have hfinds := (hf.finds_findFrom (hf.parentOf_iterate le_rfl i)).1
  rwa [← hf.root_eq_iterate le_rfl] at hfinds

/-! ## Roots -/

theorem parentOf_root (hf : f.Sound) (i : Nat) : f.parentOf (f.root i) = f.root i := by
  rw [hf.root_eq_iterate le_rfl]
  exact hf.parentOf_iterate le_rfl i

lemma root_of_parentOf_eq {i : Nat} (h : f.parentOf i = i) : f.root i = i :=
  congrArg Prod.fst (findFrom_of_parentOf_eq h f.size)

lemma root_of_size_le {i : Nat} (h : f.size ≤ i) : f.root i = i :=
  root_of_parentOf_eq (parentOf_of_size_le h)

/-- A root is the root of its own class. -/
@[simp] theorem root_root (hf : f.Sound) (i : Nat) : f.root (f.root i) = f.root i :=
  root_of_parentOf_eq (hf.parentOf_root i)

/-- A position that is its own root is its own parent. -/
lemma parentOf_of_root_eq (hf : f.Sound) {i : Nat} (h : f.root i = i) : f.parentOf i = i := by
  have hroot := hf.parentOf_root i
  rwa [h] at hroot

/-- Induction along climbs: a fact holds of all positions if it holds of all roots, and of every
position whose parent has it. -/
theorem induction_up (hf : f.Sound) {P : Nat → Prop} (root : ∀ r, f.parentOf r = r → P r)
    (step : ∀ i, f.parentOf i ≠ i → P (f.parentOf i) → P i) (i : Nat) : P i := by
  obtain ⟨depth, hdepth⟩ := hf.descends
  induction hd : depth i using Nat.strongRecOn generalizing i with
  | _ d ih =>
    by_cases hi : f.parentOf i = i
    · exact root i hi
    · exact step i hi (ih _ (hd ▸ hdepth i hi) _ rfl)

theorem root_parentOf (hf : f.Sound) (i : Nat) : f.root (f.parentOf i) = f.root i := by
  rw [hf.root_eq_iterate le_rfl, ← Function.iterate_succ_apply,
    hf.root_eq_iterate (Nat.le_succ f.size)]

theorem root_lt (hf : f.Sound) {i : Nat} (hi : i < f.size) : f.root i < f.size := by
  induction i using hf.induction_up with
  | root r hr => rwa [root_of_parentOf_eq hr]
  | step i _ ih =>
    rw [← hf.root_parentOf]
    exact ih (hf.parentOf_lt i hi)

/-- The roots are the positions that are their own roots. -/
lemma mem_roots (i : Nat) : i ∈ f.roots ↔ i < f.size ∧ f.root i = i := by
  simp [roots, isRoot]

lemma root_mem_roots (hf : f.Sound) {i : Nat} (hi : i < f.size) : f.root i ∈ f.roots :=
  (mem_roots _).2 ⟨hf.root_lt hi, hf.root_root i⟩

lemma nodup_roots (f : Forest) : f.roots.Nodup := List.nodup_range.filter _

/-! ## Growing -/

theorem empty : Forest.empty.Sound :=
  ⟨fun i hi => absurd hi (Nat.not_lt_zero i), fun i => i,
    fun _ hi => absurd (parentOf_of_size_le (Nat.zero_le _)) hi⟩

@[simp] lemma size_add (f : Forest) : f.add.size = f.size + 1 := by simp [add, size]

lemma parentOf_add (f : Forest) (i : Nat) : f.add.parentOf i = f.parentOf i := by
  simp only [parentOf, add, size, Array.getElem?_push]
  split
  · rename_i h
    simp [h]
  · rfl

theorem add (hf : f.Sound) : f.add.Sound where
  parentOf_lt i hi := by
    rw [parentOf_add, size_add]
    by_cases hlt : i < f.size
    · exact (hf.parentOf_lt i hlt).trans (Nat.lt_succ_self _)
    · rw [parentOf_of_size_le (not_lt.1 hlt)]
      simpa using hi
  descends := by
    obtain ⟨depth, hdepth⟩ := hf.descends
    refine ⟨depth, fun i hi => ?_⟩
    rw [parentOf_add] at hi ⊢
    exact hdepth i hi

theorem root_add (hf : f.Sound) (i : Nat) : f.add.root i = f.root i := by
  induction i using hf.induction_up with
  | root r hr => rw [root_of_parentOf_eq hr, root_of_parentOf_eq ((parentOf_add f r).trans hr)]
  | step i _ ih =>
    have hnew := hf.add.root_parentOf i
    rw [parentOf_add, ih, hf.root_parentOf] at hnew
    exact hnew.symm

/-! ## Merging -/

theorem hang (hf : f.Sound) {child under : Nat} (hchild : child ∈ f.roots)
    (hunder : under ∈ f.roots) (hne : child ≠ under) : (f.hang child under).Sound where
  parentOf_lt i hi := by
    rw [size_hang] at hi ⊢
    rw [parentOf_hang ((mem_roots _).1 hchild).1]
    split
    · exact ((mem_roots _).1 hunder).1
    · exact hf.parentOf_lt i hi
  descends := by
    have hc := ((mem_roots _).1 hchild).1
    have hroot := hf.parentOf_of_root_eq ((mem_roots _).1 hunder).2
    obtain ⟨depth, hdepth⟩ := hf.descends
    -- Everything but the new root moves down by more than the new root's depth.
    refine ⟨fun i => if i = under then 0 else depth i + 1, fun i hi => ?_⟩
    simp only [parentOf_hang hc] at hi ⊢
    by_cases hic : i = child
    · subst hic
      simp [hne]
    · rw [if_neg hic] at hi ⊢
      have hiu : i ≠ under := fun h => hi (h ▸ hroot)
      have hlt := hdepth i hi
      rw [if_neg hiu]
      split <;> omega

theorem root_hang (hf : f.Sound) {child under : Nat} (hchild : child ∈ f.roots)
    (hunder : under ∈ f.roots) (hne : child ≠ under) (i : Nat) :
    (f.hang child under).root i = if f.root i = child then under else f.root i := by
  have hnew := hf.hang hchild hunder hne
  have hroot := hf.parentOf_of_root_eq ((mem_roots _).1 hunder).2
  obtain ⟨hc, hcroot⟩ := (mem_roots _).1 hchild
  have hunder : (f.hang child under).root under = under := by
    apply root_of_parentOf_eq
    rw [parentOf_hang hc, if_neg hne.symm, hroot]
  induction i using hf.induction_up with
  | root r hr =>
    rw [root_of_parentOf_eq hr]
    by_cases hrc : r = child
    · rw [if_pos hrc, ← hnew.root_parentOf, parentOf_hang hc, if_pos hrc, hunder]
    · rw [if_neg hrc]
      apply root_of_parentOf_eq
      rw [parentOf_hang hc, if_neg hrc, hr]
  | step i hi ih =>
    have hic : i ≠ child := fun h => hi (h ▸ hf.parentOf_of_root_eq hcroot)
    have hstep := hnew.root_parentOf i
    rw [parentOf_hang hc, if_neg hic, ih, hf.root_parentOf] at hstep
    exact hstep.symm

/-! ## Halving paths -/

/-- Letting one position skip its parent changes no root. -/
lemma root_hang_above (hf : f.Sound) {i : Nat} (hi : i < f.size) (j : Nat) :
    (f.hang i (f.parentOf (f.parentOf i))).root j = f.root j := by
  have hnew := hf.hang_above hi
  -- Below its root, a position's new parent is of its old class.
  have hparent : ∀ k, f.root ((f.hang i (f.parentOf (f.parentOf i))).parentOf k) = f.root k := by
    intro k
    rw [parentOf_hang hi]
    split
    · rename_i hki
      rw [hki, hf.root_parentOf, hf.root_parentOf]
    · exact hf.root_parentOf k
  induction j using hnew.induction_up with
  | root r hr =>
    rw [root_of_parentOf_eq hr]
    have hold : f.parentOf r = r := by
      rw [parentOf_hang hi] at hr
      split at hr
      · rename_i hri
        rw [hri] at hr ⊢
        obtain ⟨depth, hdepth⟩ := hf.descends
        by_contra hne
        have h₁ := hdepth i hne
        by_cases h₂ : f.parentOf (f.parentOf i) = f.parentOf i
        · exact hne (h₂.symm.trans hr)
        · have h₃ := hdepth _ h₂
          rw [hr] at h₃
          omega
      · exact hr
    exact (root_of_parentOf_eq hold).symm
  | step k _ ih => rw [← hnew.root_parentOf, ih, hparent]

lemma findFrom_spec (hf : f.Sound) (fuel i : Nat) :
    (f.findFrom fuel i).2.Sound ∧ (f.findFrom fuel i).2.size = f.size ∧
      ∀ j, (f.findFrom fuel i).2.root j = f.root j := by
  induction fuel generalizing f i with
  | zero => exact ⟨hf, rfl, fun _ => rfl⟩
  | succ fuel ih =>
    by_cases hi : f.parentOf i = i
    · rw [findFrom_of_parentOf_eq hi]
      exact ⟨hf, rfl, fun _ => rfl⟩
    · have hlt := lt_size_of_parentOf_ne hi
      obtain ⟨hsound, hsize, hroot⟩ := ih (hf.hang_above hlt) (f.parentOf (f.parentOf i))
      rw [findFrom_succ_of_parentOf_ne hi]
      refine ⟨hsound, hsize.trans (size_hang _ _ _), fun j => ?_⟩
      rw [hroot, hf.root_hang_above hlt]

theorem halve (hf : f.Sound) (i : Nat) : (f.halve i).Sound := (hf.findFrom_spec _ i).1

@[simp] lemma size_halve (hf : f.Sound) (i : Nat) : (f.halve i).size = f.size :=
  (hf.findFrom_spec _ i).2.1

theorem root_halve (hf : f.Sound) (i j : Nat) : (f.halve i).root j = f.root j :=
  (hf.findFrom_spec _ i).2.2 j

end Sound

/-! ## What may be merged -/

/-- Only positions with this property were merged, and only into positions with it. -/
def MergesOnly (f : Forest) (p : Nat → Prop) : Prop :=
  ∀ i, f.root i ≠ i → p i ∧ p (f.root i)

lemma MergesOnly.add {p q : Nat → Prop} (h : f.MergesOnly p) (hf : f.Sound)
    (hpq : ∀ i < f.size, p i → q i) : f.add.MergesOnly q := by
  intro i hi
  rw [hf.root_add] at hi ⊢
  have hlt : i < f.size := by
    by_contra hge
    exact hi (Sound.root_of_size_le (not_lt.1 hge))
  exact ⟨hpq i hlt (h i hi).1, hpq _ (hf.root_lt hlt) (h i hi).2⟩

lemma MergesOnly.hang {p : Nat → Prop} (h : f.MergesOnly p) (hf : f.Sound) {child under : Nat}
    (hc : child ∈ f.roots) (hu : under ∈ f.roots) (hne : child ≠ under) (hpc : p child)
    (hpu : p under) : (f.hang child under).MergesOnly p := by
  intro i hi
  rw [hf.root_hang hc hu hne] at hi ⊢
  by_cases hic : f.root i = child
  · rw [if_pos hic]
    refine ⟨?_, hpu⟩
    by_cases hchild : i = child
    · exact hchild ▸ hpc
    · exact (h i (hic ▸ Ne.symm hchild)).1
  · rw [if_neg hic] at hi ⊢
    exact h i hi

lemma MergesOnly.halve {p : Nat → Prop} (h : f.MergesOnly p) (hf : f.Sound) (i : Nat) :
    (f.halve i).MergesOnly p := by
  intro j hj
  rw [hf.root_halve] at hj ⊢
  exact h j hj

/-! ## Growing in the long run -/

/-- Positions are added, classes are joined, and redirected positions stay redirected. -/
structure Coarsens (f f' : Forest) : Prop where
  size_le : f.size ≤ f'.size
  root_root : ∀ i, f'.root (f.root i) = f'.root i
  root_eq : ∀ i, f'.root i = i → f.root i = i

namespace Coarsens

variable {f' f'' : Forest}

lemma refl (hf : f.Sound) : f.Coarsens f := ⟨le_rfl, hf.root_root, fun _ h => h⟩

lemma trans (h : f.Coarsens f') (h' : f'.Coarsens f'') : f.Coarsens f'' where
  size_le := h.size_le.trans h'.size_le
  root_root i := by rw [← h'.root_root, h.root_root, h'.root_root]
  root_eq i hi := h.root_eq i (h'.root_eq i hi)

/-- What was in one class is in one class. -/
lemma root_congr (h : f.Coarsens f') {i j : Nat} (hij : f.root i = f.root j) :
    f'.root i = f'.root j := by
  rw [← h.root_root i, hij, h.root_root]

/-- If nothing was joined in the end, nothing was joined on the way. -/
lemma root_eq_of_between {f'' : Forest} (h : f.Coarsens f') (h' : f'.Coarsens f'')
    (hf' : f'.Sound) (heq : ∀ i, f''.root i = f.root i) (i : Nat) : f'.root i = f.root i := by
  have hroot : f.root (f'.root i) = f'.root i := h.root_eq _ (hf'.root_root i)
  calc
    f'.root i = f.root (f'.root i) := hroot.symm
    _ = f''.root (f'.root i) := (heq _).symm
    _ = f''.root i := h'.root_root i
    _ = f.root i := heq i

/-- Operations that change no root. -/
lemma of_root_eq (hf : f.Sound) (hsize : f.size ≤ f'.size) (hroot : ∀ i, f'.root i = f.root i) :
    f.Coarsens f' where
  size_le := hsize
  root_root i := by rw [hroot, hroot, hf.root_root]
  root_eq i hi := (hroot i).symm.trans hi

lemma add (hf : f.Sound) : f.Coarsens f.add :=
  of_root_eq hf (by simp) hf.root_add

lemma hang (hf : f.Sound) {child under : Nat} (hc : child ∈ f.roots) (hu : under ∈ f.roots)
    (hne : child ≠ under) : f.Coarsens (f.hang child under) := by
  have hroot := hf.root_hang hc hu hne
  refine ⟨by simp, fun i => ?_, fun i hi => ?_⟩
  · rw [hroot, hroot, hf.root_root]
  · rw [hroot] at hi
    split at hi
    · exact hi ▸ ((Sound.mem_roots _).1 hu).2
    · exact hi

end Coarsens

end Forest

end HeapQual
