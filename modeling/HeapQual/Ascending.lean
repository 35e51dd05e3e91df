/-!
# Ascending sets

A finite set kept as the list of its elements in strictly ascending order.  The order makes the
representation canonical: two sets with the same elements are equal (`Ascending.ext`), so a
solver can tell by comparison whether a set has grown, and the elements are enumerated in the
order in which answers list them.
-/

namespace HeapQual

/-- A finite set of `α`, listed in ascending order. -/
structure Ascending (α : Type) [Ord α] where
  toList : List α
  ascends : toList.Pairwise fun a b => compare a b = .lt

namespace Ascending

variable {α : Type} [Ord α]

instance [DecidableEq α] : DecidableEq (Ascending α) := fun s t =>
  decidable_of_iff (s.toList = t.toList) (by cases s; cases t; simp)

instance : Membership α (Ascending α) := ⟨fun s a => a ∈ s.toList⟩

@[simp] theorem mem_toList {a : α} {s : Ascending α} : a ∈ s.toList ↔ a ∈ s := Iff.rfl

instance [DecidableEq α] (a : α) (s : Ascending α) : Decidable (a ∈ s) :=
  inferInstanceAs (Decidable (a ∈ s.toList))

/-- The set without elements. -/
def empty : Ascending α := ⟨[], List.Pairwise.nil⟩

instance : EmptyCollection (Ascending α) := ⟨empty⟩

instance : Inhabited (Ascending α) := ⟨empty⟩

/-- The number of elements. -/
def size (s : Ascending α) : Nat := s.toList.length

/-- The elements that pass a test. -/
def filter (p : α → Bool) (s : Ascending α) : Ascending α :=
  ⟨s.toList.filter p, s.ascends.filter p⟩

/-! ## Insertion -/

/-- Put an element into its place in an ascending list. -/
def place (a : α) : List α → List α
  | [] => [a]
  | b :: bs =>
    match compare a b with
    | .lt => a :: b :: bs
    | .eq => b :: bs
    | .gt => b :: place a bs

theorem mem_place [Std.LawfulEqOrd α] {a x : α} {l : List α} : x ∈ place a l ↔ x = a ∨ x ∈ l := by
  induction l with
  | nil => simp [place]
  | cons b bs ih =>
    simp only [place]
    split
    · simp
    · rename_i h
      have hab : a = b := Std.LawfulEqOrd.eq_of_compare h
      simp [hab]
    · simp only [List.mem_cons, ih]
      constructor
      · rintro (h | h | h) <;> simp [h]
      · rintro (h | h | h) <;> simp [h]

section Lawful

variable [Std.TransOrd α] [Std.LawfulEqOrd α]

theorem place_ascends {a : α} {l : List α} (hl : l.Pairwise fun x y => compare x y = .lt) :
    (place a l).Pairwise fun x y => compare x y = .lt := by
  induction l with
  | nil => simp [place]
  | cons b bs ih =>
    obtain ⟨hb, hbs⟩ := List.pairwise_cons.1 hl
    simp only [place]
    split
    · rename_i h
      refine List.pairwise_cons.2 ⟨fun x hx => ?_, hl⟩
      rcases List.mem_cons.1 hx with rfl | hx
      · exact h
      · exact Std.TransCmp.lt_trans h (hb x hx)
    · exact hl
    · rename_i h
      refine List.pairwise_cons.2 ⟨fun x hx => ?_, ih hbs⟩
      rcases mem_place.1 hx with rfl | hx
      · exact Std.OrientedCmp.gt_iff_lt.1 h
      · exact hb x hx

/-- The set with one more element. -/
def insert (a : α) (s : Ascending α) : Ascending α := ⟨place a s.toList, place_ascends s.ascends⟩

@[simp] theorem mem_insert {a x : α} {s : Ascending α} : x ∈ s.insert a ↔ x = a ∨ x ∈ s :=
  mem_place

/-- The set with all elements of a list added. -/
def insertAll (s : Ascending α) (l : List α) : Ascending α := l.foldl (fun t a => t.insert a) s

@[simp] theorem mem_insertAll {x : α} {s : Ascending α} {l : List α} :
    x ∈ s.insertAll l ↔ x ∈ s ∨ x ∈ l := by
  induction l generalizing s with
  | nil => simp [insertAll]
  | cons b bs ih =>
    have hstep : s.insertAll (b :: bs) = (s.insert b).insertAll bs := rfl
    rw [hstep, ih, mem_insert, List.mem_cons]
    constructor
    · rintro ((h | h) | h) <;> simp [h]
    · rintro (h | h | h) <;> simp [h]

/-- The set of the elements of a list. -/
def ofList (l : List α) : Ascending α := (∅ : Ascending α).insertAll l

/-- All elements of both sets. -/
def union (s t : Ascending α) : Ascending α := s.insertAll t.toList

instance : Union (Ascending α) := ⟨union⟩

@[simp] theorem mem_union {x : α} {s t : Ascending α} : x ∈ s ∪ t ↔ x ∈ s ∨ x ∈ t :=
  mem_insertAll

end Lawful

@[simp] theorem not_mem_empty {x : α} : x ∉ (∅ : Ascending α) := List.not_mem_nil

@[simp] theorem mem_filter {x : α} {p : α → Bool} {s : Ascending α} :
    x ∈ s.filter p ↔ x ∈ s ∧ p x = true :=
  List.mem_filter

@[simp] theorem mem_ofList [Std.TransOrd α] [Std.LawfulEqOrd α] {x : α} {l : List α} :
    x ∈ ofList l ↔ x ∈ l := by
  simp [ofList]

/-! ## Extensionality -/

section Extensionality

variable [Std.TransOrd α] [Std.LawfulEqOrd α]

theorem eq_of_ascends {l m : List α} (hl : l.Pairwise fun a b => compare a b = .lt)
    (hm : m.Pairwise fun a b => compare a b = .lt) (h : ∀ x, x ∈ l ↔ x ∈ m) : l = m := by
  induction l generalizing m with
  | nil =>
    cases m with
    | nil => rfl
    | cons b bs => exact absurd ((h b).2 (by simp)) (by simp)
  | cons a as ih =>
    cases m with
    | nil => exact absurd ((h a).1 (by simp)) (by simp)
    | cons b bs =>
      obtain ⟨ha, has⟩ := List.pairwise_cons.1 hl
      obtain ⟨hb, hbs⟩ := List.pairwise_cons.1 hm
      have irrefl : ∀ x : α, compare x x ≠ .lt := fun x => by
        rw [Std.ReflOrd.compare_self]; simp
      -- The heads are the least elements of the same set.
      have hab : a = b := by
        rcases List.mem_cons.1 ((h a).1 (by simp)) with hab | hab
        · exact hab
        · rcases List.mem_cons.1 ((h b).2 (by simp)) with hba | hba
          · exact hba.symm
          · exact absurd (Std.TransCmp.lt_trans (ha b hba) (hb a hab)) (irrefl a)
      subst hab
      have hrest : ∀ x, x ∈ as ↔ x ∈ bs := by
        intro x
        constructor
        · intro hx
          rcases List.mem_cons.1 ((h x).1 (List.mem_cons_of_mem _ hx)) with rfl | hx'
          · exact absurd (ha x hx) (irrefl x)
          · exact hx'
        · intro hx
          rcases List.mem_cons.1 ((h x).2 (List.mem_cons_of_mem _ hx)) with rfl | hx'
          · exact absurd (hb x hx) (irrefl x)
          · exact hx'
      rw [ih has hbs hrest]

theorem ext {s t : Ascending α} (h : ∀ x, x ∈ s ↔ x ∈ t) : s = t := by
  cases s with
  | mk l hl =>
    cases t with
    | mk m hm =>
      have hlm : l = m := eq_of_ascends hl hm h
      subst hlm
      rfl

end Extensionality

end Ascending

end HeapQual
