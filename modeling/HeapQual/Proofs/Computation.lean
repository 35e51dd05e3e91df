import HeapQual.Fault
import Mathlib.Data.List.Forall2
import Mathlib.Tactic.Common

/-!
# Computations that may fail

What it means for a computation made of others to succeed, and what it means for two computations
to go alike (`Corresponds`): both give results that are related, or both fail, with errors that are
related.  Computations of the program may have to give the same fault (`Matches`), or any
(`Concurs`).
Computations that go alike step by step go alike as a whole, whichever errors are related.
-/

namespace HeapQual

variable {ε ε' α β γ δ : Type}

/-! ## Success -/

lemma bind_eq_ok_iff {x : Except ε α} {f : α → Except ε β} {b : β} :
    (x >>= f) = .ok b ↔ ∃ a, x = .ok a ∧ f a = .ok b := by
  cases x <;> simp [bind, Except.bind]

lemma snd_eq_of_pure_eq_ok {p : α × β} {a : α} {b : β}
    (h : (pure p : Except ε (α × β)) = .ok (a, b)) : p.2 = b :=
  congrArg Prod.snd (Except.ok.inj h)

lemma exists_bind_eq_ok_iff {x : Except ε α} {f : α → Except ε β} :
    (∃ b, (x >>= f) = .ok b) ↔ ∃ a, x = .ok a ∧ ∃ b, f a = .ok b := by
  simp only [bind_eq_ok_iff]
  constructor
  · rintro ⟨b, a, ha, hb⟩
    exact ⟨a, ha, b, hb⟩
  · rintro ⟨a, ha, b, hb⟩
    exact ⟨b, a, ha, hb⟩

lemma exists_map_eq_ok_iff {x : Except ε α} {f : α → β} :
    (∃ b, x.map f = .ok b) ↔ ∃ a, x = .ok a := by
  cases x with
  | error => simp [Except.map]
  | ok => simp [Except.map]

lemma exists_both_eq_ok_iff {x : Except ε α} {y : Except ε β} {f : α → β → γ} :
    (∃ c, (x >>= fun a => y >>= fun b => pure (f a b)) = .ok c) ↔
      (∃ a, x = .ok a) ∧ ∃ b, y = .ok b := by
  cases x <;> cases y <;> simp [bind, Except.bind, pure, Except.pure]

lemma forM_eq_ok_iff {f : α → Except ε Unit} {l : List α} :
    l.forM f = .ok () ↔ ∀ a ∈ l, f a = .ok () := by
  induction l with
  | nil => simp [pure, Except.pure]
  | cons a l ih =>
    have hcons : (a :: l).forM f = (f a >>= fun _ => l.forM f) := rfl
    rw [hcons, List.forall_mem_cons, ← ih]
    cases f a <;> simp [bind, Except.bind]

lemma mapM_eq_ok_iff {f : α → Except ε β} {items : List α} {results : List β} :
    items.mapM f = .ok results ↔ List.Forall₂ (fun a b => f a = .ok b) items results := by
  induction items generalizing results with
  | nil =>
    rw [List.mapM_nil, List.forall₂_nil_left_iff]
    exact ⟨fun h => (Except.ok.inj h).symm, fun h => h ▸ rfl⟩
  | cons a items ih =>
    rw [List.mapM_cons, bind_eq_ok_iff, List.forall₂_cons_left_iff]
    constructor
    · rintro ⟨b, hb, h⟩
      obtain ⟨rest, hrest, h⟩ := bind_eq_ok_iff.1 h
      cases h
      exact ⟨b, rest, hb, ih.1 hrest, rfl⟩
    · rintro ⟨b, rest, hb, hrest, rfl⟩
      exact ⟨b, hb, bind_eq_ok_iff.2 ⟨rest, ih.2 hrest, rfl⟩⟩

/-- There is a list of results if there is a result for each item. -/
lemma exists_mapM_eq_ok_iff {f : α → Except ε β} {items : List α} :
    (∃ results, items.mapM f = .ok results) ↔ ∀ a ∈ items, ∃ b, f a = .ok b := by
  simp only [mapM_eq_ok_iff]
  induction items with
  | nil => simp
  | cons a items ih =>
    rw [List.forall_mem_cons, ← ih]
    constructor
    · rintro ⟨_, _ | ⟨ha, hrest⟩⟩
      exact ⟨⟨_, ha⟩, _, hrest⟩
    · rintro ⟨⟨b, ha⟩, results, hrest⟩
      exact ⟨b :: results, .cons ha hrest⟩

/-- If each result is known and needs a condition, mapping needs it for all items. -/
lemma mapM_eq_ok_iff_map {f : α → Except ε β} {P : α → Prop} {k : α → β} {items : List α}
    {results : List β} (hf : ∀ a b, f a = .ok b ↔ P a ∧ b = k a) :
    items.mapM f = .ok results ↔ (∀ a ∈ items, P a) ∧ results = items.map k := by
  rw [mapM_eq_ok_iff]
  induction items generalizing results with
  | nil => simp
  | cons a items ih =>
    rw [List.forall₂_cons_left_iff, List.forall_mem_cons, List.map_cons]
    constructor
    · rintro ⟨b, rest, hb, hrest, rfl⟩
      obtain ⟨ha, rfl⟩ := (hf a b).1 hb
      obtain ⟨hitems, rfl⟩ := ih.1 hrest
      exact ⟨⟨ha, hitems⟩, rfl⟩
    · rintro ⟨⟨ha, hitems⟩, rfl⟩
      exact ⟨_, _, (hf a _).2 ⟨ha, rfl⟩, ih.2 ⟨hitems, rfl⟩, rfl⟩

/-! ## Observing a computation

What a fixed computation comes to is found out by evaluating a test.  The facts tested are listed
one by one, so that each is decided for itself. -/

/-- The computation succeeds, and its result passes the test. -/
def succeeds (x : Except ε α) (test : α → Bool) : Bool := x.toOption.any test

lemma succeeds_eq_true {x : Except ε α} {test : α → Bool} :
    succeeds x test = true ↔ ∃ a, x = .ok a ∧ test a = true := by
  cases x with
  | error => simp [succeeds, Except.toOption]
  | ok => simp [succeeds, Except.toOption]

lemma and_decide_cons {fact : Prop} [Decidable fact] {facts : List Bool} :
    List.and (decide fact :: facts) = true ↔ fact ∧ facts.and = true := by
  simp

/-! ## Two computations -/

/-- Both computations give results that are related by `R`, or both fail with errors that are
related by `F`. -/
inductive Corresponds (F : ε → ε' → Prop) (R : α → β → Prop) : Except ε α → Except ε' β → Prop
  | ok {a : α} {b : β} : R a b → Corresponds F R (.ok a) (.ok b)
  | error {e : ε} {e' : ε'} : F e e' → Corresponds F R (.error e) (.error e')

/-- Both computations give results that are related, or both give the same fault. -/
abbrev Matches (R : α → β → Prop) : Except Fault α → Except Fault β → Prop := Corresponds Eq R

/-- Both computations give results that are related, or both give a fault. -/
abbrev Concurs (R : α → β → Prop) : Except Fault α → Except Fault β → Prop :=
  Corresponds (fun _ _ => True) R

namespace Corresponds

variable {F : ε → ε' → Prop} {R : α → β → Prop} {x : Except ε α} {y : Except ε' β}

lemma of_eq {F : ε → ε → Prop} (hF : ∀ e, F e e) {x y : Except ε α} (h : x = y) :
    Corresponds F Eq x y := by
  subst h
  cases x with
  | error e => exact .error (hF e)
  | ok a => exact .ok rfl

lemma bind {S : γ → δ → Prop} {f : α → Except ε γ} {g : β → Except ε' δ}
    (h : Corresponds F R x y) (hf : ∀ a b, R a b → Corresponds F S (f a) (g b)) :
    Corresponds F S (x >>= f) (y >>= g) := by
  cases h with
  | ok h => exact hf _ _ h
  | error h => exact .error h

lemma imp {S : α → β → Prop} (h : Corresponds F R x y) (hS : ∀ a b, R a b → S a b) :
    Corresponds F S x y := by
  cases h with
  | ok h => exact .ok (hS _ _ h)
  | error h => exact .error h

/-- The results are those of the computations. -/
lemma and_eq (h : Corresponds F R x y) :
    Corresponds F (fun a b => R a b ∧ x = .ok a ∧ y = .ok b) x y := by
  cases h with
  | ok h => exact .ok ⟨h, rfl, rfl⟩
  | error h => exact .error h

lemma rel_of_ok (h : Corresponds F R x y) {a : α} {b : β} (hx : x = .ok a) (hy : y = .ok b) :
    R a b := by
  cases h with
  | ok h =>
    cases hx
    cases hy
    exact h
  | error => cases hx

/-- Loops over related items go alike if each step does. -/
lemma foldlM {Q : γ → δ → Prop} {f : α → γ → Except ε α} {g : β → δ → Except ε' β}
    (hstep : ∀ a b c d, R a b → Q c d → Corresponds F R (f a c) (g b d)) {items : List γ}
    {items' : List δ} (hitems : List.Forall₂ Q items items') {a : α} {b : β} (h : R a b) :
    Corresponds F R (items.foldlM f a) (items'.foldlM g b) := by
  induction hitems generalizing a b with
  | nil => exact .ok h
  | cons hitem _ ih =>
    rw [List.foldlM_cons, List.foldlM_cons]
    exact (hstep _ _ _ _ h hitem).bind fun _ _ h => ih h

lemma foldlM_same {f : α → γ → Except ε α} {g : β → γ → Except ε' β}
    (hstep : ∀ a b c, R a b → Corresponds F R (f a c) (g b c)) (items : List γ) {a : α} {b : β}
    (h : R a b) : Corresponds F R (items.foldlM f a) (items.foldlM g b) := by
  refine foldlM (Q := Eq) ?_ (List.forall₂_same.2 fun _ _ => rfl) h
  rintro a b c _ hab rfl
  exact hstep a b c hab

lemma mapM {f : γ → Except ε α} {g : γ → Except ε' β}
    (h : ∀ c, Corresponds F (fun _ _ => True) (f c) (g c)) (items : List γ) :
    Corresponds F (fun _ _ => True) (items.mapM f) (items.mapM g) := by
  induction items with
  | nil => exact .ok trivial
  | cons c items ih =>
    rw [List.mapM_cons, List.mapM_cons]
    exact (h c).bind fun _ _ _ => ih.bind fun _ _ _ => .ok trivial

end Corresponds

lemma Matches.of_eq {x y : Except Fault α} (h : x = y) : Matches Eq x y :=
  Corresponds.of_eq (fun _ => rfl) h

lemma Concurs.of_eq {x y : Except Fault α} (h : x = y) : Concurs Eq x y :=
  Corresponds.of_eq (fun _ => trivial) h

/-- Computations that succeed under equivalent conditions, and fail in the same way otherwise. -/
lemma Matches.of_iff {P P' : Prop} {e : Fault} {x : Except Fault α} {y : Except Fault β}
    (hok : P → ∃ a, x = .ok a) (herror : ¬P → x = .error e) (hok' : P' → ∃ b, y = .ok b)
    (herror' : ¬P' → y = .error e) (hiff : P ↔ P') : Matches (fun _ _ => True) x y := by
  by_cases hP : P
  · obtain ⟨a, rfl⟩ := hok hP
    obtain ⟨b, rfl⟩ := hok' (hiff.1 hP)
    exact .ok trivial
  · rw [herror hP, herror' (mt hiff.2 hP)]
    exact .error rfl

lemma Matches.map_fst_eq {x : Except Fault (α × γ)} {y : Except Fault (α × δ)}
    (h : Matches (fun p p' => p.1 = p'.1) x y) : x.map Prod.fst = y.map Prod.fst := by
  cases h with
  | ok h => exact congrArg Except.ok h
  | error h => exact congrArg Except.error h

end HeapQual
