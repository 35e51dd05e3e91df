import Mathlib.Data.Finset.Card
import Mathlib.Data.List.TakeWhile
import Mathlib.Logic.Relation
import Mathlib.Tactic.Common
import HeapQual.Walk

/-!
# Walks visit what can be reached

A walk visits no node twice and none that was seen before (`Walk.nodup_visit`).  If its fuel is at
least the number of nodes it can meet, it leaves nothing out: it visits every seed that was not seen
before, and with every node the successors of that node (`Walk.mem_visit_of_mem_seeds`,
`Walk.mem_visit_of_mem_next`).  So if nothing was seen before it visits just what can be reached
from the seeds (`Walk.mem_visit_iff`).  If what was seen contains all its successors, it does not
matter otherwise that it was seen: the other nodes are visited in the order in which they would be
visited without it (`Walk.visit_eq_filter`).

The nodes that can be met are given as a finite set which contains the seeds and is closed under
successors.  Every round takes one node out of those not seen yet, which is why the fuel suffices.
-/

namespace HeapQual

namespace Walk

variable {α : Type} [DecidableEq α] {next : α → List α} {fuel : Nat} {stack seeds seen : List α}

lemma visitFrom_succ_of_nil (h : stack.dropWhile (fun x => decide (x ∈ seen)) = []) :
    visitFrom next (fuel + 1) stack seen = [] := by
  rw [visitFrom, h]

lemma visitFrom_succ_of_cons {x : α} {rest : List α}
    (h : stack.dropWhile (fun x => decide (x ∈ seen)) = x :: rest) :
    visitFrom next (fuel + 1) stack seen =
      x :: visitFrom next fuel ((next x).reverse ++ rest) (x :: seen) := by
  rw [visitFrom, h]

/-- The first node that is left after skipping was not seen. -/
lemma not_mem_of_dropWhile_eq_cons {x : α} {rest : List α}
    (h : stack.dropWhile (fun x => decide (x ∈ seen)) = x :: rest) : x ∉ seen := by
  have hne : stack.dropWhile (fun x => decide (x ∈ seen)) ≠ [] := by rw [h]; simp
  have hhead := List.head_dropWhile_not (fun x => decide (x ∈ seen)) hne
  simpa [h] using hhead

/-- Skipping loses only nodes that were seen. -/
lemma mem_seen_or_mem_dropWhile (seen : List α) {x : α} (hx : x ∈ stack) :
    x ∈ seen ∨ x ∈ stack.dropWhile fun x => decide (x ∈ seen) := by
  rw [← List.takeWhile_append_dropWhile (p := fun x => decide (x ∈ seen)) (l := stack)] at hx
  rcases List.mem_append.1 hx with hx | hx
  · exact Or.inl (of_decide_eq_true (List.all_eq_true.1 List.all_takeWhile x hx))
  · exact Or.inr hx

lemma mem_of_mem_dropWhile {x : α}
    (hx : x ∈ stack.dropWhile fun x => decide (x ∈ seen)) : x ∈ stack :=
  (List.dropWhile_suffix _).subset hx

/-! ## Visits are new -/

lemma nodup_visitFrom (fuel : Nat) (stack seen : List α) :
    (visitFrom next fuel stack seen).Nodup ∧ ∀ x ∈ visitFrom next fuel stack seen, x ∉ seen := by
  induction fuel generalizing stack seen with
  | zero => exact ⟨List.nodup_nil, fun x hx => absurd hx List.not_mem_nil⟩
  | succ fuel ih =>
    cases hdrop : stack.dropWhile fun x => decide (x ∈ seen) with
    | nil =>
      rw [visitFrom_succ_of_nil hdrop]
      exact ⟨List.nodup_nil, fun x hx => absurd hx List.not_mem_nil⟩
    | cons x rest =>
      rw [visitFrom_succ_of_cons hdrop]
      obtain ⟨hnodup, hnew⟩ := ih ((next x).reverse ++ rest) (x :: seen)
      refine ⟨List.nodup_cons.2 ⟨fun hx => hnew x hx (List.mem_cons_self ..), hnodup⟩, ?_⟩
      intro y hy
      rcases List.mem_cons.1 hy with rfl | hy
      · exact not_mem_of_dropWhile_eq_cons hdrop
      · exact fun hseen => hnew y hy (List.mem_cons_of_mem _ hseen)

theorem nodup_visit (next : α → List α) (fuel : Nat) (seeds seen : List α) :
    (visit next fuel seeds seen).Nodup :=
  (nodup_visitFrom fuel _ seen).1

/-! ## Only what can be met is visited -/

/-- What holds of the stack and is passed on holds of all that is visited. -/
lemma forall_mem_visitFrom {P : α → Prop} (hP : ∀ x, P x → ∀ y ∈ next x, P y)
    (hstack : ∀ x ∈ stack, P x) {x : α} (hx : x ∈ visitFrom next fuel stack seen) : P x := by
  induction fuel generalizing stack seen with
  | zero => exact absurd hx List.not_mem_nil
  | succ fuel ih =>
    cases hdrop : stack.dropWhile fun x => decide (x ∈ seen) with
    | nil =>
      rw [visitFrom_succ_of_nil hdrop] at hx
      exact absurd hx List.not_mem_nil
    | cons y rest =>
      rw [visitFrom_succ_of_cons hdrop] at hx
      have hrest : ∀ z ∈ y :: rest, P z := fun z hz =>
        hstack z (mem_of_mem_dropWhile (hdrop ▸ hz))
      have hy := hrest y (List.mem_cons_self ..)
      rcases List.mem_cons.1 hx with rfl | hx
      · exact hy
      · refine ih (fun z hz => ?_) hx
        rcases List.mem_append.1 hz with hz | hz
        · exact hP y hy z (List.mem_reverse.1 hz)
        · exact hrest z (List.mem_cons_of_mem _ hz)

theorem forall_mem_visit {P : α → Prop} (hP : ∀ x, P x → ∀ y ∈ next x, P y)
    (hseeds : ∀ x ∈ seeds, P x) {x : α} (hx : x ∈ visit next fuel seeds seen) : P x :=
  forall_mem_visitFrom hP (fun y hy => hseeds y (List.mem_reverse.1 hy)) hx

/-! ## Nothing is left out -/

variable {u : Finset α}

/-- The node visited is no longer among those not seen. -/
lemma card_filter_cons_le {x : α} (hx : x ∈ u) (hnew : x ∉ seen)
    (hfuel : (u.filter (· ∉ seen)).card ≤ fuel + 1) : (u.filter (· ∉ x :: seen)).card ≤ fuel := by
  have hmem : x ∈ u.filter (· ∉ seen) := Finset.mem_filter.2 ⟨hx, hnew⟩
  have hsub : u.filter (· ∉ x :: seen) ⊆ (u.filter (· ∉ seen)).erase x := by
    intro z hz
    obtain ⟨hzu, hzs⟩ := Finset.mem_filter.1 hz
    exact Finset.mem_erase.2 ⟨fun h => hzs (h ▸ List.mem_cons_self ..),
      Finset.mem_filter.2 ⟨hzu, fun h => hzs (List.mem_cons_of_mem _ h)⟩⟩
  have hle := Finset.card_le_card hsub
  rw [Finset.card_erase_of_mem hmem] at hle
  omega

/-- With enough fuel everything on the stack is visited, and the successors of what is visited. -/
lemma visitFrom_complete (seen : List α) (hu : ∀ x ∈ u, ∀ y ∈ next x, y ∈ u)
    (hstack : ∀ x ∈ stack, x ∈ u) (hfuel : (u.filter (· ∉ seen)).card ≤ fuel) :
    (∀ x ∈ stack, x ∈ seen ∨ x ∈ visitFrom next fuel stack seen) ∧
      ∀ x ∈ visitFrom next fuel stack seen, ∀ y ∈ next x,
        y ∈ seen ∨ y ∈ visitFrom next fuel stack seen := by
  -- The fuel bounds what is still unseen in `u`, so it runs out only when everything is seen.
  induction fuel generalizing stack seen with
  | zero =>
    have hempty := Finset.card_eq_zero.1 (Nat.le_zero.1 hfuel)
    refine ⟨fun x hx => Or.inl ?_, fun x hx => absurd hx List.not_mem_nil⟩
    by_contra hseen
    exact absurd (hempty ▸ Finset.mem_filter.2 ⟨hstack x hx, hseen⟩) (Finset.notMem_empty x)
  | succ fuel ih =>
    cases hdrop : stack.dropWhile fun x => decide (x ∈ seen) with
    | nil =>
      rw [visitFrom_succ_of_nil hdrop]
      refine ⟨fun x hx => ?_, fun x hx => absurd hx List.not_mem_nil⟩
      have h := mem_seen_or_mem_dropWhile seen hx
      rwa [hdrop] at h
    | cons x rest =>
      rw [visitFrom_succ_of_cons hdrop]
      have hrest : ∀ z ∈ x :: rest, z ∈ u := fun z hz =>
        hstack z (mem_of_mem_dropWhile (hdrop ▸ hz))
      have hx := hrest x (List.mem_cons_self ..)
      have hnew : ∀ z ∈ (next x).reverse ++ rest, z ∈ u := by
        intro z hz
        rcases List.mem_append.1 hz with hz | hz
        · exact hu x hx z (List.mem_reverse.1 hz)
        · exact hrest z (List.mem_cons_of_mem _ hz)
      have hcard := card_filter_cons_le hx (not_mem_of_dropWhile_eq_cons hdrop) hfuel
      obtain ⟨hall, hnext⟩ := ih (x :: seen) hnew hcard
      -- To be seen before the rest of the walk is to be seen before, or to be the node just
      -- visited.
      have hlift : ∀ z, z ∈ x :: seen ∨
          z ∈ visitFrom next fuel ((next x).reverse ++ rest) (x :: seen) →
          z ∈ seen ∨ z ∈ x :: visitFrom next fuel ((next x).reverse ++ rest) (x :: seen) := by
        rintro z (hz | hz)
        · rcases List.mem_cons.1 hz with rfl | hz
          · exact Or.inr (List.mem_cons_self ..)
          · exact Or.inl hz
        · exact Or.inr (List.mem_cons_of_mem _ hz)
      refine ⟨fun z hz => ?_, fun y hy z hz => ?_⟩
      · rcases mem_seen_or_mem_dropWhile seen hz with hz | hz
        · exact Or.inl hz
        · rw [hdrop] at hz
          rcases List.mem_cons.1 hz with rfl | hz
          · exact Or.inr (List.mem_cons_self ..)
          · exact hlift z (hall z (List.mem_append_right _ hz))
      · rcases List.mem_cons.1 hy with rfl | hy
        · exact hlift z (hall z (List.mem_append_left _ (List.mem_reverse.2 hz)))
        · exact hlift z (hnext y hy z hz)

section Visit

variable (hu : ∀ x ∈ u, ∀ y ∈ next x, y ∈ u) (hseeds : ∀ x ∈ seeds, x ∈ u)

include hu hseeds

variable (hfuel : u.card ≤ fuel)

include hfuel

lemma visit_complete :
    (∀ x ∈ seeds, x ∈ seen ∨ x ∈ visit next fuel seeds seen) ∧
      ∀ x ∈ visit next fuel seeds seen, ∀ y ∈ next x,
        y ∈ seen ∨ y ∈ visit next fuel seeds seen := by
  obtain ⟨hall, hnext⟩ := visitFrom_complete seen hu
    (fun y hy => hseeds y (List.mem_reverse.1 hy)) ((Finset.card_filter_le _ _).trans hfuel)
  exact ⟨fun x hx => hall x (List.mem_reverse.2 hx), hnext⟩

theorem mem_visit_of_mem_seeds {x : α} (hx : x ∈ seeds) :
    x ∈ seen ∨ x ∈ visit next fuel seeds seen :=
  (visit_complete hu hseeds hfuel).1 x hx

theorem mem_visit_of_mem_next {x y : α} (hx : x ∈ visit next fuel seeds seen) (hy : y ∈ next x) :
    y ∈ seen ∨ y ∈ visit next fuel seeds seen :=
  (visit_complete hu hseeds hfuel).2 x hx y hy

/-- If nothing was seen before, just what can be reached from the seeds is visited. -/
theorem mem_visit_iff {x : α} :
    x ∈ visit next fuel seeds [] ↔
      ∃ seed ∈ seeds, Relation.ReflTransGen (fun y z => z ∈ next y) seed x := by
  constructor
  · refine forall_mem_visit (P := fun x => ∃ seed ∈ seeds,
      Relation.ReflTransGen (fun y z => z ∈ next y) seed x) (fun y hy z hz => ?_)
      fun y hy => ⟨y, hy, .refl⟩
    obtain ⟨seed, hseed, hpath⟩ := hy
    exact ⟨seed, hseed, hpath.tail hz⟩
  · rintro ⟨seed, hseed, hpath⟩
    induction hpath with
    | refl => exact (mem_visit_of_mem_seeds hu hseeds hfuel hseed).resolve_left List.not_mem_nil
    | tail _ hz ih =>
      exact (mem_visit_of_mem_next hu hseeds hfuel ih hz).resolve_left List.not_mem_nil

end Visit

/-! ## What was seen before -/

/-- It does not matter in which order nodes were seen. -/
lemma visitFrom_congr {seen' : List α} (h : ∀ x, x ∈ seen ↔ x ∈ seen') (fuel : Nat)
    (stack : List α) : visitFrom next fuel stack seen = visitFrom next fuel stack seen' := by
  induction fuel generalizing stack seen seen' with
  | zero => rfl
  | succ fuel ih =>
    have hskip : (fun x => decide (x ∈ seen)) = fun x => decide (x ∈ seen') :=
      funext fun x => decide_eq_decide.2 (h x)
    rw [visitFrom, visitFrom, hskip]
    split
    · rfl
    · rename_i x rest _
      refine congrArg (x :: ·) (ih (fun y => ?_) _)
      rw [List.mem_cons, List.mem_cons, h]

/-- Skipping stops at the first node that was not seen. -/
lemma dropWhile_of_filter_eq_cons {x : α} {rest : List α}
    (h : stack.filter (fun x => !decide (x ∈ seen)) = x :: rest) :
    ∃ rest', stack.dropWhile (fun x => decide (x ∈ seen)) = x :: rest' ∧
      rest'.filter (fun x => !decide (x ∈ seen)) = rest := by
  induction stack with
  | nil => cases h
  | cons y stack ih =>
    by_cases hy : y ∈ seen
    · rw [List.filter_cons_of_neg (by simpa using hy)] at h
      rw [List.dropWhile_cons_of_pos (by simpa using hy)]
      exact ih h
    · rw [List.filter_cons_of_pos (by simpa using hy)] at h
      rw [List.dropWhile_cons_of_neg (by simpa using hy)]
      obtain ⟨rfl, hrest⟩ := List.cons.inj h
      exact ⟨stack, rfl, hrest⟩

lemma visitFrom_eq_nil (h : stack.filter (fun x => !decide (x ∈ seen)) = []) :
    visitFrom next fuel stack seen = [] := by
  cases fuel with
  | zero => rfl
  | succ fuel =>
    refine visitFrom_succ_of_nil (List.dropWhile_eq_nil_iff.2 fun x hx => ?_)
    simpa using List.filter_eq_nil_iff.1 h x hx

lemma filter_dropWhile (stack : List α) {seen seen' : List α} (h : ∀ x ∈ seen', x ∈ seen) :
    (stack.dropWhile fun x => decide (x ∈ seen')).filter (fun x => !decide (x ∈ seen)) =
      stack.filter fun x => !decide (x ∈ seen) := by
  induction stack with
  | nil => rfl
  | cons y stack ih =>
    by_cases hy : y ∈ seen'
    · rw [List.dropWhile_cons_of_pos (by simpa using hy),
        List.filter_cons_of_neg (by simpa using h y hy), ih]
    · rw [List.dropWhile_cons_of_neg (by simpa using hy)]

/-- The first walk has seen some nodes with all their successors, which the second one has not
seen. -/
lemma visitFrom_eq_filter {done stack' seen' : List α} {fuel' : Nat}
    (hdone : ∀ x ∈ done, ∀ y ∈ next x, y ∈ done) (hu : ∀ x ∈ u, ∀ y ∈ next x, y ∈ u)
    (hstack' : ∀ x ∈ stack', x ∈ u) (hfuel' : (u.filter (· ∉ seen')).card ≤ fuel')
    (hle : fuel' ≤ fuel) (hseen : ∀ x, x ∈ seen ↔ x ∈ done ∨ x ∈ seen')
    (hstacks : stack.filter (fun x => !decide (x ∈ seen)) =
      stack'.filter fun x => !decide (x ∈ seen)) :
    visitFrom next fuel stack seen =
      (visitFrom next fuel' stack' seen').filter fun x => !decide (x ∈ done) := by
  induction fuel' generalizing fuel stack stack' seen seen' with
  | zero =>
    have hempty := Finset.card_eq_zero.1 (Nat.le_zero.1 hfuel')
    refine visitFrom_eq_nil (hstacks.trans (List.filter_eq_nil_iff.2 fun x hx => ?_))
    have hx : x ∈ seen' := by
      by_contra hnew
      exact absurd (hempty ▸ Finset.mem_filter.2 ⟨hstack' x hx, hnew⟩) (Finset.notMem_empty x)
    simpa using (hseen x).2 (Or.inr hx)
  | succ fuel' ih =>
    have hskip := filter_dropWhile stack' fun x hx => (hseen x).2 (Or.inr hx)
    cases hdrop : stack'.dropWhile fun x => decide (x ∈ seen') with
    | nil =>
      rw [hdrop] at hskip
      rw [visitFrom_succ_of_nil hdrop]
      exact visitFrom_eq_nil (hstacks.trans hskip.symm)
    | cons x rest =>
      have hx := not_mem_of_dropWhile_eq_cons hdrop
      have hrest : ∀ z ∈ x :: rest, z ∈ u := fun z hz =>
        hstack' z (mem_of_mem_dropWhile (hdrop ▸ hz))
      have hnew : ∀ z ∈ (next x).reverse ++ rest, z ∈ u := by
        intro z hz
        rcases List.mem_append.1 hz with hz | hz
        · exact hu x (hrest x (List.mem_cons_self ..)) z (List.mem_reverse.1 hz)
        · exact hrest z (List.mem_cons_of_mem _ hz)
      have hcard := card_filter_cons_le (hrest x (List.mem_cons_self ..)) hx hfuel'
      rw [hdrop, ← hstacks] at hskip
      rw [visitFrom_succ_of_cons hdrop]
      by_cases hfinished : x ∈ done
      · -- Only the second walk visits the node, and all that follows from it is finished.
        have hxseen := (hseen x).2 (Or.inl hfinished)
        rw [List.filter_cons_of_neg (by simpa using hfinished)]
        refine ih hnew hcard (by omega) (fun z => ?_) ?_
        · rw [hseen, List.mem_cons]
          constructor
          · exact Or.imp_right Or.inr
          · rintro (hz | rfl | hz)
            · exact Or.inl hz
            · exact Or.inl hfinished
            · exact Or.inr hz
        · have hnone : (next x).reverse.filter (fun z => !decide (z ∈ seen)) = [] := by
            refine List.filter_eq_nil_iff.2 fun z hz => ?_
            have hz := (hseen z).2 (Or.inl (hdone x hfinished z (List.mem_reverse.1 hz)))
            simpa using hz
          rw [← hskip, List.filter_cons_of_neg (by simpa using hxseen), List.filter_append, hnone,
            List.nil_append]
      · -- Both walks visit the node.
        have hxseen : x ∉ seen := fun h => ((hseen x).1 h).elim hfinished hx
        rw [List.filter_cons_of_pos (by simpa using hxseen)] at hskip
        obtain ⟨rest₁, hdrop₁, hrest₁⟩ := dropWhile_of_filter_eq_cons hskip.symm
        obtain ⟨fuel, rfl⟩ : ∃ n, fuel = n + 1 := ⟨fuel - 1, by omega⟩
        rw [visitFrom_succ_of_cons hdrop₁, List.filter_cons_of_pos (by simpa using hfinished)]
        refine congrArg (x :: ·) (ih hnew hcard (by omega) (fun z => ?_) ?_)
        · rw [List.mem_cons, List.mem_cons, hseen, or_left_comm]
        · have hboth (l : List α) : l.filter (fun z => !decide (z ∈ x :: seen)) =
              (l.filter fun z => !decide (z ∈ seen)).filter fun z => !decide (z = x) := by
            rw [List.filter_filter]
            refine List.filter_congr fun z _ => ?_
            simp [List.mem_cons]
          rw [hboth, hboth]
          simp only [List.filter_append, hrest₁]

/-- A walk that has seen some nodes with all their successors visits the others in the order in
which a walk visits them that has not. -/
theorem visit_eq_filter {done : List α} (hdone : ∀ x ∈ done, ∀ y ∈ next x, y ∈ done)
    (hu : ∀ x ∈ u, ∀ y ∈ next x, y ∈ u) (hseeds : ∀ x ∈ seeds, x ∈ u) (hfuel : u.card ≤ fuel) :
    visit next fuel seeds done =
      (visit next fuel seeds []).filter fun x => !decide (x ∈ done) :=
  visitFrom_eq_filter hdone hu (fun y hy => hseeds y (List.mem_reverse.1 hy))
    ((Finset.card_filter_le _ _).trans hfuel) le_rfl (by simp) rfl

end Walk

end HeapQual
