import Mathlib.Algebra.Order.BigOperators.Group.Finset
import HeapQual.Worklist

/-!
# Worklist runs find solutions

`Equations.solve` is a run of steps under a bound on their number.  This file shows, for any
system that is *graded*, that the bound is never reached, so the run ends because its queue is
empty (`Equations.Graded.queue_solve`), and that its values then satisfy every equation
(`Equations.Graded.solve_fixed`).

A system is graded when values have a rank below its height that every revision which changes a
value raises, and when a revision concerns no other nodes than those it queues.  Two facts are
carried through the run.  Every node that is not queued satisfies its equation.  And the length of
the queue, plus for every node and every step that its rank can still rise the number of nodes,
falls with every step: a step that changes nothing shortens the queue, and a step that changes a
value queues at most all nodes.

`Equations.Graded.solve_induction` is how anything else is learnt about the values found: what
holds of the starting values and survives every revision holds of them.
-/

namespace HeapQual

namespace Worklist

variable {α : Type}

/-! ## The queue -/

lemma mem_enqueue {queue : List Nat} {i j : Nat} : j ∈ enqueue queue i ↔ j ∈ queue ∨ j = i := by
  unfold enqueue
  split
  · rename_i hi
    constructor
    · exact Or.inl
    · rintro (h | rfl)
      · exact h
      · exact hi
  · simp

lemma nodup_enqueue {queue : List Nat} (h : queue.Nodup) (i : Nat) : (enqueue queue i).Nodup := by
  unfold enqueue
  split
  · exact h
  · rename_i hi
    refine List.nodup_append.2 ⟨h, List.nodup_singleton i, ?_⟩
    intro a ha b hb
    rw [List.mem_singleton.1 hb]
    exact fun hab => hi (hab ▸ ha)

@[simp] lemma mem_enqueueAll {queue nodes : List Nat} {j : Nat} :
    j ∈ enqueueAll queue nodes ↔ j ∈ queue ∨ j ∈ nodes := by
  induction nodes generalizing queue with
  | nil => simp [enqueueAll]
  | cons i nodes ih =>
    have hcons : enqueueAll queue (i :: nodes) = enqueueAll (enqueue queue i) nodes := rfl
    rw [hcons, ih, mem_enqueue, List.mem_cons, or_assoc]

lemma nodup_enqueueAll {queue : List Nat} (h : queue.Nodup) (nodes : List Nat) :
    (enqueueAll queue nodes).Nodup := by
  induction nodes generalizing queue with
  | nil => exact h
  | cons i nodes ih => exact ih (nodup_enqueue h i)

/-! ## Steps and runs -/

variable [DecidableEq α] {eqs : Equations α}

lemma step_of_settled {w : Worklist α} {i : Nat} {rest : List Nat} (hq : w.queue = i :: rest)
    (h : w.values[i]? = some (eqs.revise w.values i)) :
    step eqs w = { w with queue := rest, steps := w.steps + 1 } := by
  simp [step, hq, h]

lemma step_of_changed {w : Worklist α} {i : Nat} {rest : List Nat} (hq : w.queue = i :: rest)
    (h : w.values[i]? ≠ some (eqs.revise w.values i)) :
    step eqs w =
      { values := w.values.setIfInBounds i (eqs.revise w.values i)
        queue := enqueueAll rest (eqs.dependents i)
        steps := w.steps + 1 } := by
  simp [step, hq, h]

theorem run_induction {P : Worklist α → Prop}
    (hstep : ∀ w, P w → w.queue ≠ [] → P (step eqs w)) (fuel : Nat) {w : Worklist α} (hw : P w) :
    P (run eqs fuel w) := by
  induction fuel generalizing w with
  | zero => exact hw
  | succ fuel ih =>
    unfold run
    split
    · exact hw
    · rename_i hq
      exact ih (hstep w hw (by simpa using hq))

/-- A run empties its queue if every step decreases a measure that is below the fuel. -/
theorem queue_run_eq_nil {P : Worklist α → Prop} (measure : Worklist α → Nat)
    (hstep : ∀ w, P w → w.queue ≠ [] → P (step eqs w))
    (hlt : ∀ w, P w → w.queue ≠ [] → measure (step eqs w) < measure w) {fuel : Nat}
    {w : Worklist α} (hw : P w) (hfuel : measure w < fuel) : (run eqs fuel w).queue = [] := by
  induction fuel generalizing w with
  | zero => exact absurd hfuel (Nat.not_lt_zero _)
  | succ fuel ih =>
    unfold run
    split
    · rename_i hq
      simpa using hq
    · rename_i hq
      have hne : w.queue ≠ [] := by simpa using hq
      have := hlt w hw hne
      exact ih (hstep w hw hne) (by omega)

/-- A run whose queue is empty stays as it is. -/
lemma run_of_queue_nil {w : Worklist α} (h : w.queue = []) (fuel : Nat) : run eqs fuel w = w := by
  cases fuel with
  | zero => rfl
  | succ fuel => simp [run, h]

/-- Once the queue is empty, more fuel makes no difference. -/
lemma run_of_le {fuel fuel' : Nat} (hle : fuel ≤ fuel') {w : Worklist α}
    (h : (run eqs fuel w).queue = []) : run eqs fuel' w = run eqs fuel w := by
  induction fuel generalizing w fuel' with
  | zero => exact run_of_queue_nil h fuel'
  | succ fuel ih =>
    obtain ⟨fuel', rfl⟩ : ∃ m, fuel' = m + 1 := ⟨fuel' - 1, by omega⟩
    unfold run at h ⊢
    split
    · rfl
    · rename_i hq
      rw [if_neg hq] at h
      exact ih (by omega) h

end Worklist

namespace Equations

variable {α : Type} {eqs : Equations α} {rank : α → Nat} {Good : Array α → Prop}

/-- A system whose values rise in rank.  `Good` holds of the arrays of values that can arise. -/
structure Graded (eqs : Equations α) (rank : α → Nat) (Good : Array α → Prop) : Prop where
  nodup : eqs.nodes.Nodup
  nodes_lt : ∀ i ∈ eqs.nodes, i < eqs.start.size
  dependents_mem : ∀ i ∈ eqs.nodes, ∀ j ∈ eqs.dependents i, j ∈ eqs.nodes
  good_start : Good eqs.start
  good_revise : ∀ values, values.size = eqs.start.size → Good values → ∀ i ∈ eqs.nodes,
    Good (values.setIfInBounds i (eqs.revise values i))
  rank_le : ∀ values, Good values → ∀ (i : Nat) v, values[i]? = some v → rank v ≤ eqs.height
  rank_lt : ∀ values, Good values → ∀ i ∈ eqs.nodes, ∀ v, values[i]? = some v →
    v ≠ eqs.revise values i → rank v < rank (eqs.revise values i)
  /-- A revision concerns the nodes it queues, and no others. -/
  revise_revised : ∀ values, values.size = eqs.start.size → Good values → ∀ i ∈ eqs.nodes,
    ∀ j ∈ eqs.nodes, j ∉ eqs.dependents i →
      eqs.revise (values.setIfInBounds i (eqs.revise values i)) j = eqs.revise values j

/-- How far all ranks can still rise. -/
def room (eqs : Equations α) (rank : α → Nat) (values : Array α) : Nat :=
  ∑ i ∈ Finset.range eqs.start.size, values[i]?.elim 0 fun v => eqs.height - rank v

/-- The nodes that are not queued satisfy their equations, and the queue is in order. -/
structure Running (eqs : Equations α) (Good : Array α → Prop) (w : Worklist α) : Prop where
  size_eq : w.values.size = eqs.start.size
  good : Good w.values
  nodup : w.queue.Nodup
  queue_mem : ∀ i ∈ w.queue, i ∈ eqs.nodes
  settled : ∀ i ∈ eqs.nodes, i ∉ w.queue → w.values[i]? = some (eqs.revise w.values i)

lemma room_le (eqs : Equations α) (rank : α → Nat) (values : Array α) :
    eqs.room rank values ≤ eqs.start.size * eqs.height := by
  unfold room
  calc
    _ ≤ ∑ _i ∈ Finset.range eqs.start.size, eqs.height := by
      refine Finset.sum_le_sum fun i _ => ?_
      cases values[i]? with
      | none => exact Nat.zero_le _
      | some v => exact Nat.sub_le _ _
    _ = eqs.start.size * eqs.height := by simp

lemma room_set_lt {values : Array α} {i : Nat} {v v' : α} (hi : i < eqs.start.size)
    (hv : values[i]? = some v) (hlt : rank v < rank v') (hle : rank v' ≤ eqs.height) :
    eqs.room rank (values.setIfInBounds i v') < eqs.room rank values := by
  have hsize : i < values.size := (Array.getElem?_eq_some_iff.1 hv).1
  unfold room
  refine Finset.sum_lt_sum (fun j _ => ?_) ⟨i, Finset.mem_range.2 hi, ?_⟩
  · by_cases hj : i = j
    · subst hj
      rw [Array.getElem?_setIfInBounds_self_of_lt hsize, hv]
      simp only [Option.elim_some]
      omega
    · rw [Array.getElem?_setIfInBounds_ne hj]
  · rw [Array.getElem?_setIfInBounds_self_of_lt hsize, hv]
    simp only [Option.elim_some]
    omega

namespace Graded

lemma running_initial (h : eqs.Graded rank Good) : eqs.Running Good eqs.initial where
  size_eq := rfl
  good := h.good_start
  nodup := h.nodup
  queue_mem _ hi := hi
  settled _ hi hq := absurd hi hq

variable [DecidableEq α]

lemma running_step (h : eqs.Graded rank Good) {w : Worklist α} (hw : eqs.Running Good w)
    (hq : w.queue ≠ []) : eqs.Running Good (Worklist.step eqs w) := by
  obtain ⟨i, rest, hqueue⟩ := List.exists_cons_of_ne_nil hq
  have hmem : ∀ j, j ∈ w.queue ↔ j = i ∨ j ∈ rest := by simp [hqueue]
  have hnodup : i ∉ rest ∧ rest.Nodup := List.nodup_cons.1 (hqueue ▸ hw.nodup)
  have hi : i ∈ eqs.nodes := hw.queue_mem i ((hmem i).2 (Or.inl rfl))
  have hlt : i < w.values.size := hw.size_eq ▸ h.nodes_lt i hi
  by_cases hset : w.values[i]? = some (eqs.revise w.values i)
  · rw [Worklist.step_of_settled hqueue hset]
    refine ⟨hw.size_eq, hw.good, hnodup.2, fun j hj => hw.queue_mem j ((hmem j).2 (Or.inr hj)), ?_⟩
    intro j hj hjq
    by_cases hji : j = i
    · exact hji ▸ hset
    · exact hw.settled j hj fun hjw => ((hmem j).1 hjw).elim hji hjq
  · rw [Worklist.step_of_changed hqueue hset]
    refine ⟨by simpa using hw.size_eq, h.good_revise _ hw.size_eq hw.good i hi,
      Worklist.nodup_enqueueAll hnodup.2 _, ?_, ?_⟩
    · intro j hj
      rcases Worklist.mem_enqueueAll.1 hj with hj | hj
      · exact hw.queue_mem j ((hmem j).2 (Or.inr hj))
      · exact h.dependents_mem i hi j hj
    · intro j hj hjq
      rw [Worklist.mem_enqueueAll, not_or] at hjq
      -- A node that is not queued now depends neither on the queue nor on the revised node.
      rw [h.revise_revised _ hw.size_eq hw.good i hi j hj hjq.2]
      by_cases hji : j = i
      · subst hji
        exact Array.getElem?_setIfInBounds_self_of_lt hlt
      · rw [Array.getElem?_setIfInBounds_ne (Ne.symm hji)]
        exact hw.settled j hj fun hjw => ((hmem j).1 hjw).elim hji hjq.1

/-- Every step decreases what is left to do. -/
lemma measure_step_lt (h : eqs.Graded rank Good) {w : Worklist α} (hw : eqs.Running Good w)
    (hq : w.queue ≠ []) :
    (Worklist.step eqs w).queue.length +
        eqs.start.size * eqs.room rank (Worklist.step eqs w).values <
      w.queue.length + eqs.start.size * eqs.room rank w.values := by
  obtain ⟨i, rest, hqueue⟩ := List.exists_cons_of_ne_nil hq
  have hi : i ∈ eqs.nodes := hw.queue_mem i (by simp [hqueue])
  have hlt := h.nodes_lt i hi
  by_cases hset : w.values[i]? = some (eqs.revise w.values i)
  · rw [Worklist.step_of_settled hqueue hset, hqueue]
    simp
  · -- The new queue has room for every node once, which one step of rank pays for.
    have hrun := h.running_step hw hq
    have hlength : (Worklist.step eqs w).queue.length ≤ eqs.start.size := by
      have hsub : (Worklist.step eqs w).queue ⊆ List.range eqs.start.size := fun j hj =>
        List.mem_range.2 (h.nodes_lt j (hrun.queue_mem j hj))
      simpa using (List.subperm_of_subset hrun.nodup hsub).length_le
    obtain ⟨v, hv⟩ : ∃ v, w.values[i]? = some v :=
      ⟨_, Array.getElem?_eq_getElem (hw.size_eq ▸ hlt)⟩
    have hne : v ≠ eqs.revise w.values i := fun hv' => hset (hv' ▸ hv)
    have hvalues : (Worklist.step eqs w).values =
        w.values.setIfInBounds i (eqs.revise w.values i) := by
      rw [Worklist.step_of_changed hqueue hset]
    have hle : rank (eqs.revise w.values i) ≤ eqs.height := by
      refine h.rank_le _ hrun.good i _ ?_
      rw [hvalues]
      exact Array.getElem?_setIfInBounds_self_of_lt (hw.size_eq ▸ hlt)
    have hroom : eqs.room rank (Worklist.step eqs w).values + 1 ≤ eqs.room rank w.values := by
      rw [hvalues]
      exact room_set_lt hlt hv (h.rank_lt _ hw.good i hi v hv hne) hle
    have hmul := Nat.mul_le_mul_left eqs.start.size hroom
    rw [Nat.mul_add, Nat.mul_one] at hmul
    rw [hqueue, List.length_cons]
    omega

lemma running_solve (h : eqs.Graded rank Good) : eqs.Running Good eqs.solve :=
  Worklist.run_induction (fun _ hw hq => h.running_step hw hq) _ h.running_initial

theorem queue_solve (h : eqs.Graded rank Good) : eqs.solve.queue = [] := by
  refine Worklist.queue_run_eq_nil (P := eqs.Running Good)
    (fun w => w.queue.length + eqs.start.size * eqs.room rank w.values)
    (fun _ hw hq => h.running_step hw hq) (fun _ hw hq => h.measure_step_lt hw hq)
    h.running_initial ?_
  have hroom := Nat.mul_le_mul_left eqs.start.size (eqs.room_le rank eqs.start)
  have hbound : eqs.bound =
      eqs.nodes.length + eqs.start.size * (eqs.start.size * eqs.height) := by
    rw [bound, Nat.mul_comm (eqs.start.size * eqs.height)]
  rw [hbound]
  exact Nat.lt_succ_of_le (Nat.add_le_add_left hroom _)

theorem solve_fixed (h : eqs.Graded rank Good) {i : Nat} (hi : i ∈ eqs.nodes) :
    eqs.solve.values[i]? = some (eqs.revise eqs.solve.values i) :=
  h.running_solve.settled i hi (by simp [h.queue_solve])

lemma good_solve (h : eqs.Graded rank Good) : Good eqs.solve.values := h.running_solve.good

lemma size_solve (h : eqs.Graded rank Good) : eqs.solve.values.size = eqs.start.size :=
  h.running_solve.size_eq

theorem solve_induction (h : eqs.Graded rank Good) {P : Array α → Prop} (start : P eqs.start)
    (revise : ∀ values, values.size = eqs.start.size → Good values → P values →
      ∀ i ∈ eqs.nodes, P (values.setIfInBounds i (eqs.revise values i))) :
    P eqs.solve.values := by
  have hrun : eqs.Running Good eqs.solve ∧ P eqs.solve.values := by
    refine Worklist.run_induction (P := fun w => eqs.Running Good w ∧ P w.values) ?_ _
      ⟨h.running_initial, start⟩
    rintro w ⟨hw, hP⟩ hq
    refine ⟨h.running_step hw hq, ?_⟩
    obtain ⟨i, rest, hqueue⟩ := List.exists_cons_of_ne_nil hq
    by_cases hset : w.values[i]? = some (eqs.revise w.values i)
    · rw [Worklist.step_of_settled hqueue hset]
      exact hP
    · rw [Worklist.step_of_changed hqueue hset]
      exact revise _ hw.size_eq hw.good hP i (hw.queue_mem i (by simp [hqueue]))
  exact hrun.2

end Graded

/-- A greater height changes nothing about a run that ends by itself. -/
lemma solve_of_height_le [DecidableEq α] {eqs' : Equations α} (hstart : eqs'.start = eqs.start)
    (hnodes : eqs'.nodes = eqs.nodes) (hrevise : eqs'.revise = eqs.revise)
    (hdependents : eqs'.dependents = eqs.dependents) (hle : eqs.height ≤ eqs'.height)
    (h : eqs.solve.queue = []) : eqs'.solve = eqs.solve := by
  have hstep : Worklist.step eqs' = Worklist.step eqs := by
    funext w
    unfold Worklist.step
    rw [hrevise, hdependents]
  have hrun : ∀ fuel w, Worklist.run eqs' fuel w = Worklist.run eqs fuel w := by
    intro fuel
    induction fuel with
    | zero => exact fun _ => rfl
    | succ fuel ih =>
      intro w
      simp only [Worklist.run, hstep, ih]
  have hinitial : eqs'.initial = eqs.initial := by simp [initial, hstart, hnodes]
  have hbound : eqs.bound ≤ eqs'.bound := by
    unfold bound
    rw [hstart, hnodes]
    gcongr
  unfold solve
  rw [hrun, hinitial]
  exact Worklist.run_of_le (Nat.succ_le_succ hbound) h

end Equations

end HeapQual
