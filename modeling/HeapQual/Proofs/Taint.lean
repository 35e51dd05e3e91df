import HeapQual.Lattice.Taint
import HeapQual.Proofs.Speech
import Mathlib.Logic.Relation

/-!
# What the taint lattice computes

A variable of the taint lattice is tainted exactly if a tainted constant reaches it along the
inequalities that the lattice was told (`Taint.Records`).  Whenever the lattice is told one more, it
pushes lower bounds forward from there.  A push ends with all variables raised that can be reached:
what is still to be done is on the stack (`Taint.Push.Pending`), and with every step either the
stack gets shorter or a variable is raised, so the stack is empty in the end
(`Taint.Push.run_spec`).

As long as it was asked only about variables that exist, a dialogue with the lattice keeps the
lattice in step with its journal (`Dialogue.Traces`).
-/

namespace HeapQual

open Relation (ReflTransGen)

namespace Taint

variable {vars : Array TaintVariable} {i j : Nat}

/-! ## Variables and edges -/

/-- The lower bound of the variable is tainted. -/
def TaintedIn (vars : Array TaintVariable) (i : Nat) : Prop :=
  ∃ v, vars[i]? = some v ∧ v.lower = .tainted

/-- There is an edge between the variables. -/
def Leads (vars : Array TaintVariable) (i j : Nat) : Prop :=
  ∃ v, vars[i]? = some v ∧ j ∈ v.successors

/-- How many variables have not been raised. -/
def clean (vars : Array TaintVariable) : Nat :=
  vars.countP fun v => decide (v.lower = .untainted)

lemma TaintedIn.lt (h : TaintedIn vars i) : i < vars.size := by
  obtain ⟨v, hv, -⟩ := h
  exact (Array.getElem?_eq_some_iff.1 hv).1

lemma clean_le (vars : Array TaintVariable) : clean vars ≤ vars.size := Array.countP_le_size

/-! ## One push -/

namespace Push

variable {p p' p'' : Push} {new new' : Nat → Prop}

/-- Between the two states these variables were raised. -/
structure Advances (p : Push) (new : Nat → Prop) (p' : Push) : Prop where
  size_eq : p'.vars.size = p.vars.size
  leads_iff : ∀ i j, Leads p'.vars i j ↔ Leads p.vars i j
  tainted_iff : ∀ i, TaintedIn p'.vars i ↔ TaintedIn p.vars i ∨ new i
  stack_subset : ∀ i ∈ p.stack, i ∈ p'.stack
  mem_stack : ∀ i, TaintedIn p'.vars i → ¬TaintedIn p.vars i → i ∈ p'.stack
  work_eq : clean p'.vars + p'.stack.length = clean p.vars + p.stack.length

namespace Advances

lemma refl (h : ∀ i, ¬new i ∨ TaintedIn p.vars i) : Advances p new p := by
  refine ⟨rfl, fun _ _ => Iff.rfl, fun i => ⟨Or.inl, ?_⟩, fun _ h => h,
    fun i h hne => absurd h hne, rfl⟩
  rintro (hi | hnew)
  · exact hi
  · exact (h i).resolve_left (fun hne => hne hnew)

lemma trans (h : Advances p new p') (h' : Advances p' new' p'') :
    Advances p (fun i => new i ∨ new' i) p'' where
  size_eq := h'.size_eq.trans h.size_eq
  leads_iff i j := (h'.leads_iff i j).trans (h.leads_iff i j)
  tainted_iff i := by rw [h'.tainted_iff, h.tainted_iff, or_assoc]
  stack_subset i hi := h'.stack_subset i (h.stack_subset i hi)
  mem_stack i hi hne := by
    by_cases hbetween : TaintedIn p'.vars i
    · exact h'.stack_subset i (h.mem_stack i hbetween hne)
    · exact h'.mem_stack i hi hbetween
  work_eq := h'.work_eq.trans h.work_eq

end Advances

lemma raise_untainted (p : Push) (j : Nat) : p.raise .untainted j = p := by
  unfold raise
  split
  · rfl
  · rename_i v _
    cases hlower : v.lower <;> simp [TaintValue.below]

lemma raise_of_tainted {v : TaintVariable} (hv : p.vars[j]? = some v) (h : v.lower = .tainted) :
    p.raise .tainted j = p := by
  simp [raise, hv, h, TaintValue.below]

lemma raise_of_clean {v : TaintVariable} (hv : p.vars[j]? = some v) (h : v.lower = .untainted) :
    ∃ holds, p.raise .tainted j =
      ⟨p.vars.setIfInBounds j { v with lower := .tainted }, holds, j :: p.stack⟩ := by
  refine ⟨p.holds && !v.upper.below .tainted, ?_⟩
  simp [raise, hv, h, TaintValue.below]

/-- Raising a variable to tainted. -/
lemma advances_raise (p : Push) (j : Nat) :
    Advances p (fun i => i = j ∧ j < p.vars.size) (p.raise .tainted j) := by
  cases hv : p.vars[j]? with
  | none =>
    rw [show p.raise .tainted j = p by simp [raise, hv]]
    refine .refl fun i => Or.inl ?_
    rintro ⟨-, hlt⟩
    exact absurd (Array.getElem?_eq_none_iff.1 hv) (Nat.not_le.2 hlt)
  | some v =>
    obtain ⟨hlt, hget⟩ := Array.getElem?_eq_some_iff.1 hv
    cases hlower : v.lower with
    | tainted =>
      rw [raise_of_tainted hv hlower]
      refine .refl fun i => ?_
      by_cases hij : i = j
      · exact Or.inr (hij ▸ ⟨v, hv, hlower⟩)
      · exact Or.inl fun h => hij h.1
    | untainted =>
      -- Only a variable that was clean is raised, and then it is put on the stack.
      obtain ⟨holds, hraise⟩ := raise_of_clean hv hlower
      have hset : ∀ i, (p.vars.setIfInBounds j { v with lower := .tainted })[i]? =
          if j = i then some { v with lower := .tainted } else p.vars[i]? := by
        intro i
        rw [Array.getElem?_setIfInBounds]
        simp [hlt]
      rw [hraise]
      refine ⟨Array.size_setIfInBounds, fun i k => ?_, fun i => ?_, fun i hi => ?_,
        fun i hi hne => ?_, ?_⟩
      · unfold Leads
        rw [hset]
        split
        · rename_i hij
          cases hij
          simp [hv]
        · exact Iff.rfl
      · unfold TaintedIn
        rw [hset]
        split
        · rename_i hij
          cases hij
          simp [hlt]
        · rename_i hij
          simp [Ne.symm hij]
      · exact List.mem_cons_of_mem _ hi
      · by_cases hij : j = i
        · exact hij ▸ List.mem_cons_self ..
        · unfold TaintedIn at hi
          rw [hset, if_neg hij] at hi
          exact absurd hi hne
      -- The measure: one clean variable less, and one more on the stack.
      · have hcount : clean (p.vars.setIfInBounds j { v with lower := .tainted }) + 1 =
            clean p.vars := by
          have hpos : 0 < clean p.vars :=
            Array.countP_pos_iff.2 ⟨v, Array.mem_of_getElem? hv, by simp [hlower]⟩
          unfold clean at hpos ⊢
          rw [Array.setIfInBounds_def, dif_pos hlt, Array.countP_set]
          simp only [hget, hlower]
          simp
          omega
        dsimp only
        rw [← hcount, List.length_cons]
        omega

/-- Raising the successors of a tainted variable. -/
lemma advances_foldl (p : Push) (js : List Nat) :
    Advances p (fun i => i ∈ js ∧ i < p.vars.size) (js.foldl (raise .tainted) p) := by
  induction js generalizing p with
  | nil => exact .refl fun i => Or.inl fun h => absurd h.1 List.not_mem_nil
  | cons j js ih =>
    have hstep := (advances_raise p j).trans (ih (p.raise .tainted j))
    have hsize := (advances_raise p j).size_eq
    refine ⟨hstep.size_eq, hstep.leads_iff, fun i => ?_, hstep.stack_subset, hstep.mem_stack,
      hstep.work_eq⟩
    rw [List.foldl_cons, hstep.tainted_iff, hsize, List.mem_cons]
    refine or_congr_right ⟨?_, ?_⟩
    · rintro (⟨rfl, hlt⟩ | ⟨hmem, hlt⟩)
      · exact ⟨Or.inl rfl, hlt⟩
      · exact ⟨Or.inr hmem, hlt⟩
    · rintro ⟨rfl | hmem, hlt⟩
      · exact Or.inl ⟨rfl, hlt⟩
      · exact Or.inr ⟨hmem, hlt⟩

lemma foldl_raise_untainted (p : Push) (js : List Nat) :
    js.foldl (raise .untainted) p = p := by
  induction js with
  | nil => rfl
  | cons j js ih => rw [List.foldl_cons, raise_untainted, ih]

/-- A push that began with these variables: what it raised is reached, and what is still to be
raised is reached from the stack. -/
structure Pending (start : Array TaintVariable) (p : Push) : Prop where
  size_eq : p.vars.size = start.size
  leads_iff : ∀ i j, Leads p.vars i j ↔ Leads start i j
  tainted : ∀ i, TaintedIn start i → TaintedIn p.vars i
  reached : ∀ i, TaintedIn p.vars i → ∃ k, TaintedIn start k ∧ ReflTransGen (Leads start) k i
  passed : ∀ i j, TaintedIn p.vars i → i ∉ p.stack → Leads start i j → j < start.size →
    TaintedIn p.vars j

/-- Looking at the successors of the variable on top of the stack. -/
lemma Pending.step {start : Array TaintVariable} {v : TaintVariable} {rest : List Nat}
    (h : Pending start p) (hstack : p.stack = i :: rest) (hv : p.vars[i]?.getD default = v)
    (hp' : v.successors.foldl (raise v.lower) { p with stack := rest } = p') :
    Pending start p' ∧ clean p'.vars + p'.stack.length + 1 = clean p.vars + p.stack.length := by
  cases hlower : v.lower with
  | untainted =>
    rw [hlower, foldl_raise_untainted] at hp'
    cases hp'
    refine ⟨⟨h.size_eq, h.leads_iff, h.tainted, h.reached, fun k j hk hmem => ?_⟩, ?_⟩
    · refine h.passed k j hk (hstack ▸ fun hcons => ?_)
      rcases List.mem_cons.1 hcons with rfl | hrest
      · obtain ⟨w, hw, htainted⟩ := hk
        rw [hw, Option.getD_some] at hv
        rw [hv, hlower] at htainted
        cases htainted
      · exact hmem hrest
    · rw [hstack, List.length_cons, ← Nat.add_assoc]
  | tainted =>
    rw [hlower] at hp'
    have hget : p.vars[i]? = some v := by
      cases hget : p.vars[i]? with
      | some w => rw [← hv, hget, Option.getD_some]
      | none =>
        rw [hget, Option.getD_none] at hv
        rw [← hv] at hlower
        cases hlower
    have htainted : TaintedIn p.vars i := ⟨v, hget, hlower⟩
    have hadvances := hp' ▸ advances_foldl { p with stack := rest } v.successors
    refine ⟨⟨hadvances.size_eq.trans h.size_eq,
      fun k j => (hadvances.leads_iff k j).trans (h.leads_iff k j),
      fun k hk => (hadvances.tainted_iff k).2 (Or.inl (h.tainted k hk)), fun k hk => ?_,
      fun k j hk hmem hleads hlt => ?_⟩, ?_⟩
    · rcases (hadvances.tainted_iff k).1 hk with hk | ⟨hsuccessor, -⟩
      · exact h.reached k hk
      · obtain ⟨source, hsource, hpath⟩ := h.reached i htainted
        exact ⟨source, hsource, hpath.tail ((h.leads_iff i k).1 ⟨v, hget, hsuccessor⟩)⟩
    · -- What is not on the stack was tainted before, and was not on the stack then, or is `i`.
      have hbefore : TaintedIn p.vars k := by
        by_contra hne
        exact hmem (hadvances.mem_stack k hk hne)
      rw [hadvances.tainted_iff]
      by_cases hki : k = i
      · obtain ⟨w, hw, hsuccessor⟩ := (h.leads_iff k j).2 hleads
        rw [hki, hget] at hw
        cases hw
        exact Or.inr ⟨hsuccessor, h.size_eq ▸ hlt⟩
      · refine Or.inl (h.passed k j hbefore (hstack ▸ fun hcons => ?_) hleads hlt)
        exact hmem (hadvances.stack_subset k ((List.mem_cons.1 hcons).resolve_left hki))
    · have hwork : clean p'.vars + p'.stack.length = clean p.vars + rest.length := hadvances.work_eq
      rw [hwork, hstack, List.length_cons]
      omega

/-- With enough fuel a push ends, and everything that can be reached is raised. -/
theorem run_spec {start : Array TaintVariable} {fuel : Nat} (h : Pending start p)
    (hfuel : clean p.vars + p.stack.length ≤ fuel) :
    Pending start (run fuel p) ∧ (run fuel p).stack = [] := by
  induction fuel generalizing p with
  | zero =>
    have hstack : p.stack = [] := List.length_eq_zero_iff.1 (by omega)
    exact ⟨h, hstack⟩
  | succ fuel ih =>
    unfold run
    cases hstack : p.stack with
    | nil => exact ⟨h, hstack⟩
    | cons i rest =>
      obtain ⟨hpending, hwork⟩ := h.step hstack rfl rfl
      exact ih hpending (by omega)

/-- When a push has ended, the tainted variables are those that are reached from what was tainted in
the beginning. -/
lemma Pending.tainted_iff {start : Array TaintVariable} (h : Pending start p)
    (hstack : p.stack = []) (hlt : ∀ i j, Leads start i j → j < start.size) (i : Nat) :
    TaintedIn p.vars i ↔ ∃ k, TaintedIn start k ∧ ReflTransGen (Leads start) k i := by
  refine ⟨h.reached i, ?_⟩
  rintro ⟨k, hk, hpath⟩
  induction hpath with
  | refl => exact h.tainted k hk
  | tail _ hleads ih =>
    exact h.passed _ _ ih (by simp [hstack]) hleads (hlt _ _ hleads)

end Push

/-! ## What was told, and what it comes to -/

/-- One of the inequalities is between types at these positions. -/
def Passes (told : List (Telling Int)) (i j : Nat) : Prop :=
  ∃ t ∈ told, position t.lower = i ∧ position t.upper = j

lemma passes_cons {told : List (Telling Int)} {t : Telling Int} :
    Passes (t :: told) i j ↔ (position t.lower = i ∧ position t.upper = j) ∨ Passes told i j := by
  simp [Passes]

/-- The lattice has these tainted constants, and was told these inequalities. -/
structure Records (t : Taint) (sources : List Nat) (told : List (Telling Int)) : Prop where
  leads_iff : ∀ i j, Leads t.vars i j ↔ Passes told i j
  passes_lt : ∀ i j, Passes told i j → i < t.vars.size ∧ j < t.vars.size
  source_lt : ∀ i ∈ sources, i < t.vars.size
  tainted_iff : ∀ i, TaintedIn t.vars i ↔ ∃ source ∈ sources, ReflTransGen (Passes told) source i

variable {t : Taint} {sources : List Nat} {told : List (Telling Int)} {l r : Int}

lemma value_eq_tainted_iff {q : Int} :
    t.value q = .ok .tainted ↔ TaintedIn t.vars (position q) := by
  unfold value read TaintedIn
  cases t.vars[position q]? with
  | none => simp [Except.map]
  | some v => simp [Except.map]

lemma read_eq_ok_iff {q : Int} {v : TaintVariable} :
    t.read q = .ok v ↔ t.vars[position q]? = some v := by
  unfold read
  cases t.vars[position q]? with
  | none => simp
  | some w => simp

/-- A lattice that still has no fault could answer, and had none before. -/
lemma leq_of_fault (h : (t.leq l r).2.fault = none) :
    t.fault = none ∧ ∃ v w, t.vars[position l]? = some v ∧ t.vars[position r]? = some w := by
  unfold leq at h
  cases hl : t.read l with
  | error f => simp [hl, fail] at h
  | ok v =>
    cases hr : t.read r with
    | error f => simp [hl, hr, fail] at h
    | ok w =>
      simp only [hl, hr] at h
      exact ⟨h, v, w, read_eq_ok_iff.1 hl, read_eq_ok_iff.1 hr⟩

/-- The variables after variable `i`, which is `v`, has got `j` as one more successor. -/
def link (vars : Array TaintVariable) (v : TaintVariable) (i j : Nat) : Array TaintVariable :=
  vars.setIfInBounds i { v with successors := v.successors ++ [j] }

lemma size_link (vars : Array TaintVariable) (v : TaintVariable) (i j : Nat) :
    (link vars v i j).size = vars.size :=
  Array.size_setIfInBounds

lemma getElem?_link {v : TaintVariable} (hv : vars[i]? = some v) (k : Nat) :
    (link vars v i j)[k]? =
      if i = k then some { v with successors := v.successors ++ [j] } else vars[k]? := by
  obtain ⟨hi, -⟩ := Array.getElem?_eq_some_iff.1 hv
  rw [link, Array.getElem?_setIfInBounds]
  simp [hi]

lemma leads_link {v : TaintVariable} (hv : vars[i]? = some v) {k m : Nat} :
    Leads (link vars v i j) k m ↔ (i = k ∧ j = m) ∨ Leads vars k m := by
  unfold Leads
  rw [getElem?_link hv]
  split
  · rename_i hi
    cases hi
    simp [hv, or_comm, eq_comm]
  · rename_i hi
    simp [hi]

lemma taintedIn_link {v : TaintVariable} (hv : vars[i]? = some v) {k : Nat} :
    TaintedIn (link vars v i j) k ↔ TaintedIn vars k := by
  unfold TaintedIn
  rw [getElem?_link hv]
  split
  · rename_i hi
    cases hi
    simp [hv]
  · exact Iff.rfl

/-- The variable on the left gets a successor, and lower bounds are pushed from it. -/
lemma leq_eq {v w : TaintVariable} (hl : t.vars[position l]? = some v)
    (hr : t.vars[position r]? = some w) :
    (t.leq l r).2 = { t with vars := (Push.run (t.vars.size + 1)
      ⟨link t.vars v (position l) (position r), true, [position l]⟩).vars } := by
  rw [← size_link t.vars v (position l) (position r)]
  unfold leq
  simp only [read_eq_ok_iff.2 hl, read_eq_ok_iff.2 hr]
  rfl

lemma Records.empty : Taint.empty.Records [] [] :=
  ⟨fun i j => by simp [Leads, Passes, Taint.empty], fun i j h => by simp [Passes] at h,
    fun i h => absurd h List.not_mem_nil, fun i => by simp [TaintedIn, Taint.empty]⟩

namespace Records

/-- A variable is made. -/
lemma add (h : t.Records sources told) (name : String) (lower upper : TaintValue) :
    (t.add name lower upper).2.Records
      (if lower = .tainted then t.vars.size :: sources else sources) told := by
  have hvars : (t.add name lower upper).2.vars = t.vars.push ⟨name, lower, upper, []⟩ := rfl
  have hget : ∀ i, (t.vars.push ⟨name, lower, upper, []⟩)[i]? =
      if i = t.vars.size then some ⟨name, lower, upper, []⟩ else t.vars[i]? := fun i =>
    Array.getElem?_push
  -- No inequality is about the new variable.
  have halone : ∀ i, ReflTransGen (Passes told) t.vars.size i → i = t.vars.size := by
    intro i hpath
    rcases hpath.cases_head with heq | ⟨j, hpasses, -⟩
    · exact heq.symm
    · exact absurd (h.passes_lt _ _ hpasses).1 (Nat.lt_irrefl _)
  have hold : ∀ i, (∃ source ∈ sources, ReflTransGen (Passes told) source i) → i ≠ t.vars.size := by
    intro i hi heq
    exact absurd ((h.tainted_iff i).2 hi).lt (by simp [heq])
  refine ⟨fun i j => ?_, fun i j hpasses => ?_, fun i hi => ?_, fun i => ?_⟩
  · rw [← h.leads_iff, hvars]
    unfold Leads
    rw [hget]
    split
    · rename_i hi
      simp [hi]
    · exact Iff.rfl
  · rw [hvars, Array.size_push]
    exact ⟨(h.passes_lt i j hpasses).1.trans (Nat.lt_succ_self _),
      (h.passes_lt i j hpasses).2.trans (Nat.lt_succ_self _)⟩
  · rw [hvars, Array.size_push]
    split at hi
    · rcases List.mem_cons.1 hi with rfl | hi
      · exact Nat.lt_succ_self _
      · exact (h.source_lt i hi).trans (Nat.lt_succ_self _)
    · exact (h.source_lt i hi).trans (Nat.lt_succ_self _)
  · rw [hvars]
    unfold TaintedIn
    rw [hget]
    by_cases hi : i = t.vars.size
    · rw [if_pos hi]
      cases lower with
      | tainted => simp [hi, ReflTransGen.refl]
      | untainted =>
        have hnone := mt (hold i) (not_not.2 hi)
        simpa using hnone
    · rw [if_neg hi]
      have hiff := h.tainted_iff i
      unfold TaintedIn at hiff
      rw [hiff]
      split
      · refine ⟨fun ⟨source, hmem, hpath⟩ => ⟨source, List.mem_cons_of_mem _ hmem, hpath⟩, ?_⟩
        rintro ⟨source, hmem, hpath⟩
        rcases List.mem_cons.1 hmem with rfl | hmem
        · exact absurd (halone i hpath) hi
        · exact ⟨source, hmem, hpath⟩
      · exact Iff.rfl

/-- The taint of a variable has been passed on. -/
lemma closed (h : t.Records sources told) (hi : TaintedIn t.vars i) (hpasses : Passes told i j) :
    TaintedIn t.vars j := by
  obtain ⟨source, hmem, hpath⟩ := (h.tainted_iff i).1 hi
  exact (h.tainted_iff j).2 ⟨source, hmem, hpath.tail hpasses⟩

/-- An inequality between variables that exist is told. -/
lemma leq (h : t.Records sources told) {v w : TaintVariable} (hv : t.vars[position l]? = some v)
    (hw : t.vars[position r]? = some w) (reason : Reason) :
    (t.leq l r).2.Records sources (⟨reason, l, r⟩ :: told) := by
  rw [leq_eq hv hw]
  have hsize := size_link t.vars v (position l) (position r)
  have htainted : ∀ i, TaintedIn (link t.vars v (position l) (position r)) i ↔
      TaintedIn t.vars i := fun i => taintedIn_link hv
  have hleads : ∀ i j, Leads (link t.vars v (position l) (position r)) i j ↔
      Passes (⟨reason, l, r⟩ :: told) i j := by
    intro i j
    rw [passes_cons, ← h.leads_iff]
    exact leads_link hv
  generalize link t.vars v (position l) (position r) = linked at hsize htainted hleads ⊢
  have hlt : ∀ i j, Passes (⟨reason, l, r⟩ :: told) i j → i < t.vars.size ∧ j < t.vars.size := by
    intro i j hpasses
    rcases passes_cons.1 hpasses with ⟨rfl, rfl⟩ | hpasses
    · exact ⟨(Array.getElem?_eq_some_iff.1 hv).1, (Array.getElem?_eq_some_iff.1 hw).1⟩
    · exact h.passes_lt i j hpasses
  -- Only the variable on the left may have a taint that has not been passed on.
  have hpending : Push.Pending linked ⟨linked, true, [position l]⟩ := by
    refine ⟨rfl, fun _ _ => Iff.rfl, fun _ hi => hi, fun i hi => ⟨i, hi, .refl⟩, ?_⟩
    intro i j hi hmem hlead _
    rcases passes_cons.1 ((hleads i j).1 hlead) with ⟨rfl, -⟩ | hpasses
    · exact absurd (List.mem_singleton_self _) hmem
    · exact (htainted j).2 (h.closed ((htainted i).1 hi) hpasses)
  have hfuel : clean linked + [position l].length ≤ t.vars.size + 1 :=
    hsize ▸ Nat.add_le_add_right (clean_le linked) 1
  obtain ⟨hended, hstack⟩ := Push.run_spec hpending hfuel
  have hreached := hended.tainted_iff hstack fun i j hlead =>
    hsize ▸ (hlt i j ((hleads i j).1 hlead)).2
  have hpaths : Leads linked = Passes (⟨reason, l, r⟩ :: told) := by
    funext i j
    exact propext (hleads i j)
  rw [hpaths] at hreached
  refine ⟨fun i j => (hended.leads_iff i j).trans (hleads i j), ?_, ?_, fun i => ?_⟩
  · dsimp only
    rw [hended.size_eq, hsize]
    exact hlt
  · dsimp only
    rw [hended.size_eq, hsize]
    exact h.source_lt
  · dsimp only
    rw [hreached]
    constructor
    · rintro ⟨k, hk, hpath⟩
      obtain ⟨source, hmem, hbefore⟩ := (h.tainted_iff k).1 ((htainted k).1 hk)
      refine ⟨source, hmem, ReflTransGen.trans ?_ hpath⟩
      exact ReflTransGen.mono (fun _ _ hpasses => passes_cons.2 (Or.inr hpasses)) _ _ hbefore
    · rintro ⟨source, hmem, hpath⟩
      exact ⟨source, (htainted source).2 ((h.tainted_iff source).2 ⟨source, hmem, .refl⟩), hpath⟩

end Records

end Taint

/-! ## Dialogues -/

namespace Dialogue

variable {d d' : Dialogue Taint Int} {sources : List Nat}

/-- If it could answer every question, the lattice has these tainted constants, and what it was told
is what the journal says. -/
def Traces (sources : List Nat) (d : Dialogue Taint Int) : Prop :=
  d.lattice.fault = none → d.lattice.Records sources (tellings d.journal)

/-- The lattice is told what the journal says: its variables and edges come from the events. -/
lemma Traces.replays (hd : d.Traces sources) (h : d.Replays d') : d'.Traces sources := by
  refine h.keeps (P := fun (t : Taint) journal =>
    t.fault = none → t.Records sources (tellings journal)) ?_ hd
  intro t t' journal event hevent ht hfault
  cases event with
  | made like type =>
    obtain ⟨-, rfl⟩ : _ ∧ (t.fresh like).2 = t' := Prod.ext_iff.1 hevent
    unfold Taint.fresh at hfault ⊢
    split at hfault
    · exact (ht hfault).add _ _ _
    · cases hfault
  | told reason l r holds =>
    obtain ⟨-, rfl⟩ : _ ∧ (t.leq l r).2 = t' := Prod.ext_iff.1 hevent
    obtain ⟨hbefore, v, w, hv, hw⟩ := Taint.leq_of_fault hfault
    exact (ht hbefore).leq hv hw reason
  | reported receiver diagnostic =>
    cases hevent
    exact ht hfault
  | noted n =>
    cases hevent
    exact ht hfault

/-- The lattice makes a variable of its own. -/
lemma Traces.add (hd : d.Traces sources) (name : String) (lower upper : TaintValue) :
    Traces (if lower = .tainted then d.lattice.vars.size :: sources else sources)
      { d with lattice := (d.lattice.add name lower upper).2 } :=
  fun hfault => (hd hfault).add name lower upper

end Dialogue

end HeapQual
