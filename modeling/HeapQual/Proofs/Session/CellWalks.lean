import HeapQual.Proofs.Session.Propagating
import Mathlib.Logic.Function.Iterate

/-!
# Walks over cells end

The type of a cell is found by following a chain of stores, and cells are settled by a walk with a
stack.  Both are given fuel where they are defined.  Here they are compared with what they stand
for: following steps until there is none (`View.Resolves`), and taking turns until the stack is
empty (`Walk.turn`).

If the commands that make stores name only stores that exist, operands come before what is made from
them, and only variables are ever merged.  So a chain goes down until it comes to a variable, which
may be a later one, and there it ends.  A walk ends because it sees no cell twice, whatever cycles
there are (`Session.walksEnd_of_grounded`).
-/

namespace HeapQual

/-! ## Chains of stores -/

deriving instance DecidableEq for Binding

namespace View

variable {τ : Type} {v : View τ} {c d : Cell} {n : Nat} {b : Option (Binding τ)}

/-- Following the steps from a cell one by one ends after this many, with this result. -/
inductive Resolves (v : View τ) : Cell → Nat → Option (Binding τ) → Prop
  | unbound {c : Cell} : v.step c = none → Resolves v c 1 none
  | value {c : Cell} {type : τ} :
      v.step c = some (.value type) → Resolves v c 1 (some (.value type))
  | owned {c : Cell} : v.step c = some .owned → Resolves v c 1 (some (.owned c))
  | next {c : Cell} {store n : Nat} {b : Option (Binding τ)} : v.step c = some (.next store) →
      Resolves v ⟨store, c.location⟩ n b → Resolves v c (n + 1) b

/-- The search finds what the steps lead to, if it has fuel for all of them. -/
lemma Resolves.bindingFrom_eq (h : v.Resolves c n b) {fuel : Nat} (hfuel : n ≤ fuel) :
    v.bindingFrom fuel c = b := by
  induction h generalizing fuel with
  | unbound hstep =>
    obtain ⟨fuel, rfl⟩ := Nat.exists_eq_add_of_le' hfuel
    rw [bindingFrom, hstep]
  | value hstep =>
    obtain ⟨fuel, rfl⟩ := Nat.exists_eq_add_of_le' hfuel
    rw [bindingFrom, hstep]
  | owned hstep =>
    obtain ⟨fuel, rfl⟩ := Nat.exists_eq_add_of_le' hfuel
    rw [bindingFrom, hstep]
  | next hstep _ ih =>
    obtain ⟨fuel, rfl⟩ := Nat.exists_eq_add_of_le' (Nat.le_of_add_left_le hfuel)
    rw [bindingFrom, hstep]
    exact ih (by omega)

/-- Only variables own cells. -/
lemma isVariable_of_step_eq_owned (h : v.step c = some .owned) :
    (v.graph.stores.nodeAt c.store).isVariable = true := by
  unfold step at h
  split at h
  · split at h
    · rename_i hnode
      rw [hnode]
      rfl
    · cases h
    · split at h <;> cases h
    · split at h <;> cases h
    · split at h <;> cases h
  · cases h

/-- A chain that ends at a cell with a type of its own ends at a variable. -/
lemma Resolves.isVariable (h : v.Resolves c n (some (.owned d))) :
    (v.graph.stores.nodeAt d.store).isVariable = true ∧ d.location = c.location := by
  generalize hb : some (Binding.owned d) = b at h
  induction h with
  | unbound => cases hb
  | value => cases hb
  | owned hstep =>
    cases hb
    exact ⟨isVariable_of_step_eq_owned hstep, rfl⟩
  | next _ _ ih => exact ih hb

section

variable (hs : v.graph.stores.Sound) (hordered : v.graph.stores.Ordered)

include hs hordered

/-- Each step goes down, or to a variable that was merged and is the last store of the chain. -/
lemma exists_resolves {bound : Nat} (hbound : 0 < bound)
    (hc : (v.graph.stores.nodeAt c.store).isVariable = true ∨ c.store < bound) :
    ∃ n ≤ bound, ∃ b, v.Resolves c n b := by
  -- An operand comes before its operator. A step can lead up only where a variable was merged, and
  -- the next one ends there.
  induction bound generalizing c with
  | zero => exact absurd hbound (lt_irrefl 0)
  | succ bound ih =>
    cases hstep : v.step c with
    | none => exact ⟨1, Nat.le_add_left .., none, .unbound hstep⟩
    | some st =>
      cases st with
      | owned => exact ⟨1, Nat.le_add_left .., _, .owned hstep⟩
      | value type => exact ⟨1, Nat.le_add_left .., _, .value hstep⟩
      | next store =>
        obtain ⟨x, hx, rfl⟩ := exists_operand_of_step_eq_next hstep
        have hlt : x.index < c.store := hordered c.store x hx
        have hoperator : c.store < bound + 1 := by
          refine hc.resolve_left fun hvar => ?_
          cases hnode : v.graph.stores.nodeAt c.store with
          | var name =>
            rw [hnode] at hx
            exact absurd hx List.not_mem_nil
          | _ =>
            rw [hnode] at hvar
            cases hvar
        have hnext : (v.graph.stores.nodeAt (v.storeRoot x)).isVariable = true ∨
            v.storeRoot x < bound := by
          by_cases hroot : v.storeRoot x = x.index
          · exact Or.inr (by omega)
          · exact Or.inl (hs.merged x.index hroot).2
        obtain ⟨n, hn, b, hresolves⟩ := ih (c := ⟨v.storeRoot x, c.location⟩) (by omega) hnext
        exact ⟨n + 1, Nat.succ_le_succ hn, b, .next hstep hresolves⟩

/-- The chain from a store that exists has at most as many steps as there are stores, and leads to
what the search finds. -/
theorem resolves_binding (hc : c.store < v.graph.stores.size) :
    ∃ n ≤ v.graph.stores.size, v.Resolves c n (v.binding c) := by
  obtain ⟨n, hn, b, hresolves⟩ := exists_resolves hs hordered (Nat.zero_lt_of_lt hc) (Or.inr hc)
  refine ⟨n, hn, ?_⟩
  rw [binding, hresolves.bindingFrom_eq hn]
  exact hresolves

end

end View

/-! ## Turns of a walk -/

namespace Walk

variable {α : Type} [DecidableEq α] {allowed : α → Bool} {next : α → List α} {seen : List α}

/-- One turn of a walk.  What is on top of the stack is skipped if it is not allowed or was seen
before.  Otherwise it is seen, and its successors are put on the stack. -/
def turn (allowed : α → Bool) (next : α → List α) (state : List α × List α) :
    List α × List α :=
  match state.1 with
  | [] => state
  | x :: rest =>
    if allowed x = true ∧ x ∉ state.2 then ((next x).reverse ++ rest, x :: state.2)
    else (rest, state.2)

lemma visitFrom_cons_of_mem {x : α} (hx : x ∈ seen) (fuel : Nat) (stack : List α) :
    visitFrom next fuel (x :: stack) seen = visitFrom next fuel stack seen := by
  cases fuel with
  | zero => rfl
  | succ fuel =>
    rw [visitFrom, visitFrom, List.dropWhile_cons_of_pos (by simpa using hx)]

lemma visitFrom_nil (fuel : Nat) : visitFrom next fuel [] seen = [] := by
  cases fuel with
  | zero => rfl
  | succ fuel => rfl

lemma visitFrom_cons_of_not_mem {x : α} (hx : x ∉ seen) (fuel : Nat) (stack : List α) :
    visitFrom next (fuel + 1) (x :: stack) seen =
      x :: visitFrom next fuel ((next x).reverse ++ stack) (x :: seen) :=
  visitFrom_succ_of_cons (List.dropWhile_cons_of_neg (by simpa using hx))

/-- As many turns as nodes were put on the stack empty it, and by then what was visited is seen. -/
theorem turn_iterate {u : Finset α} (hnext : ∀ x, ∀ y ∈ next x, allowed y = true ∧ y ∈ u)
    {fuel : Nat} {stack : List α} (hstack : ∀ x ∈ stack, allowed x = true → x ∈ u)
    (hfuel : (u.filter (· ∉ seen)).card ≤ fuel) {visited : List α}
    (hvisited : visitFrom next fuel (stack.filter allowed) seen = visited) :
    (turn allowed next)^[(stack ++ visited.flatMap next).length] (stack, seen) =
      ([], visited.reverse ++ seen) := by
  -- Each turn takes one node off the stack.  If it is skipped the rest of the stack is shorter, and
  -- if it is seen there is one node less to be seen.
  induction fuel using Nat.strong_induction_on generalizing stack seen visited with
  | _ fuel ihfuel =>
    induction stack generalizing visited with
    | nil =>
      rw [List.filter_nil, visitFrom_nil] at hvisited
      subst hvisited
      rfl
    | cons x rest ihrest =>
      have hrest : ∀ y ∈ rest, allowed y = true → y ∈ u := fun y hy =>
        hstack y (List.mem_cons_of_mem _ hy)
      by_cases hnew : allowed x = true ∧ x ∉ seen
      · have hx : x ∈ u := hstack x (List.mem_cons_self ..) hnew.1
        have hpos : 0 < (u.filter (· ∉ seen)).card :=
          Finset.card_pos.2 ⟨x, Finset.mem_filter.2 ⟨hx, hnew.2⟩⟩
        obtain ⟨fuel, rfl⟩ : ∃ k, fuel = k + 1 := ⟨fuel - 1, by omega⟩
        have hturn : turn allowed next (x :: rest, seen) =
            ((next x).reverse ++ rest, x :: seen) := if_pos hnew
        have hfilter : ((next x).reverse ++ rest).filter allowed =
            (next x).reverse ++ rest.filter allowed := by
          rw [List.filter_append, List.filter_eq_self.2]
          intro y hy
          exact (hnext x y (List.mem_reverse.1 hy)).1
        have hpushed : ∀ y ∈ (next x).reverse ++ rest, allowed y = true → y ∈ u := by
          intro y hy hallowed
          rcases List.mem_append.1 hy with hy | hy
          · exact (hnext x y (List.mem_reverse.1 hy)).2
          · exact hrest y hy hallowed
        rw [List.filter_cons_of_pos hnew.1, visitFrom_cons_of_not_mem hnew.2, ← hfilter] at hvisited
        subst hvisited
        have hlater := ihfuel fuel (Nat.lt_succ_self fuel) hpushed
          (card_filter_cons_le hx hnew.2 hfuel) rfl
        have hlength (l : List α) : (rest ++ (next x ++ l)).length =
            ((next x).reverse ++ rest ++ l).length := by
          simp only [List.length_append, List.length_reverse]
          omega
        rw [List.flatMap_cons, List.cons_append, List.length_cons, Function.iterate_succ_apply,
          hturn, List.reverse_cons, List.append_assoc, List.singleton_append, hlength, hlater]
      · have hturn : turn allowed next (x :: rest, seen) = (rest, seen) := if_neg hnew
        have hskipped : visitFrom next fuel (rest.filter allowed) seen = visited := by
          by_cases hallowed : allowed x = true
          · have hseen : x ∈ seen := by
              by_contra hseen
              exact hnew ⟨hallowed, hseen⟩
            rwa [List.filter_cons_of_pos hallowed, visitFrom_cons_of_mem hseen] at hvisited
          · rwa [List.filter_cons_of_neg hallowed] at hvisited
        rw [List.cons_append, List.length_cons, Function.iterate_succ_apply, hturn]
        exact ihrest hrest hskipped

end Walk

theorem View.Solved.turn_iterate_visits {τ : Type} {v : View τ} (hv : v.Solved)
    (settled seeds : List Cell) :
    (Walk.turn v.isBound v.sources)^[(seeds ++
        (Flow.visits v settled seeds).flatMap v.sources).length] (seeds.reverse, settled) =
      ([], (Flow.visits v settled seeds).reverse ++ settled) := by
  have hnext : ∀ c, ∀ d ∈ v.sources c, v.isBound d = true ∧ d ∈ v.boundCells := by
    intro c d hd
    have hbound := isBound_of_mem_sources hd
    exact ⟨hbound, hv.mem_boundCells.2 hbound⟩
  have hvisits : Walk.visitFrom v.sources (v.graph.stores.size * v.graph.locations.size)
      (seeds.reverse.filter v.isBound) settled = Flow.visits v settled seeds := by
    rw [List.filter_reverse]
    rfl
  have hturns := Walk.turn_iterate hnext (fun c _ hc => hv.mem_boundCells.2 hc)
    ((Finset.card_filter_le _ _).trans v.card_boundCells) hvisits
  rwa [List.length_append, List.length_reverse, ← List.length_append] at hturns

/-- No more cells are visited than there are cells. -/
lemma View.Solved.length_visits_le {τ : Type} {v : View τ} (hv : v.Solved)
    (settled seeds : List Cell) :
    (Flow.visits v settled seeds).length ≤ v.graph.stores.size * v.graph.locations.size := by
  have hnodup : (Flow.visits v settled seeds).Nodup := Walk.nodup_visit ..
  rw [← List.toFinset_card_of_nodup hnodup]
  refine (Finset.card_le_card fun c hc => ?_).trans v.card_boundCells
  exact hv.mem_boundCells.2 (Flow.isBound_of_mem_visits (List.mem_toFinset.1 hc))

/-! ## Sessions in which operands exist -/

/-- The stores from which a command makes stores exist. -/
def Command.Grounded {τ : Type} (g : Graph τ) (c : Command τ) : Prop :=
  ∀ x ∈ c.operands, x.index < g.stores.size

instance {τ : Type} (g : Graph τ) (c : Command τ) : Decidable (c.Grounded g) :=
  inferInstanceAs (Decidable (∀ x ∈ c.operands, x.index < g.stores.size))

namespace Session

variable {σ τ : Type} [QualifierLattice σ τ] {s : Session σ τ}

theorem ReachableBy.ordered (h : ReachableBy (fun s c => c.Grounded s.graph) s) :
    s.graph.stores.Ordered := by
  obtain ⟨config, lattice, orders, hrun⟩ := h
  induction hrun with
  | refl => exact fun i x hx => absurd hx List.not_mem_nil
  | exec hrun hgrounded hexec ih =>
    have hs := ReachableBy.coherent ⟨config, lattice, orders, hrun⟩
    exact ((exec_edits (P := False) hs.sound False.elim hexec).ordered ih hgrounded).1
  | withLattice _ _ ih => exact ih

/-- Chains of stores and walks over cells end in the session. -/
structure WalksEnd (s : Session σ τ) : Prop where
  operand_lt : ∀ i, ∀ x ∈ (s.graph.stores.nodeAt i).operands, x.index < i
  /-- Only variables have another parent than themselves, and they belong to variables. -/
  isVariable : ∀ i, s.graph.stores.classes.parentOf i ≠ i →
    (s.graph.stores.nodeAt i).isVariable = true ∧
      (s.graph.stores.nodeAt (s.graph.stores.classes.root i)).isVariable = true
  /-- Whatever solution cells are read against, following steps from a cell ends after at most as
  many as there are stores: at a type, at a variable, or because a cell is not bound. -/
  resolves : ∀ (sol : Solution) (demoted : List Nat) (x : StoreId) (location : Nat),
    x.index < s.graph.stores.size → ∃ n ≤ s.graph.stores.size,
      View.Resolves ⟨s.graph, sol, demoted⟩ ⟨s.graph.stores.root x, location⟩ n
        (View.binding ⟨s.graph, sol, demoted⟩ ⟨s.graph.stores.root x, location⟩) ∧
      ∀ d, View.binding ⟨s.graph, sol, demoted⟩ ⟨s.graph.stores.root x, location⟩ =
        some (.owned d) → (s.graph.stores.nodeAt d.store).isVariable = true
  /-- When cells are settled, whatever the seeds and whatever is settled already, the stack becomes
  empty, and what has been seen by then is visited, each cell once. -/
  settles : ∀ (sol : Solution) (s' : Session σ τ), s.solved = .ok (sol, s') →
    ∀ (demoted : List Nat) (settled seeds visited : List Cell),
      Flow.visits ⟨s.graph, sol, demoted⟩ settled seeds = visited →
      (Walk.turn (View.isBound ⟨s.graph, sol, demoted⟩)
          (View.sources ⟨s.graph, sol, demoted⟩))^[(seeds ++
            visited.flatMap (View.sources ⟨s.graph, sol, demoted⟩)).length]
          (seeds.reverse, settled) = ([], visited.reverse ++ settled) ∧
        visited.Nodup ∧ visited.length ≤ s.graph.stores.size * s.graph.locations.size

/-- If the commands that make stores name only stores that exist, all walks over cells end. -/
theorem walksEnd_of_grounded (h : ReachableBy (fun s c => c.Grounded s.graph) s) :
    s.WalksEnd := by
  have hcoherent : s.Coherent := h.coherent
  have hs : s.graph.stores.Sound := hcoherent.sound.stores
  have hordered : s.graph.stores.Ordered := h.ordered
  refine ⟨hordered, fun i hi => ?_, fun sol demoted x location hx => ?_,
    fun sol s' hsolved demoted settled seeds visited hvisited => ?_⟩
  · refine hs.merged i fun hroot => hi ?_
    exact hs.classes.parentOf_of_root_eq hroot
  · obtain ⟨n, hn, hresolves⟩ := View.resolves_binding (v := ⟨s.graph, sol, demoted⟩)
      (c := ⟨s.graph.stores.root x, location⟩) hs hordered (hs.root_lt hx)
    refine ⟨n, hn, hresolves, fun d hd => ?_⟩
    rw [hd] at hresolves
    exact hresolves.isVariable.1
  · have hv : View.Solved ⟨s.graph, sol, demoted⟩ :=
      ⟨hcoherent.sound, hcoherent.named_of_solved hsolved, (hcoherent.solved_spec hsolved).1⟩
    subst hvisited
    exact ⟨hv.turn_iterate_visits settled seeds, Walk.nodup_visit .., hv.length_visits_le ..⟩

/-- A location is allocated on a variable that is merged into a later one, and then updated.  The
update flows into the later variable, which is in a cycle with a third one. -/
def redirectedScript : List (Command Int) :=
  [.makeLocation "x" 0, .storeVariable .internal "p", .allocate .internal ⟨0⟩ ⟨0⟩,
    .storeVariable .internal "q", .storeVariable .internal "r",
    .update .internal "write" ⟨1⟩ ⟨0⟩ 5 false, .includeStore .internal "in" ⟨4⟩ ⟨2⟩,
    .includeStore .internal "on" ⟨2⟩ ⟨3⟩, .includeStore .internal "back" ⟨3⟩ ⟨2⟩,
    .mergeStores .internal "merged" ⟨2⟩ ⟨0⟩]

/-- The chain from the allocation goes up to the later variable and ends there.  A walk from three
cells, of which one is not bound, sees all four cells of the cycles after eight turns. -/
theorem walksEnd_of_grounded_redirected :
    ∃ (s : Session Level Int) (sol : Solution),
      ReachableBy (fun s c => c.Grounded s.graph) s ∧ s.WalksEnd ∧
      (∃ s', s.solved = .ok (sol, s')) ∧ s.graph.stores.root ⟨0⟩ = 2 ∧
      (∃ n ≤ 5, View.Resolves ⟨s.graph, sol, []⟩ ⟨1, 0⟩ n (some (.owned ⟨2, 0⟩))) ∧
      (Walk.turn (View.isBound ⟨s.graph, sol, []⟩) (View.sources ⟨s.graph, sol, []⟩))^[8]
        ([⟨3, 0⟩, ⟨0, 0⟩, ⟨1, 0⟩], []) = ([], [⟨1, 0⟩, ⟨4, 0⟩, ⟨2, 0⟩, ⟨3, 0⟩]) := by
  have hrun : (follow (fun s c => c.Grounded s.graph) (start ⟨2, false⟩ Level.mk)
      redirectedScript).any fun s => succeeds s.graph.validate fun _ => List.and
        [s.graph.stores.root ⟨0⟩ = 2, s.graph.stores.root ⟨1⟩ = 1, s.graph.stores.size = 5,
          View.binding ⟨s.graph, s.graph.solve, []⟩ ⟨1, 0⟩ = some (.owned ⟨2, 0⟩),
          Flow.visits ⟨s.graph, s.graph.solve, []⟩ [] [⟨1, 0⟩, ⟨0, 0⟩, ⟨3, 0⟩] =
            [⟨3, 0⟩, ⟨2, 0⟩, ⟨4, 0⟩, ⟨1, 0⟩],
          (View.sources ⟨s.graph, s.graph.solve, []⟩ ⟨1, 0⟩).length = 1,
          (View.sources ⟨s.graph, s.graph.solve, []⟩ ⟨2, 0⟩).length = 2,
          (View.sources ⟨s.graph, s.graph.solve, []⟩ ⟨3, 0⟩).length = 1,
          (View.sources ⟨s.graph, s.graph.solve, []⟩ ⟨4, 0⟩).length = 1] := by
    decide +kernel
  simp only [Option.any_eq_true, succeeds_eq_true, and_decide_cons, List.and_nil, and_true] at hrun
  obtain ⟨s, hs, _, hvalidate, hroot, hroot₁, hsize, hbinding, hvisits, hone, htwo, hthree,
    hfour⟩ := hrun
  have h : ReachableBy (fun s c => c.Grounded s.graph) s := reachableBy_of_follow hs
  have hends := walksEnd_of_grounded h
  obtain ⟨s', hsolved⟩ := h.coherent.exists_solved hvalidate
  obtain ⟨n, hn, hresolves, -⟩ := hends.resolves s.graph.solve [] ⟨1⟩ 0 (by rw [hsize]; decide)
  rw [hroot₁, hbinding] at hresolves
  obtain ⟨hturns, -⟩ := hends.settles _ s' hsolved [] [] _ _ hvisits
  simp only [List.length_append, List.flatMap_cons, List.flatMap_nil, hone, htwo, hthree,
    hfour] at hturns
  exact ⟨s, s.graph.solve, h, hends, ⟨s', hsolved⟩, hroot, ⟨n, hsize ▸ hn, hresolves⟩, hturns⟩

end Session

end HeapQual
