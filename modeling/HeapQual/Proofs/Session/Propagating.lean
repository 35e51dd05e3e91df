import HeapQual.Lattice.Level
import HeapQual.Proofs.Converse
import HeapQual.Proofs.Session.Ledger

/-!
# Propagating forward

When a cell is propagated forward, all cells that it flows into are settled.  These are just the
cells whose settling visits it (`Session.forward_inverts_backward`), so after a change to the cell
nothing that depends on it is left out.
-/

namespace HeapQual

namespace Session

variable {σ τ : Type} {s s' : Session σ τ} {sol : Solution}

lemma findCell_of_lt {x : StoreId} {a : LocationId} (hx : x.index < s.graph.stores.size)
    (ha : a.index < s.graph.locations.size) :
    s.findCell x a = .ok ⟨s.graph.stores.root x, s.graph.classOf a⟩ :=
  bind_eq_ok_iff.2 ⟨_, Stores.find_eq_ok_iff.2 ⟨hx, rfl⟩,
    bind_eq_ok_iff.2 ⟨_, Locations.find_eq_ok_iff.2 ⟨ha, rfl⟩, rfl⟩⟩

variable [QualifierLattice σ τ]

/-- Solving leaves the updates that were found to be weak as they are. -/
lemma linearities_solved (h : s.solved = .ok (sol, s')) : s'.linearities = s.linearities := by
  unfold solved at h
  split at h
  · cases h
    rfl
  · obtain ⟨-, -, h⟩ := bind_eq_ok_iff.1 h
    cases h
    dsimp only
    split
    · rfl
    · exact (chats_reportViolations _ _).linearities_eq

lemma Coherent.named_of_solved (hs : s.Coherent) (h : s.solved = .ok (sol, s')) :
    s.graph.Named := by
  obtain ⟨-, hgraph, -, hs'⟩ := hs.solved_spec h
  rw [← hgraph]
  refine hs'.named ?_
  rw [(solved_eq_ok h).2.1]
  exact Option.some_ne_none sol

/-- Once the graph is closed, propagating forward settles what the cell flows into. -/
lemma exists_propagate_forward (hs : s.Coherent) (hsolved : s.solved = .ok (sol, s'))
    (hphase : s.phase ≠ .opened) {x : StoreId} {a : LocationId}
    (hx : x.index < s.graph.stores.size) (ha : a.index < s.graph.locations.size) :
    ∃ s₁ : Session σ τ, s₁.graph = s.graph ∧ s₁.view sol = s.view sol ∧
      s.propagate .forward x a = .ok (s₁.settle sol
        ((s.view sol).reach ⟨s.graph.stores.root x, s.graph.classOf a⟩)) := by
  have hnamed := hs.named_of_solved hsolved
  obtain ⟨rfl, -⟩ := hs.solved_spec hsolved
  have hnoted : (s.note (.propagationAsked x a .forward)).Coherent :=
    ⟨hs.sound, hs.solution_eq, hs.named, hs.linearities_eq⟩
  obtain ⟨s₁, hsolved₁⟩ := hnoted.exists_solved (Graph.validate_eq_ok_iff.2 hnamed)
  obtain ⟨-, hgraph, -⟩ := hnoted.solved_spec hsolved₁
  have hgraph : s₁.graph = s.graph := hgraph
  have hview : s₁.view s.graph.solve = s.view s.graph.solve := by
    rw [view, view, linearities_solved hsolved₁, hgraph]
    rfl
  have hcell : s₁.findCell x a = .ok ⟨s.graph.stores.root x, s.graph.classOf a⟩ := by
    rw [findCell_of_lt (hgraph ▸ hx) (hgraph ▸ ha), hgraph]
  refine ⟨s₁, hgraph, hview, ?_⟩
  rw [propagate_of_ne_opened hphase]
  refine bind_eq_ok_iff.2 ⟨_, hsolved₁, bind_eq_ok_iff.2 ⟨_, hcell, ?_⟩⟩
  rw [← hview]
  rfl

/-- A bound cell flows into just the cells whose settling visits it.  So once the graph is closed,
propagating the cell forward settles whatever depends on it, and if only what exists was ever named,
nothing is left to do for these cells. -/
theorem forward_inverts_backward (h : Reachable s) (hsolved : s.solved = .ok (sol, s')) :
    (∀ i j l, sol.binds i l = true →
      (⟨j, l⟩ ∈ (s.view sol).reach ⟨i, l⟩ ↔ ⟨i, l⟩ ∈ Flow.visits (s.view sol) [] [⟨j, l⟩])) ∧
    (s.phase ≠ .opened → ∀ x a, x.index < s.graph.stores.size →
      a.index < s.graph.locations.size → ∃ s₂, s.propagate .forward x a = .ok s₂ ∧
        ∀ j, ⟨s.graph.stores.root x, s.graph.classOf a⟩ ∈
            Flow.visits (s.view sol) [] [⟨j, s.graph.classOf a⟩] →
          ⟨j, s.graph.classOf a⟩ ∈ s₂.flow.settled ∧
            (Disciplined s → Flow.Finished (s.view sol) s₂.flow ⟨j, s.graph.classOf a⟩)) := by
  have hs := h.coherent
  have hv : (s.view sol).Solved :=
    ⟨hs.sound, hs.named_of_solved hsolved, (hs.solved_spec hsolved).1⟩
  refine ⟨fun i j l hi => hv.mem_reach_iff hi, fun hphase x a hx ha => ?_⟩
  obtain ⟨s₁, hgraph, hview, hpropagate⟩ := exists_propagate_forward hs hsolved hphase hx ha
  refine ⟨_, hpropagate, fun j hj => ?_⟩
  -- What visits the cell backward is reached from it forward, and so it is among the seeds.
  have hreach := (hv.mem_reach_iff (Flow.isBound_of_mem_visits hj)).2 hj
  have hbound := (hv.mem_visits_iff.1 hj).1
  have hsettled : ⟨j, s.graph.classOf a⟩ ∈ (s₁.settle sol
      ((s.view sol).reach ⟨s.graph.stores.root x, s.graph.classOf a⟩)).flow.settled := by
    rw [settle, hview]
    exact (Flow.mem_settled_settle ..).2 (Flow.mem_visits_of_mem_seeds hv _ hreach hbound)
  refine ⟨hsettled, fun hdisciplined => ?_⟩
  have hmoves : Moves True (.propagate .forward x a) s _ :=
    .of_waits_or_inquires (propagate_inquires (fun _ => hx) (fun _ => ha) hpropagate)
  -- In a disciplined session what is settled is finished, and propagating keeps that.
  have hledger := hmoves.preserves (motive := Ledger)
    (fun _ _ hcoherent hbuild hledger => hledger.build hcoherent hbuild)
    (fun _ _ hcoherent hlayered hask hledger => hledger.ask hcoherent hlayered hask)
    hs hdisciplined.layered hdisciplined.ledger
  have hfinished := hledger.finished _ hsettled
  have hsolution : (s₁.settle sol
      ((s.view sol).reach ⟨s.graph.stores.root x, s.graph.classOf a⟩)).graph.solve = sol := by
    rw [show (s₁.settle sol _).graph = s.graph from hgraph]
    exact hv.solution_eq.symm
  rw [hsolution, show (s₁.settle sol _).view sol = s.view sol from hview] at hfinished
  exact hfinished

/-- An allocated location flows into a variable, from there into a weak update and a restriction of
it, and back into the variable by way of another one. -/
def writeLoopScript : List (Command Int) :=
  [.makeLocation "l" 0, .atom .read ⟨0⟩, .storeVariable .internal "base",
    .allocate .internal ⟨0⟩ ⟨0⟩, .storeVariable .internal "x",
    .includeStore .internal "into x" ⟨1⟩ ⟨2⟩, .update .internal "write" ⟨2⟩ ⟨0⟩ 0 false,
    .restrict .internal ⟨3⟩ ⟨1⟩, .storeVariable .internal "y",
    .includeStore .internal "into y" ⟨4⟩ ⟨5⟩, .includeStore .internal "back" ⟨5⟩ ⟨2⟩, .close]

/-- The allocation flows into the loop, but the loop does not flow into the allocation.  No cell is
settled when the graph is closed, and all of them are after the allocation was propagated. -/
theorem forward_inverts_backward_loop :
    ∃ (s s' s₂ : Session Level Int) (sol : Solution), Disciplined s ∧ s.phase ≠ .opened ∧
      s.solved = .ok (sol, s') ∧ s.flow.settled = [] ∧
      ⟨1, 0⟩ ∈ Flow.visits (s.view sol) [] [⟨5, 0⟩] ∧ ⟨5, 0⟩ ∈ (s.view sol).reach ⟨1, 0⟩ ∧
      ⟨1, 0⟩ ∉ (s.view sol).reach ⟨5, 0⟩ ∧ ⟨5, 0⟩ ∉ Flow.visits (s.view sol) [] [⟨1, 0⟩] ∧
      s.propagate .forward ⟨1⟩ ⟨0⟩ = .ok s₂ ∧ ⟨5, 0⟩ ∈ s₂.flow.settled ∧
      Flow.Finished (s.view sol) s₂.flow ⟨5, 0⟩ := by
  have hrun : (follow (fun s c => c.Known s.graph) (start ⟨2, true⟩ Level.mk) writeLoopScript).any
      fun s => succeeds s.solved fun p => List.and
        [s.phase ≠ .opened, p.1.binds 1 0 = true, p.1.binds 5 0 = true,
          ⟨5, 0⟩ ∈ (s.view p.1).reach ⟨1, 0⟩, ⟨1, 0⟩ ∉ (s.view p.1).reach ⟨5, 0⟩,
          s.graph.stores.size = 6, s.graph.locations.size = 1, s.graph.stores.root ⟨1⟩ = 1,
          s.graph.classOf ⟨0⟩ = 0, s.flow.settled = []] := by
    decide +kernel
  simp only [Option.any_eq_true, succeeds_eq_true, and_decide_cons, List.and_nil, and_true] at hrun
  obtain ⟨s, hfollow, ⟨sol, s'⟩, hsolved, hphase, hfirst, hlast, hreach, hnot, hstores, hlocations,
    hroot, hclass, hnone⟩ := hrun
  have hdisciplined : Disciplined s := reachableBy_of_follow hfollow
  obtain ⟨hinverse, hsettles⟩ := forward_inverts_backward hdisciplined.reachable hsolved
  obtain ⟨s₂, hpropagate, hdepends⟩ := hsettles hphase ⟨1⟩ ⟨0⟩
    (hstores ▸ (by decide)) (hlocations ▸ (by decide))
  rw [hroot, hclass] at hdepends
  have hvisits := (hinverse 1 5 0 hfirst).1 hreach
  obtain ⟨hsettled, hfinished⟩ := hdepends 5 hvisits
  exact ⟨s, s', s₂, sol, hdisciplined, hphase, hsolved, hnone, hvisits, hreach, hnot,
    fun hmem => hnot ((hinverse 5 1 0 hlast).2 hmem), hpropagate, hsettled,
    hfinished hdisciplined⟩

end Session

end HeapQual
