import HeapQual.Lattice.Level
import HeapQual.Proofs.Session.Invariants

/-!
# The members that a session finds

Whatever commands a session was given, solving its graph ends by itself, finds the least family of
members that the graph allows, and lists exactly the inclusions that are checked and fail.
-/

namespace HeapQual

namespace Session

variable {σ τ : Type} [QualifierLattice σ τ] {s : Session σ τ}

/-- Solving the effects of any session ends with an empty queue.  The members found are the least
family of sets of accesses that contains the parts of all atoms, what the operands of unions
contain, the meets of what the operands of intersections contain, and what is included into effects
that mention a variable.  The failing inclusions are listed by ascending number: those into an
effect that mentions no variable, of which some access of the source overlaps no access to the same
location in the target. -/
theorem solve_finds_least_members (h : Reachable s) :
    s.graph.solveMembers.queue = [] ∧
      s.graph.effects.Respects s.graph.classOf (fun i => {x | x ∈ s.graph.solve.membersOf i}) ∧
      (∀ M, s.graph.effects.Respects s.graph.classOf M →
        ∀ i, {x | x ∈ s.graph.solve.membersOf i} ⊆ M i) ∧
      s.graph.solve.violations.Pairwise (· < ·) ∧
      ∀ number, number ∈ s.graph.solve.violations ↔
        ∃ inc, s.graph.effects.inclusions[number]? = some inc ∧
          ¬ s.graph.effects.MentionsVariable (s.graph.effects.root inc.target) ∧
          ∃ x ∈ s.graph.solve.membersOf (s.graph.effects.root inc.source),
            ∀ y ∈ s.graph.solve.membersOf (s.graph.effects.root inc.target),
              y.location = x.location → y.kind.overlaps x.kind = false := by
  have hg := h.coherent.sound
  exact ⟨hg.queue_solveMembers, hg.effects.respects_members hg.classOf_lt,
    fun M hM i x hx => hg.effects.members_subset hg.classOf_lt hM i hx,
    Effects.pairwise_violations _ _, fun number => hg.effects.mem_violations⟩

/-- A graph in which a read goes around a loop of two variables, which an intersection then keeps
apart from a write. -/
def loopScript : List (Command Int) :=
  [.makeLocation "x" 0, .effectVariable "a", .effectVariable "b", .atom .read ⟨0⟩,
    .atom .write ⟨0⟩, .includeEffect .internal ⟨3⟩ ⟨1⟩, .includeEffect .internal ⟨1⟩ ⟨2⟩,
    .includeEffect .internal ⟨2⟩ ⟨1⟩, .inter ⟨1⟩ ⟨3⟩, .union ⟨5⟩ ⟨4⟩,
    .includeEffect .internal ⟨6⟩ ⟨3⟩]

theorem solve_finds_least_members_loop :
    ∃ s : Session Level Int, Reachable s ∧
      follow (fun _ _ => True) (Session.start ⟨2, false⟩ ⟨⟩) loopScript = some s ∧
      s.graph.solveMembers.queue = [] ∧ ⟨0, .read⟩ ∈ s.graph.solve.membersOf 2 := by
  have hrun : (follow (fun _ _ => True) (start ⟨2, false⟩ Level.mk) loopScript).any fun s =>
      List.and [s.graph.effects.nodeAt 1 = .var "a", s.graph.effects.nodeAt 2 = .var "b",
        s.graph.effects.nodeAt 3 = .atom .read ⟨0⟩, s.graph.classOf ⟨0⟩ = 0,
        s.graph.effects.root ⟨1⟩ = 1, s.graph.effects.root ⟨2⟩ = 2, s.graph.effects.root ⟨3⟩ = 3,
        s.graph.effects.inclusions.toList.take 2 =
          [⟨⟨3⟩, ⟨1⟩, .internal⟩, ⟨⟨1⟩, ⟨2⟩, .internal⟩]] := by
    decide +kernel
  simp only [Option.any_eq_true, and_decide_cons, List.and_nil, and_true] at hrun
  obtain ⟨s, hs, hone, htwo, hatom, hclass, hroot₁, hroot₂, hroot₃, hincs⟩ := hrun
  have hreach : Reachable s := reachableBy_of_follow hs
  obtain ⟨hqueue, hrespects, -⟩ := solve_finds_least_members hreach
  have hinc : ∀ inc ∈ [⟨⟨3⟩, ⟨1⟩, .internal⟩, (⟨⟨1⟩, ⟨2⟩, .internal⟩ : Inclusion)],
      inc ∈ s.graph.effects.inclusions := fun inc h =>
    Array.mem_toList_iff.1 (List.mem_of_mem_take (hincs ▸ h))
  have hread := hrespects.atom 3 .read ⟨0⟩ hatom .read (by simp [Kind.parts])
  have hfirst := hrespects.inclusion _ (hinc _ (List.mem_cons_self ..))
    (.var (by rw [hroot₁, hone]; rfl))
  have hsecond := hrespects.inclusion _ (hinc _ (List.mem_cons_of_mem _ (List.mem_cons_self ..)))
    (.var (by rw [hroot₂, htwo]; rfl))
  simp only [hroot₁, hroot₂, hroot₃, hclass] at hread hfirst hsecond
  exact ⟨s, hreach, hs, hqueue, hsecond (hfirst hread)⟩

end Session

end HeapQual
