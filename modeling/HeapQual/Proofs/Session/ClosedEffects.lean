import HeapQual.Lattice.Level
import HeapQual.Proofs.Effect.Expressions
import HeapQual.Proofs.Session.Invariants

/-!
# Effects without variables in a session

In a session an effect without variables keeps its expression for good, and the solver finds for it
what the expression stands for (`Session.members_eq_denote`).  Only a merge of two locations that it
names can change what that is, and with an intersection it can then become more
(`Session.members_eq_denote_merged`).
-/

namespace HeapQual

namespace Session

variable {σ τ : Type} [QualifierLattice σ τ] {s : Session σ τ} {e : EffectId}

/-- An effect that mentions no variable is what the solver takes for one that cannot grow.  It shows
one expression, and from then on, whatever is recorded and merged, it shows the same one and its
members are what that expression stands for.  So in any two sessions, effects that show one
expression have the same members if the locations that it names have the same classes. -/
theorem members_eq_denote (h : Reachable s) (he : e.index < s.graph.effects.size) :
    (s.graph.effects.hasVariables e = false ↔
      s.graph.effects.closedTable[s.graph.effects.root e]? = some true) ∧
    (s.graph.effects.hasVariables e = false ↔ ∃ p, s.graph.effects.Shows e p) ∧
    ∀ p, s.graph.effects.Shows e p →
      (∀ q, s.graph.effects.Shows e q → q = p) ∧
      (∀ s', Runs (fun _ _ => True) s s' →
        s'.graph.effects.hasVariables e = false ∧ s'.graph.effects.Shows e p ∧
        {x | x ∈ s'.graph.accessesOf e} = p.denote s'.graph.classOf ∧
        ∀ sol s₁, s'.solved = .ok (sol, s₁) →
          {x | x ∈ sol.membersOf (s₁.graph.effects.root e)} = p.denote s₁.graph.classOf) ∧
      ∀ (σ' τ' : Type) [QualifierLattice σ' τ'] (r : Session σ' τ') (f : EffectId), Reachable r →
        f.index < r.graph.effects.size → r.graph.effects.Shows f p →
        (∀ l ∈ p.locations, r.graph.classOf l = s.graph.classOf l) →
        r.graph.accessesOf f = s.graph.accessesOf e := by
  have hs := (ReachableBy.coherent h).sound
  refine ⟨hs.effects.hasVariables_eq_false_iff_closed he, hs.effects.hasVariables_eq_false_iff he,
    fun p hp => ⟨fun q hq => hq.unique hp, fun s' hrun => ?_,
      fun σ' τ' _ r f hr hf hshows hclasses => ?_⟩⟩
  · have hgrows := hrun.grows (P := False) hs fun _ _ _ => False.elim
    have he' := he.trans_le hgrows.size_effects
    have hp' := hgrows.toExtends.shows hs hgrows.sound he hp
    have hmembers : {x | x ∈ s'.graph.accessesOf e} = p.denote s'.graph.classOf :=
      Set.ext fun _ => hgrows.sound.mem_accessesOf_of_shows he' hp'
    refine ⟨(hgrows.sound.effects.hasVariables_eq_false_iff he').2 ⟨p, hp'⟩, hp', hmembers,
      fun sol s₁ hsolved => ?_⟩
    obtain ⟨rfl, hgraph, -, -⟩ := (ReachableBy.coherent (h.run hrun)).solved_spec hsolved
    rw [hgraph]
    exact hmembers
  -- The expression says everything about the members, so sessions over other lattices may be
  -- compared.
  · have hr' := (ReachableBy.coherent hr).sound
    refine Ascending.ext fun x => ?_
    rw [hr'.mem_accessesOf_of_shows hf hshows, hs.mem_accessesOf_of_shows he hp,
      Expression.denote_congr hclasses]

/-- What is read and written at one location has nothing in common with what is done at another.
Two variables are merged, whatever is done at the second location flows into them, and they are to
be included in what the two have in common. -/
def apartScript : List (Command Int) :=
  [.makeLocation "x" 0, .makeLocation "y" 0, .atom .readWrite ⟨0⟩, .atom .any ⟨1⟩,
    .effectVariable "v", .effectVariable "w", .inter ⟨1⟩ ⟨2⟩, .includeEffect .internal ⟨2⟩ ⟨3⟩,
    .includeEffect .internal ⟨4⟩ ⟨5⟩, .mergeEffects ⟨3⟩ ⟨4⟩]

/-- The inclusions bring nothing into the intersection, but when the two locations are merged it has
two members. -/
theorem members_eq_denote_merged :
    ∃ s s' : Session Level Int, Reachable s ∧ s.exec (.mergeLocations .internal ⟨0⟩ ⟨1⟩) =
        .ok (.done, s') ∧
      s.graph.effects.hasVariables ⟨5⟩ = false ∧
      s.graph.effects.Shows ⟨5⟩ (.inter (.atom .readWrite ⟨0⟩) (.atom .any ⟨1⟩)) ∧
      {x | x ∈ s.graph.accessesOf ⟨3⟩} = {⟨1, .any⟩} ∧ {x | x ∈ s.graph.accessesOf ⟨5⟩} = ∅ ∧
      {x | x ∈ s'.graph.accessesOf ⟨5⟩} = {⟨0, .read⟩, ⟨0, .write⟩} := by
  have hrun : (follow (fun _ _ => True) (start ⟨2, false⟩ Level.mk) apartScript).any fun s =>
      succeeds (s.exec (.mergeLocations .internal ⟨0⟩ ⟨1⟩)) fun p => List.and
        [p.1 = .done, s.graph.effects.node ⟨1⟩ = .atom .readWrite ⟨0⟩,
          s.graph.effects.node ⟨2⟩ = .atom .any ⟨1⟩, s.graph.effects.node ⟨5⟩ = .inter ⟨1⟩ ⟨2⟩,
          s.graph.effects.size = 6, (s.graph.accessesOf ⟨3⟩).toList = [⟨1, .any⟩],
          s.graph.classOf ⟨0⟩ = 0, s.graph.classOf ⟨1⟩ = 1, p.2.graph.classOf ⟨0⟩ = 0,
          p.2.graph.classOf ⟨1⟩ = 0] := by
    decide +kernel
  simp only [Option.any_eq_true, succeeds_eq_true, and_decide_cons, List.and_nil, and_true] at hrun
  obtain ⟨s, hs, ⟨_, s'⟩, hexec, rfl, h₁, h₂, h₅, hsize, hvariable, hx, hy, hx', hy'⟩ := hrun
  have hreachable : Reachable s := reachableBy_of_follow hs
  have hshows : s.graph.effects.Shows ⟨5⟩ (.inter (.atom .readWrite ⟨0⟩) (.atom .any ⟨1⟩)) :=
    .inter h₅ (.atom h₁) (.atom h₂)
  have hlt : (⟨5⟩ : EffectId).index < s.graph.effects.size := by
    rw [hsize]
    decide
  obtain ⟨-, hclosed, hmembers⟩ := members_eq_denote hreachable hlt
  obtain ⟨-, hlater, -⟩ := hmembers _ hshows
  obtain ⟨-, -, hbefore, -⟩ := hlater s .refl
  obtain ⟨-, -, hafter, -⟩ := hlater s' (.exec .refl trivial hexec)
  refine ⟨s, s', hreachable, hexec, hclosed.2 ⟨_, hshows⟩, hshows, ?_, ?_, ?_⟩
  · ext x
    rw [Set.mem_ofPred_eq, ← Ascending.mem_toList, hvariable]
    simp
  · rw [hbefore]
    ext ⟨l, k⟩
    simp only [Expression.denote, commonAccesses, hx, hy, Set.mem_ofPred_eq,
      Set.mem_empty_iff_false, iff_false]
    rintro ⟨k₁, k₂, ⟨rfl, -⟩, ⟨h, -⟩, -⟩
    exact absurd h (by decide)
  · rw [hafter]
    ext ⟨l, k⟩
    simp only [Expression.denote, commonAccesses, hx', hy', Kind.parts, Set.mem_ofPred_eq,
      List.mem_cons, List.not_mem_nil, or_false, Set.mem_insert_iff, Set.mem_singleton_iff,
      Access.mk.injEq]
    constructor
    · rintro ⟨k₁, k₂, ⟨rfl, rfl | rfl⟩, ⟨-, rfl⟩, hmeet⟩
      · exact Or.inl ⟨rfl, (Option.some.inj hmeet).symm⟩
      · exact Or.inr ⟨rfl, (Option.some.inj hmeet).symm⟩
    · rintro (⟨rfl, rfl⟩ | ⟨rfl, rfl⟩)
      · exact ⟨.read, .any, ⟨rfl, Or.inl rfl⟩, ⟨rfl, rfl⟩, rfl⟩
      · exact ⟨.write, .any, ⟨rfl, Or.inr rfl⟩, ⟨rfl, rfl⟩, rfl⟩

end Session

end HeapQual
