import HeapQual.Lattice.Level
import HeapQual.Proofs.Effect.Leaves
import HeapQual.Proofs.Session.Inclusions

/-!
# Inclusions that are elided for good

An inclusion between effects that are known to be equal is not recorded.  If it had been asked for
later it would not have been recorded either: effects that are known to be equal stay so, whatever
the session does (`Session.knownEqual_for_good`).  The same goes for the inclusions into which an
inclusion is split, so the later it is asked for, the less of it is recorded.
-/

namespace HeapQual

namespace Session

variable {σ τ : Type} {s s' : Session σ τ} {e₁ e₂ : EffectId}

/-- An inclusion between effects that are known to be equal is noted and not recorded. -/
lemma includeEffect_of_knownEqual (position : Position) (hs : s.graph.Sound)
    (hequal : s.knownEqual e₁ e₂ = .ok true) :
    s.includeEffect position e₁ e₂ = .ok (s.note (.inclusionAsked e₁ e₂)) := by
  obtain ⟨hlt, hknown⟩ := knownEqual_eq_ok_iff.1 hequal
  obtain ⟨fuel, hfuel⟩ := Nat.exists_eq_succ_of_ne_zero
    (Nat.mul_ne_zero two_ne_zero hs.effects.size_pos.ne')
  rw [includeEffect_of_lt fun _ => hlt, Effects.split, hfuel,
    Effects.splitFrom_of_known (by rw [hknown, Bool.or_true])]
  rfl

/-- An inclusion that is asked for later succeeds if it does now, and no more of it is recorded. -/
lemma includeEffect_later {position : Position} {s₁ : Session σ τ} (hs : s.graph.Sound)
    (hs' : s'.graph.Sound) (hext : s.graph.Extends s'.graph)
    (h : s.includeEffect position e₁ e₂ = .ok s₁) :
    ∃ s₂ now later, s'.includeEffect position e₁ e₂ = .ok s₂ ∧
      s₁.graph.effects.inclusions.toList = s.graph.effects.inclusions.toList ++ now ∧
      s₂.graph.effects.inclusions.toList = s'.graph.effects.inclusions.toList ++ later ∧
      later.Sublist now := by
  obtain ⟨hlt, rfl⟩ := includeEffect_eq_ok h
  refine ⟨_, _, _, includeEffect_of_lt fun hne => ?_, inclusions_includeSteps ..,
    inclusions_includeSteps .., ?_⟩
  · obtain ⟨he₁, he₂⟩ := hlt hne
    exact ⟨he₁.trans_le hext.size_effects, he₂.trans_le hext.size_effects⟩
  · exact (hext.recorded_split_sublist hs hs' hlt).map _

variable [QualifierLattice σ τ]

/-- Effects that are known to be equal are known to be equal from then on, so an inclusion between
them is elided whenever it is asked for.  Of any inclusion whatever, no more is recorded if it is
asked for later than if it is asked for now. -/
theorem knownEqual_for_good (h : Reachable s) (hequal : s.knownEqual e₁ e₂ = .ok true)
    (hrun : Runs (fun _ _ => True) s s') :
    s'.knownEqual e₁ e₂ = .ok true ∧
      (∀ position, s'.includeEffect position e₁ e₂ = .ok (s'.note (.inclusionAsked e₁ e₂)) ∧
        s'.includeEffect position e₂ e₁ = .ok (s'.note (.inclusionAsked e₂ e₁))) ∧
      ∀ position a b s₁, s.includeEffect position a b = .ok s₁ →
        ∃ s₂ now later, s'.includeEffect position a b = .ok s₂ ∧
          s₁.graph.effects.inclusions.toList = s.graph.effects.inclusions.toList ++ now ∧
          s₂.graph.effects.inclusions.toList = s'.graph.effects.inclusions.toList ++ later ∧
          later.Sublist now := by
  have hs := h.coherent.sound
  have hgrows := hrun.grows (P := False) hs fun _ _ _ => False.elim
  have hext := hgrows.toExtends
  obtain ⟨⟨he₁, he₂⟩, hknown⟩ := knownEqual_eq_ok_iff.1 hequal
  have hequal' : s'.knownEqual e₁ e₂ = .ok true :=
    knownEqual_eq_ok_iff.2 ⟨⟨he₁.trans_le hext.size_effects, he₂.trans_le hext.size_effects⟩,
      hext.knownEqual hs hgrows.sound he₁ he₂ hknown⟩
  have hflipped : s'.knownEqual e₂ e₁ = .ok true := by
    obtain ⟨hlt, hknown'⟩ := knownEqual_eq_ok_iff.1 hequal'
    exact knownEqual_eq_ok_iff.2 ⟨hlt.symm, (Effects.knownEqual_comm ..).trans hknown'⟩
  refine ⟨hequal', fun position => ⟨?_, ?_⟩, fun position a b s₁ hask => ?_⟩
  · exact includeEffect_of_knownEqual position hgrows.sound hequal'
  · exact includeEffect_of_knownEqual position hgrows.sound hflipped
  · exact includeEffect_later hs hgrows.sound hext hask

/-- Two unions of a variable and a read, and the locations that are read are merged. -/
def mergedReadsScript : List (Command Int) :=
  [.makeLocation "x" 0, .makeLocation "y" 0, .effectVariable "a", .effectVariable "b",
    .atom .read ⟨0⟩, .atom .read ⟨1⟩, .union ⟨3⟩ ⟨1⟩, .union ⟨1⟩ ⟨4⟩,
    .mergeLocations .internal ⟨0⟩ ⟨1⟩]

/-- The two unions are still known to be equal after the variables were merged and the session was
closed.  By then only the read is left of the inclusion of the first union in the other variable. -/
theorem knownEqual_for_good_mergedReads :
    ∃ s s' s₁ s₂ : Session Level Int, Reachable s ∧ s.knownEqual ⟨5⟩ ⟨6⟩ = .ok true ∧
      Runs (fun _ _ => True) s s' ∧ s'.phase = .closed ∧ s'.knownEqual ⟨5⟩ ⟨6⟩ = .ok true ∧
      s'.includeEffect .internal ⟨5⟩ ⟨6⟩ = .ok (s'.note (.inclusionAsked ⟨5⟩ ⟨6⟩)) ∧
      s.includeEffect .internal ⟨5⟩ ⟨2⟩ = .ok s₁ ∧ s₁.graph.effects.inclusions.size = 2 ∧
      s'.includeEffect .internal ⟨5⟩ ⟨2⟩ = .ok s₂ ∧ s₂.graph.effects.inclusions.size = 1 ∧
      s₂.graph.effects.inclusions.toList.Sublist s₁.graph.effects.inclusions.toList := by
  have hrun : (follow (fun _ _ => True) (start ⟨2, false⟩ Level.mk) mergedReadsScript).any fun s =>
      (follow (fun _ _ => True) s [.mergeEffects ⟨1⟩ ⟨2⟩, .close]).any fun s' =>
        succeeds (s.includeEffect .internal ⟨5⟩ ⟨2⟩) fun s₁ =>
          succeeds (s'.includeEffect .internal ⟨5⟩ ⟨2⟩) fun s₂ => List.and
            [s.knownEqual ⟨5⟩ ⟨6⟩ = .ok true, s'.phase = .closed,
              s.graph.effects.inclusions.size = 0, s'.graph.effects.inclusions.size = 0,
              s₁.graph.effects.inclusions.size = 2, s₂.graph.effects.inclusions.size = 1] := by
    decide +kernel
  simp only [Option.any_eq_true, succeeds_eq_true, and_decide_cons, List.and_nil, and_true] at hrun
  obtain ⟨s, hfollow, s', hlater, s₁, hnow, s₂, hthen, hequal, hphase, hnone, hnone', hsize₁,
    hsize₂⟩ := hrun
  have hreachable : Reachable s := reachableBy_of_follow hfollow
  obtain ⟨hequal', helided, hless⟩ :=
    knownEqual_for_good hreachable hequal (runs_of_follow hlater)
  obtain ⟨s₂', now, later, hthen', hlist₁, hlist₂, hsublist⟩ := hless .internal ⟨5⟩ ⟨2⟩ s₁ hnow
  cases Except.ok.inj (hthen'.symm.trans hthen)
  rw [Array.eq_empty_of_size_eq_zero hnone, List.nil_append] at hlist₁
  rw [Array.eq_empty_of_size_eq_zero hnone', List.nil_append] at hlist₂
  refine ⟨s, s', s₁, s₂, hreachable, hequal, runs_of_follow hlater, hphase, hequal',
    (helided .internal).1, hnow, hsize₁, hthen, hsize₂, ?_⟩
  rw [hlist₁, hlist₂]
  exact hsublist

end Session

end HeapQual
