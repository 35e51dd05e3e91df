import HeapQual.Lattice.Level
import HeapQual.Proofs.Effect.Leaves
import HeapQual.Proofs.Session.Invariants

/-!
# Effects that are known to be equal

Two effects are known to be equal when they are of one class, or unions of the same parts.  Parts
stay the same parts however the graph grows, so whatever is in a part of the one effect is in the
other.  But an inclusion into a union as a whole brings accesses into the union that are in none of
its parts, and only these can tell apart effects that were known to be equal
(`Session.knownEqual_members_iff`).  There are such effects
(`Session.knownEqual_members_iff_regrouped`).
-/

namespace HeapQual

namespace Graph

variable {τ : Type} {g : Graph τ} {e : EffectId} {x : Access}

/-- What strays into an effect is one of its members. -/
lemma Sound.mem_of_stray (hg : g.Sound) (h : g.Stray x e) : x ∈ g.accessesOf e := by
  induction h with
  | whole hnode hflow => exact (hg.mem_union hnode).2 (Or.inr (Or.inr hflow))
  | left hnode _ ih => exact (hg.mem_union hnode).2 (Or.inl ih)
  | right hnode _ ih => exact (hg.mem_union hnode).2 (Or.inr (Or.inl ih))

/-- Something strays only where an inclusion was recorded into a union that can grow. -/
lemma Stray.exists_inclusion (h : g.Stray x e) :
    ∃ inc ∈ g.effects.inclusions, (∃ a b, g.effects.node inc.target = .union a b) ∧
      g.effects.MentionsVariable (g.effects.root inc.target) := by
  induction h with
  | @whole e a b hnode hflow =>
    obtain ⟨hmentions, inc, hinc, hroot, -⟩ := hflow
    refine ⟨inc, hinc, ⟨a, b, ?_⟩, hroot.symm ▸ hmentions⟩
    rw [Effects.node, hroot]
    exact hnode
  | left _ _ ih => exact ih
  | right _ _ ih => exact ih

end Graph

namespace Session

variable {σ τ : Type} [QualifierLattice σ τ] {s s' : Session σ τ} {e₁ e₂ : EffectId}

/-- Effects that are known to be equal have the same members from then on, unless something strays
into a union that the one is made of and is not a member of the other.  That takes an inclusion into
a union that can grow: without any such inclusion they have the same members. -/
theorem knownEqual_members_iff (h : Reachable s) (hequal : s.knownEqual e₁ e₂ = .ok true)
    (hrun : Runs (fun _ _ => True) s s') :
    (s'.graph.accessesOf e₁ = s'.graph.accessesOf e₂ ↔
      (∀ x, s'.graph.Stray x e₁ → x ∈ s'.graph.accessesOf e₂) ∧
        ∀ x, s'.graph.Stray x e₂ → x ∈ s'.graph.accessesOf e₁) ∧
      ((∀ inc ∈ s'.graph.effects.inclusions, ∀ a b, s'.graph.effects.node inc.target = .union a b →
          ¬s'.graph.effects.MentionsVariable (s'.graph.effects.root inc.target)) →
        s'.graph.accessesOf e₁ = s'.graph.accessesOf e₂) := by
  have hg₀ := h.coherent.sound
  have hgrows := hrun.grows (P := False) hg₀ fun _ _ _ => False.elim
  have hg := hgrows.sound
  obtain ⟨he₁, he₂⟩ := lt_of_knownEqual_eq_ok hequal
  have hknown : s.graph.effects.knownEqual s.graph.classOf e₁ e₂ = true := by
    obtain ⟨_, -, hequal⟩ := bind_eq_ok_iff.1 hequal
    obtain ⟨_, -, hequal⟩ := bind_eq_ok_iff.1 hequal
    exact Except.ok.inj hequal
  have hknown' := (Effects.knownEqual_comm _ _ e₂ e₁).trans hknown
  have hiff : s'.graph.accessesOf e₁ = s'.graph.accessesOf e₂ ↔
      (∀ x, s'.graph.Stray x e₁ → x ∈ s'.graph.accessesOf e₂) ∧
        ∀ x, s'.graph.Stray x e₂ → x ∈ s'.graph.accessesOf e₁ := by
    constructor
    · intro heq
      exact ⟨fun x hx => heq ▸ hg.mem_of_stray hx, fun x hx => heq ▸ hg.mem_of_stray hx⟩
    -- A member of the one that does not stray is one of its parts, and the other effect has the
    -- same parts.
    · rintro ⟨hforth, hback⟩
      refine Ascending.ext fun x => ⟨fun hx => ?_, fun hx => ?_⟩
      · exact (Graph.mem_of_knownEqual hgrows.toExtends hg₀ hg he₁ he₂ hknown hx).elim (hforth x) id
      · exact (Graph.mem_of_knownEqual hgrows.toExtends hg₀ hg he₂ he₁ hknown' hx).elim (hback x) id
  refine ⟨hiff, fun hnone => hiff.2 ⟨fun x hx => ?_, fun x hx => ?_⟩⟩
  · obtain ⟨inc, hinc, ⟨a, b, hnode⟩, hmentions⟩ := hx.exists_inclusion
    exact absurd hmentions (hnone inc hinc a b hnode)
  · obtain ⟨inc, hinc, ⟨a, b, hnode⟩, hmentions⟩ := hx.exists_inclusion
    exact absurd hmentions (hnone inc hinc a b hnode)

/-- A union of three variables is made in two ways, and a read is included in the first union. -/
def regroupedScript : List (Command Int) :=
  [.makeLocation "x" 0, .effectVariable "a", .effectVariable "b", .effectVariable "c",
    .union ⟨1⟩ ⟨2⟩, .union ⟨4⟩ ⟨3⟩, .union ⟨2⟩ ⟨3⟩, .union ⟨1⟩ ⟨6⟩, .atom .read ⟨0⟩,
    .includeEffect .internal ⟨8⟩ ⟨5⟩]

/-- The two unions are known to be equal, but the read is not in the second one. -/
theorem knownEqual_members_iff_regrouped :
    ∃ s s' : Session Level Int, Reachable s ∧ s.knownEqual ⟨5⟩ ⟨7⟩ = .ok true ∧
      Runs (fun _ _ => True) s s' ∧ s'.phase = .closed ∧
      s'.graph.accessesOf ⟨5⟩ ≠ s'.graph.accessesOf ⟨7⟩ ∧
      ∃ x, s'.graph.Stray x ⟨5⟩ ∧ x ∉ s'.graph.accessesOf ⟨7⟩ := by
  have hrun : (follow (fun _ _ => True) (start ⟨2, false⟩ Level.mk) regroupedScript).any fun s =>
      succeeds (s.exec .close) fun p => List.and
        [s.knownEqual ⟨5⟩ ⟨7⟩ = .ok true, p.2.phase = .closed,
          (p.2.graph.accessesOf ⟨5⟩).toList = [⟨0, .read⟩],
          (p.2.graph.accessesOf ⟨7⟩).toList = []] := by
    decide +kernel
  simp only [Option.any_eq_true, succeeds_eq_true, and_decide_cons, List.and_nil, and_true] at hrun
  obtain ⟨s, hfollow, ⟨reply, s'⟩, hclose, hequal, hphase, hfirst, hsecond⟩ := hrun
  have hreachable : Reachable s := reachableBy_of_follow hfollow
  have hclosed : Runs (fun _ _ => True) s s' := .exec .refl trivial hclose
  have hne : s'.graph.accessesOf ⟨5⟩ ≠ s'.graph.accessesOf ⟨7⟩ := by
    intro heq
    rw [heq, hsecond] at hfirst
    cases hfirst
  refine ⟨s, s', hreachable, hequal, hclosed, hphase, hne, ?_⟩
  obtain ⟨hiff, -⟩ := knownEqual_members_iff hreachable hequal hclosed
  by_contra hnone
  push Not at hnone
  refine hne (hiff.2 ⟨hnone, fun x hx => ?_⟩)
  have hmem := (hreachable.run hclosed).coherent.sound.mem_of_stray hx
  rw [← Ascending.mem_toList, hsecond] at hmem
  exact absurd hmem List.not_mem_nil

end Session

end HeapQual
