import HeapQual.Lattice.Level
import HeapQual.Proofs.Effect.Absorbing
import HeapQual.Proofs.Session.Freshness

/-!
# Members are never lost

Whatever a session is told to do, its graph absorbs the graph it had before, so what an effect had
it still has, at the root that the location has by then (`Session.accesses_only_grow`).  Hence a
location that was found to be accessed is never found not to be.
-/

namespace HeapQual

namespace Graph

variable {τ : Type} {g g' : Graph τ} {a : LocationId} {e : EffectId}

lemma accessAnswer_eq_ok_iff {answer : Bool} :
    g.accessAnswer a e = .ok answer ↔
      (g.validate = .ok () ∧ a.index < g.locations.size ∧ e.index < g.effects.size) ∧
        g.solve.touches (g.effects.root e) (g.classOf a) .any = answer := by
  constructor
  · intro h
    obtain ⟨⟨⟩, hvalidate, h⟩ := bind_eq_ok_iff.1 h
    obtain ⟨_, hlocation, h⟩ := bind_eq_ok_iff.1 h
    obtain ⟨_, heffect, h⟩ := bind_eq_ok_iff.1 h
    obtain ⟨ha, rfl⟩ := Locations.find_eq_ok_iff.1 hlocation
    obtain ⟨he, rfl⟩ := Effects.find_eq_ok_iff.1 heffect
    exact ⟨⟨hvalidate, ha, he⟩, Except.ok.inj h⟩
  · rintro ⟨⟨hvalidate, ha, he⟩, rfl⟩
    unfold accessAnswer
    rw [hvalidate, Locations.find_eq_ok_iff.2 ⟨ha, rfl⟩, Effects.find_eq_ok_iff.2 ⟨he, rfl⟩]
    rfl

/-- What is accessed by an effect is accessed by it in every graph that absorbs the graph. -/
lemma Absorbs.touches (h : g.Absorbs g') (hg : g.Sound) (hg' : g'.Sound) {kind : Kind}
    (htouches : g.solve.touches (g.effects.root e) (g.classOf a) kind = true) :
    g'.solve.touches (g'.effects.root e) (g'.classOf a) kind = true := by
  obtain ⟨y, hy, hlocation, hoverlaps⟩ := touches_iff_touched.1 htouches
  refine touches_iff_touched.2 ⟨g'.relocate y, h.mem_accessesOf hg hg' hy, ?_, hoverlaps⟩
  rw [relocate, hlocation]
  exact h.classOf_root a

end Graph

namespace Session

variable {σ τ : Type} [QualifierLattice σ τ] {s s' : Session σ τ} {a : LocationId} {e : EffectId}

/-- Only after the graph was closed is there an answer. -/
lemma phase_ne_opened_of_flag {answer : Bool}
    (h : s.exec (.isAccessed a e) = .ok (.flag answer, s')) : s.phase ≠ .opened := by
  rw [← refuseOpen_eq_none_iff]
  obtain ⟨⟨result, _⟩, hresult, hreply⟩ := bind_eq_ok_iff.1 (perform_eq_ok_of_exec h)
  cases hrefuse : s.refuseOpen with
  | none => rfl
  | some refusal =>
    unfold isAccessed at hresult
    rw [hrefuse] at hresult
    cases hresult
    cases hreply

/-- The answer is that of the present graph. -/
lemma Reachable.accessAnswer_of_exec (h : Reachable s) (hphase : s.phase ≠ .opened)
    {reply : Reply τ} (hexec : s.exec (.isAccessed a e) = .ok (reply, s')) :
    ∃ answer, s.graph.accessAnswer a e = .ok answer ∧ reply = .flag answer := by
  obtain ⟨⟨result, s₁⟩, hresult, hreply⟩ := bind_eq_ok_iff.1 (perform_eq_ok_of_exec hexec)
  have heq := h.trusted.isAccessed_eq h.coherent hphase a e
  rw [hresult] at heq
  cases hanswer : s.graph.accessAnswer a e with
  | error f =>
    rw [hanswer] at heq
    cases heq
  | ok answer =>
    rw [hanswer] at heq
    obtain rfl : result = .ok answer := Except.ok.inj heq
    cases hreply
    exact ⟨answer, rfl, rfl⟩

/-- Whatever is done, what an effect had it still has, at the root that the location has by then.
So once a location was found to be accessed by an effect, every later answer is that it is. -/
theorem accesses_only_grow (h : Reachable s) :
    (∀ s', Runs (fun _ _ => True) s s' → ∀ e l k, ⟨l, k⟩ ∈ s.graph.accessesOf e →
      ⟨s'.graph.classOf ⟨l⟩, k⟩ ∈ s'.graph.accessesOf e) ∧
      ∀ a e s₁ s₂ s₃ reply, s.exec (.isAccessed a e) = .ok (.flag true, s₁) →
        Runs (fun _ _ => True) s₁ s₂ → s₂.exec (.isAccessed a e) = .ok (reply, s₃) →
        reply = .flag true := by
  have hg := h.coherent.sound
  -- Later graphs absorb earlier ones: members stay, up to the classes that locations are merged
  -- into.
  have habsorbs : ∀ s', Runs (fun _ _ => True) s s' →
      s.graph.Absorbs s'.graph ∧ s'.graph.Sound := by
    intro s' hrun
    have hgrows := hrun.grows (P := False) hg fun _ _ _ => False.elim
    exact ⟨hgrows.absorbs hgrows.sound, hgrows.sound⟩
  refine ⟨fun s' hrun e l k hx => ?_, fun a e s₁ s₂ s₃ reply hfirst hrun hlater => ?_⟩
  · obtain ⟨habsorbs, hg'⟩ := habsorbs s' hrun
    exact habsorbs.mem_accessesOf hg hg' hx
  · have hclosed := phase_ne_opened_of_flag hfirst
    have hruns : Runs (fun _ _ => True) s s₂ := (Runs.exec .refl trivial hfirst).trans hrun
    obtain ⟨habsorbs, hg₂⟩ := habsorbs s₂ hruns
    obtain ⟨_, hanswer, hreply⟩ := h.accessAnswer_of_exec hclosed hfirst
    obtain rfl := Reply.flag.inj hreply
    have h₂ : Reachable s₂ := h.run hruns
    obtain ⟨_, hanswer₂, rfl⟩ :=
      h₂.accessAnswer_of_exec (hruns.phase_ne_opened hg hclosed) hlater
    have htouches := (Graph.accessAnswer_eq_ok_iff.1 hanswer).2
    exact congrArg Reply.flag ((Graph.accessAnswer_eq_ok_iff.1 hanswer₂).2.symm.trans
      (habsorbs.touches hg hg₂ htouches))

/-- The read of a location flows into two variables and their intersection. -/
def meetingScript : List (Command Int) :=
  [.makeLocation "x" 0, .makeLocation "y" 0, .atom .read ⟨0⟩, .effectVariable "v",
    .effectVariable "w", .inter ⟨2⟩ ⟨3⟩, .includeEffect .internal ⟨1⟩ ⟨2⟩,
    .includeEffect .internal ⟨1⟩ ⟨3⟩, .close]

/-- The location and the variables are merged into others. -/
def overrunScript : List (Command Int) :=
  [.mergeLocations .internal ⟨1⟩ ⟨0⟩, .mergeEffects ⟨3⟩ ⟨2⟩, .atom .write ⟨1⟩,
    .includeEffect .internal ⟨5⟩ ⟨3⟩, .linearize]

/-- The intersection still has the read after the location was merged into another one. -/
theorem accesses_only_grow_merged :
    ∃ s s₁ s₂ s₃ : Session Level Int, Reachable s ∧
      s.exec (.isAccessed ⟨0⟩ ⟨4⟩) = .ok (.flag true, s₁) ∧ Runs (fun _ _ => True) s₁ s₂ ∧
      s₂.exec (.isAccessed ⟨0⟩ ⟨4⟩) = .ok (.flag true, s₃) ∧ s₂.graph.classOf ⟨0⟩ = 1 ∧
      ⟨0, .read⟩ ∈ s.graph.accessesOf ⟨4⟩ ∧ ⟨1, .read⟩ ∈ s₂.graph.accessesOf ⟨4⟩ := by
  have hrun : (follow (fun _ _ => True) (start ⟨2, false⟩ Level.mk) meetingScript).any fun s =>
      succeeds (s.exec (.isAccessed ⟨0⟩ ⟨4⟩)) fun p₁ =>
        (follow (fun _ _ => True) p₁.2 overrunScript).any fun s₂ =>
          succeeds (s₂.exec (.isAccessed ⟨0⟩ ⟨4⟩)) fun _ => List.and
            [p₁.1 = .flag true, s₂.graph.classOf ⟨0⟩ = 1,
              ⟨0, .read⟩ ∈ (s.graph.accessesOf ⟨4⟩).toList] := by
    decide +kernel
  simp only [Option.any_eq_true, succeeds_eq_true, and_decide_cons, List.and_nil, and_true] at hrun
  obtain ⟨s, hstart, ⟨_, s₁⟩, hfirst, s₂, hlate, ⟨reply₃, s₃⟩, hlater, rfl, hclass, hmem⟩ := hrun
  have h : Reachable s := reachableBy_of_follow hstart
  have hruns := runs_of_follow hlate
  obtain ⟨hgrow, hstays⟩ := accesses_only_grow h
  obtain rfl := hstays _ _ s₁ s₂ s₃ reply₃ hfirst hruns hlater
  have hmem : ⟨0, .read⟩ ∈ s.graph.accessesOf ⟨4⟩ := hmem
  have hmem₂ := hgrow s₂ ((Runs.exec .refl trivial hfirst).trans hruns) _ _ _ hmem
  rw [hclass] at hmem₂
  exact ⟨s, s₁, s₂, s₃, h, hfirst, hruns, hlater, hclass, hmem, hmem₂⟩

end Session

end HeapQual
