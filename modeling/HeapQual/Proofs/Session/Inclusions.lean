import HeapQual.Lattice.Level
import HeapQual.Proofs.Effect.Coverage
import HeapQual.Proofs.Session.Closing

/-!
# What becomes of an inclusion

An inclusion that was asked for while the session was open is honoured when the session is closed,
or one of the inclusions recorded for it is reported, at the position that was given for it.  There
are two exceptions: accesses that stray into a union on the left, and accesses of unknown kind if
there is an intersection on the right.  `Session.close_honours_iff` says that these are all there
are, and `Session.close_honours_iff_stray` that there are some.
-/

namespace HeapQual

namespace Session

variable {σ τ : Type} {s s' s₀ s₁ : Session σ τ} {position : Position} {e₁ e₂ : EffectId}

/-! ## What is recorded -/

lemma inclusions_includeSteps (position : Position) (steps : List Effects.SplitStep)
    (s : Session σ τ) :
    (steps.foldl (includeStep position) s).graph.effects.inclusions.toList =
      s.graph.effects.inclusions.toList ++ (steps.filter (·.recorded)).map fun step =>
        ⟨step.source, step.target, position⟩ := by
  induction steps generalizing s with
  | nil => simp
  | cons step steps ih =>
    rw [List.foldl_cons, ih, includeStep]
    cases hrec : step.recorded with
    | false => simp [hrec, note, withTalk]
    | true =>
      rw [if_pos rfl, graph_forget]
      simp [hrec, withEffects, Effects.addInclusion, note, withTalk]

/-- Each inclusion that a split leaves to be recorded gets a number. -/
lemma exists_number_of_includeEffect (h : s.includeEffect position e₁ e₂ = .ok s')
    {step : Effects.SplitStep} (hstep : step ∈ s.graph.effects.split s.graph.classOf e₁ e₂)
    (hrec : step.recorded = true) :
    ∃ number, s.graph.effects.inclusions.size ≤ number ∧
      number < s'.graph.effects.inclusions.size ∧
      s'.graph.effects.inclusions[number]? = some ⟨step.source, step.target, position⟩ := by
  obtain ⟨-, rfl⟩ := includeEffect_eq_ok h
  have hlist := inclusions_includeSteps position (s.graph.effects.split s.graph.classOf e₁ e₂) s
  have hmem : (⟨step.source, step.target, position⟩ : Inclusion) ∈
      ((s.graph.effects.split s.graph.classOf e₁ e₂).filter (·.recorded)).map fun step =>
        (⟨step.source, step.target, position⟩ : Inclusion) :=
    List.mem_map.2 ⟨step, List.mem_filter.2 ⟨hstep, hrec⟩, rfl⟩
  obtain ⟨i, hi⟩ := List.mem_iff_getElem?.1 hmem
  have hget : ((s.graph.effects.split s.graph.classOf e₁ e₂).foldl (includeStep position)
      s).graph.effects.inclusions[s.graph.effects.inclusions.size + i]? =
        some ⟨step.source, step.target, position⟩ := by
    rw [← Array.getElem?_toList, hlist, List.getElem?_append_right (by simp)]
    simpa using hi
  refine ⟨s.graph.effects.inclusions.size + i, Nat.le_add_right _ _, ?_, hget⟩
  exact (Array.getElem?_eq_some_iff.1 hget).1

/-! ## What is reported -/

/-- A failing inclusion with a number in this range was reported at this position. -/
def Reports (s : Session σ τ) (position : Position) (first last : Nat) : Prop :=
  ∃ number source target, first ≤ number ∧ number < last ∧
    ⟨position, .notIncluded number source target⟩ ∈ diagnostics s.talk.journal

variable [QualifierLattice σ τ]

/-- What was not reported before is reported. -/
lemma mem_diagnostics_reportViolations (numbers : List Nat) (count : Nat) (s : Session σ τ)
    {number : Nat} (hmem : number ∈ numbers) (hnew : number ∉ s.reported) {inc : Inclusion}
    (hinc : s.graph.effects.inclusions[number]? = some inc) :
    ∃ source target, ⟨inc.position, .notIncluded number source target⟩ ∈
      diagnostics (numbers.foldl reportViolation (count, s)).2.talk.journal := by
  induction numbers generalizing count s with
  | nil => exact absurd hmem List.not_mem_nil
  | cons first numbers ih =>
    rw [List.foldl_cons]
    by_cases hfirst : first = number
    · -- It is reported now, and what follows only adds to the journal.
      have hstep : reportViolation (count, s) first = (count + 1,
          { s.report inc.position (.notIncluded number (s.graph.effectText inc.source)
            (s.graph.effectText inc.target)) with reported := number :: s.reported }) := by
        unfold reportViolation
        dsimp only
        rw [hfirst, if_neg hnew, hinc]
      rw [hstep]
      obtain ⟨⟨talk, questions, reported, heq, hspoken⟩, -⟩ := chats_foldl_reportViolation numbers
        (count + 1) { s.report inc.position (.notIncluded number (s.graph.effectText inc.source)
          (s.graph.effectText inc.target)) with reported := number :: s.reported }
      rw [heq]
      exact ⟨_, _, hspoken.toSays.mem_diagnostics (Dialogue.mem_diagnostics_report ..)⟩
    · have hrest : number ∈ numbers := (List.mem_cons.1 hmem).resolve_left (Ne.symm hfirst)
      generalize hresult : reportViolation (count, s) first = result
      obtain ⟨count', s'⟩ := result
      have hs' : s'.graph = s.graph ∧ number ∉ s'.reported := by
        unfold reportViolation at hresult
        dsimp only at hresult
        split at hresult
        · cases hresult
          exact ⟨rfl, hnew⟩
        · split at hresult
          · cases hresult
            exact ⟨rfl, hnew⟩
          · cases hresult
            refine ⟨rfl, fun h => ?_⟩
            exact (List.mem_cons.1 h).elim (fun h => hfirst h.symm) hnew
      exact ih count' s' hrest hs'.2 (hs'.1.symm ▸ hinc)

/-- Closing an open session reports every inclusion that is checked and fails. -/
lemma Fresh.close_reports {failures : Nat} (hs : s.Fresh) (hopened : s.phase = .opened)
    (hclose : s.close = .ok (.ok failures, s')) :
    s'.graph = s.graph ∧ s'.solution = some s.graph.solve ∧
      ∀ number inc, number ∈ s.graph.solve.violations →
        s.graph.effects.inclusions[number]? = some inc →
        ∃ source target, ⟨inc.position, .notIncluded number source target⟩ ∈
          diagnostics s'.talk.journal := by
  obtain ⟨sol, s₁, s₂, s₃, count, hsolved, hchecked, hsettled, -, rfl⟩ := close_eq_ok hclose hopened
  obtain ⟨rfl, hs₁⟩ := hs.eq_of_solved hopened hsolved
  have hgraph₁ : s₁.graph = s.graph := by rw [hs₁]; rfl
  have hsolution₁ : s₁.solution = some s.graph.solve := by rw [hs₁]; rfl
  have hreported₁ : s₁.reported = [] := by rw [hs₁]; exact hs.reported_eq
  have hchats := (consults_checkExclusions hchecked).chats
  have hs₂ : s₂.graph = s₁.graph ∧ s₂.solution = s₁.solution := by
    obtain ⟨talk, questions, reported, rfl, -⟩ := (chats_reportViolations _ _).trans hchats
    exact ⟨rfl, rfl⟩
  obtain ⟨requested, -, hs₃⟩ := bind_eq_ok_iff.1 hsettled
  cases hs₃
  refine ⟨hs₂.1.trans hgraph₁, hs₂.2.trans hsolution₁, fun number inc hviolation hinc => ?_⟩
  obtain ⟨source, target, hmem⟩ := mem_diagnostics_reportViolations s.graph.solve.violations 0
    { s₁ with exclusions := [] } hviolation (by simp [hreported₁]) (hgraph₁.symm ▸ hinc)
  obtain ⟨talk, questions, reported, rfl, hspoken⟩ := hchats
  refine ⟨source, target, Dialogue.Says.mem_diagnostics (p := fun _ => True) ?_
    (hspoken.toSays.mem_diagnostics hmem)⟩
  exact ((Flow.says_settle ..).trans (Dialogue.says_note _ _)).trans (Dialogue.says_note _ _)

/-! ## What is honoured -/

/-- Every access of the first effect overlaps one of the second to the same location. -/
def Honours (s : Session σ τ) (e₁ e₂ : EffectId) : Prop :=
  ∀ x ∈ s.graph.accessesOf e₁, s.graph.Touched e₂ x

/-- When a session is closed, an inclusion that was asked for in it is honoured or reported, unless
the second effect leaves out an access of the first that strays into a union, or that is of unknown
kind while the second effect is an intersection. -/
theorem close_honours_iff (h : Reachable s₀) {reply : Reply τ}
    (hask : s₀.exec (.includeEffect position e₁ e₂) = .ok (reply, s₁))
    (hrun : Runs (fun _ _ => True) s₁ s) (hopened : s.phase = .opened) {failures : Nat}
    (hclose : s.close = .ok (.ok failures, s')) :
    s'.solution = some s'.graph.solve ∧
      (s'.Honours e₁ e₂ ∨
          s'.Reports position s₀.graph.effects.inclusions.size s₁.graph.effects.inclusions.size ↔
        s'.Reports position s₀.graph.effects.inclusions.size s₁.graph.effects.inclusions.size ∨
          ∀ x ∈ s'.graph.accessesOf e₁,
            s'.graph.Stray x e₁ ∨ x.kind = .any ∧ (s'.graph.effects.node e₂).isInter = true →
            s'.graph.Touched e₂ x) := by
  have hs : Reachable s := (h.run (.exec .refl trivial hask)).run hrun
  have hfresh := ReachableBy.fresh hs hopened
  obtain ⟨hgraph, hsolution, hreports⟩ := hfresh.close_reports hopened hclose
  refine ⟨by rw [hsolution, hgraph], ?_⟩
  constructor
  · rintro (hhonours | hreports)
    · exact Or.inr fun x hx _ => hhonours x hx
    · exact Or.inl hreports
  · rintro (hreports | hexceptions)
    · exact Or.inr hreports
    · by_cases hreported : s'.Reports position s₀.graph.effects.inclusions.size
          s₁.graph.effects.inclusions.size
      · exact Or.inr hreported
      · refine Or.inl fun x hx => ?_
        have hg₀ := h.coherent.sound
        have hg := hs.coherent.sound
        have hinclude : s₀.includeEffect position e₁ e₂ = .ok s₁ := by
          obtain ⟨s₂, hinclude, hs₂⟩ := bind_eq_ok_iff.1 (perform_eq_ok_of_exec hask)
          cases hs₂
          exact hinclude
        obtain ⟨hlt, -⟩ := includeEffect_eq_ok hinclude
        have hext₁ : s₁.graph.Extends s.graph :=
          (hrun.grows (P := False) (h.run (.exec .refl trivial hask)).coherent.sound
            fun _ _ _ => False.elim).toExtends
        have hext : s₀.graph.Extends s.graph :=
          ((exec_moves (P := False) hg₀ False.elim hask).grows hg₀).toExtends.trans hext₁
        rw [hgraph] at hx hexceptions ⊢
        -- What was recorded holds, because it was not reported.
        have hsteps : ∀ step ∈ s₀.graph.effects.split s₀.graph.classOf e₁ e₂,
            step.recorded = true →
            ∀ y ∈ s.graph.accessesOf step.source, s.graph.Touched step.target y := by
          intro step hstep hrec y hy
          obtain ⟨number, hfirst, hlast, hnumber⟩ :=
            exists_number_of_includeEffect hinclude hstep hrec
          have hinc := hext₁.inclusion_eq number _ hnumber
          refine hg.touched_of_not_violation hinc (fun hviolation => hreported ?_) hy
          obtain ⟨source, target, hmem⟩ := hreports number _ hviolation hinc
          exact ⟨number, source, target, hfirst, hlast, hmem⟩
        rcases Graph.covered_of_splits hext hg₀ hg (hg₀.effects.splits_split hlt) hlt hsteps hx with
          htouched | hexception
        · exact htouched
        · exact hexceptions x hx hexception

/-- A read is included in a union of two variables as a whole. -/
def strayScript : List (Command Int) :=
  [.makeLocation "x" 0, .effectVariable "a", .effectVariable "b", .effectVariable "v",
    .union ⟨1⟩ ⟨2⟩, .atom .read ⟨0⟩, .includeEffect .internal ⟨5⟩ ⟨4⟩]

/-- The union is then included in another variable, which does not get the read. -/
theorem close_honours_iff_stray :
    ∃ (s₀ s₁ s' : Session Level Int) (reply : Reply Int) (failures : Nat), Reachable s₀ ∧
      s₀.exec (.includeEffect .internal ⟨4⟩ ⟨3⟩) = .ok (reply, s₁) ∧ s₁.phase = .opened ∧
      s₁.close = .ok (.ok failures, s') ∧
      ¬(s'.Honours ⟨4⟩ ⟨3⟩ ∨ s'.Reports .internal s₀.graph.effects.inclusions.size
        s₁.graph.effects.inclusions.size) ∧
      ∃ x ∈ s'.graph.accessesOf ⟨4⟩, s'.graph.Stray x ⟨4⟩ ∧ ¬s'.graph.Touched ⟨3⟩ x := by
  have hrun : (follow (fun _ _ => True) (start ⟨2, false⟩ Level.mk) strayScript).any fun s₀ =>
      succeeds (s₀.exec (.includeEffect .internal ⟨4⟩ ⟨3⟩)) fun p => succeeds p.2.close fun q =>
        succeeds q.1 fun _ => List.and
          [p.2.phase = .opened, (q.2.graph.accessesOf ⟨4⟩).toList = [⟨0, .read⟩],
            (q.2.graph.accessesOf ⟨3⟩).toList = [], diagnostics q.2.talk.journal = [],
            (q.2.graph.effects.node ⟨3⟩).isInter = false] := by
    decide +kernel
  simp only [Option.any_eq_true, succeeds_eq_true, and_decide_cons, List.and_nil, and_true] at hrun
  obtain ⟨s₀, hs₀, ⟨reply, s₁⟩, hask, ⟨_, s'⟩, hclose, failures, rfl, hopened, hunion, hvariable,
    hreported, hinter⟩ := hrun
  have hreachable : Reachable s₀ := reachableBy_of_follow hs₀
  have huntouched : ∀ x, ¬s'.graph.Touched ⟨3⟩ x := by
    rintro x ⟨y, hy, -⟩
    rw [← Ascending.mem_toList, hvariable] at hy
    exact absurd hy List.not_mem_nil
  have hneither : ¬(s'.Honours ⟨4⟩ ⟨3⟩ ∨ s'.Reports .internal s₀.graph.effects.inclusions.size
      s₁.graph.effects.inclusions.size) := by
    rintro (hhonours | ⟨number, source, target, -, -, hmem⟩)
    · refine huntouched _ (hhonours ⟨0, .read⟩ ?_)
      rw [← Ascending.mem_toList, hunion]
      exact List.mem_singleton_self _
    · rw [hreported] at hmem
      exact absurd hmem List.not_mem_nil
  refine ⟨s₀, s₁, s', reply, failures, hreachable, hask, hopened, hclose, hneither, ?_⟩
  have hiff := (close_honours_iff hreachable hask .refl hopened hclose).2
  by_contra hnone
  push Not at hnone
  refine hneither (hiff.2 (Or.inr fun x hx hexception => ?_))
  rcases hexception with hstray | ⟨-, hisInter⟩
  · exact hnone x hx hstray
  · exact absurd (hinter.symm.trans hisInter) (by simp)

end Session

end HeapQual
