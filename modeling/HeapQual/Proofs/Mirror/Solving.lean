import HeapQual.Proofs.Mirror.Session
import HeapQual.Proofs.Session.Answers
import HeapQual.Proofs.Session.Freshness

/-!
# Solving sessions that mirror each other

If two sessions mirror each other, the same inclusions fail in both of them
(`Graph.Mirrors.fails_eq`).  So the same are reported when the graphs are solved, although in
another order and under other numbers (`Session.Mirrors.reportViolations`).

One of two sessions may still hold its solution when the other has dropped it, because an effect was
entered there which was only recalled here.  Solving again what was solved before does not show
(`Session.Invariants.sameUpToSolution_ready`).  After both were asked for their solutions, the
sessions mirror each other with these (`Session.MirrorsSolved`), and still do while they are asked
questions.
-/

namespace HeapQual

variable {σ τ : Type} {command : Command τ} {R : EffectId → EffectId → Prop}

/-! ## Inclusions that fail -/

/-- Inclusions that mirror each other both fail, or both do not. -/
lemma Graph.Mirrors.fails_eq {g g' : Graph τ} (h : g.Mirrors R g')
    (hd : g.effects.Distinguishes R g'.effects) (hg : g.Sound) (hg' : g'.Sound)
    {inc inc' : Inclusion} (hinc : inc.Mirrors R inc') : g.fails inc = g'.fails inc' := by
  unfold fails
  rw [h.effects.hasVariables_eq hg.effects hg'.effects hinc.target,
    h.accessesOf_eq hd hg hg' hinc.source, h.accessesOf_eq hd hg hg' hinc.target]

/-! ## Reporting -/

/-- The diagnostics were made, and nothing else shows. -/
structure Dialogue.Reports (new : List Diagnostic) (d d' : Dialogue σ τ) : Prop where
  lattice_eq : d'.lattice = d.lattice
  receiver_eq : d'.receiver = d.receiver
  errors_eq : d'.errors.toList.map Diagnostic.plain = d.errors.toList.map Diagnostic.plain ++ new

lemma Dialogue.Reports.refl (d : Dialogue σ τ) : d.Reports [] d :=
  ⟨rfl, rfl, (List.append_nil _).symm⟩

lemma Dialogue.Reports.report {d d' : Dialogue σ τ} {new : List Diagnostic} {position : Position}
    {cause : Cause} (h : (d.report position cause).Reports new d') :
    d.Reports (⟨position, cause.plain⟩ :: new) d' := by
  refine ⟨h.lattice_eq, h.receiver_eq, ?_⟩
  rw [h.errors_eq]
  simp [Dialogue.report, Diagnostic.plain]

/-- Dialogues that mirror each other still do so if the same is reported in them. -/
lemma Dialogue.Mirrors.reports {d d' e e' : Dialogue σ τ} {new new' : List Diagnostic}
    (h : d.Mirrors d') (he : d.Reports new e) (he' : d'.Reports new' e') (hnew : new.Perm new') :
    e.Mirrors e' where
  lattice_eq := he.lattice_eq.trans (h.lattice_eq.trans he'.lattice_eq.symm)
  receiver_eq := he.receiver_eq.trans (h.receiver_eq.trans he'.receiver_eq.symm)
  errors := by
    rw [he.errors_eq, he'.errors_eq]
    exact h.errors.append hnew

/-- What does not depend on which of two related entries is looked at. -/
lemma rel_filterMap_eq {α β γ : Type} {r : α → β → Prop} {f : α → Option γ} {g : β → Option γ}
    {m : Multiset α} {n : Multiset β} (h : m.Rel r n) (hfg : ∀ a b, r a b → f a = g b) :
    m.filterMap f = n.filterMap g := by
  have hmap : m.map f = n.map g :=
    Multiset.rel_eq.1 (Multiset.rel_map.2 (h.mono fun a _ b _ hab => hfg a b hab))
  calc m.filterMap f = (m.map f).filterMap id := (Multiset.filterMap_map f id m).symm
    _ = (n.map g).filterMap id := by rw [hmap]
    _ = n.filterMap g := Multiset.filterMap_map g id n

namespace Session

variable {s s' t t' : Session σ τ}

/-- A failing inclusion as it is reported. -/
def failure (inc : Inclusion) : Diagnostic := ⟨inc.position, .notIncluded 0 "" ""⟩

/-- What is to be reported of an inclusion. -/
def failure? (g : Graph τ) (entry : Inclusion × Bool) : Option Diagnostic :=
  if !entry.2 && g.fails entry.1 then some (failure entry.1) else none

/-- What is reported when the failing inclusions are. -/
def failures (s : Session σ τ) : List Diagnostic := s.tracked.filterMap (failure? s.graph)

lemma foldl_reportViolation_eq {numbered : List (Inclusion × Nat)}
    (hget : ∀ p ∈ numbered, s.graph.effects.inclusions[p.2]? = some p.1)
    (hnodup : (numbered.map Prod.snd).Nodup) (count : Nat) :
    ∃ talk reported new,
      (numbered.map Prod.snd).foldl reportViolation (count, s) =
        (count + new.length, { s.withTalk talk with reported }) ∧
      s.talk.Reports new talk ∧
      new = numbered.filterMap (fun p => if p.2 ∈ s.reported then none else some (failure p.1)) ∧
      ∀ n, n ∈ reported ↔ n ∈ s.reported ∨ n ∈ numbered.map Prod.snd := by
  -- The invariant is that of the fold: so many diagnostics were made, and these numbers are booked.
  induction numbered generalizing s count with
  | nil => exact ⟨s.talk, s.reported, [], rfl, .refl _, rfl, by simp⟩
  | cons p numbered ih =>
    obtain ⟨inc, n⟩ := p
    obtain ⟨hfresh, hnodup⟩ := List.nodup_cons.1 hnodup
    have hrest := fun p hp => hget p (List.mem_cons_of_mem _ hp)
    rw [List.map_cons, List.foldl_cons]
    by_cases hn : n ∈ s.reported
    · have hstep : reportViolation (count, s) n = (count, s) := if_pos hn
      obtain ⟨talk, reported, new, heq, htalk, hnew, hreported⟩ := ih hrest hnodup count
      refine ⟨talk, reported, new, by rw [hstep, heq], htalk, ?_, fun m => ?_⟩
      · rw [List.filterMap_cons, if_pos hn]
        exact hnew
      · rw [hreported, List.mem_cons]
        exact ⟨Or.imp_right Or.inr, fun h => h.elim Or.inl
          (Or.rec (fun heq => Or.inl (heq ▸ hn)) Or.inr)⟩
    · let cause : Cause :=
        .notIncluded n (s.graph.effectText inc.source) (s.graph.effectText inc.target)
      let s₁ : Session σ τ := { s.report inc.position cause with reported := n :: s.reported }
      have hstep : reportViolation (count, s) n = (count + 1, s₁) := by
        unfold reportViolation
        dsimp only
        rw [if_neg hn, hget (inc, n) (List.mem_cons_self ..)]
      obtain ⟨talk, reported, new, heq, htalk, hnew, hreported⟩ :=
        ih (s := s₁) hrest hnodup (count + 1)
      refine ⟨talk, reported, failure inc :: new, ?_, htalk.report, ?_, fun m => ?_⟩
      · rw [hstep, heq, List.length_cons]
        exact Prod.ext (by omega) rfl
      · rw [List.filterMap_cons, if_neg hn, hnew]
        refine congrArg (failure inc :: ·) (List.filterMap_congr fun p hp => ?_)
        -- No number comes twice, so booking this one does not silence a later one.
        have hmem : p.2 ∈ numbered.map Prod.snd := List.mem_map_of_mem hp
        have hne : p.2 ≠ n := fun heq => hfresh (heq ▸ hmem)
        simp [s₁, hne]
      · rw [hreported]
        simp only [s₁, List.mem_cons]
        tauto

lemma mem_violations_iff (hs : s.graph.Sound) {inc : Inclusion} {n : Nat}
    (hget : s.graph.effects.inclusions[n]? = some inc) :
    n ∈ s.graph.solve.violations ↔ s.graph.fails inc = true := by
  rw [hs.violations_eq]
  simp only [List.mem_map, List.mem_filter, Prod.exists, List.mem_zipIdx_iff_getElem?,
    Array.getElem?_toList]
  constructor
  · rintro ⟨inc', m, ⟨hget', hfails⟩, rfl⟩
    rwa [Option.some.inj (hget.symm.trans hget')]
  · intro hfails
    exact ⟨inc, n, ⟨hget, hfails⟩, rfl⟩

/-- What is reported: each failing inclusion that was not reported before. -/
lemma reportViolations_eq (hs : s.graph.Sound) :
    ∃ talk reported,
      s.reportViolations s.graph.solve =
        (s.failures.length, { s.withTalk talk with reported }) ∧
      s.talk.Reports s.failures talk ∧
      ∀ n, n ∈ reported ↔ n ∈ s.reported ∨ n ∈ s.graph.solve.violations := by
  let numbered := s.graph.effects.inclusions.toList.zipIdx.filter fun p => s.graph.fails p.1
  have hviolations : s.graph.solve.violations = numbered.map Prod.snd := hs.violations_eq
  have hget : ∀ p ∈ numbered, s.graph.effects.inclusions[p.2]? = some p.1 := fun p hp => by
    rw [← Array.getElem?_toList]
    exact List.mem_zipIdx_iff_getElem?.1 (List.mem_filter.1 hp).1
  have hnodup : (numbered.map Prod.snd).Nodup :=
    hviolations ▸ (Effects.pairwise_violations _ _).imp Nat.ne_of_lt
  have hfailures : numbered.filterMap
      (fun p => if p.2 ∈ s.reported then none else some (failure p.1)) = s.failures := by
    unfold failures tracked
    rw [List.filterMap_map, List.filterMap_filter]
    refine List.filterMap_congr fun p _ => ?_
    by_cases hmem : p.2 ∈ s.reported <;> simp [failure?, hmem]
  obtain ⟨talk, reported, new, heq, htalk, rfl, hreported⟩ :=
    foldl_reportViolation_eq hget hnodup 0
  rw [hfailures, Nat.zero_add] at heq
  rw [hfailures] at htalk
  refine ⟨talk, reported, ?_, htalk, ?_⟩
  · rw [reportViolations, hviolations]
    exact heq
  · rw [hviolations]
    exact hreported

/-- What fails counts as reported afterwards. -/
lemma tracked_of_reported (hs : s.graph.Sound) {reported : List Nat}
    (hreported : ∀ n, n ∈ reported ↔ n ∈ s.reported ∨ n ∈ s.graph.solve.violations) :
    ({ s with reported } : Session σ τ).tracked =
      s.tracked.map fun entry => (entry.1, entry.2 || s.graph.fails entry.1) := by
  unfold tracked
  rw [List.map_map]
  refine List.map_congr_left fun p hp => congrArg (Prod.mk p.1) ?_
  have hget : s.graph.effects.inclusions[p.2]? = some p.1 := by
    rw [← Array.getElem?_toList]
    exact List.mem_zipIdx_iff_getElem?.1 hp
  rw [Bool.eq_iff_iff]
  simp only [decide_eq_true_eq, Bool.or_eq_true, hreported, mem_violations_iff hs hget]

/-- The failing inclusions are reported alike. -/
lemma Mirrors.reportViolations (h : s.Mirrors R s') (hs : s.graph.Sound) (hs' : s'.graph.Sound)
    (hd : s.graph.effects.Distinguishes R s'.graph.effects) :
    SameAnswer R (s.reportViolations s.graph.solve) (s'.reportViolations s'.graph.solve) := by
  have hfails {entry entry' : Inclusion × Bool} (hentry : TrackedMirrors R entry entry') :
      s.graph.fails entry.1 = s'.graph.fails entry'.1 :=
    h.graph.fails_eq hd hs hs' hentry.1
  -- The inclusions correspond in some order, so the same fail and the same were reported before.
  have hperm : s.failures.Perm s'.failures := by
    refine Multiset.coe_eq_coe.1 ?_
    rw [failures, failures, ← Multiset.filterMap_coe, ← Multiset.filterMap_coe]
    refine rel_filterMap_eq h.inclusions fun entry entry' hentry => ?_
    unfold failure? failure
    rw [hentry.2, hfails hentry, hentry.1.position_eq]
  obtain ⟨talk, reported, heq, htalk, hreported⟩ := reportViolations_eq hs
  obtain ⟨talk', reported', heq', htalk', hreported'⟩ := reportViolations_eq hs'
  have hlt (u : Session σ τ) (hu : u.graph.Sound) (hreported : ∀ n ∈ u.reported,
      n < u.graph.effects.inclusions.size) {n : Nat}
      (hn : n ∈ u.reported ∨ n ∈ u.graph.solve.violations) :
      n < u.graph.effects.inclusions.size := by
    rcases hn with hn | hn
    · exact hreported n hn
    · obtain ⟨inc, hget, -⟩ := hu.effects.mem_violations.1 hn
      exact (Array.getElem?_eq_some_iff.1 hget).1
  rw [heq, heq']
  refine ⟨hperm.length_eq, ?_⟩
  exact { h with
    inclusions := by
      have htracked := tracked_of_reported hs hreported
      have htracked' := tracked_of_reported hs' hreported'
      show Multiset.Rel (TrackedMirrors R)
        (({ s with reported } : Session σ τ).tracked : Multiset _)
        ({ s' with reported := reported' } : Session σ τ).tracked
      rw [htracked, htracked', ← Multiset.map_coe, ← Multiset.map_coe, Multiset.rel_map]
      exact h.inclusions.mono fun entry _ entry' _ hentry =>
        ⟨hentry.1, congrArg₂ or hentry.2 (hfails hentry)⟩
    flow := h.flow.withTalk (h.flow.talk.reports htalk htalk' hperm)
    left := ⟨h.left.recipe, fun n hn => hlt s hs h.left.reported_lt ((hreported n).1 hn),
      fun sol hsol hphase n hn => (hreported n).2 (Or.inl (h.left.told sol hsol hphase n hn))⟩
    right := ⟨h.right.recipe, fun n hn => hlt s' hs' h.right.reported_lt ((hreported' n).1 hn),
      fun sol hsol hphase n hn => (hreported' n).2 (Or.inl (h.right.told sol hsol hphase n hn))⟩ }

lemma mem_reported_of_violation (hs : s.graph.Sound) {n : Nat}
    (hn : n ∈ s.graph.solve.violations) : n ∈ (s.reportViolations s.graph.solve).2.reported := by
  obtain ⟨talk, reported, heq, -, hreported⟩ := reportViolations_eq hs
  rw [heq]
  exact (hreported n).2 (Or.inr hn)

/-- If all that fails was reported, there is nothing to report. -/
lemma failures_eq_nil (hs : s.graph.Sound)
    (htold : ∀ n ∈ s.graph.solve.violations, n ∈ s.reported) : s.failures = [] := by
  refine List.filterMap_eq_nil_iff.2 fun entry hentry => ?_
  obtain ⟨p, hp, rfl⟩ := List.mem_map.1 hentry
  have hget : s.graph.effects.inclusions[p.2]? = some p.1 := by
    rw [← Array.getElem?_toList]
    exact List.mem_zipIdx_iff_getElem?.1 hp
  refine if_neg fun hfails => ?_
  obtain ⟨hnot, hfails⟩ := Bool.and_eq_true_iff.1 hfails
  have hmem := htold p.2 ((mem_violations_iff hs hget).2 hfails)
  simp [hmem] at hnot

/-- Which solution is held does not matter for what is reported. -/
lemma reportViolations_withSolution (s : Session σ τ) (solution : Option Solution)
    (sol : Solution) :
    ({ s with solution } : Session σ τ).reportViolations sol =
      ((s.reportViolations sol).1, { (s.reportViolations sol).2 with solution }) := by
  suffices h : ∀ (numbers : List Nat) (count : Nat) (s : Session σ τ),
      numbers.foldl reportViolation (count, { s with solution }) =
        ((numbers.foldl reportViolation (count, s)).1,
          { (numbers.foldl reportViolation (count, s)).2 with solution }) from
    h sol.violations 0 s
  intro numbers
  induction numbers with
  | nil => exact fun _ _ => rfl
  | cons n numbers ih =>
    intro count s
    have hstep : reportViolation (count, { s with solution }) n =
        ((reportViolation (count, s) n).1, { (reportViolation (count, s) n).2 with solution }) := by
      unfold reportViolation
      dsimp only
      split
      · rfl
      · cases s.graph.effects.inclusions[n]? <;> rfl
    rw [List.foldl_cons, List.foldl_cons, hstep]
    exact ih _ _

/-! ## The solution -/

variable [QualifierLattice σ τ]

/-- What is known of a session that is asked questions. -/
structure Invariants (s : Session σ τ) : Prop where
  coherent : s.Coherent
  layered : s.graph.Layered
  keyed : s.Keyed
  trusted : s.Trusted
  ledger : s.Ledger

lemma Disciplined.invariants (h : Disciplined s) : s.Invariants :=
  ⟨ReachableBy.coherent h, h.layered, h.keyed, ReachableBy.trusted h, h.ledger⟩

lemma Invariants.asks (hs : s.Invariants) (h : Asks command s t) : t.Invariants := by
  induction h with
  | refl => exact hs
  | tail _ hmove ih =>
    exact ⟨ih.coherent.ask hmove, hmove.graph_eq.symm ▸ ih.layered,
      ih.keyed.ask ih.coherent ih.layered hmove, ih.trusted.ask hmove,
      ih.ledger.ask ih.coherent ih.layered hmove⟩

omit [QualifierLattice σ τ] in
lemma Invariants.faithful (hs : s.Invariants) : (s.view s.graph.solve).Faithful :=
  ⟨hs.coherent.sound, hs.layered, rfl⟩

omit [QualifierLattice σ τ] in
/-- Noting that a solution was found changes the notices only. -/
lemma exists_noteSolution_eq (s : Session σ τ) (sol : Solution) :
    ∃ talk, s.noteSolution sol = s.withTalk talk ∧ s.talk.Mirrors talk :=
  ⟨_, rfl, rfl, rfl, .refl _⟩

/-- The session with the types of merged cells equated. -/
def rekeyed (s : Session σ τ) : Session σ τ :=
  { s.noteSolution s.graph.solve with flow := (s.noteSolution s.graph.solve).flow.rekey s.graph }

lemma exists_rekeyed_eq (s : Session σ τ) : ∃ flow, s.rekeyed = { s with flow } := by
  obtain ⟨talk, hnote, -⟩ := s.exists_noteSolution_eq s.graph.solve
  rw [rekeyed, hnote]
  exact ⟨_, rfl⟩

lemma graph_rekeyed (s : Session σ τ) : s.rekeyed.graph = s.graph := by
  obtain ⟨flow, heq⟩ := s.exists_rekeyed_eq
  rw [heq]

lemma phase_rekeyed (s : Session σ τ) : s.rekeyed.phase = s.phase := by
  obtain ⟨flow, heq⟩ := s.exists_rekeyed_eq
  rw [heq]

/-- The session once its graph is solved. -/
def ready (s : Session σ τ) : Session σ τ :=
  { (if s.phase = .opened then s.rekeyed else (s.rekeyed.reportViolations s.graph.solve).2) with
    solution := some s.graph.solve }

lemma solved_eq_ready (hs : s.graph.validate = .ok ()) (hnone : s.solution = none) :
    s.solved = .ok (s.graph.solve, s.ready) := by
  unfold solved
  rw [hnone]
  refine bind_eq_ok_iff.2 ⟨(), hs, congrArg Except.ok (Prod.ext rfl ?_)⟩
  unfold ready
  by_cases hphase : s.phase = .opened
  · rw [if_pos hphase]
    exact if_pos hphase
  · rw [if_neg hphase]
    refine (if_neg hphase).trans ?_
    exact congrArg Prod.snd (s.rekeyed.reportViolations_withSolution _ _)

/-- Solving what was solved before does not show. -/
lemma Invariants.sameUpToSolution_ready (hs : s.Invariants) (hmemory : s.SoundMemory)
    (hsol : s.solution ≠ none) : s.SameUpToSolution s.ready := by
  obtain ⟨noted, hnote, hnoted⟩ := s.exists_noteSolution_eq s.graph.solve
  obtain ⟨flow, hrekey, hflow⟩ : ∃ flow, s.rekeyed = { s with flow } ∧ s.flow.Mirrors flow := by
    have hkeyed : (s.withTalk noted).flow.Keyed s.graph := hs.keyed hsol
    refine ⟨(s.withTalk noted).flow.rekey s.graph, ?_, ?_⟩
    · rw [rekeyed, hnote]
      rfl
    · exact ((Flow.Mirrors.refl s.flow).withTalk hnoted).trans hkeyed.mirrors_rekey
  unfold ready
  rw [hrekey]
  split
  · exact ⟨_, _, _, _, rfl, hflow, fun _ => .rfl⟩
  · rename_i hphase
    -- All that fails by the solution it holds was reported already, so solving once more reports
    -- nothing.
    have htold : ∀ n ∈ s.graph.solve.violations, n ∈ s.reported := by
      obtain ⟨sol, heq⟩ := Option.ne_none_iff_exists'.1 hsol
      rw [← hs.coherent.solution_eq sol heq]
      exact hmemory.told sol heq hphase
    have hu : ({ s with flow } : Session σ τ).graph.Sound := hs.coherent.sound
    obtain ⟨talk, reported, heq, htalk, hreported⟩ := reportViolations_eq hu
    rw [failures_eq_nil hu htold] at htalk
    have htalk' : flow.talk.Mirrors talk := .reports (.refl _) (.refl _) htalk (.refl _)
    refine ⟨some s.graph.solve, s.questions, reported, { flow with talk }, ?_,
      hflow.trans ((Flow.Mirrors.refl flow).withTalk htalk'), fun n => ?_⟩
    · have hresult := congrArg Prod.snd heq
      dsimp only at hresult
      exact congrArg (fun t : Session σ τ => { t with solution := some s.graph.solve }) hresult
    · rw [hreported]
      exact ⟨Or.inl, fun h => h.elim id (htold n)⟩

namespace Mirrors

omit [QualifierLattice σ τ] in
lemma withFlow (h : s.Mirrors R s') {flow flow' : Flow σ τ} (hflow : flow.Mirrors flow') :
    ({ s with flow } : Session σ τ).Mirrors R { s' with flow := flow' } :=
  { h with
    flow := hflow
    left := ⟨h.left.recipe, h.left.reported_lt, h.left.told⟩
    right := ⟨h.right.recipe, h.right.reported_lt, h.right.told⟩ }

omit [QualifierLattice σ τ] in
/-- Solutions are held of which all that fails was reported. -/
lemma withSolution (h : s.Mirrors R s') {sol sol' : Solution}
    (htold : s.phase ≠ .opened → ∀ n ∈ sol.violations, n ∈ s.reported)
    (htold' : s'.phase ≠ .opened → ∀ n ∈ sol'.violations, n ∈ s'.reported) :
    ({ s with solution := some sol } : Session σ τ).Mirrors R
      { s' with solution := some sol' } :=
  { h with
    left := ⟨h.left.recipe, h.left.reported_lt, fun _ heq => Option.some.inj heq ▸ htold⟩
    right := ⟨h.right.recipe, h.right.reported_lt, fun _ heq => Option.some.inj heq ▸ htold'⟩ }

lemma rekeyed (h : s.Mirrors R s') (hclash : s.flow.NoClash s.graph) :
    s.rekeyed.Mirrors R s'.rekeyed := by
  have hnoted : (s.noteSolution s.graph.solve).Mirrors R (s'.noteSolution s'.graph.solve) :=
    ((h.note _ _).note _ _).note _ _
  have hrekey (f : Flow σ τ) : f.rekey s.graph = f.rekey s'.graph := by
    unfold Flow.rekey Flow.rekeyEntry
    rw [h.stores.classes_eq, h.locations_eq]
  refine hnoted.withFlow ?_
  rw [← hrekey]
  exact hnoted.flow.rekey hclash

lemma ready (h : s.Mirrors R s') (hs : s.graph.Sound) (hs' : s'.graph.Sound)
    (hd : s.graph.effects.Distinguishes R s'.graph.effects) (hclash : s.flow.NoClash s.graph) :
    s.ready.Mirrors R s'.ready := by
  have hrekeyed := h.rekeyed hclash
  unfold Session.ready
  rw [← h.phase_eq]
  split
  · rename_i hphase
    rw [← s.phase_rekeyed] at hphase
    exact hrekeyed.withSolution (fun hne => absurd hphase hne)
      (fun hne => absurd (hrekeyed.phase_eq.symm.trans hphase) hne)
  · rw [← s.graph_rekeyed] at hs hd ⊢
    rw [← s'.graph_rekeyed] at hs' hd ⊢
    obtain ⟨-, hreported⟩ := hrekeyed.reportViolations hs hs' hd
    exact hreported.withSolution (fun _ _ hn => mem_reported_of_violation hs hn)
      (fun _ _ hn => mem_reported_of_violation hs' hn)

end Mirrors

/-- The sessions mirror each other, and both hold the solutions of their graphs. -/
structure MirrorsSolved (R : EffectId → EffectId → Prop) (sol sol' : Solution)
    (s s' : Session σ τ) : Prop where
  mirrors : s.Mirrors R s'
  distinguishes : s.graph.effects.Distinguishes R s'.graph.effects
  left : s.Invariants
  right : s'.Invariants
  left_solution : s.solution = some sol
  right_solution : s'.solution = some sol'

/-- A solution is given out as if it was computed anew. -/
lemma Invariants.exists_solved (hs : s.Invariants) (hmemory : s.SoundMemory)
    (hready : s.ready.SoundMemory) :
    ∃ sol t, s.solved = .ok (sol, t) ∧ s.ready.SameUpToSolution t ∧ t.SoundMemory := by
  cases hsol : s.solution with
  | none =>
    exact ⟨_, s.ready, solved_eq_ready hs.layered.validate_eq_ok hsol, .refl _, hready⟩
  | some sol =>
    have hne : s.solution ≠ none := by simp [hsol]
    refine ⟨sol, s, ?_, (hs.sameUpToSolution_ready hmemory hne).symm, hmemory⟩
    unfold solved
    rw [hsol]

theorem Mirrors.exists_solved (h : s.Mirrors R s') (hs : s.Invariants) (hs' : s'.Invariants)
    (hd : s.graph.effects.Distinguishes R s'.graph.effects) (hclash : s.flow.NoClash s.graph) :
    ∃ sol sol' t t', s.solved = .ok (sol, t) ∧ s'.solved = .ok (sol', t') ∧
      MirrorsSolved R sol sol' t t' := by
  have hready := h.ready hs.coherent.sound hs'.coherent.sound hd hclash
  obtain ⟨sol, t, hsolved, hlike, hmemory⟩ := hs.exists_solved h.left hready.left
  obtain ⟨sol', t', hsolved', hlike', hmemory'⟩ := hs'.exists_solved h.right hready.right
  obtain ⟨hasks, hsol, -⟩ := asks_solved (c := .summary) hsolved
  obtain ⟨hasks', hsol', -⟩ := asks_solved (c := .summary) hsolved'
  refine ⟨sol, sol', t, t', hsolved, hsolved',
    hready.sameUpToSolution hlike hlike' hmemory hmemory', ?_, hs.asks hasks, hs'.asks hasks', hsol,
    hsol'⟩
  rw [hasks.graph_eq, hasks'.graph_eq]
  exact hd

lemma Mirrors.solved (h : s.Mirrors R s') (hs : s.Invariants) (hs' : s'.Invariants)
    (hd : s.graph.effects.Distinguishes R s'.graph.effects) (hclash : s.flow.NoClash s.graph) :
    Concurs (fun p p' => MirrorsSolved R p.1 p'.1 p.2 p'.2) s.solved s'.solved := by
  obtain ⟨sol, sol', t, t', hsolved, hsolved', ht⟩ := h.exists_solved hs hs' hd hclash
  rw [hsolved, hsolved']
  exact .ok ht

/-- Giving out a solution settles nothing. -/
lemma settled_of_solved {sol : Solution} (h : s.solved = .ok (sol, t)) :
    t.flow.settled = s.flow.settled := by
  unfold solved at h
  split at h
  · cases h
    rfl
  · obtain ⟨-, -, h⟩ := bind_eq_ok_iff.1 h
    cases h
    dsimp only
    split
    · rfl
    · exact (chats_reportViolations _ _).settled_eq

/-! ## Settling -/

namespace MirrorsSolved

variable {sol sol' : Solution}

omit [QualifierLattice σ τ] in
lemma left_eq (h : MirrorsSolved R sol sol' s s') : sol = s.graph.solve :=
  h.left.coherent.solution_eq sol h.left_solution

omit [QualifierLattice σ τ] in
lemma right_eq (h : MirrorsSolved R sol sol' s s') : sol' = s'.graph.solve :=
  h.right.coherent.solution_eq sol' h.right_solution

lemma asks (h : MirrorsSolved R sol sol' s s') (command : Command τ) (ht : Asks command s t)
    (ht' : Asks command s' t') (hm : t.Mirrors R t') : MirrorsSolved R sol sol' t t' where
  mirrors := hm
  distinguishes := by
    rw [ht.graph_eq, ht'.graph_eq]
    exact h.distinguishes
  left := h.left.asks ht
  right := h.right.asks ht'
  left_solution := ht.solution_eq h.left_solution
  right_solution := ht'.solution_eq h.right_solution

omit [QualifierLattice σ τ] in
/-- The cells are read against views that mirror each other. -/
lemma view (h : MirrorsSolved R sol sol' s s') : View.Mirrors R (s.view sol) (s'.view sol') := by
  rw [h.left_eq, h.right_eq]
  unfold Session.view
  rw [h.mirrors.linearities_eq]
  exact h.mirrors.graph.view h.distinguishes h.left.coherent.sound h.right.coherent.sound _

lemma settle (h : MirrorsSolved R sol sol' s s') (seeds : List Cell) :
    MirrorsSolved R sol sol' (s.settle sol seeds) (s'.settle sol' seeds) := by
  refine h.asks .summary (.single (.settle seeds h.left_solution))
    (.single (.settle seeds h.right_solution)) (h.mirrors.withFlow ?_)
  have hfinished := h.left.ledger.finished
  have hfinished' := h.right.ledger.finished
  have hfaithful := h.left.faithful
  have hfaithful' := h.right.faithful
  rw [← h.left_eq] at hfinished hfaithful
  rw [← h.right_eq] at hfinished' hfaithful'
  exact h.view.settle hfaithful hfaithful' h.mirrors.flow hfinished hfinished' seeds

/-- Cells have the same types. -/
lemma readCell (h : MirrorsSolved R sol sol' s s') (c : Cell) :
    (s.readCell sol c).1 = (s'.readCell sol' c).1 ∧
      MirrorsSolved R sol sol' (s.readCell sol c).2 (s'.readCell sol' c).2 := by
  have hsettled := h.settle [c]
  obtain ⟨htype, hflow⟩ := hsettled.mirrors.flow.read (s.view sol) c
  have hview := h.view.read_eq (s'.settle sol' [c]).flow c
  rw [hview] at htype hflow
  exact ⟨htype, hsettled.asks .summary (.single (.read c hsettled.left_solution))
    (.single (.read c hsettled.right_solution)) (hsettled.mirrors.withFlow hflow)⟩

end MirrorsSolved

end Session

end HeapQual
