import HeapQual.Lattice.Level
import HeapQual.Proofs.Session.Invariants
import HeapQual.Proofs.Session.Speaking

/-!
# Failing inclusions are reported once

The journal shows which inclusions were reported as failing (`denounced`), and a session keeps their
numbers.  The two agree in every session, and no number occurs twice (`Session.Accounted`).

Whatever a command does, it reports only inclusions that fail by the graph and were not reported
before (`Session.Moves.adds`).  When the solution of a graph is asked for that is no longer open,
all that fails by it has been reported then (`Session.Inquires.told`), and stays reported while the
solution is held.  What fails because the graph has grown is reported by the next command that needs
the solution (`Session.violations_reported_once`).
-/

namespace HeapQual

open Relation (ReflTransGen)

variable {σ τ : Type} {command : Command τ}

/-! ## Inclusions in the journal -/

/-- The numbers of the inclusions that were reported in a sequence of events. -/
def denounced (events : List (Event τ)) : List Nat :=
  (diagnostics events).filterMap fun d => d.cause.inclusion?

namespace Dialogue

variable {d d' : Dialogue σ τ} {p : Reason → Prop}

lemma denounced_report (d : Dialogue σ τ) (position : Position) {cause : Cause}
    (h : cause.inclusion? = none) :
    denounced (d.report position cause).journal = denounced d.journal :=
  List.filterMap_cons_none h

variable [QualifierLattice σ τ]

/-- What is required for an edge or an update has nothing to do with inclusions. -/
lemma denounced_require (d : Dialogue σ τ) {reason : Reason} {cause : Cause}
    (hmark : reason.Markable) (hblames : cause.mark? = reason.mark?) (position : Position)
    (l r : τ) :
    denounced (d.require reason position cause l r).journal = denounced d.journal := by
  have hnone : cause.inclusion? = none := by
    obtain ⟨mark, hmark⟩ := Reason.markable_iff.1 hmark
    rw [hmark] at hblames
    cases cause <;> simp_all [Cause.mark?, Cause.inclusion?]
  unfold Dialogue.require
  dsimp only
  split
  · rfl
  · exact denounced_report _ position hnone

lemma denounced_of_requires (h : ReflTransGen (Requires p) d d') :
    denounced d'.journal = denounced d.journal := by
  induction h with
  | refl => rfl
  | tail _ hstep ih =>
    refine Eq.trans ?_ ih
    cases hstep with
    | note => rfl
    | fresh => rfl
    | require position l r hmark _ hblames => exact denounced_require _ hmark hblames position l r

/-- Only a diagnostic about an inclusion reports one. -/
lemma Speaks.denounced_eq (h : d.Speaks p Cause.Discreet d') :
    denounced d'.journal = denounced d.journal := by
  induction h with
  | refl => rfl
  | tail _ hstep ih =>
    refine Eq.trans ?_ ih
    cases hstep with
    | require hstep => exact denounced_of_requires (.single hstep)
    | report position _ hcause => exact denounced_report _ position hcause
    | _ => rfl

end Dialogue

namespace Session

variable {P : Prop} {s s' s'' : Session σ τ} {sol : Solution}

/-! ## Reporting -/

/-- Only such inclusions are reported, and none that was reported before. -/
def Adds (failing : List Nat) (s s' : Session σ τ) : Prop :=
  ∃ new : List Nat, new.Nodup ∧ (∀ number ∈ new, number ∈ failing ∧ number ∉ s.reported) ∧
    s'.reported = new ++ s.reported ∧
    denounced s'.talk.journal = new ++ denounced s.talk.journal

namespace Adds

variable {failing : List Nat}

/-- No inclusion is reported. -/
lemma of_eq (hreported : s'.reported = s.reported)
    (hdenounced : denounced s'.talk.journal = denounced s.talk.journal) : s.Adds failing s' :=
  ⟨[], List.nodup_nil, fun _ h => absurd h List.not_mem_nil, hreported, hdenounced⟩

lemma refl (s : Session σ τ) : s.Adds failing s := .of_eq rfl rfl

lemma trans (h : s.Adds failing s') (h' : s'.Adds failing s'') : s.Adds failing s'' := by
  obtain ⟨new, hnodup, hnew, hreported, hdenounced⟩ := h
  obtain ⟨new', hnodup', hnew', hreported', hdenounced'⟩ := h'
  rw [hreported] at hnew' hreported'
  refine ⟨new' ++ new, List.Nodup.append hnodup' hnodup ?_, fun number hnumber => ?_, ?_, ?_⟩
  · -- What is reported later was not reported in between.
    exact fun number hlater hsooner => (hnew' number hlater).2 (List.mem_append_left _ hsooner)
  · rcases List.mem_append.1 hnumber with hnumber | hnumber
    · exact ⟨(hnew' number hnumber).1,
        fun h => (hnew' number hnumber).2 (List.mem_append_right _ h)⟩
    · exact hnew number hnumber
  · rw [hreported', List.append_assoc]
  · rw [hdenounced', hdenounced, List.append_assoc]

lemma mem_reported (h : s.Adds failing s') {number : Nat} (hnumber : number ∈ s.reported) :
    number ∈ s'.reported := by
  obtain ⟨new, -, -, hreported, -⟩ := h
  rw [hreported]
  exact List.mem_append_right _ hnumber

lemma denounced_eq_of_nil (h : s.Adds [] s') :
    denounced s'.talk.journal = denounced s.talk.journal := by
  obtain ⟨new, -, hnew, -, hdenounced⟩ := h
  rw [hdenounced, List.eq_nil_iff_forall_not_mem.2 fun number hnumber =>
    absurd (hnew number hnumber).1 List.not_mem_nil, List.nil_append]

end Adds

/-- Each inclusion that exists is reported unless it was before. -/
lemma reported_foldl_reportViolation {numbers : List Nat} (hnodup : numbers.Nodup)
    (tally : Nat × Session σ τ)
    (hexists : ∀ number ∈ numbers, tally.2.graph.effects.inclusions[number]? ≠ none) :
    (numbers.foldl reportViolation tally).2.reported =
        (numbers.filter fun number => number ∉ tally.2.reported).reverse ++ tally.2.reported ∧
      denounced (numbers.foldl reportViolation tally).2.talk.journal =
        (numbers.filter fun number => number ∉ tally.2.reported).reverse ++
          denounced tally.2.talk.journal := by
  induction numbers generalizing tally with
  | nil => exact ⟨rfl, rfl⟩
  | cons number numbers ih =>
    obtain ⟨count, s⟩ := tally
    obtain ⟨hnew, hnodup⟩ := List.nodup_cons.1 hnodup
    have hrest : ∀ number ∈ numbers, s.graph.effects.inclusions[number]? ≠ none :=
      fun number hnumber => hexists number (List.mem_cons_of_mem _ hnumber)
    rw [List.foldl_cons]
    by_cases hreported : number ∈ s.reported
    · have hstep : reportViolation (count, s) number = (count, s) := by
        simp [reportViolation, hreported]
      rw [hstep, List.filter_cons_of_neg (by simpa using hreported)]
      exact ih hnodup (count, s) hrest
    · obtain ⟨inc, hinc⟩ :=
        Option.ne_none_iff_exists'.1 (hexists number (List.mem_cons_self ..))
      have hstep : reportViolation (count, s) number = (count + 1, { s.report inc.position
          (.notIncluded number (s.graph.effectText inc.source) (s.graph.effectText inc.target)) with
          reported := number :: s.reported }) := by
        simp [reportViolation, hreported, hinc]
      -- The number does not occur again, so it makes no difference that it is now reported.
      have hfilter : (numbers.filter fun other => other ∉ number :: s.reported) =
          numbers.filter fun other => other ∉ s.reported := by
        refine List.filter_congr fun other hother => ?_
        have hne : other ≠ number := fun h => hnew (h ▸ hother)
        simp [hne]
      rw [hstep, List.filter_cons_of_pos (by simpa using hreported), List.reverse_cons]
      obtain ⟨ihreported, ihdenounced⟩ := ih hnodup (count + 1, { s.report inc.position
        (.notIncluded number (s.graph.effectText inc.source) (s.graph.effectText inc.target)) with
        reported := number :: s.reported }) hrest
      dsimp only at ihreported ihdenounced ⊢
      rw [hfilter] at ihreported ihdenounced
      constructor
      · rw [ihreported, List.append_assoc]
        rfl
      · rw [ihdenounced, List.append_assoc]
        rfl

/-- What fails in a sound graph exists. -/
lemma inclusion_ne_none (hs : s.graph.Sound) {number : Nat}
    (hnumber : number ∈ s.graph.solve.violations) :
    s.graph.effects.inclusions[number]? ≠ none := by
  obtain ⟨inc, hinc, -⟩ := hs.effects.mem_violations.1 hnumber
  rw [hinc]
  exact Option.some_ne_none inc

/-- What fails in a sound graph is reported, unless it was before. -/
lemma adds_reportViolations (hs : s.graph.Sound) :
    s.Adds s.graph.solve.violations (s.reportViolations s.graph.solve).2 := by
  have hnodup : s.graph.solve.violations.Nodup :=
    (s.graph.effects.pairwise_violations _).imp fun h => h.ne
  obtain ⟨hreported, hdenounced⟩ := reported_foldl_reportViolation hnodup (0, s)
    fun number hnumber => inclusion_ne_none hs hnumber
  refine ⟨_, List.nodup_reverse.2 (hnodup.filter _), fun number hnumber => ?_, hreported,
    hdenounced⟩
  simpa using hnumber

variable [QualifierLattice σ τ]

/-! ## The moves -/

lemma Build.adds {failing : List Nat} (h : Build P command s s') : s.Adds failing s' := by
  refine .of_eq ?_ h.speaks.denounced_eq
  cases h with
  | grow =>
    unfold forget
    split <;> rfl
  | _ => rfl

lemma Builds.adds {failing : List Nat} (h : Builds P command s s') : s.Adds failing s' := by
  induction h with
  | refl => exact .refl s
  | tail _ hmove ih => exact ih.trans hmove.adds

/-- Asking reports only what fails by the solution held, which is that of the graph. -/
lemma Ask.adds (h : Ask command s s') (hs : s.Coherent) : s.Adds s.graph.solve.violations s' := by
  rcases h.discloses with ⟨hreported, hspeaks⟩ | ⟨sol, hsol, rfl⟩
  · exact .of_eq hreported hspeaks.denounced_eq
  · rw [hs.solution_eq sol hsol]
    exact adds_reportViolations hs.sound

lemma Asks.adds (h : Asks command s s') (hs : s.Coherent) :
    s.Adds s.graph.solve.violations s' := by
  induction h with
  | refl => exact .refl s
  | tail hasks hmove ih =>
    have hadds := hmove.adds (hs.asks hasks)
    rw [Asks.graph_eq hasks] at hadds
    exact ih.trans hadds

lemma Moves.adds (h : Moves P command s s') (hs : s.Coherent) :
    s.Adds s.graph.solve.violations s' := by
  rcases h with hbuilds | ⟨hasks, -⟩
  · exact hbuilds.adds
  · exact hasks.adds hs

/-! ## What fails by the solution held -/

/-- What fails by a solution of a graph that is no longer open has been reported. -/
def Told (s : Session σ τ) : Prop :=
  s.phase ≠ .opened → s.solution ≠ none → ∀ number ∈ s.graph.solve.violations, number ∈ s.reported

/-- If its solution is still held after the graph was built, the same inclusions fail. -/
lemma Builds.told (h : Builds P command s s') (hs : s.Coherent) (htold : s.Told) : s'.Told := by
  induction h with
  | refl => exact htold
  | @tail s₁ s₂ hbuilds hmove ih =>
    cases hmove with
    | grow => exact fun _ hne => absurd (solution_forget _) hne
    | @tweak graph _ htweaks =>
      intro hphase hne number hnumber
      have hs₁ : s₁.Coherent := hs.moves (Or.inl hbuilds)
      have hsolve : graph.solve = s₁.graph.solve := htweaks.solve_eq hs₁.sound (hs₁.named hne)
      refine ih hphase hne number ?_
      rw [← hsolve]
      exact hnumber
    | _ => exact ih

/-- Once the graph is solved, asking changes neither what fails nor that it was reported. -/
lemma Ask.told (h : Ask command s s') (hs : s.Coherent) (hsol : s.solution = some sol)
    (htold : s.Told) : s'.Told := by
  have hkept (number : Nat) : number ∈ s.reported → number ∈ s'.reported :=
    (h.adds hs).mem_reported
  have hne : s.solution ≠ none := by simp [hsol]
  intro hphase' _ number hnumber
  rw [h.graph_eq] at hnumber
  cases h with
  | chat hchats =>
    obtain ⟨talk, questions, reported, rfl, -⟩ := hchats
    exact hkept number (htold hphase' hne number hnumber)
  | solve hnone => exact absurd hnone hne
  | close _ _ hreported =>
    rw [← hs.solution_eq sol hsol] at hnumber
    exact hreported sol hsol number hnumber
      (inclusion_ne_none hs.sound (hs.solution_eq sol hsol ▸ hnumber))
  | linearize hclosed => exact hkept number (htold (by simp [hclosed]) hne number hnumber)
  | _ => exact htold hphase' hne number hnumber

lemma Asks.told (h : Asks command s s') (hs : s.Coherent) (hsol : s.solution = some sol)
    (htold : s.Told) : s'.Told := by
  induction h with
  | refl => exact htold
  | tail hasks hmove ih => exact hmove.told (hs.asks hasks) (Asks.solution_eq hasks hsol) ih

/-- When the solution is given, what fails by it has been reported, unless the graph is open. -/
lemma told_of_solved (hs : s.Coherent) (htold : s.Told) (h : s.solved = .ok (sol, s')) :
    s'.Told := by
  unfold solved at h
  split at h
  · cases h
    exact htold
  · obtain ⟨_, -, h⟩ := bind_eq_ok_iff.1 h
    dsimp only at h
    split at h
    · rename_i hopened
      cases h
      exact fun hphase => absurd hopened hphase
    · cases h
      intro _ _ number hnumber
      rw [(chats_reportViolations _ _).graph_eq] at hnumber
      exact mem_reported_foldl_reportViolation _ _
        (Or.inr ⟨hnumber, inclusion_ne_none hs.sound hnumber⟩)

/-- A question leaves nothing unreported that fails. -/
lemma Inquires.told {declined : Prop} (h : Inquires command declined s s') (hs : s.Coherent)
    (htold : s.Told) : s'.Told := by
  cases h with
  | declined => exact htold
  | @asks s₀ s₁ _ sol hmentions hsolved hasks =>
    have hs₀ := hs.asks (hmentions.asks (c := command))
    have htold₀ : s₀.Told := by
      obtain ⟨talk, rfl, -⟩ := hmentions
      exact htold
    obtain ⟨hfirst, hsol, -⟩ := asks_solved (c := command) hsolved
    exact hasks.told (hs₀.asks hfirst) hsol (told_of_solved hs₀ htold₀ hsolved)

lemma exec_told {c : Command τ} {reply : Reply τ} (hs : s.Coherent) (htold : s.Told)
    (h : s.exec c = .ok (reply, s')) : s'.Told := by
  by_cases hc : Inquiring c
  · rcases exec_inquires (P := False) False.elim hc h with ⟨-, hbuilds⟩ | hinquires
    · exact hbuilds.told hs htold
    · exact hinquires.told hs htold
  · exact (exec_builds (P := False) hs.sound False.elim hc h).told hs htold

/-- A command that only builds reports no inclusion. -/
lemma denounced_of_not_inquiring {c : Command τ} {reply : Reply τ} (hs : s.graph.Sound)
    (hc : ¬Inquiring c) (h : s.exec c = .ok (reply, s')) :
    denounced s'.talk.journal = denounced s.talk.journal :=
  (exec_builds (P := False) hs False.elim hc h).adds.denounced_eq_of_nil

/-! ## Every session -/

/-- The session knows which inclusions it has reported: none twice, and all that fail by the
solution it holds, unless it is open. -/
structure Accounted (s : Session σ τ) : Prop where
  denounced_eq : denounced s.talk.journal = s.reported
  nodup : s.reported.Nodup
  told : s.Told

lemma Accounted.exec (ha : s.Accounted) (hs : s.Coherent) {c : Command τ} {reply : Reply τ}
    (h : s.exec c = .ok (reply, s')) : s'.Accounted := by
  obtain ⟨new, hnodup, hnew, hreported, hdenounced⟩ :=
    (exec_moves (P := False) hs.sound False.elim h).adds hs
  refine ⟨?_, ?_, exec_told hs ha.told h⟩
  · rw [hdenounced, hreported, ha.denounced_eq]
  · rw [hreported]
    exact List.Nodup.append hnodup ha.nodup fun number hlater => (hnew number hlater).2

variable {allowed : Session σ τ → Command τ → Prop}

theorem ReachableBy.accounted (h : ReachableBy allowed s) : s.Accounted := by
  obtain ⟨config, lattice, orders, hrun⟩ := h
  induction hrun with
  | refl => exact ⟨rfl, List.nodup_nil, fun hphase => absurd rfl hphase⟩
  | exec hrun _ hexec ih =>
    exact ih.exec (ReachableBy.coherent ⟨config, lattice, orders, hrun⟩) hexec
  | withLattice lattice _ ih => exact ⟨ih.denounced_eq, ih.nodup, ih.told⟩

/-- What a command reports fails by the graph that it is given to. -/
lemma mem_denounced_of_exec (hs : s.Coherent) {c : Command τ} {reply : Reply τ}
    (h : s.exec c = .ok (reply, s')) {number : Nat} (hnumber : number ∈ denounced s'.talk.journal) :
    number ∈ denounced s.talk.journal ∨ number ∈ s.graph.solve.violations := by
  obtain ⟨new, -, hnew, -, hdenounced⟩ := (exec_moves (P := False) hs.sound False.elim h).adds hs
  rw [hdenounced] at hnumber
  exact (List.mem_append.1 hnumber).symm.imp_right fun h => (hnew number h).1

/-- Whatever is reported in the course of a run fails at some point of it. -/
lemma exists_failing_of_denounced (h : ReachableBy allowed s) (hrun : Runs allowed s s')
    {number : Nat} (hnumber : number ∈ denounced s'.talk.journal) :
    number ∈ denounced s.talk.journal ∨
      ∃ s₁, Runs allowed s s₁ ∧ Runs allowed s₁ s' ∧ number ∈ s₁.graph.solve.violations := by
  induction hrun with
  | refl => exact Or.inl hnumber
  | @exec s₁ s₂ c reply hbefore hallowed hexec ih =>
    have hs₁ := h.run hbefore
    have hstep : Runs allowed s₁ s₂ := .exec .refl hallowed hexec
    rcases mem_denounced_of_exec hs₁.coherent hexec hnumber with hold | hfails
    · rcases ih hold with hold | ⟨s₀, hto, hfrom, hfails⟩
      · exact Or.inl hold
      · exact Or.inr ⟨s₀, hto, hfrom.trans hstep, hfails⟩
    · exact Or.inr ⟨s₁, hbefore, hstep, hfails⟩
  | withLattice lattice _ ih =>
    rcases ih hnumber with hold | ⟨s₀, hto, hfrom, hfails⟩
    · exact Or.inl hold
    · exact Or.inr ⟨s₀, hto, hfrom.withLattice lattice, hfails⟩

/-- Only inclusions that exist were reported. -/
lemma ReachableBy.denounced_lt (h : ReachableBy allowed s) {number : Nat}
    (hnumber : number ∈ denounced s.talk.journal) :
    number < s.graph.effects.inclusions.size := by
  obtain ⟨config, lattice, orders, hrun⟩ := h
  have hstart : ReachableBy allowed (Session.start config lattice orders : Session σ τ) :=
    ⟨config, lattice, orders, .refl⟩
  rcases exists_failing_of_denounced hstart hrun hnumber with hnone | ⟨s₁, hto, hfrom, hfails⟩
  · exact absurd hnone List.not_mem_nil
  · have hs₁ := (hstart.run hto).coherent.sound
    obtain ⟨inc, hinc, -⟩ := hs₁.effects.mem_violations.1 hfails
    have hgrows := hfrom.grows (P := False) hs₁ fun _ _ _ => False.elim
    exact (Array.getElem?_eq_some_iff.1 (hgrows.toExtends.inclusion_eq number inc hinc)).1

/-- No inclusion is reported twice, and whenever a solution of a graph that is no longer open is
held, every inclusion that fails by it has been reported.  What a command reports fails by the
solution that is held then, which is that of the present graph.  So an inclusion that was made late,
or fails because the graph has grown, is reported by the next command that needs the solution and is
not declined. -/
theorem violations_reported_once (h : Reachable s) :
    (denounced s.talk.journal).Nodup ∧
      (s.phase ≠ .opened → ∀ sol, s.solution = some sol →
        ∀ number ∈ sol.violations, number ∈ denounced s.talk.journal) ∧
      ∀ c reply s', s.exec c = .ok (reply, s') →
        (∃ new, denounced s'.talk.journal = new ++ denounced s.talk.journal ∧
          ∀ number ∈ new, s'.solution = some s'.graph.solve ∧
            number ∈ s'.graph.solve.violations) ∧
          (Inquiring c → s.phase ≠ .opened →
            (∀ r text, reply = .refused r text → r = .outputFull) →
            s'.graph = s.graph ∧
              ∀ number ∈ s.graph.solve.violations, number ∈ denounced s'.talk.journal) := by
  have ha := h.accounted
  have hs := h.coherent
  refine ⟨ha.denounced_eq ▸ ha.nodup, fun hphase sol hsol number hnumber => ?_,
    fun c reply s' hexec => ?_⟩
  · rw [hs.solution_eq sol hsol] at hnumber
    rw [ha.denounced_eq]
    exact ha.told hphase (by simp [hsol]) number hnumber
  · have ha' := ha.exec hs hexec
    by_cases hc : Inquiring c
    · rcases exec_inquires (P := False) False.elim hc hexec with ⟨hopened, hbuilds⟩ | hinquires
      · exact ⟨⟨[], hbuilds.adds.denounced_eq_of_nil, fun _ hnew => absurd hnew List.not_mem_nil⟩,
          fun _ hphase => absurd hopened hphase⟩
      · obtain ⟨new, -, hnew, -, hdenounced⟩ := (hinquires.moves (P := False)).adds hs
        cases hinquires with
        | declined hrefuses =>
          obtain ⟨r, text, rfl, hr⟩ := hrefuses
          exact ⟨⟨[], rfl, fun _ hnew => absurd hnew List.not_mem_nil⟩,
            fun _ _ hreply => absurd (hreply r text rfl) hr⟩
        | asks hmentions hsolved hasks hphase =>
          -- The solution that was given is still held, and it is that of the present graph.
          have hs' := (h.run (.exec .refl trivial hexec)).coherent
          obtain ⟨hgraph, hsol, -⟩ := solved_eq_ok hsolved
          have hheld := hasks.solution_eq hsol
          have hsame : s'.graph = s.graph :=
            (hasks.graph_eq.trans hgraph).trans hmentions.graph_eq
          refine ⟨⟨new, hdenounced, fun number hnumber => ?_⟩,
            fun _ _ _ => ⟨hsame, fun number hnumber => ?_⟩⟩
          · rw [hheld, hs'.solution_eq _ hheld, hsame]
            exact ⟨rfl, (hnew number hnumber).1⟩
          · rw [ha'.denounced_eq]
            exact ha'.told hphase (by simp [hheld]) number (hsame.symm ▸ hnumber)
    · exact ⟨⟨[], denounced_of_not_inquiring hs.sound hc hexec,
        fun _ hnew => absurd hnew List.not_mem_nil⟩, fun hinquiring => absurd hinquiring hc⟩

/-- A read is included in a write while the graph is open, and in an allocation after it was closed;
then a question is put twice. -/
def overdueScript : List (Command Int) :=
  [.makeLocation "x" 0, .atom .read ⟨0⟩, .atom .write ⟨0⟩, .atom .alloc ⟨0⟩,
    .includeEffect .internal ⟨1⟩ ⟨2⟩, .close, .includeEffect .internal ⟨1⟩ ⟨3⟩]

/-- The late inclusion is reported when the next question is put, and not again. -/
theorem violations_reported_once_late :
    ∃ s s₁ s₂ : Session Level Int, Reachable s ∧ s.phase = .closed ∧
      s.exec (.isAccessed ⟨0⟩ ⟨1⟩) = .ok (.flag true, s₁) ∧
      s₁.exec (.isAccessed ⟨0⟩ ⟨2⟩) = .ok (.flag true, s₂) ∧
      denounced s.talk.journal = [0] ∧ denounced s₁.talk.journal = [1, 0] ∧
      denounced s₂.talk.journal = [1, 0] ∧
      (∀ number ∈ s.graph.solve.violations, number ∈ denounced s₁.talk.journal) ∧
      (denounced s₂.talk.journal).Nodup := by
  have hrun : (follow (fun _ _ => True) (start ⟨2, false⟩ Level.mk) overdueScript).any fun s =>
      succeeds (s.exec (.isAccessed ⟨0⟩ ⟨1⟩)) fun p₁ =>
        succeeds (p₁.2.exec (.isAccessed ⟨0⟩ ⟨2⟩)) fun p₂ => List.and
          [p₁.1 = .flag true, p₂.1 = .flag true, s.phase = .closed, denounced s.talk.journal = [0],
            denounced p₁.2.talk.journal = [1, 0], denounced p₂.2.talk.journal = [1, 0]] := by
    decide +kernel
  simp only [Option.any_eq_true, succeeds_eq_true, and_decide_cons, List.and_nil, and_true] at hrun
  obtain ⟨s, hstart, ⟨_, s₁⟩, hfirst, ⟨_, s₂⟩, hsecond, rfl, rfl, hphase, hjournal, hjournal₁,
    hjournal₂⟩ := hrun
  have h : Reachable s := reachableBy_of_follow hstart
  have h₂ : Reachable s₂ := h.run ((Runs.exec .refl trivial hfirst).exec trivial hsecond)
  obtain ⟨-, -, hstep⟩ := violations_reported_once h
  obtain ⟨-, -, hall⟩ := (hstep _ _ _ hfirst).imp_right
    fun hneeds => hneeds trivial (by simp [hphase]) (by simp)
  exact ⟨s, s₁, s₂, h, hphase, hfirst, hsecond, hjournal, hjournal₁, hjournal₂, hall,
    (violations_reported_once h₂).1⟩

end Session

end HeapQual
