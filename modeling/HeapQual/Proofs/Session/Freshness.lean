import HeapQual.Lattice.Level
import HeapQual.Proofs.Session.Replaying

/-!
# The solution that is held is never out of date

A session holds the solution of its graph, the membership questions that were answered from it, and
the cells that were settled with it.  All three are of the present graph in every session that can
exist, whatever commands it was given (`Session.solution_never_stale`).  When the graph grows all
three are dropped; the other changes of the graph do not show in its solution.

Hence the answers about members and domains depend on the present graph only
(`Session.Coherent.domain_eq`, `Session.Trusted.isAccessed_eq`), and it makes no difference whether
the graph had grown before it was closed or did so afterwards.
-/

namespace HeapQual

/-! ## Answers of a graph -/

namespace Graph

variable {τ : Type}

/-- The locations that a store binds, by a solution that is made for the question. -/
def domainAnswer (g : Graph τ) (x : StoreId) : Except Fault (List LocationId) := do
  g.validate
  let root ← g.stores.find x
  return (g.solve.domainOf root).toList.map LocationId.mk

/-- Does the effect access the location?  The solution is made for the question. -/
def accessAnswer (g : Graph τ) (a : LocationId) (e : EffectId) : Except Fault Bool := do
  g.validate
  let location ← g.locations.find a
  let effect ← g.effects.find e
  return g.solve.touches effect location .any

/-- Answers do not depend on types. -/
lemma domainAnswer_shape (g : Graph τ) : g.shape.domainAnswer = g.domainAnswer := by
  funext x
  unfold domainAnswer
  rw [validate_shape, solve_shape, show g.shape.stores.find x = g.stores.find x from
    Stores.find_shape ..]

lemma accessAnswer_shape (g : Graph τ) : g.shape.accessAnswer = g.accessAnswer := by
  funext a e
  unfold accessAnswer
  rw [validate_shape, solve_shape, show g.shape.locations.find a = g.locations.find a from
    Locations.find_shape ..]
  rfl

end Graph

namespace Session

variable {σ τ : Type} {command : Command τ} {P : Prop} {s s' : Session σ τ}

/-! ## What is remembered besides the solution -/

/-- What was derived from the solution belongs to it, and nothing is left of an earlier one. -/
structure Trusted (s : Session σ τ) : Prop where
  answers : ∀ sol, s.solution = some sol → s.questions.Obeys sol.Answers
  cleared : s.solution = none → s.questions.slots = [] ∧ s.flow.settled = []

lemma Trusted.start (config : Config) (lattice : σ) (orders : List (List Nat)) :
    (Session.start config lattice orders : Session σ τ).Trusted :=
  ⟨fun _ h => absurd h (by simp [Session.start]), fun _ => ⟨rfl, rfl⟩⟩

variable [QualifierLattice σ τ]

lemma Trusted.build (hs : s.Trusted) (h : Build P command s s') : s'.Trusted := by
  cases h with
  | @grow graph =>
    have hnone := solution_forget ({ s with graph } : Session σ τ)
    refine ⟨fun sol hsol => absurd (hsol.symm.trans hnone) (by simp), fun _ => ?_⟩
    unfold forget
    split
    · rename_i hsol
      exact hs.cleared hsol
    · exact ⟨rfl, rfl⟩
  | _ => exact ⟨hs.answers, hs.cleared⟩

lemma Trusted.ask (hs : s.Trusted) (h : Ask command s s') : s'.Trusted := by
  cases h with
  | chat hchat hlearns =>
    obtain ⟨talk, questions, reported, rfl, -⟩ := hchat
    rcases hlearns with hquestions | ⟨sol, hsol, hconsults⟩
    · obtain rfl : questions = s.questions := hquestions
      exact ⟨hs.answers, hs.cleared⟩
    · refine ⟨fun sol' hsol' => ?_, fun hnone => ?_⟩
      · obtain rfl : sol = sol' := Option.some.inj (hsol.symm.trans hsol')
        exact hconsults.answers (hs.answers sol hsol)
      · exact absurd (hsol.symm.trans hnone) (by simp)
  | solve hnone =>
    refine ⟨fun sol _ => ?_, fun h => absurd h (by simp)⟩
    exact Cache.obeys_of_slots_eq_nil (hs.cleared hnone).1
  | discharge => exact ⟨hs.answers, hs.cleared⟩
  | close => exact ⟨hs.answers, hs.cleared⟩
  | settle seeds hsol => exact ⟨hs.answers, fun h => absurd (hsol.symm.trans h) (by simp)⟩
  | read c hsol => exact ⟨hs.answers, fun h => absurd (hsol.symm.trans h) (by simp)⟩
  | @linearize sol hphase hsol =>
    obtain ⟨linearities, flow, heq⟩ := s.demoteAll_eq sol
    rw [heq]
    exact ⟨hs.answers, fun h => absurd (hsol.symm.trans h) (by simp)⟩

lemma Trusted.asks (hs : s.Trusted) (h : Asks command s s') : s'.Trusted := by
  induction h with
  | refl => exact hs
  | tail _ hmove ih => exact ih.ask hmove

lemma Trusted.moves (hs : s.Trusted) (h : Moves P command s s') : s'.Trusted := by
  rcases h with h | ⟨h, -⟩
  · induction h with
    | refl => exact hs
    | tail _ hmove ih => exact ih.build hmove
  · exact hs.asks h

variable {allowed : Session σ τ → Command τ → Prop}

theorem ReachableBy.trusted (h : ReachableBy allowed s) : s.Trusted := by
  obtain ⟨config, lattice, orders, hrun⟩ := h
  induction hrun with
  | refl => exact .start config lattice orders
  | exec hrun _ hexec ih =>
    have hs := ReachableBy.coherent ⟨config, lattice, orders, hrun⟩
    exact ih.moves (exec_moves (P := False) hs.sound False.elim hexec)
  | withLattice lattice _ ih => exact ⟨ih.answers, ih.cleared⟩

/-! ## Since when the solution is held -/

/-- A graph whose solution survives building was only tweaked. -/
lemma Builds.tweaks (h : Builds P command s s') (hs' : s'.solution ≠ none) :
    s.solution ≠ none ∧ s.graph.Tweaks s'.graph := by
  induction h with
  | refl => exact ⟨hs', .refl _⟩
  | tail _ hmove ih =>
    cases hmove with
    | tweak _ htweaks =>
      obtain ⟨hne, ih⟩ := ih hs'
      exact ⟨hne, ih.trans htweaks⟩
    | grow => exact absurd (solution_forget _) hs'
    | _ => exact ih hs'

/-- Since before it was solved, a graph that is still solved was only tweaked. -/
lemma ReachableBy.tweaks_since (h : ReachableBy allowed s) (hs : s.solution ≠ none) :
    ∃ s₀, ReachableBy allowed s₀ ∧ s₀.solution = none ∧ Runs allowed s₀ s ∧
      s₀.graph.Tweaks s.graph := by
  obtain ⟨config, lattice, orders, hrun⟩ := h
  induction hrun with
  | refl => exact absurd rfl hs
  | @exec s₁ s₂ c reply hrun hc hexec ih =>
    have hs₁ := ReachableBy.coherent ⟨config, lattice, orders, hrun⟩
    -- If the graph was solved before the command, the session from which it was is the same.
    have hstep : s₁.solution ≠ none → s₁.graph.Tweaks s₂.graph → ∃ s₀, ReachableBy allowed s₀ ∧
        s₀.solution = none ∧ Runs allowed s₀ s₂ ∧ s₀.graph.Tweaks s₂.graph := by
      intro hne htweaks
      obtain ⟨s₀, hreach, hnone, hruns, hsince⟩ := ih hne
      exact ⟨s₀, hreach, hnone, hruns.exec hc hexec, hsince.trans htweaks⟩
    rcases exec_moves (P := False) hs₁.sound False.elim hexec with hbuilds | ⟨hasks, -⟩
    · obtain ⟨hne, htweaks⟩ := hbuilds.tweaks hs
      exact hstep hne htweaks
    · have htweaks : s₁.graph.Tweaks s₂.graph := hasks.graph_eq ▸ .refl _
      by_cases hnone : s₁.solution = none
      · exact ⟨s₁, ⟨config, lattice, orders, hrun⟩, hnone, .exec .refl hc hexec, htweaks⟩
      · exact hstep hnone htweaks
  | withLattice lattice hrun ih =>
    obtain ⟨s₀, hreach, hnone, hruns, hsince⟩ := ih hs
    exact ⟨s₀, hreach, hnone, hruns.withLattice lattice, hsince⟩

/-! ## Questions -/

omit [QualifierLattice σ τ] in
/-- A membership question is answered as by the solution, whether or not it was put before. -/
lemma asks_answer {sol : Solution} (hs : s.questions.Obeys sol.Answers) (location : Nat)
    (kind : Kind) (e : EffectId) :
    (s.asks sol location kind e).map Prod.fst =
      (s.graph.effects.find e).map fun effect => sol.touches effect location kind := by
  unfold asks
  cases s.graph.effects.find e with
  | error f => rfl
  | ok effect =>
    simp only [bind, Except.bind]
    split
    · split
      · rename_i answer hget
        rw [Cache.fst_get?] at hget
        exact congrArg Except.ok (hs.rel_of_peek? hget kind rfl)
      · rfl
    · rfl

/-- The solution can be had exactly if everything exists that store expressions name.  It is that of
the present graph. -/
lemma Coherent.solved_cases (hs : s.Coherent) :
    (∃ f, s.graph.validate = .error f ∧ s.solved = .error f) ∨
      (s.graph.validate = .ok () ∧ ∃ s', s.solved = .ok (s.graph.solve, s')) := by
  cases hvalidate : s.graph.validate with
  | error f =>
    refine Or.inl ⟨f, rfl, ?_⟩
    -- A solution is held only of a graph that passes, so here none is.
    have hnone : s.solution = none := by
      by_contra hne
      rw [Graph.validate_eq_ok_iff.2 (hs.named hne)] at hvalidate
      cases hvalidate
    unfold solved
    rw [hnone]
    dsimp only
    rw [hvalidate]
    rfl
  | ok => exact Or.inr ⟨rfl, hs.exists_solved hvalidate⟩

/-- The answers remembered when the solution is given are its own. -/
lemma Trusted.answers_of_solved {sol : Solution} (hs : s.Trusted)
    (h : s.solved = .ok (sol, s')) : s'.questions.Obeys sol.Answers := by
  obtain ⟨hasks, hsol, -⟩ := asks_solved (c := .summary) h
  exact (hs.asks hasks).answers sol hsol

omit [QualifierLattice σ τ] in
lemma map_fst_bind {α β : Type} (x : Except Fault (α × Session σ τ)) (f : α → β) :
    (x >>= fun p => (pure (f p.1, p.2) : Except Fault (β × Session σ τ))).map Prod.fst =
      (x.map Prod.fst).map f := by
  cases x <;> rfl

/-- The domain of a store is that of the present graph. -/
lemma Coherent.domain_eq (hs : s.Coherent) (hphase : s.phase ≠ .opened) (x : StoreId) :
    (s.domain x).map Prod.fst = (s.graph.domainAnswer x).map .ok := by
  unfold domain Graph.domainAnswer
  rw [refuseOpen_eq_none_iff.2 hphase]
  rcases hs.solved_cases with ⟨f, hvalidate, hsolved⟩ | ⟨hvalidate, s', hsolved⟩
  · rw [hvalidate, hsolved]
    rfl
  · rw [hvalidate, hsolved]
    simp only [bind, Except.bind, (solved_eq_ok hsolved).1]
    cases s.graph.stores.find x <;> rfl

/-- Whether a location is accessed is answered by the present graph. -/
lemma Trusted.isAccessed_eq (htrusted : s.Trusted) (hs : s.Coherent) (hphase : s.phase ≠ .opened)
    (a : LocationId) (e : EffectId) :
    (s.isAccessed a e).map Prod.fst = (s.graph.accessAnswer a e).map .ok := by
  unfold isAccessed Graph.accessAnswer
  rw [refuseOpen_eq_none_iff.2 hphase]
  rcases hs.solved_cases with ⟨f, hvalidate, hsolved⟩ | ⟨hvalidate, s', hsolved⟩
  · rw [hvalidate, hsolved]
    rfl
  · rw [hvalidate, hsolved]
    have hanswer := asks_answer (htrusted.answers_of_solved hsolved)
    simp only [bind, Except.bind, (solved_eq_ok hsolved).1] at hanswer ⊢
    cases s.graph.locations.find a with
    | error f => rfl
    | ok location =>
      calc (s'.asks s.graph.solve location .any e >>= fun p =>
            (pure (Except.ok p.1, p.2) : Except Fault (Answer σ τ Bool))).map Prod.fst
          = ((s'.asks s.graph.solve location .any e).map Prod.fst).map .ok := map_fst_bind _ _
        _ = ((s.graph.effects.find e).map fun effect =>
              s.graph.solve.touches effect location .any).map .ok := by rw [hanswer]
        _ = _ := by cases s.graph.effects.find e <;> rfl

/-! ## Growing late -/

/-- A closed graph is not opened again. -/
lemma Runs.phase_ne_opened (h : Runs allowed s s') (hs : s.graph.Sound)
    (hphase : s.phase ≠ .opened) : s'.phase ≠ .opened := by
  induction h with
  | refl => exact hphase
  | exec hrun _ hexec ih =>
    have hsound := (hrun.grows (P := False) hs fun _ _ _ => False.elim).sound
    intro hopened
    exact ih ((exec_moves (P := False) hsound False.elim hexec).opened hopened).1
  | withLattice _ _ ih => exact ih

lemma alike_of_close {reply : Reply τ} (h : s.exec .close = .ok (reply, s')) :
    s.Alike s' ∧ s'.phase ≠ .opened := by
  refine ⟨alike_of_not_grows rfl h, ?_⟩
  exact of_bind_answer (Q := fun s' => s'.phase ≠ .opened) (fun _ _ h => (close_inquires h).2)
    (perform_eq_ok_of_exec h)

/-- Closed sessions that are alike answer questions about members and domains alike. -/
lemma Alike.answers_eq (h : s.Alike s') (hs : Reachable s) (hs' : Reachable s')
    (hphase : s.phase ≠ .opened) (hphase' : s'.phase ≠ .opened) (x : StoreId) (a : LocationId)
    (e : EffectId) :
    (s.domain x).map Prod.fst = (s'.domain x).map Prod.fst ∧
      (s.isAccessed a e).map Prod.fst = (s'.isAccessed a e).map Prod.fst := by
  have hdomain : s.graph.domainAnswer = s'.graph.domainAnswer := by
    rw [← Graph.domainAnswer_shape, h.shape_eq, Graph.domainAnswer_shape]
  have haccess : s.graph.accessAnswer = s'.graph.accessAnswer := by
    rw [← Graph.accessAnswer_shape, h.shape_eq, Graph.accessAnswer_shape]
  refine ⟨?_, ?_⟩
  · rw [hs.coherent.domain_eq hphase, hs'.coherent.domain_eq hphase', hdomain]
  · rw [hs.trusted.isAccessed_eq hs.coherent hphase, hs'.trusted.isAccessed_eq hs'.coherent hphase',
      haccess]

/-! ## The solution that is held -/

/-- The solution is that of the present graph, in all its parts, and so is every answer that is
given from it. -/
structure Current (s : Session σ τ) (sol : Solution) : Prop where
  eq_solve : sol = s.graph.solve
  validate_eq : s.graph.validate = .ok ()
  size_members : sol.members.size = s.graph.effects.size
  size_domains : sol.domains.size = s.graph.stores.size
  member_mem_roots : ∀ i, ∀ x ∈ sol.membersOf i, x.location ∈ s.graph.locations.roots
  domain_mem_roots : ∀ i, ∀ a ∈ sol.domainOf i, a ∈ s.graph.locations.roots
  asks_eq : ∀ location kind e, (s.asks sol location kind e).map Prod.fst =
    (s.graph.effects.find e).map fun effect => sol.touches effect location kind
  tweaks_since : ∃ s₀, Reachable s₀ ∧ s₀.solution = none ∧ Runs (fun _ _ => True) s₀ s ∧
    s₀.graph.Tweaks s.graph

lemma Reachable.current (h : Reachable s) {sol : Solution} (hsol : s.solution = some sol) :
    s.Current sol := by
  have hs := h.coherent
  have hne : s.solution ≠ none := by simp [hsol]
  have hnamed := hs.named hne
  obtain rfl := hs.solution_eq sol hsol
  exact {
    eq_solve := rfl
    validate_eq := Graph.validate_eq_ok_iff.2 hnamed
    size_members := hs.sound.size_members
    size_domains := hnamed.size_domains hs.sound
    member_mem_roots := fun _ _ hx => hs.sound.mem_roots_of_mem_members hx
    domain_mem_roots := fun _ _ ha => hnamed.mem_roots_of_mem_domain hs.sound ha
    asks_eq := asks_answer (h.trusted.answers _ hsol)
    tweaks_since := h.tweaks_since hne }

/-- In every session that can exist, the solution that is held is that of the present graph; and if
none is held, no answer is remembered and no cell is settled.  After the graph was closed, questions
about members and domains are answered from the present graph.  So the answers after the graph has
grown late are those that are given if it had grown in the same way before it was closed, whatever
types were given and whatever else was asked. -/
theorem solution_never_stale (h : Reachable s) :
    (∀ sol, s.solution = some sol → s.Current sol) ∧
      (s.solution = none → s.questions.slots = [] ∧ s.flow.settled = []) ∧
      (s.phase ≠ .opened → ∀ x a e,
        (s.domain x).map Prod.fst = (s.graph.domainAnswer x).map .ok ∧
          (s.isAccessed a e).map Prod.fst = (s.graph.accessAnswer a e).map .ok) ∧
      ∀ t t₁ t₂ t₃ reply reply' commands commands', Reachable t →
        t.exec .close = .ok (reply, t₁) → Carries commands t₁ s →
        List.Forall₂ Command.Alike commands commands' → Carries commands' t t₂ →
        t₂.exec .close = .ok (reply', t₃) → ∀ x a e,
          (s.domain x).map Prod.fst = (t₃.domain x).map Prod.fst ∧
            (s.isAccessed a e).map Prod.fst = (t₃.isAccessed a e).map Prod.fst := by
  refine ⟨fun sol hsol => h.current hsol, h.trusted.cleared, fun hphase x a e => ?_, ?_⟩
  · exact ⟨h.coherent.domain_eq hphase x, h.trusted.isAccessed_eq h.coherent hphase a e⟩
  · intro t t₁ t₂ t₃ reply reply' commands commands' ht hclose hlate hcommands hearly hclose'
    obtain ⟨halike₁, hphase₁⟩ := alike_of_close hclose
    obtain ⟨halike₃, hphase₃⟩ := alike_of_close hclose'
    have ht₁ : Reachable t₁ := ht.run (.exec .refl trivial hclose)
    have ht₃ : Reachable t₃ := ht.run (hearly.runs.exec trivial hclose')
    have halike := (halike₁.symm.carries hcommands hlate hearly).trans halike₃
    have hphase := hlate.runs.phase_ne_opened ht₁.coherent.sound hphase₁
    exact halike.answers_eq h ht₃ hphase hphase₃

/-- A graph with a marked effect variable that nothing is included in, and a store variable that
nothing flows into. -/
def sparseScript : List (Command Int) :=
  [.makeLocation "x" 0, .makeLocation "y" 0, .atom .read ⟨0⟩, .effectVariable "v", .markEffect ⟨2⟩,
    .storeVariable .internal "base", .allocate .internal ⟨0⟩ ⟨0⟩, .storeVariable .internal "r"]

/-- Two questions, and growth that changes their answers. -/
def growthScript (type : Int) : List (Command Int) :=
  [.isAccessed ⟨1⟩ ⟨2⟩, .domain ⟨2⟩, .includeEffect .internal ⟨1⟩ ⟨2⟩, .makeLocation "z" type,
    .includeStore .internal "in" ⟨1⟩ ⟨2⟩, .mergeLocations .internal ⟨0⟩ ⟨1⟩]

/-- The questions are answered as if the graph had grown before it was closed, although both were
answered differently in between. -/
theorem solution_never_stale_grown :
    ∃ t₁ s t₃ : Session Level Int, Reachable s ∧ Carries (growthScript 5) t₁ s ∧
      s.questions.slots = [] ∧
      (t₁.isAccessed ⟨1⟩ ⟨2⟩).map Prod.fst = .ok (.ok false) ∧
      (s.isAccessed ⟨1⟩ ⟨2⟩).map Prod.fst = .ok (.ok true) ∧
      (t₃.isAccessed ⟨1⟩ ⟨2⟩).map Prod.fst = .ok (.ok true) ∧
      (t₁.domain ⟨2⟩).map Prod.fst = .ok (.ok []) ∧
      (s.domain ⟨2⟩).map Prod.fst = .ok (.ok [⟨0⟩]) ∧
      (t₃.domain ⟨2⟩).map Prod.fst = .ok (.ok [⟨0⟩]) := by
  have hrun : (follow (fun _ _ => True) (start ⟨2, false⟩ Level.mk) sparseScript).any fun t =>
      succeeds (t.exec .close) fun p₁ =>
        (follow (fun _ _ => True) p₁.2 (growthScript 5)).any fun s =>
          (follow (fun _ _ => True) t (growthScript 7)).any fun t₂ =>
            succeeds (t₂.exec .close) fun _ => List.and
              [(p₁.2.isAccessed ⟨1⟩ ⟨2⟩).map Prod.fst = .ok (.ok false),
                (p₁.2.domain ⟨2⟩).map Prod.fst = .ok (.ok []),
                (s.isAccessed ⟨1⟩ ⟨2⟩).map Prod.fst = .ok (.ok true),
                (s.domain ⟨2⟩).map Prod.fst = .ok (.ok [⟨0⟩]), s.solution.isNone = true] := by
    decide +kernel
  simp only [Option.any_eq_true, succeeds_eq_true, and_decide_cons, List.and_nil, and_true] at hrun
  obtain ⟨t, hstart, ⟨reply, t₁⟩, hclose, s, hlate, t₂, hearly, ⟨reply', t₃⟩, hclose', haccess₁,
    hdomain₁, haccess, hdomain, hnone⟩ := hrun
  have ht : Reachable t := reachableBy_of_follow hstart
  have hcarries := carries_of_follow hlate
  have h : Reachable s := (ht.run (.exec .refl trivial hclose)).run hcarries.runs
  have halike : List.Forall₂ Command.Alike (growthScript 5) (growthScript 7) :=
    .cons (.refl _) (.cons (.refl _) (.cons (.refl _) (.cons (.makeLocation "z" 5 7)
      (.cons (.refl _) (.cons (.refl _) .nil)))))
  obtain ⟨-, hcleared, -, hgrown⟩ := solution_never_stale h
  obtain ⟨hdomain₃, haccess₃⟩ := hgrown t t₁ t₂ t₃ reply reply' _ _ ht hclose hcarries halike
    (carries_of_follow hearly) hclose' ⟨2⟩ ⟨1⟩ ⟨2⟩
  exact ⟨t₁, s, t₃, h, hcarries, (hcleared (Option.isNone_iff_eq_none.1 hnone)).1, haccess₁,
    haccess, haccess₃ ▸ haccess, hdomain₁, hdomain, hdomain₃ ▸ hdomain⟩

end Session

end HeapQual
