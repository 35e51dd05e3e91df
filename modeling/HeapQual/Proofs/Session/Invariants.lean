import HeapQual.Proofs.Session.Asking

/-!
# What holds of every session

Along every run the graph only grows (`Session.Runs.grows`), and these facts hold of every session
that can exist:

* the graph is sound, and the solution that is held is the solution of the present graph
  (`Session.Coherent`);
* while the session is open, the graph was never solved and nothing is known about cells
  (`Session.Fresh`).

In a disciplined session the graph is also layered, and what waits names what exists
(`Session.Disciplined.layered`, `Session.Disciplined.awaits`).
-/

namespace HeapQual

open Relation (ReflTransGen)

namespace Session

variable {σ τ : Type} {P : Prop} {c : Command τ} {s s' : Session σ τ}

/-- The graph is sound, the solution held is its solution, and updates are demoted only when
linearities are known. -/
structure Coherent (s : Session σ τ) : Prop where
  sound : s.graph.Sound
  solution_eq : ∀ sol, s.solution = some sol → sol = s.graph.solve
  named : s.solution ≠ none → s.graph.Named
  linearities_eq : s.phase ≠ .linearized → s.linearities = Linearities.empty

/-- While the session is open, nothing was solved, reported, or said about cells. -/
structure Fresh (s : Session σ τ) : Prop where
  solution_eq : s.solution = none
  types_eq : s.flow.types = []
  settled_eq : s.flow.settled = []
  sentEdges_eq : s.flow.sentEdges = []
  sentUpdates_eq : s.flow.sentUpdates = []
  reported_eq : s.reported = []

/-- What waits for the graph to be closed names what exists. -/
structure Awaits (s : Session σ τ) : Prop where
  exclusion : ∀ x ∈ s.exclusions, x.Known s.graph
  request : ∀ r ∈ s.requests, r.Known s.graph

lemma Coherent.start (config : Config) (lattice : σ) (orders : List (List Nat)) :
    (Session.start config lattice orders : Session σ τ).Coherent :=
  ⟨Graph.Sound.start, fun _ h => absurd h (by simp [Session.start]), fun h => absurd rfl h,
    fun _ => rfl⟩

lemma Fresh.start (config : Config) (lattice : σ) (orders : List (List Nat)) :
    (Session.start config lattice orders : Session σ τ).Fresh :=
  ⟨rfl, rfl, rfl, rfl, rfl, rfl⟩

lemma Awaits.start (config : Config) (lattice : σ) (orders : List (List Nat)) :
    (Session.start config lattice orders : Session σ τ).Awaits :=
  ⟨fun _ h => absurd h List.not_mem_nil, fun _ h => absurd h List.not_mem_nil⟩

lemma forget_of_none (h : s.solution = none) : s.forget = s := by
  unfold forget
  rw [h]

lemma solution_forget (s : Session σ τ) : s.forget.solution = none := by
  unfold forget
  split
  · assumption
  · rfl

lemma Awaits.extend (hs : s.Awaits) (hexclusions : s'.exclusions = s.exclusions)
    (hrequests : s'.requests = s.requests) (hgraph : s.graph.Extends s'.graph) : s'.Awaits :=
  ⟨fun x hx => (hs.exclusion x (hexclusions ▸ hx)).extend hgraph,
    fun r hr => (hs.request r (hrequests ▸ hr)).extend hgraph⟩

variable [QualifierLattice σ τ]

/-! ## Building -/

lemma Coherent.build (hs : s.Coherent) (h : Build P c s s') : s'.Coherent := by
  cases h with
  | speak => exact ⟨hs.sound, hs.solution_eq, hs.named, hs.linearities_eq⟩
  | @tweak graph hgrows htweaks =>
    refine ⟨hgrows.sound, fun sol hsol => ?_, fun hne => ?_, hs.linearities_eq⟩
    · have hnamed := hs.named (by rw [hsol]; simp)
      exact (hs.solution_eq sol hsol).trans (htweaks.solve_eq hs.sound hnamed).symm
    · exact htweaks.named (hs.named hne)
  | @grow graph hgrows =>
    have hnone := solution_forget ({ s with graph } : Session σ τ)
    refine ⟨(graph_forget _).symm ▸ hgrows.sound, fun sol hsol => ?_, fun hne => ?_, ?_⟩
    · exact absurd (hsol.symm.trans hnone) (by simp)
    · exact absurd hnone hne
    · unfold forget
      split <;> exact hs.linearities_eq
  | remember => exact ⟨hs.sound, hs.solution_eq, hs.named, hs.linearities_eq⟩
  | exclude => exact ⟨hs.sound, hs.solution_eq, hs.named, hs.linearities_eq⟩
  | request => exact ⟨hs.sound, hs.solution_eq, hs.named, hs.linearities_eq⟩

lemma phase_of_build (h : Build P c s s') : s'.phase = s.phase := by
  cases h with
  | grow =>
    unfold forget
    split <;> rfl
  | _ => rfl

lemma Builds.phase_eq (h : Builds P c s s') : s'.phase = s.phase := by
  induction h with
  | refl => rfl
  | tail _ hmove ih => exact (phase_of_build hmove).trans ih

lemma Fresh.build (hs : s.Fresh) (h : Build P c s s') : s'.Fresh := by
  cases h with
  | speak => exact ⟨hs.solution_eq, hs.types_eq, hs.settled_eq, hs.sentEdges_eq,
      hs.sentUpdates_eq, hs.reported_eq⟩
  | @grow graph =>
    rw [forget_of_none (s := { s with graph }) hs.solution_eq]
    exact ⟨hs.solution_eq, hs.types_eq, hs.settled_eq, hs.sentEdges_eq, hs.sentUpdates_eq,
      hs.reported_eq⟩
  | _ => exact ⟨hs.solution_eq, hs.types_eq, hs.settled_eq, hs.sentEdges_eq, hs.sentUpdates_eq,
      hs.reported_eq⟩

lemma Awaits.build (hs : s.Awaits) (h : Build P c s s') (hP : P) : s'.Awaits := by
  cases h with
  | speak => exact ⟨hs.exclusion, hs.request⟩
  | tweak hgrows => exact hs.extend rfl rfl hgrows.toExtends
  | @grow graph hgrows =>
    refine hs.extend ?_ ?_ ((graph_forget ({ s with graph } : Session σ τ)).symm ▸ hgrows.toExtends)
    · unfold forget
      split <;> rfl
    · unfold forget
      split <;> rfl
  | remember => exact ⟨hs.exclusion, hs.request⟩
  | @exclude x hx =>
    refine ⟨fun y hy => ?_, hs.request⟩
    rcases List.mem_append.1 hy with hy | hy
    · exact hs.exclusion y hy
    · exact List.mem_singleton.1 hy ▸ hx hP
  | @request r hr =>
    refine ⟨hs.exclusion, fun q hq => ?_⟩
    rcases List.mem_append.1 hq with hq | hq
    · exact hs.request q hq
    · exact List.mem_singleton.1 hq ▸ hr hP

/-! ## Asking -/

lemma Coherent.ask (hs : s.Coherent) (h : Ask c s s') : s'.Coherent := by
  cases h with
  | chat hchat =>
    obtain ⟨talk, questions, reported, rfl, -⟩ := hchat
    exact ⟨hs.sound, hs.solution_eq, hs.named, hs.linearities_eq⟩
  | solve hnone hvalidate =>
    refine ⟨hs.sound, fun sol hsol => (Option.some.inj hsol).symm, fun _ => ?_, hs.linearities_eq⟩
    exact Graph.validate_eq_ok_iff.1 hvalidate
  | discharge => exact ⟨hs.sound, hs.solution_eq, hs.named, hs.linearities_eq⟩
  | close hopened =>
    exact ⟨hs.sound, hs.solution_eq, hs.named, fun _ => hs.linearities_eq (by simp [hopened])⟩
  | settle => exact ⟨hs.sound, hs.solution_eq, hs.named, hs.linearities_eq⟩
  | read => exact ⟨hs.sound, hs.solution_eq, hs.named, hs.linearities_eq⟩
  | @linearize sol =>
    obtain ⟨linearities, flow, heq⟩ := s.demoteAll_eq sol
    rw [heq]
    exact ⟨hs.sound, hs.solution_eq, hs.named, fun h => absurd rfl h⟩

/-! ## Runs -/

lemma Coherent.asks (hs : s.Coherent) (h : Asks c s s') : s'.Coherent := by
  induction h with
  | refl => exact hs
  | tail _ hmove ih => exact ih.ask hmove

lemma Coherent.moves (hs : s.Coherent) (h : Moves P c s s') : s'.Coherent := by
  rcases h with h | ⟨h, -⟩
  · induction h with
    | refl => exact hs
    | tail _ hmove ih => exact ih.build hmove
  · exact hs.asks h

lemma Moves.grows (h : Moves P c s s') (hs : s.graph.Sound) : s.graph.Grows P s'.graph := by
  rcases h with h | ⟨h, -⟩
  · exact h.grows hs
  · exact h.graph_eq.symm ▸ .refl hs

/-- An open session was only ever built. -/
lemma Moves.opened (h : Moves P c s s') (hs' : s'.phase = .opened) :
    s.phase = .opened ∧ Builds P c s s' := by
  rcases h with h | ⟨-, hne⟩
  · exact ⟨h.phase_eq.symm.trans hs', h⟩
  · exact absurd hs' hne

variable {allowed : Session σ τ → Command τ → Prop}

theorem ReachableBy.coherent (h : ReachableBy allowed s) : s.Coherent := by
  refine h.induction (motive := Coherent) Coherent.start ?_ ?_
  · intro s c reply s' _ hs hexec
    exact hs.moves (exec_moves (P := False) hs.sound False.elim hexec)
  · intro s lattice hs
    exact ⟨hs.sound, hs.solution_eq, hs.named, hs.linearities_eq⟩

theorem Runs.grows (h : Runs allowed s s') (hs : s.graph.Sound)
    (hallowed : ∀ s c, allowed s c → P → c.Known s.graph) : s.graph.Grows P s'.graph := by
  induction h with
  | refl => exact .refl hs
  | exec _ hc hexec ih =>
    exact ih.trans ((exec_moves ih.sound (hallowed _ _ hc) hexec).grows ih.sound)
  | withLattice lattice _ ih => exact ih

theorem ReachableBy.fresh (h : ReachableBy allowed s) (hs : s.phase = .opened) : s.Fresh := by
  obtain ⟨config, lattice, orders, hrun⟩ := h
  induction hrun with
  | refl => exact .start config lattice orders
  | exec hrun _ hexec ih =>
    have hsound := (hrun.grows (P := False) Graph.Sound.start fun _ _ _ => False.elim).sound
    obtain ⟨hopened, hbuilds⟩ := (exec_moves (P := False) hsound False.elim hexec).opened hs
    have hfresh := ih hopened
    clear hexec ih hopened hs hsound
    induction hbuilds with
    | refl => exact hfresh
    | tail _ hmove ih => exact ih.build hmove
  | withLattice lattice _ ih =>
    have hfresh := ih hs
    exact ⟨hfresh.solution_eq, hfresh.types_eq, hfresh.settled_eq, hfresh.sentEdges_eq,
      hfresh.sentUpdates_eq, hfresh.reported_eq⟩

theorem Disciplined.layered (h : Disciplined s) : s.graph.Layered := by
  obtain ⟨config, lattice, orders, hrun⟩ := h
  exact (hrun.grows (P := True) Graph.Sound.start fun _ _ hc _ => hc).layered trivial
    Graph.Layered.start

theorem Disciplined.awaits (h : Disciplined s) (hs : s.phase = .opened) : s.Awaits := by
  obtain ⟨config, lattice, orders, hrun⟩ := h
  induction hrun with
  | refl => exact .start config lattice orders
  | exec hrun hknown hexec ih =>
    have hsound := (hrun.grows (P := False) Graph.Sound.start fun _ _ _ => False.elim).sound
    obtain ⟨hopened, hbuilds⟩ := (exec_moves (P := True) hsound (fun _ => hknown) hexec).opened hs
    have hawaits := ih hopened
    clear hexec ih hopened hs hsound hknown
    induction hbuilds with
    | refl => exact hawaits
    | tail _ hmove ih => exact ih.build hmove trivial
  | withLattice lattice _ ih => exact ⟨(ih hs).exclusion, (ih hs).request⟩

/-! ## The solution that is given -/

/-- The solution that is given is that of the present graph. -/
lemma Coherent.solved_spec (hs : s.Coherent) {sol : Solution} (h : s.solved = .ok (sol, s')) :
    sol = s.graph.solve ∧ s'.graph = s.graph ∧ s'.phase = s.phase ∧ s'.Coherent := by
  obtain ⟨hasks, hsol, hphase⟩ := asks_solved (c := .summary) h
  have hs' := hs.asks hasks
  have hgraph := hasks.graph_eq
  exact ⟨hgraph ▸ hs'.solution_eq sol hsol, hgraph, hphase, hs'⟩

/-- A graph that names nothing that does not exist can be solved. -/
lemma Coherent.exists_solved (hs : s.Coherent) (hvalidate : s.graph.validate = .ok ()) :
    ∃ s', s.solved = .ok (s.graph.solve, s') := by
  unfold solved
  cases hsol : s.solution with
  | some sol =>
    rw [hs.solution_eq sol hsol]
    exact ⟨s, rfl⟩
  | none => exact ⟨_, bind_eq_ok_iff.2 ⟨(), hvalidate, rfl⟩⟩

end Session

end HeapQual
