import HeapQual.Proofs.Session.MarkedOnly
import HeapQual.Proofs.Speech

/-!
# What was told stands

When a session is closed and nothing grows from then on, no types of cells are merged, and whatever
was told about edges and updates stands: the graph still demands it, between the types that its
cells have (`Session.Standing`).  So in the end the lattice was told of exactly the flows that the
linearized graph has (`Session.Disciplined.told_iff_flows`), whether they were told when the session
was closed, when it was linearized, or later.
-/

namespace HeapQual

variable {σ τ : Type} {command : Command τ}

/-- What is demanded between the types of cells stays so if the solution of the graph is the
same. -/
lemma Flow.Justified.tweak {g g' : Graph τ} (h : g.Tweaks g') (hg : g.Sound) (hn : g.Named)
    {demoted : List Nat} {f : Flow σ τ} {t : Telling τ}
    (ht : Flow.Justified ⟨g, g.solve, demoted⟩ f t) :
    Flow.Justified ⟨g', g'.solve, demoted⟩ f t := by
  obtain ⟨c, lower, hbound, hdemand, hl, hr⟩ := ht
  have hheld : ∀ c, f.held ⟨g', g.solve, demoted⟩ c = f.held ⟨g, g.solve, demoted⟩ c := by
    intro c
    unfold Flow.held
    rw [View.binding_of_tweaks h g.solve demoted demoted]
  rw [h.solve_eq hg hn]
  exact ⟨c, lower, hbound, (Graph.SameCells.of_tweaks h hg hn).demands hdemand,
    (hheld lower).trans hl, (hheld c).trans hr⟩

namespace Session

variable {P : Prop} {s s' : Session σ τ}

/-! ## Flows of the graph -/

/-- The graph lets values of the first type flow into the second one. -/
inductive Flows [QualifierLattice σ τ] (s : Session σ τ) : τ → τ → Prop
  /-- They go along an edge, at a location that both its ends bind. -/
  | edge {edge : FlowEdge} {a : Nat} {l r : τ} :
      edge ∈ s.graph.stores.edges →
      s.graph.solve.binds (s.graph.stores.root edge.left) a = true →
      s.graph.solve.binds (s.graph.stores.root edge.right) a = true →
      s.typeOf ⟨s.graph.stores.root edge.left, a⟩ = some l →
      s.typeOf ⟨s.graph.stores.root edge.right, a⟩ = some r → Flows s l r
  /-- They are the old contents of an update that is weak or demoted. -/
  | update {store : Nat} {base : StoreId} {a : LocationId} {l r : τ} {strong : Bool}
      {position : Position} {message : String} :
      s.graph.stores.nodeAt store = .update base a r strong position message →
      (strong = true → s.graph.Demotes store) →
      s.graph.solve.binds (s.graph.stores.root base) (s.graph.classOf a) = true →
      s.typeOf ⟨s.graph.stores.root base, s.graph.classOf a⟩ = some l → Flows s l r

/-! ## What stands -/

/-- The types of cells are keyed by roots, and whatever was told is about merged locations, or the
graph still demands it between the types that its cells have. -/
structure Standing (s : Session σ τ) : Prop where
  keyed : s.flow.Keyed s.graph
  told : ∀ t ∈ tellings s.talk.journal,
    t.reason = .locations ∨ Flow.Justified (s.view s.graph.solve) s.flow t

variable [QualifierLattice σ τ]

lemma Standing.builds (hs : s.Standing) (hsound : s.graph.Sound) (hnamed : s.graph.Named)
    (h : Builds P command s s') (htweaks : s.graph.Tweaks s'.graph) : s'.Standing := by
  obtain ⟨htypes, new, htells, hnew⟩ := h.says_locations
  have hkeeps : s.flow.Keeps s'.flow := fun c type hc => by rwa [htypes]
  refine ⟨⟨fun entry hentry => ?_, htypes ▸ hs.keyed.2⟩, fun t ht => ?_⟩
  · rw [htypes] at hentry
    rw [Cell.reroot_of_tweaks htweaks]
    exact hs.keyed.1 entry hentry
  · rcases htells.mem_tellings.1 ht with ht | ht
    · exact Or.inl (hnew t ht)
    · refine (hs.told t ht).imp_right fun hjustified => ?_
      rw [view, h.keeps.2.1]
      exact (hjustified.tweak htweaks hsound hnamed).mono hkeeps

lemma Standing.ask (hs : s.Standing) (hcoherent : s.Coherent) (hlayered : s.graph.Layered)
    (h : Ask command s s') : s'.Standing := by
  refine ⟨h.keyed hcoherent hlayered hs.keyed, ?_⟩
  rcases h.solves_or_advances hcoherent hlayered with ⟨-, rfl⟩ | ⟨new, hadvances⟩
  · -- All keys are roots already, so no types of cells have to be equated.
    have hkeeps := hs.keyed.keeps_rekey
    rw [hs.keyed.rekey_eq] at hkeeps ⊢
    exact fun t ht => (hs.told t ht).imp_right fun hjustified => hjustified.mono hkeeps
  · intro t ht
    have hsends := hadvances.settles.sends
    rw [hadvances.graph_eq]
    rcases hsends.tells.mem_tellings.1 ht with ht | ht
    · exact Or.inr (hsends.justified t ht)
    · refine (hs.told t ht).imp_right fun hjustified => ?_
      rw [view, hadvances.graph_eq]
      exact (hjustified.demote hadvances.demoted_subset).mono hsends.keeps

lemma Standing.moves (hs : s.Standing) (h : Disciplined s) (hmoves : Moves P command s s')
    (htweaks : s.graph.Tweaks s'.graph) : s'.Standing := by
  have hcoherent := ReachableBy.coherent h
  rcases hmoves with hbuilds | ⟨hasks, -⟩
  · exact hs.builds hcoherent.sound h.layered.named hbuilds htweaks
  · exact hasks.preserves (motive := Standing)
      (fun _ _ hcoherent hlayered hask hs => hs.ask hcoherent hlayered hask) hcoherent h.layered hs

/-- As long as nothing grows, what was told stands. -/
lemma QuietRun.standing (h : QuietRun s s') (hdisciplined : Disciplined s) (hs : s.Standing) :
    s'.Standing := by
  induction h with
  | refl => exact hs
  | exec hrun hquiet hexec ih =>
    have hrun : Disciplined _ := ReachableBy.run hdisciplined (QuietRun.disciplinedRun hrun)
    exact ih.moves hrun (exec_moves (P := True) (ReachableBy.coherent hrun).sound
      (fun _ => hquiet.1) hexec) (hquiet.2 _ _ hexec)
  | withLattice lattice _ ih => exact ⟨ih.keyed, ih.told⟩

/-- An open session has told the lattice about merged locations only. -/
lemma ReachableBy.told_opened {allowed : Session σ τ → Command τ → Prop}
    (h : ReachableBy allowed s) (hopened : s.phase = .opened) :
    ∀ t ∈ tellings s.talk.journal, t.reason = .locations := by
  obtain ⟨config, lattice, orders, hrun⟩ := h
  induction hrun with
  | refl => exact fun _ ht => absurd ht List.not_mem_nil
  | exec hrun _ hexec ih =>
    have hsound := (ReachableBy.coherent ⟨config, lattice, orders, hrun⟩).sound
    obtain ⟨hbefore, hbuilds⟩ := (exec_moves (P := False) hsound False.elim hexec).opened hopened
    obtain ⟨-, new, htells, hnew⟩ := hbuilds.says_locations
    intro t ht
    exact (htells.mem_tellings.1 ht).elim (hnew t) (ih hbefore t)
  | withLattice lattice _ ih => exact ih hopened

/-- Closing a session in which all cells count. -/
lemma Disciplined.standing_of_close {reply : Reply τ} (h : Disciplined s)
    (hopened : s.phase = .opened) (hall : s.config.markedOnly = false)
    (hclose : s.exec .close = .ok (reply, s')) : s'.Standing := by
  have h' : Disciplined s' := ReachableBy.run h (.exec .refl (known_close _) hclose)
  obtain ⟨failures, hclose, -⟩ := close_of_exec hopened hclose
  obtain ⟨new, htells, -, -, -, -, -, -, hjustified, -⟩ := sends_close h hopened hall hclose
  refine ⟨h'.keyed ?_, fun t ht => ?_⟩
  · obtain ⟨talk, questions, reported, orders, s₁, notice, -, hsettle, rfl⟩ :=
      (ReachableBy.fresh h hopened).close_eq hopened h.layered.validate_eq_ok hclose
    obtain ⟨requested, -, hsettle⟩ := bind_eq_ok_iff.1 hsettle
    cases hsettle
    exact Option.some_ne_none _
  · rcases htells.mem_tellings.1 ht with ht | ht
    · exact Or.inr (hjustified t ht)
    · exact Or.inl (ReachableBy.told_opened h hopened t ht)

/-! ## What was told in the end -/

/-- What stands is a flow of the graph, if updates were demoted as the graph says. -/
lemma flows_of_justified (hv : (s.view s.graph.solve).Faithful)
    (hdemoted : ∀ store, store ∈ s.linearities.demoted → s.graph.Demotes store) {t : Telling τ}
    (h : Flow.Justified (s.view s.graph.solve) s.flow t) : s.Flows t.lower t.upper := by
  obtain ⟨c, lower, hbound, hdemand, hl, hr⟩ := h
  have hlower := Flow.read_of_held hl
  have hupper := Flow.read_of_held hr
  generalize t.reason = reason at hdemand
  cases hdemand with
  | @edge number edge hedge hright hbinds =>
    have hc : c = ⟨s.graph.stores.root edge.right, c.location⟩ := by
      rw [show s.graph.stores.root edge.right = c.store from hright]
    rw [hc] at hbound hupper
    exact .edge (Array.mem_of_getElem? hedge) hbinds hbound hlower hupper
  | @update base a type strong position message hnode hlocation hstrong hbinds =>
    have htype : type = t.upper := by
      rw [Flow.read, hv.binding_own hnode hlocation] at hupper
      exact Option.some.inj hupper
    rw [htype] at hnode
    rw [← hlocation] at hbinds hlower
    exact .update hnode (fun h => hdemoted _ (hstrong h)) hbinds hlower

/-- What is demanded of a cell was told between the types that the cells have. -/
lemma Standing.exists_telling (hs : s.Standing) (hledger : s.Ledger) {c lower : Cell}
    {reason : Reason} (hhandled : Flow.Handled (s.view s.graph.solve) s.flow c)
    (hdemand : (s.view s.graph.solve).Demands c reason lower) :
    ∃ t ∈ tellings s.talk.journal, t.reason = reason ∧ s.typeOf lower = some t.lower ∧
      s.typeOf c = some t.upper := by
  obtain ⟨t, ht, hmark⟩ := (hhandled reason lower hdemand).exists_telling hdemand.markable
    hledger.sentEdges_eq hledger.sentUpdates_eq
  have hmarkable : t.reason.Markable := by
    rw [Reason.Markable, hmark.1, hmark.2]
    exact hdemand.markable
  obtain ⟨c', lower', -, hdemand', hl, hr⟩ := (hs.told t ht).resolve_left fun hreason =>
    Reason.not_markable_locations (hreason ▸ hmarkable)
  obtain ⟨rfl, hreason, rfl⟩ := hdemand'.unique hdemand hmark
  exact ⟨t, ht, hreason, Flow.read_of_held hl, Flow.read_of_held hr⟩

/-- When a session in which all cells count was closed and linearized, and nothing has grown since
it was closed, the lattice was told of the flows of the graph, and of merged locations. -/
theorem Disciplined.told_iff_flows {s₀ s₁ : Session σ τ} {reply : Reply τ} (h : Disciplined s₀)
    (hopened : s₀.phase = .opened) (hall : s₀.config.markedOnly = false)
    (hclose : s₀.exec .close = .ok (reply, s₁)) (hquiet : QuietRun s₁ s)
    (hphase : s.phase = .linearized) {l r : τ} :
    (∃ t ∈ tellings s.talk.journal, t.reason ≠ .locations ∧ t.lower = l ∧ t.upper = r) ↔
      s.Flows l r := by
  have h₁ : Disciplined s₁ := ReachableBy.run h (.exec .refl (known_close _) hclose)
  have hs : Disciplined s := ReachableBy.run h₁ (QuietRun.disciplinedRun hquiet)
  have hv : (s.view s.graph.solve).Faithful := hs.faithful rfl
  have hstanding := QuietRun.standing hquiet h₁ (h.standing_of_close hopened hall hclose)
  have hdemotes := (h.warranted_of_quiet hopened hclose hquiet).2 hphase
  have hhandled := h.handledOn_of_quiet hopened hall hclose hquiet
  -- Every cell that is bound was handled, so all it demands was told, between the present types.
  have htold : ∀ {c lower : Cell} {reason : Reason}, (s.view s.graph.solve).isBound c = true →
      (s.view s.graph.solve).Demands c reason lower → s.typeOf lower = some l →
      s.typeOf c = some r →
      ∃ t ∈ tellings s.talk.journal, t.reason ≠ .locations ∧ t.lower = l ∧ t.upper = r := by
    intro c lower reason hbound hdemand hl hr
    obtain ⟨t, ht, hreason, hlower, hupper⟩ :=
      hstanding.exists_telling hs.ledger (hhandled c hbound) hdemand
    refine ⟨t, ht, ?_, Option.some.inj (hlower.symm.trans hl),
      Option.some.inj (hupper.symm.trans hr)⟩
    rintro hlocations
    rw [← hreason, hlocations] at hdemand
    cases hdemand
  constructor
  · rintro ⟨t, ht, hne, rfl, rfl⟩
    exact flows_of_justified hv (fun store => (hdemotes store).1)
      ((hstanding.told t ht).resolve_left hne)
  · intro hflows
    cases hflows with
    | @edge edge a _ _ hedge hleft hright hl hr =>
      obtain ⟨number, hnumber⟩ := Array.getElem?_of_mem hedge
      exact htold (c := ⟨s.graph.stores.root edge.right, a⟩) hright (.edge hnumber rfl hleft) hl hr
    | @update store base a _ _ strong position message hnode hstrong hbinds hl =>
      obtain ⟨hbound, hr⟩ := typeOf_own hv hnode
      exact htold hbound (.update hnode rfl (fun h => (hdemotes store).2 (hstrong h)) hbinds) hl hr

end Session

end HeapQual
