import HeapQual.Proofs.Allocation
import HeapQual.Proofs.Rekeying
import HeapQual.Proofs.Session.Closing

/-!
# The ledger of what was sent

An edge and an update are sent to the lattice once in a session, however often the graph grows and
is solved again.  So the marks of what was sent must stay true about the journal, and settled cells
must stay finished, along every run.  `Session.Ledger` says this, and holds of every disciplined
session (`Disciplined.ledger`).

A mark does not say between which types an inequality was told.  It was told between the types that
the two cells resolved to in some earlier session on the run (`Disciplined.exists_toldAt`).
-/

namespace HeapQual

namespace Session

variable {σ τ : Type} {P : Prop} {command : Command τ} {s s' s'' : Session σ τ} {sol : Solution}
  {new : List (Telling τ)} {c : Cell}

/-! ## Demoting updates -/

lemma mem_updateSites {g : Graph τ} {site : UpdateSite} (h : site ∈ updateSites g) :
    ∃ base a type position message,
      g.stores.nodeAt site.store = .update base a type site.strong position message ∧
        g.stores.root base = site.base ∧ g.classOf a = site.location := by
  obtain ⟨i, -, hi⟩ := List.mem_filterMap.1 h
  split at hi
  · rename_i base a type strong position message hnode
    cases hi
    exact ⟨base, a, type, position, message, hnode, rfl, rfl⟩
  · cases hi

/-- The base of a demoted update binds its location, because allocations of it reach the base. -/
lemma demands_of_isDemoted {g : Graph τ} {demoted : List Nat}
    (hv : View.Faithful ⟨g, sol, demoted⟩) {site : UpdateSite} (hsite : site ∈ updateSites g)
    (hmany : isDemoted (g.solveSupplies sol).values site = true) (hmem : site.store ∈ demoted) :
    View.Demands ⟨g, sol, demoted⟩ ⟨site.store, site.location⟩
      (.update site.store site.location) ⟨site.base, site.location⟩ := by
  obtain ⟨base, a, type, position, message, hnode, hbase, hlocation⟩ := mem_updateSites hsite
  have homega : linearityOf (g.solveSupplies sol).values site = .omega := by
    unfold isDemoted at hmany
    simpa using (Bool.and_eq_true_iff.1 hmany).2
  have hsupply : Graph.supplyAt (g.solveSupplies sol).values site.base site.location ≠ .none := by
    intro hnone
    have hread : linearityOf (g.solveSupplies sol).values site =
        (Graph.supplyAt (g.solveSupplies sol).values site.base site.location).linearity := rfl
    rw [hread, hnone] at homega
    cases homega
  have hbinds := hv.binds_of_supply hsupply
  rw [← hbase] at hbinds ⊢
  exact .update hnode hlocation (fun _ => hmem) hbinds

variable [QualifierLattice σ τ]

lemma settles_demote (hv : (s.view sol).Faithful) {site : UpdateSite}
    (hdemand : (s.view sol).Demands ⟨site.store, site.location⟩
      (.update site.store site.location) ⟨site.base, site.location⟩) :
    ∃ new, s.flow.Settles (s.view sol) new (demote sol s site).flow ∧
      (demote sol s site).flow.Marked (.update site.store site.location) ∧
      ⟨site.base, site.location⟩ ∈ (demote sol s site).flow.settled := by
  have hnote : s.flow.Sends (s.view sol) [] (s.note (.updateDemoted
      (s.graph.locations.nameOf site.location) ⟨site.store⟩)).flow :=
    .of_nil (Dialogue.tells_note _ _) (fun _ _ h => h) rfl rfl rfl
  obtain ⟨new, hsends, hmark⟩ := Flow.sends_sendUpdate hv hdemand (s.note (.updateDemoted
    (s.graph.locations.nameOf site.location) ⟨site.store⟩)).flow
  obtain ⟨new', hsettles, hsettled⟩ := Flow.settles_settle hv ((s.note (.updateDemoted
    (s.graph.locations.nameOf site.location) ⟨site.store⟩)).flow.sendUpdate (s.view sol) site.store)
    [⟨site.base, site.location⟩]
  refine ⟨_, (hnote.trans hsends).settles.trans hsettles, ?_, ?_⟩
  · exact hsettles.marked (Flow.marked_update.2 hmark)
  · exact hsettled _ (List.mem_singleton_self _) hdemand.isBound

lemma settles_foldl_demote (hv : (s.view sol).Faithful) (sites : List UpdateSite)
    (hsites : ∀ site ∈ sites, (s.view sol).Demands ⟨site.store, site.location⟩
      (.update site.store site.location) ⟨site.base, site.location⟩) :
    ∃ new, s.flow.Settles (s.view sol) new (sites.foldl (demote sol) s).flow ∧
      ∀ site ∈ sites,
        (sites.foldl (demote sol) s).flow.Marked (.update site.store site.location) ∧
        ⟨site.base, site.location⟩ ∈ (sites.foldl (demote sol) s).flow.settled := by
  induction sites generalizing s with
  | nil => exact ⟨[], (Flow.Sends.refl _).settles, fun site hsite => absurd hsite List.not_mem_nil⟩
  | cons site sites ih =>
    obtain ⟨new, hsettles, hmark, hsettled⟩ :=
      settles_demote hv (hsites site (List.mem_cons_self ..))
    -- Demoting changes neither the graph nor the list of demoted updates, so the view stays.
    obtain ⟨new', hsettles', hmarks⟩ := ih (s := demote sol s site) hv fun site' hsite' =>
      hsites site' (List.mem_cons_of_mem _ hsite')
    refine ⟨new' ++ new, hsettles.trans hsettles', fun site' hsite' => ?_⟩
    rcases List.mem_cons.1 hsite' with rfl | hsite'
    · exact ⟨hsettles'.marked hmark, hsettles'.subset _ hsettled⟩
    · exact hmarks site' hsite'

/-! ## What asking does to cells -/

/-- Something was asked, without solving the graph: the lattice was told this, and whatever is
settled is finished. -/
structure Advances (new : List (Telling τ)) (s s' : Session σ τ) : Prop where
  graph_eq : s'.graph = s.graph
  solution_eq : s'.solution = s.solution
  demoted_subset : ∀ store ∈ s.linearities.demoted, store ∈ s'.linearities.demoted
  settles : s.flow.Settles (s'.view s.graph.solve) new s'.flow
  finished : ∀ c, Flow.Finished (s.view s.graph.solve) s.flow c →
    Flow.Finished (s'.view s.graph.solve) s'.flow c
  unsolved : s.solution = none → new = [] ∧ s'.flow.settled = s.flow.settled

omit [QualifierLattice σ τ] in
/-- The view stays. -/
lemma Advances.of_settles (hgraph : s'.graph = s.graph) (hsolution : s'.solution = s.solution)
    (hlinearities : s'.linearities = s.linearities)
    (hsettles : s.flow.Settles (s.view s.graph.solve) new s'.flow)
    (hunsolved : s.solution = none → new = [] ∧ s'.flow.settled = s.flow.settled) :
    Advances new s s' := by
  have hview : s'.view s.graph.solve = s.view s.graph.solve := by
    rw [view, view, hgraph, hlinearities]
  refine ⟨hgraph, hsolution, fun store hstore => hlinearities ▸ hstore, hview ▸ hsettles,
    fun c hc => ?_, hunsolved⟩
  rw [hview]
  exact hc.mono hsettles

/-- Linearizing sends the old contents of the updates that it demotes, and settles them. -/
lemma exists_settles_demoteAll (hs : s.graph.Sound) (hlayered : s.graph.Layered) :
    ∃ new, s.flow.Settles ((s.demoteAll s.graph.solve).view s.graph.solve) new
        (s.demoteAll s.graph.solve).flow ∧
      ∀ site ∈ updateSites s.graph,
        isDemoted (s.graph.solveSupplies s.graph.solve).values site = true →
        ((s.demoteAll s.graph.solve).view s.graph.solve).Demands ⟨site.store, site.location⟩
            (.update site.store site.location) ⟨site.base, site.location⟩ ∧
          (s.demoteAll s.graph.solve).flow.Marked (.update site.store site.location) ∧
          ⟨site.base, site.location⟩ ∈ (s.demoteAll s.graph.solve).flow.settled := by
  let sites := (updateSites s.graph).filter (isDemoted (s.graph.solveSupplies s.graph.solve).values)
  let s₁ : Session σ τ :=
    { s with
      linearities := tabulate (s.graph.solveSupplies s.graph.solve).values (updateSites s.graph)
      phase := .linearized }
  -- The table of linearities is complete before the first site is demoted, so all of them are
  -- settled against one view.
  have hv : (s₁.view s.graph.solve).Faithful := ⟨hs, hlayered, rfl⟩
  have hsites : ∀ site ∈ sites, (s₁.view s.graph.solve).Demands ⟨site.store, site.location⟩
      (.update site.store site.location) ⟨site.base, site.location⟩ := by
    intro site hsite
    obtain ⟨hmem, hmany⟩ := List.mem_filter.1 hsite
    exact demands_of_isDemoted hv hmem hmany (List.mem_map.2 ⟨site, hsite, rfl⟩)
  obtain ⟨new, hsettles, hmarks⟩ := settles_foldl_demote hv sites hsites
  obtain ⟨flow, hflow⟩ := foldl_demote_eq s.graph.solve sites s₁
  have heq : s.demoteAll s.graph.solve = { s₁ with flow } := hflow
  rw [hflow] at hsettles hmarks
  rw [heq]
  refine ⟨new, hsettles, fun site hmem hmany => ?_⟩
  have hsite : site ∈ sites := List.mem_filter.2 ⟨hmem, hmany⟩
  exact ⟨hsites site hsite, hmarks site hsite⟩

lemma linearities_demoteAll (s : Session σ τ) (sol : Solution) :
    (s.demoteAll sol).linearities =
      tabulate (s.graph.solveSupplies sol).values (updateSites s.graph) := by
  obtain ⟨flow, hflow⟩ := foldl_demote_eq sol
    ((updateSites s.graph).filter (isDemoted (s.graph.solveSupplies sol).values))
    { s with
      linearities := tabulate (s.graph.solveSupplies sol).values (updateSites s.graph)
      phase := .linearized }
  exact congrArg Session.linearities hflow

/-- What linearizing demands in addition belongs to a demoted update, so it is sent and settled. -/
lemma demands_of_demoteAll (hs : s.graph.Sound) (hlayered : s.graph.Layered) {reason : Reason}
    {lower : Cell}
    (h : ((s.demoteAll s.graph.solve).view s.graph.solve).Demands c reason lower) :
    (s.view s.graph.solve).Demands c reason lower ∨
      (s.demoteAll s.graph.solve).flow.Marked reason ∧
        lower ∈ (s.demoteAll s.graph.solve).flow.settled := by
  obtain ⟨new, -, hmarks⟩ := exists_settles_demoteAll hs hlayered
  have hdemoted := congrArg Linearities.demoted (s.linearities_demoteAll s.graph.solve)
  obtain ⟨linearities, flow, heq⟩ := s.demoteAll_eq s.graph.solve
  rw [heq] at h hmarks hdemoted ⊢
  have hnew := h
  cases h with
  | edge hedge hright hbinds => exact Or.inl (.edge hedge hright hbinds)
  | @update base a type strong position message hnode hlocation hstrong hbinds =>
    cases strong with
    | false => exact Or.inl (.update hnode hlocation (fun h => absurd h (by simp)) hbinds)
    | true =>
      have hstore : c.store ∈ linearities.demoted := hstrong rfl
      rw [show linearities.demoted = _ from hdemoted] at hstore
      obtain ⟨site, hsite, hstore⟩ := List.mem_map.1 hstore
      obtain ⟨hmem, hmany⟩ := List.mem_filter.1 hsite
      obtain ⟨hsitedemand, hmarked⟩ := hmarks site hmem hmany
      obtain ⟨hcell, hreason, hlower⟩ := hsitedemand.unique hnew ⟨rfl, by
        simp [Reason.update?, hstore]⟩
      rw [← hreason, ← hlower]
      exact Or.inr hmarked

/-- Linearizing settles whatever it newly demands. -/
lemma exists_advances_demoteAll (hs : s.Coherent) (hlayered : s.graph.Layered)
    (hphase : s.phase = .closed) (hsol : s.solution = some sol) :
    ∃ new, Advances new s (s.demoteAll sol) := by
  cases hs.solution_eq sol hsol
  have hnone : s.linearities.demoted = [] := by
    rw [hs.linearities_eq (by simp [hphase])]
    rfl
  obtain ⟨new, hsettles, -⟩ := exists_settles_demoteAll hs.sound hlayered
  have hdemands : ∀ (c : Cell) (reason : Reason) (lower : Cell),
      ((s.demoteAll s.graph.solve).view s.graph.solve).Demands c reason lower → _ :=
    fun c reason lower => demands_of_demoteAll hs.sound hlayered
  obtain ⟨linearities, flow, heq⟩ := s.demoteAll_eq s.graph.solve
  rw [heq] at hsettles hdemands ⊢
  refine ⟨new, rfl, rfl, fun store hstore => ?_, hsettles, fun c hc => ?_, fun h => ?_⟩
  · rw [hnone] at hstore
    exact absurd hstore List.not_mem_nil
  · exact hc.of_demands (fun _ => hsettles.marked) hsettles.subset (hdemands c) rfl fun _ => rfl
  · rw [hsol] at h
    cases h

/-- An asking move solves the graph, or advances. -/
lemma Ask.solves_or_advances (h : Ask command s s') (hs : s.Coherent) (hlayered : s.graph.Layered) :
    (s.solution = none ∧
        s' = { s with solution := some s.graph.solve, flow := s.flow.rekey s.graph }) ∨
      ∃ new, Advances new s s' := by
  -- Only solving replaces the view. Every other move works against the one the solution gives.
  have hv : (s.view s.graph.solve).Faithful := ⟨hs.sound, hlayered, rfl⟩
  cases h with
  | chat hchat =>
    obtain ⟨talk, questions, reported, rfl, hspeaks⟩ := hchat
    have hsends : s.flow.Sends (s.view s.graph.solve) [] { s.flow with talk } :=
      .of_nil hspeaks.toSays.tells (fun _ _ h => h) rfl rfl rfl
    exact Or.inr ⟨[], .of_settles rfl rfl rfl hsends.settles fun _ => ⟨rfl, rfl⟩⟩
  | solve hnone => exact Or.inl ⟨hnone, rfl⟩
  | discharge =>
    exact Or.inr ⟨[], .of_settles rfl rfl rfl (Flow.Sends.refl _).settles fun _ => ⟨rfl, rfl⟩⟩
  | close =>
    exact Or.inr ⟨[], .of_settles rfl rfl rfl (Flow.Sends.refl _).settles fun _ => ⟨rfl, rfl⟩⟩
  | @settle sol seeds hsol =>
    cases hs.solution_eq sol hsol
    obtain ⟨new, hsettles, -⟩ := Flow.settles_settle hv s.flow seeds
    exact Or.inr
      ⟨new, .of_settles rfl rfl rfl hsettles fun h => absurd (hsol.symm.trans h) (by simp)⟩
  | @read sol c hsol =>
    cases hs.solution_eq sol hsol
    have hsends := Flow.sends_read (s.view s.graph.solve) s.flow c
    exact Or.inr ⟨[], .of_settles rfl rfl rfl hsends.settles fun _ => ⟨rfl, hsends.settled_eq⟩⟩
  | linearize hphase hsol => exact Or.inr (exists_advances_demoteAll hs hlayered hphase hsol)

/-! ## Along a run -/

/-- What asking moves keep is kept by a sequence of them. -/
lemma Asks.preserves {motive : Session σ τ → Prop}
    (ask : ∀ s s', s.Coherent → s.graph.Layered → Ask command s s' → motive s → motive s')
    (h : Asks command s s') (hs : s.Coherent) (hlayered : s.graph.Layered) (hmotive : motive s) :
    motive s' := by
  suffices hboth : s'.Coherent ∧ motive s' from hboth.2
  induction h with
  | refl => exact ⟨hs, hmotive⟩
  | tail hasks hmove ih =>
    have hlayered' := hlayered
    rw [← Asks.graph_eq hasks] at hlayered'
    exact ⟨ih.1.ask hmove, ask _ _ ih.1 hlayered' hmove ih.2⟩

/-- What building and asking moves keep is kept by whatever a command does. -/
lemma Moves.preserves {motive : Session σ τ → Prop}
    (build : ∀ s s', s.Coherent → Build True command s s' → motive s → motive s')
    (ask : ∀ s s', s.Coherent → s.graph.Layered → Ask command s s' → motive s → motive s')
    (h : Moves True command s s') (hs : s.Coherent) (hlayered : s.graph.Layered)
    (hmotive : motive s) : motive s' := by
  rcases h with h | ⟨h, -⟩
  · suffices hboth : s'.Coherent ∧ motive s' from hboth.2
    induction h with
    | refl => exact ⟨hs, hmotive⟩
    | tail _ hmove ih => exact ⟨ih.1.build hmove, build _ _ ih.1 hmove ih.2⟩
  · exact h.preserves ask hs hlayered hmotive

theorem DisciplinedRun.induction {motive : Session σ τ → Prop} (hs : Disciplined s)
    (start : motive s)
    (step : ∀ command s₁ s₂, Disciplined s₁ → DisciplinedRun s₁ s₂ → Moves True command s₁ s₂ →
      motive s₁ → motive s₂)
    (withLattice : ∀ s₁ lattice, motive s₁ → motive (s₁.withLattice lattice))
    (h : DisciplinedRun s s') : motive s' := by
  induction h with
  | refl => exact start
  | exec hrun hknown hexec ih =>
    have hdisciplined := ReachableBy.run hs hrun
    have hmoves := exec_moves (P := True) (ReachableBy.coherent hdisciplined).sound
      (fun _ => hknown) hexec
    exact step _ _ _ hdisciplined (.exec .refl hknown hexec) hmoves ih
  | withLattice lattice _ ih => exact withLattice _ lattice ih

/-! ## Marks and settled cells -/

/-- The marks are those of what the lattice was told, no edge and no update is marked twice, and
there is nothing left to do for a settled cell. -/
structure Ledger (s : Session σ τ) : Prop where
  sentEdges_eq : s.flow.sentEdges = (tellings s.talk.journal).filterMap (·.reason.edge?)
  sentUpdates_eq : s.flow.sentUpdates = (tellings s.talk.journal).filterMap (·.reason.update?)
  nodup_edges : s.flow.sentEdges.Nodup
  nodup_updates : s.flow.sentUpdates.Nodup
  unsolved : s.solution = none → s.flow.settled = []
  finished : ∀ c ∈ s.flow.settled, Flow.Finished (s.view s.graph.solve) s.flow c

omit [QualifierLattice σ τ] in
lemma Ledger.start (config : Config) (lattice : σ) (orders : List (List Nat)) :
    (Session.start config lattice orders : Session σ τ).Ledger :=
  ⟨rfl, rfl, List.nodup_nil, List.nodup_nil, fun _ => rfl, fun _ h => absurd h List.not_mem_nil⟩

omit [QualifierLattice σ τ] in
/-- Nothing that bears a mark was told, and no cell is settled. -/
lemma Ledger.of_unmarked (hs : s.Ledger) (htells : s.talk.Tells new s'.talk)
    (hedge : ∀ t ∈ new, t.reason.edge? = none) (hupdate : ∀ t ∈ new, t.reason.update? = none)
    (hedges : s'.flow.sentEdges = s.flow.sentEdges)
    (hupdates : s'.flow.sentUpdates = s.flow.sentUpdates)
    (hunsolved : s'.solution = none → s'.flow.settled = [])
    (hfinished : ∀ c ∈ s'.flow.settled, Flow.Finished (s'.view s'.graph.solve) s'.flow c) :
    s'.Ledger := by
  refine ⟨?_, ?_, hedges ▸ hs.nodup_edges, hupdates ▸ hs.nodup_updates, hunsolved, hfinished⟩
  · rw [htells.tellings_eq, List.filterMap_append, List.filterMap_eq_nil_iff.2 hedge, hedges]
    exact hs.sentEdges_eq
  · rw [htells.tellings_eq, List.filterMap_append, List.filterMap_eq_nil_iff.2 hupdate, hupdates]
    exact hs.sentUpdates_eq

omit [QualifierLattice σ τ] in
/-- A cell stays finished when the graph changes in a way that its solution does not show. -/
lemma finished_of_tweaks {g g' : Graph τ} {demoted : List Nat} (h : g.Tweaks g') {f : Flow σ τ}
    (hc : Flow.Finished ⟨g, sol, demoted⟩ f c) : Flow.Finished ⟨g', sol, demoted⟩ f c := by
  have hroot := View.storeRoot_of_tweaks h sol demoted demoted
  refine hc.of_demands (fun _ hm => hm) (fun _ hd => hd) (fun reason lower hdemand => Or.inl ?_) ?_
    fun _ => rfl
  · cases hdemand with
    | edge hedge hright hbinds =>
      rw [h.stores_eq] at hedge
      rw [hroot] at hright hbinds ⊢
      exact .edge hedge hright hbinds
    | update hnode hlocation hstrong hbinds =>
      rw [h.stores_eq] at hnode
      rw [h.classOf_eq] at hlocation
      rw [hroot] at hbinds ⊢
      exact .update hnode hlocation hstrong hbinds
  · rw [View.step_of_tweaks h sol demoted demoted]

omit [QualifierLattice σ τ] in
/-- With the solution the record of settled cells is forgotten. -/
lemma forget_eq (s : Session σ τ) :
    ∃ talk questions settled,
      s.forget = { s with
        solution := none, questions, flow := { s.flow with talk, settled } } ∧
      s.talk.Tells [] talk ∧ (settled = [] ∨ s.solution = none ∧ settled = s.flow.settled) := by
  cases hsol : s.solution with
  | none =>
    refine ⟨s.talk, s.questions, s.flow.settled, ?_, .refl _, Or.inr ⟨rfl, rfl⟩⟩
    rw [forget_of_none hsol, ← hsol]
    rfl
  | some sol =>
    refine ⟨_, s.questions.clear, [], ?_, Dialogue.tells_note _ .solutionDropped, Or.inl rfl⟩
    unfold forget
    rw [hsol]
    rfl

omit [QualifierLattice σ τ] in
lemma tells_forget (s : Session σ τ) : s.talk.Tells [] s.forget.talk := by
  obtain ⟨talk, questions, settled, heq, htells, -⟩ := forget_eq s
  rw [heq]
  exact htells

/-- Building keeps the types of cells, and tells the lattice at most about locations. -/
lemma Build.says_locations (h : Build P command s s') :
    s'.flow.types = s.flow.types ∧ s.talk.Says (· = .locations) s'.talk := by
  cases h with
  | speak hspeaks => exact ⟨rfl, (hspeaks.mono (fun _ h => h.1) fun _ => id).toSays⟩
  | @grow graph =>
    obtain ⟨talk, questions, settled, heq, htells, -⟩ := forget_eq ({ s with graph } : Session σ τ)
    rw [heq]
    exact ⟨rfl, htells.says_nil⟩
  | _ => exact ⟨rfl, .refl _⟩

lemma Builds.says_locations (h : Builds P command s s') :
    s'.flow.types = s.flow.types ∧ s.talk.Says (· = .locations) s'.talk := by
  induction h with
  | refl => exact ⟨rfl, .refl _⟩
  | tail _ hmove ih =>
    exact ⟨hmove.says_locations.1.trans ih.1, ih.2.trans hmove.says_locations.2⟩

lemma Ledger.build (hs : s.Ledger) (hcoherent : s.Coherent) (h : Build P command s s') :
    s'.Ledger := by
  cases h with
  | speak hspeaks =>
    obtain ⟨new, htells, hnew⟩ := hspeaks.toSays
    exact hs.of_unmarked htells (fun t ht => by rw [(hnew t ht).1]; rfl)
      (fun t ht => by rw [(hnew t ht).1]; rfl) rfl rfl hs.unsolved hs.finished
  | @tweak graph _ htweaks =>
    refine ⟨hs.sentEdges_eq, hs.sentUpdates_eq, hs.nodup_edges, hs.nodup_updates, hs.unsolved,
      fun c hc => ?_⟩
    have hne : s.solution ≠ none := fun hnone => by
      rw [show s.flow.settled = [] from hs.unsolved hnone] at hc
      exact absurd hc List.not_mem_nil
    have hsolve := htweaks.solve_eq hcoherent.sound (hcoherent.named hne)
    rw [view]
    dsimp only
    rw [hsolve]
    exact finished_of_tweaks htweaks (hs.finished c hc)
  | @grow graph =>
    -- When the graph grows, nothing counts as settled any more, though what was sent stays marked.
    obtain ⟨talk, questions, settled, heq, htells, hsettled⟩ :=
      forget_eq ({ s with graph } : Session σ τ)
    have hnil : settled = [] := by
      rcases hsettled with hsettled | ⟨hnone, hsettled⟩
      · exact hsettled
      · exact hsettled.trans (hs.unsolved hnone)
    rw [heq]
    exact hs.of_unmarked htells (fun _ ht => absurd ht List.not_mem_nil)
      (fun _ ht => absurd ht List.not_mem_nil) rfl rfl (fun _ => hnil)
      fun c hc => absurd (hnil ▸ hc) List.not_mem_nil
  | remember => exact ⟨hs.1, hs.2, hs.3, hs.4, hs.5, hs.6⟩
  | exclude => exact ⟨hs.1, hs.2, hs.3, hs.4, hs.5, hs.6⟩
  | request => exact ⟨hs.1, hs.2, hs.3, hs.4, hs.5, hs.6⟩

lemma Ledger.ask (hs : s.Ledger) (hcoherent : s.Coherent) (hlayered : s.graph.Layered)
    (h : Ask command s s') : s'.Ledger := by
  rcases h.solves_or_advances hcoherent hlayered with ⟨hnone, rfl⟩ | ⟨new, hadvances⟩
  · obtain ⟨new, htells, hnew, -⟩ := Flow.rekey_spec s.graph s.flow
    have hsettled : (s.flow.rekey s.graph).settled = [] := hs.unsolved hnone
    refine hs.of_unmarked htells (fun t ht => by rw [hnew t ht]; rfl)
      (fun t ht => by rw [hnew t ht]; rfl) rfl rfl (fun _ => hsettled) fun c hc => ?_
    exact absurd (hsettled ▸ hc) List.not_mem_nil
  · have hsends := hadvances.settles.sends
    have htells : s.talk.Tells new s'.talk := hsends.tells
    refine ⟨?_, ?_, hsends.nodup_edges hs.nodup_edges, hsends.nodup_updates hs.nodup_updates,
      fun hnone => ?_, fun c hc => ?_⟩
    · rw [htells.tellings_eq, List.filterMap_append, ← hs.sentEdges_eq]
      exact hsends.sentEdges_eq
    · rw [htells.tellings_eq, List.filterMap_append, ← hs.sentUpdates_eq]
      exact hsends.sentUpdates_eq
    · have hnone' := hadvances.solution_eq.symm.trans hnone
      rw [(hadvances.unsolved hnone').2, hs.unsolved hnone']
    · rw [hadvances.graph_eq]
      rcases hadvances.settles.finished c hc with hc | hc
      · exact hadvances.finished c (hs.finished c hc)
      · exact hc

theorem Disciplined.ledger (h : Disciplined s) : s.Ledger := by
  obtain ⟨config, lattice, orders, hrun⟩ := h
  refine DisciplinedRun.induction ⟨config, lattice, orders, .refl⟩ (.start config lattice orders) ?_
    (fun _ _ hs => ⟨hs.1, hs.2, hs.3, hs.4, hs.5, hs.6⟩) hrun
  intro command s₁ s₂ hdisciplined _ hmoves
  exact hmoves.preserves (fun _ _ hcoherent hbuild hs => hs.build hcoherent hbuild)
    (fun _ _ hcoherent hlayered hask hs => hs.ask hcoherent hlayered hask)
    (ReachableBy.coherent hdisciplined) hdisciplined.layered

/-! ## Between which types it was told -/

/-- The graph is solved and demands what was told, between the types that its cells have. -/
def ToldAt (s : Session σ τ) (t : Telling τ) : Prop :=
  s.solution ≠ none ∧ Flow.Justified (s.view s.graph.solve) s.flow t

variable {t : Telling τ}

omit [QualifierLattice σ τ] in
lemma ToldAt.advance (ht : s.ToldAt t) (h : Advances new s s') : s'.ToldAt t := by
  obtain ⟨hne, hjustified⟩ := ht
  refine ⟨h.solution_eq.symm ▸ hne, ?_⟩
  rw [h.graph_eq, view, h.graph_eq]
  exact (hjustified.demote h.demoted_subset).mono h.settles.sends.keeps

/-- Building tells nothing that bears a mark. -/
lemma Builds.mem_tellings (h : Builds P command s s') (hmark : t.reason.Markable)
    (ht : t ∈ tellings s'.talk.journal) : t ∈ tellings s.talk.journal := by
  obtain ⟨-, new, htells, hnew⟩ := h.says_locations
  refine (htells.mem_tellings.1 ht).resolve_left fun hmem => ?_
  rw [hnew t hmem] at hmark
  rcases hmark with ⟨_, hmark⟩ | ⟨_, hmark⟩ <;> cases hmark

/-- What was told while something was asked is demanded in the end. -/
lemma Asks.mem_tellings (h : Asks command s s') (hs : s.Coherent) (hlayered : s.graph.Layered)
    (hmark : t.reason.Markable) (ht : t ∈ tellings s'.talk.journal) :
    t ∈ tellings s.talk.journal ∨ s'.ToldAt t := by
  suffices hboth : s'.Coherent ∧ (t ∈ tellings s'.talk.journal →
      t ∈ tellings s.talk.journal ∨ s'.ToldAt t) from hboth.2 ht
  clear ht
  induction h with
  | refl => exact ⟨hs, Or.inl⟩
  | @tail s₁ s₂ hasks hmove ih =>
    obtain ⟨hs₁, ih⟩ := ih
    refine ⟨hs₁.ask hmove, fun ht => ?_⟩
    have hlayered₁ : s₁.graph.Layered := (Asks.graph_eq hasks).symm ▸ hlayered
    rcases hmove.solves_or_advances hs₁ hlayered₁ with ⟨hnone, rfl⟩ | ⟨new, hadvances⟩
    · obtain ⟨new, htells, hnew, -⟩ := Flow.rekey_spec s₁.graph s₁.flow
      rcases htells.mem_tellings.1 ht with ht | ht
      · rw [hnew t ht] at hmark
        rcases hmark with ⟨_, hmark⟩ | ⟨_, hmark⟩ <;> cases hmark
      · exact Or.inl ((ih ht).resolve_right fun htold => htold.1 hnone)
    · rcases hadvances.settles.sends.tells.mem_tellings.1 ht with ht | ht
      · refine Or.inr ⟨fun hnone => ?_, hadvances.graph_eq.symm ▸
          hadvances.settles.sends.justified t ht⟩
        rw [(hadvances.unsolved (hadvances.solution_eq.symm.trans hnone)).1] at ht
        exact absurd ht List.not_mem_nil
      · exact (ih ht).imp_right fun htold => htold.advance hadvances

/-- What bears a mark and was told by a command is demanded when the command is done. -/
lemma Moves.mem_tellings (h : Moves True command s s') (hs : s.Coherent)
    (hlayered : s.graph.Layered) (hmark : t.reason.Markable) (ht : t ∈ tellings s'.talk.journal) :
    t ∈ tellings s.talk.journal ∨ s'.ToldAt t := by
  rcases h with hbuilds | ⟨hasks, -⟩
  · exact Or.inl (hbuilds.mem_tellings hmark ht)
  · exact Asks.mem_tellings hasks hs hlayered hmark ht

/-- What bears a mark was told in some earlier session, between the types that its cells had. -/
theorem Disciplined.exists_toldAt (h : Disciplined s) (hmark : t.reason.Markable)
    (ht : t ∈ tellings s.talk.journal) :
    ∃ s₀, Disciplined s₀ ∧ DisciplinedRun s₀ s ∧ s₀.ToldAt t := by
  obtain ⟨config, lattice, orders, hrun⟩ := h
  revert ht
  refine DisciplinedRun.induction (motive := fun s => t ∈ tellings s.talk.journal →
    ∃ s₀, Disciplined s₀ ∧ DisciplinedRun s₀ s ∧ s₀.ToldAt t)
    ⟨config, lattice, orders, .refl⟩ (fun ht => absurd ht List.not_mem_nil) ?_ ?withLattice hrun
  case withLattice =>
    intro s₁ lattice ih ht
    obtain ⟨s₀, hs₀, hrun₀, htold⟩ := ih ht
    exact ⟨s₀, hs₀, .withLattice lattice hrun₀, htold⟩
  intro command s₁ s₂ hdisciplined hstep hmoves ih ht
  rcases hmoves.mem_tellings (ReachableBy.coherent hdisciplined) hdisciplined.layered hmark ht with
    hold | htold
  · obtain ⟨s₀, hs₀, hrun₀, htold⟩ := ih hold
    exact ⟨s₀, hs₀, hrun₀.trans hstep, htold⟩
  · exact ⟨s₂, ReachableBy.run hdisciplined hstep, .refl, htold⟩

end Session

end HeapQual
