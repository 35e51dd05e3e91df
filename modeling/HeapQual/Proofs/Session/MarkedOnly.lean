import HeapQual.Proofs.SameCells
import HeapQual.Proofs.Session.Answers
import HeapQual.Proofs.Session.Demotion
import HeapQual.Proofs.Session.Replaying

/-!
# Settling cells only when they are asked for

A session settles all cells when it is closed, or only those of marked locations and those that were
asked for.  In the second case constraints are sent later, but in the end the same ones are sent
(`Session.markedOnly_sends_same`).

As long as nothing grows, what may be sent is fixed by the graph: an edge at a location that both
its ends bind, and the base of an update that keeps the old contents.  Nothing else is ever sent
(`Session.Warranted`), and what was sent about a cell stays sent (`Session.HandledOn`).
-/

namespace HeapQual

open Relation (ReflTransGen)

namespace Graph.SameCells

variable {τ : Type} {g g' : Graph τ} {a i store : Nat} {l : Linearity}

lemma hasLinearity (h : g.SameCells g') (hl : g.HasLinearity a i l) :
    g'.HasLinearity a i l := by
  have hsite : ∀ r, g.IsSite a r ↔ g'.IsSite a r := fun r => ⟨h.isSite, h.symm.isSite⟩
  have hreaches : ∀ r j, g.Reaches a r j ↔ g'.Reaches a r j :=
    fun r j => ⟨h.reaches, h.symm.reaches⟩
  have hrecurs : ∀ r, g.Recurs a r ↔ g'.Recurs a r := fun r => ⟨h.recurs, h.symm.recurs⟩
  obtain ⟨hzero, hone, homega⟩ := hl
  simp only [hsite, hreaches, hrecurs] at hzero hone homega
  exact ⟨hzero, hone, homega⟩

lemma demotes (h : g.SameCells g') (hd : g.Demotes store) : g'.Demotes store := by
  obtain ⟨base, b, type, position, message, hnode, homega⟩ := hd
  obtain ⟨type', hnode'⟩ := h.update hnode
  refine ⟨base, b, type', position, message, hnode', ?_⟩
  rw [← h.classOf_eq, ← h.storeRoot_eq]
  exact h.hasLinearity homega

end Graph.SameCells

namespace Session

variable {σ τ : Type} {P : Prop} {command : Command τ} {s s' : Session σ τ}

/-! ## What a move keeps -/

variable [QualifierLattice σ τ]

lemma Build.config_eq (h : Build P command s s') : s'.config = s.config := by
  cases h with
  | grow =>
    unfold forget
    split <;> rfl
  | _ => rfl

lemma Build.linearities_eq (h : Build P command s s') : s'.linearities = s.linearities := by
  cases h with
  | grow =>
    unfold forget
    split <;> rfl
  | _ => rfl

lemma Build.marked_iff (h : Build P command s s') (reason : Reason) :
    s'.flow.Marked reason ↔ s.flow.Marked reason := by
  cases h with
  | grow =>
    unfold forget
    split <;> exact Iff.rfl
  | _ => exact Iff.rfl

/-- Building touches neither the configuration nor the linearities nor the marks. -/
lemma Builds.keeps (h : Builds P command s s') :
    s'.config = s.config ∧ s'.linearities = s.linearities ∧
      ∀ reason, s'.flow.Marked reason ↔ s.flow.Marked reason := by
  induction h with
  | refl => exact ⟨rfl, rfl, fun _ => Iff.rfl⟩
  | tail _ hmove ih =>
    exact ⟨hmove.config_eq.trans ih.1, hmove.linearities_eq.trans ih.2.1,
      fun reason => (hmove.marked_iff reason).trans (ih.2.2 reason)⟩

lemma Ask.config_eq (h : Ask command s s') : s'.config = s.config := by
  cases h with
  | chat hchat =>
    obtain ⟨talk, questions, reported, rfl, -⟩ := hchat
    rfl
  | @linearize sol =>
    obtain ⟨linearities, flow, heq⟩ := s.demoteAll_eq sol
    rw [heq]
  | _ => rfl

lemma Moves.config_eq (h : Moves P command s s') : s'.config = s.config := by
  rcases h with h | ⟨h, -⟩
  · exact h.keeps.1
  · induction h with
    | refl => rfl
    | tail _ hmove ih => exact hmove.config_eq.trans ih

/-- A session keeps its configuration. -/
lemma DisciplinedRun.config_eq (h : DisciplinedRun s s') (hs : Disciplined s) :
    s'.config = s.config :=
  DisciplinedRun.induction (motive := fun s' => s'.config = s.config) hs rfl
    (fun _ _ _ _ _ hmoves hconfig => hmoves.config_eq.trans hconfig) (fun _ _ h => h) h

lemma Ask.linearities_eq (h : Ask command s s') (hs : s.phase = .linearized) :
    s'.linearities = s.linearities := by
  cases h with
  | chat hchat =>
    obtain ⟨talk, questions, reported, rfl, -⟩ := hchat
    rfl
  | linearize hclosed => exact absurd (hs.symm.trans hclosed) (by simp)
  | _ => rfl

/-- Once the session is linearized, its linearities stay. -/
lemma Moves.linearities_eq (h : Moves P command s s') (hs : s.phase = .linearized) :
    s'.linearities = s.linearities := by
  rcases h with h | ⟨h, -⟩
  · exact h.keeps.2.1
  · suffices hboth : s'.phase = .linearized ∧ s'.linearities = s.linearities from hboth.2
    induction h with
    | refl => exact ⟨hs, rfl⟩
    | tail _ hmove ih =>
      exact ⟨hmove.phase_linearized ih.1, (hmove.linearities_eq ih.1).trans ih.2⟩

lemma Moves.demoted_subset (h : Moves P command s s') (hs : s.Coherent) :
    ∀ store ∈ s.linearities.demoted, store ∈ s'.linearities.demoted := by
  intro store hstore
  by_cases hphase : s.phase = .linearized
  · rwa [h.linearities_eq hphase]
  · rw [hs.linearities_eq hphase] at hstore
    exact absurd hstore List.not_mem_nil

/-! ## Runs in which nothing grows -/

/-- The command names what exists, and whatever it does, it leaves the graph as it is, up to what
the solution does not show. -/
def Quiet (s : Session σ τ) (c : Command τ) : Prop :=
  c.Known s.graph ∧ ∀ reply s', s.exec c = .ok (reply, s') → s.graph.Tweaks s'.graph

/-- A command that cannot make the graph grow leaves it alone. -/
lemma quiet_of_not_grows {c : Command τ} (hgrows : c.grows = false) (hknown : c.Known s.graph) :
    Quiet s c := by
  refine ⟨hknown, fun reply s' hexec => ?_⟩
  rw [(spares_of_not_grows hgrows hexec).graph_eq]
  exact .refl _

/-- A run in which nothing grows. -/
abbrev QuietRun (s s' : Session σ τ) : Prop := Runs Quiet s s'

lemma QuietRun.disciplinedRun (h : QuietRun s s') : DisciplinedRun s s' := by
  induction h with
  | refl => exact .refl
  | exec _ hquiet hexec ih => exact ih.exec hquiet.1 hexec
  | withLattice lattice _ ih => exact ih.withLattice lattice

/-- Following a script of commands that cannot make the graph grow. -/
lemma QuietRun.of_follow {commands : List (Command τ)}
    (h : follow (fun s c => c.grows = false ∧ c.Known s.graph) s commands = some s') :
    QuietRun s s' := by
  have hruns := runs_of_follow h
  clear h
  induction hruns with
  | refl => exact .refl
  | exec _ hquiet hexec ih => exact ih.exec (quiet_of_not_grows hquiet.1 hquiet.2) hexec
  | withLattice lattice _ ih => exact ih.withLattice lattice

theorem QuietRun.induction {motive : Session σ τ → Prop} (hs : Disciplined s) (start : motive s)
    (step : ∀ command s₁ s₂, Disciplined s₁ → Moves True command s₁ s₂ →
      s₁.graph.SameCells s₂.graph → motive s₁ → motive s₂)
    (withLattice : ∀ s₁ lattice, motive s₁ → motive (s₁.withLattice lattice))
    (h : QuietRun s s') : motive s' := by
  induction h with
  | refl => exact start
  | exec hrun hquiet hexec ih =>
    have hdisciplined : Disciplined _ := ReachableBy.run hs (QuietRun.disciplinedRun hrun)
    have hsound := (ReachableBy.coherent hdisciplined).sound
    refine step _ _ _ hdisciplined (exec_moves hsound (fun _ => hquiet.1) hexec) ?_ ih
    exact .of_tweaks (hquiet.2 _ _ hexec) hsound hdisciplined.layered.named
  | withLattice lattice _ ih => exact withLattice _ lattice ih

/-- Nothing that is said about cells changes. -/
lemma QuietRun.sameCells (h : QuietRun s s') (hs : Disciplined s) : s.graph.SameCells s'.graph :=
  QuietRun.induction (motive := fun s' => s.graph.SameCells s'.graph) hs (.refl _)
    (fun _ _ _ _ _ hsame ih => ih.trans hsame) (fun _ _ h => h) h

omit [QualifierLattice σ τ] in
/-- Sessions with the same cells make the same demands, if the same updates were demoted. -/
lemma demands_of_sameCells (h : s.graph.SameCells s'.graph)
    (hdemoted : ∀ store ∈ s.linearities.demoted, store ∈ s'.linearities.demoted) {c lower : Cell}
    {reason : Reason} (hdemand : (s.view s.graph.solve).Demands c reason lower) :
    (s'.view s'.graph.solve).Demands c reason lower := by
  rw [view, ← h.solve_eq]
  exact (h.demands hdemand).mono hdemoted

omit [QualifierLattice σ τ] in
lemma isBound_of_sameCells (h : s.graph.SameCells s'.graph) (c : Cell) :
    (s.view s.graph.solve).isBound c = (s'.view s'.graph.solve).isBound c := by
  rw [view, view, View.isBound, View.isBound, View.binds, View.binds, h.solve_eq]

/-! ## What may be sent -/

/-- Whatever was sent for an edge or an update is still demanded of a bound cell. -/
def Warranted (s : Session σ τ) : Prop :=
  ∀ t ∈ tellings s.talk.journal, t.reason.Markable → ∃ c lower,
    (s.view s.graph.solve).isBound c = true ∧ (s.view s.graph.solve).Demands c t.reason lower

lemma Warranted.moves (h : s.Warranted) (hs : Disciplined s) (hmoves : Moves True command s s')
    (hsame : s.graph.SameCells s'.graph) : s'.Warranted := by
  intro t ht hmark
  have hcoherent := ReachableBy.coherent hs
  rcases hmoves.mem_tellings hcoherent hs.layered hmark ht with hold | ⟨-, c, lower, hc, hdemand, -⟩
  · obtain ⟨c, lower, hc, hdemand⟩ := h t hold hmark
    refine ⟨c, lower, (isBound_of_sameCells hsame c).symm.trans hc, ?_⟩
    exact demands_of_sameCells hsame (hmoves.demoted_subset hcoherent) hdemand
  · exact ⟨c, lower, hc, hdemand⟩

/-- While nothing grows, the updates that were demoted are those of the present graph. -/
def DemotesAsGraph (s : Session σ τ) : Prop :=
  s.phase = .linearized → ∀ store, store ∈ s.linearities.demoted ↔ s.graph.Demotes store

lemma DemotesAsGraph.ask (h : s.DemotesAsGraph) (hs : s.Coherent) (hnamed : s.graph.Named)
    (hask : Ask command s s') : s'.DemotesAsGraph := by
  cases hask with
  | chat hchat =>
    obtain ⟨talk, questions, reported, rfl, -⟩ := hchat
    exact h
  | close => exact fun hphase => absurd hphase (by simp)
  | @linearize sol hclosed hsol =>
    intro _ store
    obtain rfl := hs.solution_eq sol hsol
    rw [linearities_demoteAll, mem_demoted_iff hs.sound hnamed]
    obtain ⟨linearities, flow, heq⟩ := s.demoteAll_eq s.graph.solve
    rw [heq]
  | _ => exact h

lemma DemotesAsGraph.moves (h : s.DemotesAsGraph) (hs : Disciplined s)
    (hmoves : Moves True command s s') (hsame : s.graph.SameCells s'.graph) :
    s'.DemotesAsGraph := by
  rcases hmoves with hbuilds | ⟨hasks, -⟩
  · intro hphase store
    rw [hbuilds.keeps.2.1, h (hbuilds.phase_eq.symm.trans hphase)]
    exact ⟨hsame.demotes, hsame.symm.demotes⟩
  · exact hasks.preserves (motive := DemotesAsGraph)
      (fun _ _ hcoherent hlayered hask h => h.ask hcoherent hlayered.named hask)
      (ReachableBy.coherent hs) hs.layered h

/-! ## What was sent -/

/-- Everything that the graph demands of these cells was sent. -/
def HandledOn (cells : Cell → Prop) (s : Session σ τ) : Prop :=
  ∀ c, cells c → Flow.Handled (s.view s.graph.solve) s.flow c

lemma Ask.marked (h : Ask command s s') (hs : s.Coherent) (hlayered : s.graph.Layered)
    {reason : Reason} (hmarked : s.flow.Marked reason) : s'.flow.Marked reason := by
  rcases h.solves_or_advances hs hlayered with ⟨-, rfl⟩ | ⟨new, hadvances⟩
  · exact hmarked
  · exact hadvances.settles.marked hmarked

variable {cells : Cell → Prop}

lemma HandledOn.ask (h : s.HandledOn cells) (hs : s.Coherent) (hlayered : s.graph.Layered)
    (hask : Ask command s s') : s'.HandledOn cells := by
  intro c hc reason lower hdemand
  -- Unless the session is linearized, no more is demanded than before.
  have hsame (hgraph : s'.graph = s.graph) (hlinearities : s'.linearities = s.linearities) :
      s'.flow.Marked reason := by
    rw [view, hgraph, hlinearities] at hdemand
    exact hask.marked hs hlayered (h c hc reason lower hdemand)
  cases hask with
  | chat hchat =>
    obtain ⟨talk, questions, reported, rfl, -⟩ := hchat
    exact hsame rfl rfl
  | @linearize sol hclosed hsol hcommand =>
    obtain rfl := hs.solution_eq sol hsol
    have hmove : Ask command s (s.demoteAll s.graph.solve) := .linearize hclosed hsol hcommand
    rw [hmove.graph_eq] at hdemand
    rcases demands_of_demoteAll hs.sound hlayered hdemand with hold | ⟨hmarked, -⟩
    · exact hmove.marked hs hlayered (h c hc reason lower hold)
    · exact hmarked
  | _ => exact hsame rfl rfl

lemma HandledOn.moves (h : s.HandledOn cells) (hs : Disciplined s)
    (hmoves : Moves True command s s') (hsame : s.graph.SameCells s'.graph) :
    s'.HandledOn cells := by
  rcases hmoves with hbuilds | ⟨hasks, -⟩
  · intro c hc reason lower hdemand
    obtain ⟨-, hlinearities, hmarked⟩ := hbuilds.keeps
    refine (hmarked reason).2 (h c hc reason lower (demands_of_sameCells hsame.symm ?_ hdemand))
    rw [hlinearities]
    exact fun _ hstore => hstore
  · exact hasks.preserves (motive := (·.HandledOn cells))
      (fun _ _ hcoherent hlayered hask h => h.ask hcoherent hlayered hask)
      (ReachableBy.coherent hs) hs.layered h

/-! ## Closing -/

/-- What closing an open session leaves behind. -/
lemma close_of_exec {reply : Reply τ} (hopened : s.phase = .opened)
    (h : s.exec .close = .ok (reply, s')) :
    ∃ failures, s.close = .ok (.ok failures, s') ∧ s'.phase = .closed := by
  obtain ⟨⟨answer, s₁⟩, hclose, hreply⟩ := bind_eq_ok_iff.1 (perform_eq_ok_of_exec h)
  cases hreply
  obtain ⟨sol, s₂, s₃, s₄, failures, -, -, hsettled, rfl, rfl⟩ := close_eq_ok hclose hopened
  obtain ⟨requested, -, hs₄⟩ := bind_eq_ok_iff.1 hsettled
  refine ⟨failures, hclose, ?_⟩
  cases hs₄
  rfl

/-- Before a session is closed nothing is sent for an edge or an update. -/
lemma Disciplined.not_markable (h : Disciplined s) (hopened : s.phase = .opened) {t : Telling τ}
    (ht : t ∈ tellings s.talk.journal) : ¬t.reason.Markable := by
  have hfresh := ReachableBy.fresh h hopened
  rintro (⟨key, hkey⟩ | ⟨store, hstore⟩)
  · have hmem : key ∈ s.flow.sentEdges := by
      rw [h.ledger.sentEdges_eq]
      exact List.mem_filterMap.2 ⟨t, ht, hkey⟩
    rw [hfresh.sentEdges_eq] at hmem
    exact absurd hmem List.not_mem_nil
  · have hmem : store ∈ s.flow.sentUpdates := by
      rw [h.ledger.sentUpdates_eq]
      exact List.mem_filterMap.2 ⟨t, ht, hstore⟩
    rw [hfresh.sentUpdates_eq] at hmem
    exact absurd hmem List.not_mem_nil

/-- A command that has no arguments names only what exists. -/
lemma known_close (g : Graph τ) : (Command.close : Command τ).Known g :=
  ⟨fun _ h => absurd h List.not_mem_nil, fun _ h => absurd h List.not_mem_nil,
    fun _ h => absurd h List.not_mem_nil⟩

/-- From when a session is closed and as long as nothing grows, only what the graph demands is sent,
and updates are demoted as the graph says. -/
lemma Disciplined.warranted_of_quiet {s₀ s₁ : Session σ τ} {reply : Reply τ} (h : Disciplined s₀)
    (hopened : s₀.phase = .opened) (hclose : s₀.exec .close = .ok (reply, s₁))
    (hquiet : QuietRun s₁ s) : s.Warranted ∧ s.DemotesAsGraph := by
  have h₁ : Disciplined s₁ := ReachableBy.run h (.exec .refl (known_close _) hclose)
  have hcoherent := ReachableBy.coherent h
  obtain ⟨failures, -, hclosed⟩ := close_of_exec hopened hclose
  refine QuietRun.induction (motive := fun s => s.Warranted ∧ s.DemotesAsGraph) h₁ ⟨?_, ?_⟩ ?_
    (fun _ _ h => h) hquiet
  · intro t ht hmark
    have hmoves := exec_moves (P := True) hcoherent.sound (fun _ => known_close _) hclose
    rcases hmoves.mem_tellings hcoherent h.layered hmark ht with
      hold | ⟨-, c, lower, hc, hdemand, -⟩
    · exact absurd hmark (h.not_markable hopened hold)
    · exact ⟨c, lower, hc, hdemand⟩
  · exact fun hphase => absurd (hclosed.symm.trans hphase) (by simp)
  · intro command s₂ s₃ hs₂ hmoves hsame hboth
    exact ⟨hboth.1.moves hs₂ hmoves hsame, hboth.2.moves hs₂ hmoves hsame⟩

/-- If all locations count, everything that is demanded of bound cells was sent since the session
was closed. -/
lemma Disciplined.handledOn_of_quiet {s₀ s₁ : Session σ τ} {reply : Reply τ} (h : Disciplined s₀)
    (hopened : s₀.phase = .opened) (hall : s₀.config.markedOnly = false)
    (hclose : s₀.exec .close = .ok (reply, s₁)) (hquiet : QuietRun s₁ s) :
    s.HandledOn fun c => (s.view s.graph.solve).isBound c = true := by
  have h₁ : Disciplined s₁ := ReachableBy.run h (.exec .refl (known_close _) hclose)
  obtain ⟨failures, hclose, -⟩ := close_of_exec hopened hclose
  obtain ⟨new, -, -, -, -, -, -, -, -, hhandled⟩ := sends_close h hopened hall hclose
  intro c hc
  rw [← isBound_of_sameCells (hquiet.sameCells h₁)] at hc
  have hstart : s₁.HandledOn (· = c) := by
    rintro c rfl
    exact hhandled c hc
  have hend : s.HandledOn (· = c) := QuietRun.induction (motive := (·.HandledOn (· = c))) h₁ hstart
    (fun _ _ _ hs₂ hmoves hsame hold => hold.moves hs₂ hmoves hsame) (fun _ _ h => h) hquiet
  exact hend c rfl

/-! ## Asking for the type of a cell -/

/-- Since the first session the type of the cell was asked for, and the question was answered. -/
def AskedSince (s₀ s : Session σ τ) (d : Cell) : Prop :=
  ∃ s₁ s₂ x a q, QuietRun s₀ s₁ ∧ s₁.exec (.typeAt x a) = .ok (.type? q, s₂) ∧ QuietRun s₂ s ∧
    d = ⟨s.graph.stores.root x, s.graph.classOf a⟩

/-- Only a linearized session gives types, and only of what exists. -/
lemma linearized_of_typeAt {x : StoreId} {a : LocationId} {q : Option τ}
    (h : s.typeAt x a = .ok (.ok q, s')) :
    s.phase = .linearized ∧ (Command.typeAt x a).Known s.graph := by
  unfold typeAt at h
  split at h
  · cases h
  · rename_i hrefuse
    obtain ⟨⟨sol, s₁⟩, hsolved, h⟩ := bind_eq_ok_iff.1 h
    obtain ⟨c, hcell, -⟩ := bind_eq_ok_iff.1 h
    obtain ⟨hx, ha, -⟩ := findCell_eq_ok hcell
    rw [(solved_eq_ok hsolved).1] at hx ha
    exact ⟨refuseUnlinearized_eq_none hrefuse, fun b hb => List.mem_singleton.1 hb ▸ ha,
      fun e he => absurd he List.not_mem_nil, fun y hy => List.mem_singleton.1 hy ▸ hx⟩

lemma typeAt_eq_of_exec {x : StoreId} {a : LocationId} {q : Option τ}
    (h : s.exec (.typeAt x a) = .ok (.type? q, s')) : s.typeAt x a = .ok (.ok q, s') := by
  obtain ⟨⟨answer, s₁⟩, htypeAt, hreply⟩ := bind_eq_ok_iff.1 (perform_eq_ok_of_exec h)
  cases answer with
  | error r => cases hreply
  | ok q =>
    cases hreply
    exact htypeAt

/-- A session that gives a type stays linearized. -/
lemma Disciplined.typeAt_of_exec (h : Disciplined s) {x : StoreId} {a : LocationId} {q : Option τ}
    (hexec : s.exec (.typeAt x a) = .ok (.type? q, s')) :
    s.typeAt x a = .ok (.ok q, s') ∧ Disciplined s' ∧ s'.phase = .linearized := by
  have htypeAt := typeAt_eq_of_exec hexec
  obtain ⟨hphase, hknown⟩ := linearized_of_typeAt htypeAt
  have hmoves := exec_moves (P := True) (ReachableBy.coherent h).sound (fun _ => hknown) hexec
  exact ⟨htypeAt, ReachableBy.run h (.exec .refl hknown hexec), hmoves.phase_linearized hphase⟩

/-- When the type of a bound cell was asked for, everything that is demanded of its cone was
sent. -/
lemma handledOn_of_typeAt (h : Disciplined s) {x : StoreId} {a : LocationId} {q : Option τ}
    (hexec : s.exec (.typeAt x a) = .ok (.type? q, s')) {d : Cell}
    (hd : d = ⟨s'.graph.stores.root x, s'.graph.classOf a⟩)
    (hbound : (s'.view s'.graph.solve).isBound d = true) :
    s'.HandledOn ((s'.view s'.graph.solve).Cone d) := by
  subst hd
  obtain ⟨htypeAt, h', -⟩ := h.typeAt_of_exec hexec
  obtain ⟨hgraph, -, hq, -⟩ := typeAt_spec h htypeAt
  have hv : (s'.view s'.graph.solve).Faithful := h.faithful hgraph
  have hsome : q.isSome = true := by
    rw [hq]
    exact (hv.lookup_isSome_iff s'.flow x a).2 (hv.isBound_iff.1 hbound)
  obtain ⟨type, rfl⟩ := Option.isSome_iff_exists.1 hsome
  obtain ⟨-, -, -, -, hsettled⟩ := settled_of_typeAt h htypeAt
  intro c hcone
  obtain ⟨-, hc⟩ := h'.ledger.settled_of_cone hv hcone hbound hsettled
  exact (h'.ledger.finished c hc).1

/-- While nothing grows, the linearities stay. -/
lemma QuietRun.linearities_eq (h : QuietRun s s') (hs : Disciplined s)
    (hphase : s.phase = .linearized) : s'.linearities = s.linearities :=
  (QuietRun.induction (motive := fun s' => s'.phase = .linearized ∧ s'.linearities = s.linearities)
    hs ⟨hphase, rfl⟩ (fun _ _ _ _ hmoves _ ih => ⟨hmoves.phase_linearized ih.1,
      (hmoves.linearities_eq ih.1).trans ih.2⟩) (fun _ _ h => h) h).2

lemma AskedSince.of_quiet {s₀ s₁ : Session σ τ} {d : Cell} (h : s₁.AskedSince s d)
    (hquiet : QuietRun s₀ s₁) : s₀.AskedSince s d := by
  obtain ⟨s₂, s₃, x, a, q, hbefore, hexec, hafter, hd⟩ := h
  exact ⟨s₂, s₃, x, a, q, hquiet.trans hbefore, hexec, hafter, hd⟩

/-- A linearized session answers every question of a script. -/
lemma AskedSince.of_follow {commands : List (Command τ)} {x : StoreId} {a : LocationId}
    (hs : Disciplined s) (hphase : s.phase = .linearized)
    (h : follow (fun s c => c.grows = false ∧ c.Known s.graph) s commands = some s')
    (hasked : .typeAt x a ∈ commands) :
    s.AskedSince s' ⟨s'.graph.stores.root x, s'.graph.classOf a⟩ := by
  induction commands generalizing s with
  | nil => exact absurd hasked List.not_mem_nil
  | cons c commands ih =>
    obtain ⟨hallowed, reply, s₁, hexec, hfollow⟩ := follow_cons_eq_some_iff.1 h
    rcases List.mem_cons.1 hasked with rfl | hlater
    · obtain ⟨⟨answer, s₂⟩, htypeAt, hreply⟩ := bind_eq_ok_iff.1 (perform_eq_ok_of_exec hexec)
      -- A linearized session refuses no question about a type.
      cases answer with
      | error r =>
        simp only [typeAt, refuseUnlinearized, hphase] at htypeAt
        obtain ⟨⟨sol, s₃⟩, -, htypeAt⟩ := bind_eq_ok_iff.1 htypeAt
        obtain ⟨c, -, htypeAt⟩ := bind_eq_ok_iff.1 htypeAt
        cases htypeAt
      | ok q =>
        cases hreply
        exact ⟨s, s₁, x, a, q, .refl, hexec, .of_follow hfollow, rfl⟩
    · have hquiet : QuietRun s s₁ :=
        .exec .refl (quiet_of_not_grows hallowed.1 hallowed.2) hexec
      have hmoves := exec_moves (P := True) (ReachableBy.coherent hs).sound
        (fun _ => hallowed.2) hexec
      exact (ih (ReachableBy.run hs (.exec .refl hallowed.2 hexec))
        (hmoves.phase_linearized hphase) hfollow hlater).of_quiet hquiet

/-- Everything that is demanded of the cone of a cell stays sent once the cell was asked for. -/
lemma AskedSince.handledOn {s₀ : Session σ τ} {d : Cell} (h : s₀.AskedSince s d)
    (hs₀ : Disciplined s₀) (hbound : (s.view s.graph.solve).isBound d = true) :
    s.HandledOn ((s.view s.graph.solve).Cone d) := by
  obtain ⟨s₁, s₂, x, a, q, hquiet₁, hexec, hquiet₂, rfl⟩ := h
  have h₁ : Disciplined s₁ := ReachableBy.run hs₀ (QuietRun.disciplinedRun hquiet₁)
  obtain ⟨-, h₂, hphase₂⟩ := h₁.typeAt_of_exec hexec
  have hsame := QuietRun.sameCells hquiet₂ h₂
  have hlinearities := QuietRun.linearities_eq hquiet₂ h₂ hphase₂
  rw [← isBound_of_sameCells hsame, ← hsame.storeRoot_eq, ← hsame.classOf_eq] at hbound
  have hhandled : s.HandledOn _ := QuietRun.induction (motive := (·.HandledOn _)) h₂
    (handledOn_of_typeAt h₁ hexec rfl hbound)
    (fun _ _ _ hs₂ hmoves hsame hold => hold.moves hs₂ hmoves hsame) (fun _ _ h => h) hquiet₂
  intro c hcone
  refine hhandled c ?_
  -- The cone is what it was when the cell was asked for.
  rw [view, hlinearities, ← hsame.solve_eq, ← hsame.storeRoot_eq, ← hsame.classOf_eq] at hcone
  exact hsame.symm.cone hcone

/-! ## Two sessions with the same commands -/

/-- Two sessions are given the same commands, but for the types in them, and no command names what
does not exist. -/
inductive Lockstep (s₀ s₀' : Session σ τ) : Session σ τ → Session σ τ → Prop
  | refl : Lockstep s₀ s₀' s₀ s₀'
  | exec {s s' t t' : Session σ τ} {c c' : Command τ} {reply reply' : Reply τ} :
      Lockstep s₀ s₀' s s' → c.Alike c' → c.Known s.graph → c'.Known s'.graph →
      s.exec c = .ok (reply, t) → s'.exec c' = .ok (reply', t') → Lockstep s₀ s₀' t t'
  | withLattice {s s' : Session σ τ} (lattice lattice' : σ) :
      Lockstep s₀ s₀' s s' → Lockstep s₀ s₀' (s.withLattice lattice) (s'.withLattice lattice')

namespace Lockstep

variable {s₀ s₀' : Session σ τ}

lemma left (h : Lockstep s₀ s₀' s s') : DisciplinedRun s₀ s := by
  induction h with
  | refl => exact .refl
  | exec _ _ hknown _ hexec _ ih => exact ih.exec hknown hexec
  | withLattice lattice _ _ ih => exact ih.withLattice lattice

lemma right (h : Lockstep s₀ s₀' s s') : DisciplinedRun s₀' s' := by
  induction h with
  | refl => exact .refl
  | exec _ _ _ hknown _ hexec ih => exact ih.exec hknown hexec
  | withLattice _ lattice _ ih => exact ih.withLattice lattice

lemma alike (h : Lockstep s₀ s₀' s s') (h₀ : s₀.Alike s₀') : s.Alike s' := by
  induction h with
  | refl => exact h₀
  | exec _ hc _ _ hexec hexec' ih => exact ih.exec hc hexec hexec'
  | withLattice => rename_i ih; exact ih.withTalk _ _

/-- Following one script in both sessions. -/
lemma of_follow {commands : List (Command τ)} {t t' : Session σ τ} (h : Lockstep s₀ s₀' s s')
    (hfollow : follow (fun s c => c.Known s.graph) s commands = some t)
    (hfollow' : follow (fun s c => c.Known s.graph) s' commands = some t') :
    Lockstep s₀ s₀' t t' := by
  induction commands generalizing s s' with
  | nil =>
    cases hfollow
    cases hfollow'
    exact h
  | cons c commands ih =>
    obtain ⟨hknown, reply, s₁, hexec, hfollow⟩ := follow_cons_eq_some_iff.1 hfollow
    obtain ⟨hknown', reply', s₁', hexec', hfollow'⟩ := follow_cons_eq_some_iff.1 hfollow'
    exact ih (h.exec (.refl c) hknown hknown' hexec hexec') hfollow hfollow'

end Lockstep

/-- The edges and the locations for which something was sent. -/
def sentAlong (s : Session σ τ) : List (Nat × Nat) :=
  (tellings s.talk.journal).filterMap (·.reason.edge?)

/-- The updates for which something was sent. -/
def sentInto (s : Session σ τ) : List Nat :=
  (tellings s.talk.journal).filterMap (·.reason.update?)

omit [QualifierLattice σ τ] in
/-- Nothing is sent twice for an edge at a location, or for an update. -/
lemma Ledger.nodup_sent (hs : s.Ledger) : s.sentAlong.Nodup ∧ s.sentInto.Nodup := by
  have hedges : s.flow.sentEdges = s.sentAlong := hs.sentEdges_eq
  have hupdates : s.flow.sentUpdates = s.sentInto := hs.sentUpdates_eq
  exact ⟨hedges ▸ hs.nodup_edges, hupdates ▸ hs.nodup_updates⟩

omit [QualifierLattice σ τ] in
/-- If whatever was sent in one session is marked in another one, it was sent there. -/
lemma Ledger.sent_subset (hs' : s'.Ledger)
    (h : ∀ t ∈ tellings s.talk.journal, t.reason.Markable → s'.flow.Marked t.reason) :
    (∀ key ∈ s.sentAlong, key ∈ s'.sentAlong) ∧ ∀ store ∈ s.sentInto, store ∈ s'.sentInto := by
  refine ⟨fun key hkey => ?_, fun store hstore => ?_⟩
  · obtain ⟨t, ht, hkey⟩ := List.mem_filterMap.1 hkey
    have hmem := (h t ht (Or.inl ⟨key, hkey⟩)).1 key hkey
    rwa [hs'.sentEdges_eq] at hmem
  · obtain ⟨t, ht, hstore⟩ := List.mem_filterMap.1 hstore
    have hmem := (h t ht (Or.inr ⟨store, hstore⟩)).2 store hstore
    rwa [hs'.sentUpdates_eq] at hmem

/-- Two sessions are given the same commands and then closed, the one settles all cells and the
other only those of marked locations, and nothing grows from then on.  When the second session was
linearized and the type of a bound cell was asked for, then what the graph demands of the cone of
the cell was sent, once.  When all bound cells were asked for, the two sessions have sent something
for the same edges at the same locations, and for the same updates, and once for each. -/
theorem markedOnly_sends_same {bits : Nat} {lattice lattice' : σ} {orders orders' : List (List Nat)}
    {s₀ s₀' s₁ s₁' : Session σ τ} {reply reply' : Reply τ}
    (hsame : Lockstep (Session.start ⟨bits, false⟩ lattice orders)
      (Session.start ⟨bits, true⟩ lattice' orders') s₀ s₀')
    (hopened : s₀.phase = .opened) (hopened' : s₀'.phase = .opened)
    (hclose : s₀.exec .close = .ok (reply, s₁)) (hclose' : s₀'.exec .close = .ok (reply', s₁'))
    (hquiet : QuietRun s₁ s) (hquiet' : QuietRun s₁' s') (hlinearized : s.phase = .linearized)
    (hlinearized' : s'.phase = .linearized) :
    (∀ d, (s'.view s'.graph.solve).isBound d = true → s₁'.AskedSince s' d →
      ∀ c reason lower, (s'.view s'.graph.solve).Cone d c →
        (s'.view s'.graph.solve).Demands c reason lower →
        ∃ t, (tellings s'.talk.journal).filter (·.reason.SameMark reason) = [t]) ∧
      ((∀ d, (s'.view s'.graph.solve).isBound d = true → s₁'.AskedSince s' d) →
        s.sentAlong.Perm s'.sentAlong ∧ s.sentAlong.Nodup ∧
          s.sentInto.Perm s'.sentInto ∧ s.sentInto.Nodup) := by
  have h₀ : Disciplined s₀ := ⟨_, _, _, hsame.left⟩
  have h₀' : Disciplined s₀' := ⟨_, _, _, hsame.right⟩
  have h₁ : Disciplined s₁ := ReachableBy.run h₀ (.exec .refl (known_close _) hclose)
  have h₁' : Disciplined s₁' := ReachableBy.run h₀' (.exec .refl (known_close _) hclose')
  have hledger := Disciplined.ledger (ReachableBy.run h₁ (QuietRun.disciplinedRun hquiet))
  have hledger' := Disciplined.ledger (ReachableBy.run h₁' (QuietRun.disciplinedRun hquiet'))
  constructor
  · intro d hd hasked c reason lower hcone hdemand
    have hmarked := hasked.handledOn h₁' hd c hcone reason lower hdemand
    obtain ⟨t, ht, hmark⟩ := hmarked.exists_telling hdemand.markable hledger'.sentEdges_eq
      hledger'.sentUpdates_eq
    exact ⟨t, hledger'.filter_tellings_eq hdemand.markable ht hmark⟩
  · intro hasked
    obtain ⟨hwarranted, hdemotes⟩ := h₀.warranted_of_quiet hopened hclose hquiet
    obtain ⟨hwarranted', hdemotes'⟩ := h₀'.warranted_of_quiet hopened' hclose' hquiet'
    have hconfig : s₀.config.markedOnly = false := by
      rw [hsame.left.config_eq ⟨_, _, _, .refl⟩]
      rfl
    have hhandled := h₀.handledOn_of_quiet hopened hconfig hclose hquiet
    -- The graphs say the same about cells, and the same updates were demoted.
    have halike : s₁.Alike s₁' :=
      ((alike_of_not_grows rfl hclose).symm.trans (hsame.alike ⟨rfl, rfl⟩)).trans
        (alike_of_not_grows rfl hclose')
    have hcells : s.graph.SameCells s'.graph :=
      ((QuietRun.sameCells hquiet h₁).symm.trans (.of_shape_eq halike.shape_eq)).trans
        (QuietRun.sameCells hquiet' h₁')
    have hdemoted : ∀ store, store ∈ s.linearities.demoted ↔ store ∈ s'.linearities.demoted := by
      intro store
      rw [hdemotes hlinearized, hdemotes' hlinearized']
      exact ⟨hcells.demotes, hcells.symm.demotes⟩
    have hforth := hledger'.sent_subset (s := s) fun t ht hmark => by
      obtain ⟨c, lower, hc, hdemand⟩ := hwarranted t ht hmark
      rw [isBound_of_sameCells hcells] at hc
      refine (hasked c hc).handledOn h₁' hc c .start t.reason lower ?_
      exact demands_of_sameCells hcells (fun store => (hdemoted store).1) hdemand
    have hback := hledger.sent_subset (s := s') fun t ht hmark => by
      obtain ⟨c, lower, hc, hdemand⟩ := hwarranted' t ht hmark
      rw [← isBound_of_sameCells hcells] at hc
      refine hhandled c hc t.reason lower ?_
      exact demands_of_sameCells hcells.symm (fun store => (hdemoted store).2) hdemand
    obtain ⟨hedges, hupdates⟩ := hledger.nodup_sent
    obtain ⟨hedges', hupdates'⟩ := hledger'.nodup_sent
    refine ⟨(List.perm_ext_iff_of_nodup hedges hedges').2 fun key => ?_, hedges,
      (List.perm_ext_iff_of_nodup hupdates hupdates').2 fun store => ?_, hupdates⟩
    · exact ⟨hforth.1 key, hback.1 key⟩
    · exact ⟨hforth.2 store, hback.2 store⟩

/-- A location is allocated twice in a row, so its strong update is demoted; what was allocated also
flows into a variable, on which there is a weak update. -/
def flowScript : List (Command Int) :=
  [.makeLocation "x" 0, .storeVariable .internal "base", .allocate .internal ⟨0⟩ ⟨0⟩,
    .allocate .internal ⟨1⟩ ⟨0⟩, .storeVariable .internal "r",
    .includeStore .internal "flow" ⟨2⟩ ⟨3⟩, .update .internal "strong" ⟨2⟩ ⟨0⟩ 5 true,
    .update .internal "weak" ⟨3⟩ ⟨0⟩ 7 false]

/-- The bound cells are asked for one by one. -/
def askingScript : List (Command Int) :=
  [.typeAt ⟨1⟩ ⟨0⟩, .typeAt ⟨2⟩ ⟨0⟩, .typeAt ⟨3⟩ ⟨0⟩, .typeAt ⟨4⟩ ⟨0⟩, .typeAt ⟨5⟩ ⟨0⟩]

/-- Nothing is sent when the second session is closed, and the two updates are sent the other way
round. -/
theorem markedOnly_sends_same_flow :
    ∃ s₀ s₀' s₁ s₁' s s' : Session Level Int,
      Lockstep (Session.start ⟨2, false⟩ ⟨⟩) (Session.start ⟨2, true⟩ ⟨⟩) s₀ s₀' ∧
      (∃ reply, s₀.exec .close = .ok (reply, s₁)) ∧
      (∃ reply, s₀'.exec .close = .ok (reply, s₁')) ∧ QuietRun s₁ s ∧ QuietRun s₁' s' ∧
      (s₀.phase = .opened ∧ s₀'.phase = .opened ∧ s.phase = .linearized ∧
        s'.phase = .linearized) ∧
      (∀ d, (s'.view s'.graph.solve).isBound d = true → s₁'.AskedSince s' d) ∧
      (s'.view s'.graph.solve).Demands ⟨5, 0⟩ (.update 5 0) ⟨3, 0⟩ ∧
      (∃ t, (tellings s'.talk.journal).filter (·.reason.SameMark (.update 5 0)) = [t]) ∧
      (s₁'.sentAlong = [] ∧ s₁'.sentInto = []) ∧
      (s.sentAlong = [(0, 0)] ∧ s.sentInto = [4, 5] ∧ s'.sentInto = [5, 4]) ∧
      s.sentAlong.Perm s'.sentAlong ∧ s.sentInto.Perm s'.sentInto := by
  have hall : (follow (fun s c => c.Known s.graph) (start ⟨2, false⟩ Level.mk) flowScript).any
      fun s₀ => succeeds (s₀.exec .close) fun p =>
        (follow (fun s c => c.grows = false ∧ c.Known s.graph) p.2 [.linearize]).any fun s =>
          List.and [s₀.phase = .opened, s.phase = .linearized, s.sentAlong = [(0, 0)],
            s.sentInto = [4, 5]] := by
    decide +kernel
  have hmarked : (follow (fun s c => c.Known s.graph) (start ⟨2, true⟩ Level.mk) flowScript).any
      fun s₀ => succeeds (s₀.exec .close) fun p =>
        (follow (fun s c => c.grows = false ∧ c.Known s.graph) p.2 [.linearize]).any fun s₂ =>
          (follow (fun s c => c.grows = false ∧ c.Known s.graph) s₂ askingScript).any fun s =>
            List.and [s₀.phase = .opened, s₂.phase = .linearized, s.phase = .linearized,
              p.2.sentAlong = [], p.2.sentInto = [], s.sentInto = [5, 4],
              s.graph.classOf ⟨0⟩ = 0, s.graph.stores.root ⟨1⟩ = 1, s.graph.stores.root ⟨2⟩ = 2,
              s.graph.stores.root ⟨3⟩ = 3, s.graph.stores.root ⟨4⟩ = 4, s.graph.stores.root ⟨5⟩ = 5,
              (s.view s.graph.solve).weakBase? ⟨5, 0⟩ = some 3,
              (s.view s.graph.solve).boundCells =
                {⟨1, 0⟩, ⟨2, 0⟩, ⟨3, 0⟩, ⟨4, 0⟩, ⟨5, 0⟩}] := by
    decide +kernel
  simp only [Option.any_eq_true, succeeds_eq_true, and_decide_cons, List.and_nil,
    and_true] at hall hmarked
  obtain ⟨s₀, hfollow, ⟨reply, s₁⟩, hclose, s, hquiet, hopened, hphase, halong, hinto⟩ := hall
  obtain ⟨s₀', hfollow', ⟨reply', s₁'⟩, hclose', s₂', hlinearize', s', hasking, hopened', hphase₂,
    hphase', halong', hinto₁', hinto', ha, hroot₁, hroot₂, hroot₃, hroot₄, hroot₅, hbase,
    hcells⟩ := hmarked
  have hsame : Lockstep _ _ s₀ s₀' := Lockstep.of_follow .refl hfollow hfollow'
  have hquiet₂ := QuietRun.of_follow hlinearize'
  have hquiet' := hquiet₂.trans (QuietRun.of_follow hasking)
  have h₁' : Disciplined s₁' :=
    ReachableBy.run (reachableBy_of_follow hfollow') (.exec .refl (known_close _) hclose')
  have h₂' : Disciplined s₂' := ReachableBy.run h₁' (QuietRun.disciplinedRun hquiet₂)
  have h' : Disciplined s' := ReachableBy.run h₁' (QuietRun.disciplinedRun hquiet')
  have hasked : ∀ d, (s'.view s'.graph.solve).isBound d = true → s₁'.AskedSince s' d := by
    intro d hd
    have hall (x : StoreId) (hx : .typeAt x ⟨0⟩ ∈ askingScript) :=
      (AskedSince.of_follow h₂' hphase₂ hasking hx).of_quiet hquiet₂
    rw [← (h'.faithful rfl).mem_boundCells, hcells] at hd
    rw [ha] at hall
    simp only [Finset.mem_insert, Finset.mem_singleton] at hd
    rcases hd with rfl | rfl | rfl | rfl | rfl
    · exact hroot₁ ▸ hall ⟨1⟩ (by simp [askingScript])
    · exact hroot₂ ▸ hall ⟨2⟩ (by simp [askingScript])
    · exact hroot₃ ▸ hall ⟨3⟩ (by simp [askingScript])
    · exact hroot₄ ▸ hall ⟨4⟩ (by simp [askingScript])
    · exact hroot₅ ▸ hall ⟨5⟩ (by simp [askingScript])
  have hdemand := View.weakBase?_eq_some_iff_demands.1 hbase
  obtain ⟨hcone, hend⟩ := markedOnly_sends_same hsame hopened hopened' hclose hclose'
    (.of_follow hquiet) hquiet' hphase hphase'
  obtain ⟨hedges, -, hupdates, -⟩ := hend hasked
  have hbound : (s'.view s'.graph.solve).isBound ⟨5, 0⟩ = true := by
    rw [← (h'.faithful rfl).mem_boundCells, hcells]
    decide
  exact ⟨s₀, s₀', s₁, s₁', s, s', hsame, ⟨_, hclose⟩, ⟨_, hclose'⟩, .of_follow hquiet, hquiet',
    ⟨hopened, hopened', hphase, hphase'⟩, hasked, hdemand,
    hcone _ hbound (hasked _ hbound) _ _ _ .start hdemand, ⟨halong', hinto₁'⟩,
    ⟨halong, hinto, hinto'⟩, hedges, hupdates⟩

end Session

end HeapQual
