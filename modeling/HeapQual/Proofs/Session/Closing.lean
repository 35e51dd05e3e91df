import HeapQual.Lattice.Level
import HeapQual.Proofs.Flow
import HeapQual.Proofs.Session.Invariants

/-!
# What closing tells the lattice

The graph demands an inequality for every edge and every location that both ends of it bind
(`Session.edgeDemands`), and for every weak update whose base binds its location
(`Session.updateDemands`).  Closing a session in which all cells are settled tells the lattice
exactly these inequalities, each once (`Session.close_tells_each_demand_once`), between the types
that the cells resolve to when the session is closed.

In a disciplined session closing cannot fail: everything that the graph, the exclusions and the
requests name exists (`Session.exists_close`).
-/

namespace HeapQual

namespace Session

variable {σ τ : Type} {s s' : Session σ τ} {sol : Solution}

/-! ## Closing does not fail -/

/-- A check of several things does not fail if no single one does. -/
lemma exists_foldlM {α : Type} {g : Graph τ} {f : Tally σ τ → α → Except Fault (Tally σ τ)}
    {items : List α} (hf : ∀ item ∈ items, ∀ count s, s.graph = g →
      ∃ count' s', f (count, s) item = .ok (count', s') ∧ s'.graph = g)
    (count : Nat) (hs : s.graph = g) :
    ∃ count' s', items.foldlM f (count, s) = .ok (count', s') := by
  induction items generalizing count s with
  | nil => exact ⟨count, s, rfl⟩
  | cons item items ih =>
    obtain ⟨count₁, s₁, h₁, hs₁⟩ := hf item (List.mem_cons_self ..) count s hs
    obtain ⟨count₂, s₂, h₂⟩ := ih (fun i hi => hf i (List.mem_cons_of_mem _ hi)) count₁ hs₁
    exact ⟨count₂, s₂, bind_eq_ok_iff.2 ⟨_, h₁, h₂⟩⟩

lemma exists_asks (sol : Solution) {e : EffectId} (he : e.index < s.graph.effects.size)
    (location : Nat) (kind : Kind) :
    ∃ answer s', s.asks sol location kind e = .ok (answer, s') := by
  unfold asks Effects.find
  rw [if_pos he]
  simp only [bind, Except.bind]
  split
  · split
    · exact ⟨_, _, rfl⟩
    · exact ⟨_, _, rfl⟩
  · exact ⟨_, _, rfl⟩

lemma exists_checkLocation (sol : Solution) {e : EffectId} (he : e.index < s.graph.effects.size)
    (position : Position) (kind : Kind) (count location : Nat) :
    ∃ count' s', checkLocation sol position kind e (count, s) location = .ok (count', s') ∧
      s'.graph = s.graph := by
  obtain ⟨answer, s₁, h₁⟩ := exists_asks sol he location kind
  obtain ⟨questions, rfl, -⟩ := asks_eq_ok h₁
  unfold checkLocation
  simp only [h₁, bind, Except.bind]
  split
  · exact ⟨_, _, rfl, rfl⟩
  · exact ⟨_, _, rfl, rfl⟩

lemma exists_checkShared (sol : Solution) {e : EffectId} (he : e.index < s.graph.effects.size)
    (position : Position) (accesses : List Access) (last : Option Nat) (count : Nat) :
    ∃ count' s', checkShared sol position e accesses last (count, s) = .ok (count', s') := by
  induction accesses generalizing last count s with
  | nil => exact ⟨_, _, rfl⟩
  | cons access accesses ih =>
    unfold checkShared
    split
    · exact ih he last count
    · obtain ⟨answer, s₁, h₁⟩ := exists_asks sol he access.location access.kind
      obtain ⟨questions, rfl, -⟩ := asks_eq_ok h₁
      simp only [h₁, bind, Except.bind]
      split
      · exact ih (s := ({ s with questions } : Session σ τ).report _ _) he _ _
      · exact ih (s := { s with questions }) he _ _

/-- The check of an exclusion does not fail if everything that it names exists. -/
lemma exists_checkExclusion (sol : Solution) {x : Exclusion} (hx : x.Known s.graph) (count : Nat) :
    ∃ count' s', checkExclusion sol (count, s) x = .ok (count', s') := by
  obtain ⟨position, restriction⟩ := x
  obtain ⟨hlocation, heffect⟩ := hx
  -- A check fails only at an effect that does not exist.
  have hmany : ∀ (e : EffectId) (kind : Kind) (locations : List Nat),
      e.index < s.graph.effects.size →
      ∃ count' s', locations.foldlM (checkLocation sol position kind e) (count, s) =
        .ok (count', s') := by
    intro e kind locations he
    refine exists_foldlM (g := s.graph) (fun location _ count₁ s₁ hs₁ => ?_) count rfl
    obtain ⟨count₂, s₂, h₂, hs₂⟩ := exists_checkLocation (s := s₁) sol (hs₁.symm ▸ he)
      position kind count₁ location
    exact ⟨count₂, s₂, h₂, hs₂.trans hs₁⟩
  cases restriction with
  | location a kind e =>
    have ha := hlocation a (List.mem_singleton_self a)
    have he := heffect e (List.mem_singleton_self e)
    obtain ⟨count₁, s₁, h₁, -⟩ := exists_checkLocation sol he position kind count
      (s.graph.locations.root a)
    refine ⟨count₁, s₁, bind_eq_ok_iff.2 ⟨_, if_pos ha, h₁⟩⟩
  | disjoint e₁ e₂ =>
    have he₁ := heffect e₁ (List.mem_cons_self ..)
    have he₂ := heffect e₂ (List.mem_cons_of_mem _ (List.mem_singleton_self e₂))
    obtain ⟨count₁, s₁, h₁⟩ := exists_checkShared sol he₂ position
      (sol.membersOf (s.graph.effects.root e₁)).toList none count
    exact ⟨count₁, s₁, bind_eq_ok_iff.2 ⟨_, if_pos he₁, h₁⟩⟩
  | everywhere kind e => exact hmany e kind _ (heffect e (List.mem_singleton_self e))
  | implies kind₁ e₁ kind₂ e₂ =>
    have he₁ := heffect e₁ (List.mem_cons_self ..)
    have he₂ := heffect e₂ (List.mem_cons_of_mem _ (List.mem_singleton_self e₂))
    obtain ⟨count₁, s₁, h₁⟩ := hmany e₂ kind₂
      (candidates (sol.membersOf (s.graph.effects.root e₁)) kind₁) he₂
    exact ⟨count₁, s₁, bind_eq_ok_iff.2 ⟨_, if_pos he₁, h₁⟩⟩

lemma exists_requestedSeeds (sol : Solution) {r : Request} (hr : r.Known s.graph) :
    ∃ seeds, s.requestedSeeds sol r = .ok seeds := by
  have hstore : s.graph.stores.find r.store = .ok (s.graph.stores.root r.store) :=
    if_pos hr.store_lt
  have hlocation : s.graph.locations.find r.location = .ok (s.graph.locations.root r.location) :=
    if_pos hr.location_lt
  have hcell : s.findCell r.store r.location =
      .ok ⟨s.graph.stores.root r.store, s.graph.locations.root r.location⟩ :=
    bind_eq_ok_iff.2 ⟨_, hstore, bind_eq_ok_iff.2 ⟨_, hlocation, rfl⟩⟩
  exact ⟨_, bind_eq_ok_iff.2 ⟨_, hcell, rfl⟩⟩

variable [QualifierLattice σ τ]

lemma exists_settleDue (sol : Solution) (hrequests : ∀ r ∈ s.requests, r.Known s.graph) :
    ∃ s', s.settleDue sol = .ok s' := by
  obtain ⟨requested, hrequested⟩ := exists_mapM_eq_ok_iff.2 fun r hr =>
    exists_requestedSeeds sol (hrequests r hr)
  exact ⟨_, bind_eq_ok_iff.2 ⟨requested, hrequested, rfl⟩⟩

omit [QualifierLattice σ τ] in
/-- The session after it was solved for the first time. -/
def firstSolved (s : Session σ τ) : Session σ τ :=
  { s.noteSolution s.graph.solve with
    solution := some s.graph.solve
    flow := { (s.noteSolution s.graph.solve).flow with orders := s.flow.orders.tail } }

/-- The first solution: there are no types of cells yet that could have to be merged. -/
lemma Fresh.solved_eq (hs : s.Fresh) (hopened : s.phase = .opened)
    (hvalidate : s.graph.validate = .ok ()) : s.solved = .ok (s.graph.solve, s.firstSolved) := by
  have hrekey : (s.noteSolution s.graph.solve).flow.rekey (s.noteSolution s.graph.solve).graph =
      { (s.noteSolution s.graph.solve).flow with orders := s.flow.orders.tail } :=
    Flow.rekey_of_types_eq_nil (f := (s.noteSolution s.graph.solve).flow) hs.types_eq
  have hphase : (s.noteSolution s.graph.solve).phase = .opened := hopened
  unfold solved
  rw [hs.solution_eq]
  refine bind_eq_ok_iff.2 ⟨(), hvalidate, ?_⟩
  dsimp only
  rw [if_pos hphase, hrekey]
  rfl

lemma Fresh.eq_of_solved (hs : s.Fresh) (hopened : s.phase = .opened)
    (h : s.solved = .ok (sol, s')) : sol = s.graph.solve ∧ s' = s.firstSolved := by
  have hvalidate : s.graph.validate = .ok () := by
    unfold solved at h
    rw [hs.solution_eq] at h
    obtain ⟨_, hvalidate, -⟩ := bind_eq_ok_iff.1 h
    exact hvalidate
  exact Prod.mk.inj (Except.ok.inj (h.symm.trans (hs.solved_eq hopened hvalidate)))

/-- What closing does if none of its stages fails. -/
lemma close_eq_of_stages {s₁ s₂ s₃ : Session σ τ} {failures : Nat} (hopened : s.phase = .opened)
    (hsolved : s.solved = .ok (sol, s₁))
    (hchecked : s₁.exclusions.foldlM (checkExclusion sol)
      (({ s₁ with exclusions := [] } : Session σ τ).reportViolations sol) = .ok (failures, s₂))
    (hsettled : ({ s₂ with phase := .closed } : Session σ τ).settleDue sol = .ok s₃) :
    s.close = .ok (.ok failures, s₃.note (.exclusionsChecked s₁.exclusions.length failures)) := by
  unfold close
  rw [hopened]
  exact bind_eq_ok_iff.2 ⟨_, hsolved, bind_eq_ok_iff.2 ⟨_, hchecked,
    bind_eq_ok_iff.2 ⟨_, hsettled, rfl⟩⟩⟩

theorem exists_close (h : Disciplined s) (hopened : s.phase = .opened) :
    ∃ failures s', s.close = .ok (.ok failures, s') := by
  have hawaits := h.awaits hopened
  have hsolved := (ReachableBy.fresh h hopened).solved_eq hopened h.layered.validate_eq_ok
  generalize hs₁ : s.firstSolved = s₁ at hsolved
  have hgraph₁ : s₁.graph = s.graph := by rw [← hs₁]; rfl
  have hexclusions₁ : s₁.exclusions = s.exclusions := by rw [← hs₁]; rfl
  have hrequests₁ : s₁.requests = s.requests := by rw [← hs₁]; rfl
  -- The exclusions can be checked.
  have hreport := chats_reportViolations ({ s₁ with exclusions := [] } : Session σ τ) s.graph.solve
  generalize htally : ({ s₁ with exclusions := [] } : Session σ τ).reportViolations s.graph.solve =
    tally at hreport
  obtain ⟨count, s₂⟩ := tally
  have hgraph₂ : s₂.graph = s.graph := hreport.graph_eq.trans hgraph₁
  obtain ⟨failures, s₃, hchecked⟩ : ∃ failures s₃,
      s₁.exclusions.foldlM (checkExclusion s.graph.solve) (count, s₂) = .ok (failures, s₃) := by
    refine exists_foldlM (g := s.graph) (fun x hx count s₄ hs₄ => ?_) count hgraph₂
    have hknown := hawaits.exclusion x (hexclusions₁ ▸ hx)
    obtain ⟨count', s₅, hs₅⟩ := exists_checkExclusion s.graph.solve (hs₄.symm ▸ hknown) count
    exact ⟨count', s₅, hs₅, (consults_checkExclusion hs₅).chats.graph_eq.trans hs₄⟩
  -- The requested cells exist.
  have hchats := hreport.trans (consults_checkExclusions hchecked).chats
  have hgraph₃ : s₃.graph = s.graph := hchats.graph_eq.trans hgraph₁
  have hrequests₃ : s₃.requests = s.requests := by
    obtain ⟨talk, questions, reported, rfl, -⟩ := hchats
    exact hrequests₁
  obtain ⟨s₄, hsettled⟩ := exists_settleDue (s := { s₃ with phase := .closed })
    s.graph.solve fun r hr => hgraph₃.symm ▸ hawaits.request r (hrequests₃ ▸ hr)
  exact ⟨failures, _, close_eq_of_stages hopened hsolved (htally ▸ hchecked) hsettled⟩

/-! ## Closing settles everything -/

/-- A disciplined session is read against a faithful view. -/
lemma Disciplined.faithful (h : Disciplined s) (hgraph : s'.graph = s.graph) :
    (s'.view s'.graph.solve).Faithful := by
  have hsound : s'.graph.Sound := hgraph.symm ▸ (ReachableBy.coherent h).sound
  have hlayered : s'.graph.Layered := hgraph.symm ▸ h.layered
  exact ⟨hsound, hlayered, rfl⟩

omit [QualifierLattice σ τ] in
/-- If all locations count, every bound cell is settled without being asked for. -/
lemma mem_standingSeeds {demoted : List Nat} (hgraph : s.graph.Sound) (hnamed : s.graph.Named)
    (hall : s.config.markedOnly = false) {c : Cell}
    (hc : View.isBound ⟨s.graph, s.graph.solve, demoted⟩ c = true) :
    c ∈ s.standingSeeds s.graph.solve := by
  have hbinds : s.graph.solve.binds c.store c.location = true := hc
  have hstore : c.store < s.graph.solve.domains.size := by
    rw [hnamed.size_domains hgraph]
    exact (hgraph.stores.mem_roots.1 (hnamed.mem_roots_of_binds hgraph hbinds)).1
  refine List.mem_flatMap.2 ⟨c.store, List.mem_range.2 hstore, List.mem_map.2 ⟨c.location, ?_, rfl⟩⟩
  exact List.mem_filter.2 ⟨of_decide_eq_true hbinds, by simp [hall]⟩

/-- Before any cell is settled, closing a fresh session only solves, reports and checks: the lattice
is told nothing, and still nothing is known about cells. -/
lemma Fresh.close_eq {failures : Nat} (hs : s.Fresh) (hopened : s.phase = .opened)
    (hvalidate : s.graph.validate = .ok ()) (hclose : s.close = .ok (.ok failures, s')) :
    ∃ talk questions reported orders s₁ notice, s.talk.Tells [] talk ∧
      ({ s with
        phase := .closed, solution := some s.graph.solve, questions, exclusions := [], reported,
        flow := { s.flow with orders, talk } } : Session σ τ).settleDue s.graph.solve = .ok s₁ ∧
      s' = s₁.note notice := by
  obtain ⟨sol, s₁, s₂, s₃, count, hsolved, hchecked, hsettled, -, rfl⟩ := close_eq_ok hclose hopened
  rw [hs.solved_eq hopened hvalidate] at hsolved
  cases hsolved
  have hchats := (chats_reportViolations _ _).trans (consults_checkExclusions hchecked).chats
  obtain ⟨talk₁, heq₁, hspeaks₁⟩ := mentions_noteSolution s s.graph.solve
  obtain ⟨talk₂, questions₂, reported₂, rfl, hspeaks₂⟩ := hchats
  unfold firstSolved at hspeaks₂ hsettled
  rw [heq₁] at hspeaks₂ hsettled
  have htells := (hspeaks₁.toSays.trans hspeaks₂.toSays).tells
  exact ⟨talk₂, questions₂, reported₂, _, s₃, _, htells, hsettled, rfl⟩

/-- What closing a session that settles all cells comes to. -/
lemma sends_close {failures : Nat} (h : Disciplined s) (hopened : s.phase = .opened)
    (hall : s.config.markedOnly = false) (hclose : s.close = .ok (.ok failures, s')) :
    ∃ new, s.talk.Tells new s'.talk ∧ s'.graph = s.graph ∧ s'.linearities.demoted = [] ∧
      s'.flow.sentEdges = new.filterMap (·.reason.edge?) ∧ s'.flow.sentEdges.Nodup ∧
      s'.flow.sentUpdates = new.filterMap (·.reason.update?) ∧ s'.flow.sentUpdates.Nodup ∧
      (∀ t ∈ new, Flow.Justified (s'.view s'.graph.solve) s'.flow t) ∧
      ∀ c, (s'.view s'.graph.solve).isBound c = true →
        Flow.Handled (s'.view s'.graph.solve) s'.flow c := by
  have hfresh := ReachableBy.fresh h hopened
  have hcoherent := ReachableBy.coherent h
  have hdemoted : s.linearities.demoted = [] := by
    rw [hcoherent.linearities_eq (by simp [hopened])]
    rfl
  -- Before the cells are settled nothing was told, marked or settled, so all that is marked in the
  -- end was told by this command.
  obtain ⟨talk, questions, reported, orders, s₁, notice, htells, hsettle, rfl⟩ :=
    hfresh.close_eq hopened h.layered.validate_eq_ok hclose
  obtain ⟨requested, -, hsettle⟩ := bind_eq_ok_iff.1 hsettle
  cases hsettle
  have hv : View.Faithful ⟨s.graph, s.graph.solve, s.linearities.demoted⟩ := h.faithful rfl
  have hseeds : ∀ c, View.isBound ⟨s.graph, s.graph.solve, s.linearities.demoted⟩ c = true →
      c ∈ s.standingSeeds s.graph.solve ++ requested.flatten := fun c hc =>
    List.mem_append_left _ (mem_standingSeeds hcoherent.sound h.layered.named hall hc)
  obtain ⟨new, hsettles, hsettled⟩ := Flow.settles_settle hv { s.flow with orders, talk }
    (s.standingSeeds s.graph.solve ++ requested.flatten)
  have hsends := hsettles.sends
  refine ⟨new, ?_, rfl, hdemoted, ?_, hsends.nodup_edges ?_, ?_, hsends.nodup_updates ?_,
    fun t ht => ?_, fun c hc => ?_⟩
  · have htold := htells.trans hsends.tells
    rw [List.append_nil] at htold
    exact (htold.trans (Dialogue.tells_note _ _)).trans (Dialogue.tells_note _ notice)
  · exact hsends.sentEdges_eq.trans (by simp [hfresh.sentEdges_eq])
  · simp [hfresh.sentEdges_eq]
  · exact hsends.sentUpdates_eq.trans (by simp [hfresh.sentUpdates_eq])
  · simp [hfresh.sentUpdates_eq]
  · refine Flow.Justified.mono ?_ (hsends.justified t ht)
    exact fun _ _ hd => hd
  · have hnew := (hsettles.finished c (hsettled c (hseeds c hc) hc)).resolve_left
      (by simp [hfresh.settled_eq])
    exact hnew.1

/-! ## What the graph demands -/

/-- The type that a cell of the session resolves to, if the cell is bound. -/
def typeOf (s : Session σ τ) (c : Cell) : Option τ :=
  (s.flow.read (s.view s.graph.solve) c).1

/-- For each edge, and each location that both its ends bind: the type on the left is at most the
type on the right. -/
def edgeDemands (s : Session σ τ) : List (Telling (Option τ)) :=
  s.graph.stores.numberedEdges.flatMap fun (edge, number) =>
    let left := s.graph.stores.root edge.left
    let right := s.graph.stores.root edge.right
    ((s.graph.solve.domainOf left).toList.filter fun a => s.graph.solve.binds right a).map fun a =>
      ⟨.edge number a, s.typeOf ⟨left, a⟩, s.typeOf ⟨right, a⟩⟩

/-- What an update demands if it is weak and its base binds its location: the old type is at most
the new one. -/
def updateDemand? (s : Session σ τ) (store : Nat) : Option (Telling (Option τ)) :=
  match s.graph.stores.nodeAt store with
  | .update base a type false _ _ =>
    let cell : Cell := ⟨s.graph.stores.root base, s.graph.classOf a⟩
    if s.graph.solve.binds cell.store cell.location then
      some ⟨.update store cell.location, s.typeOf cell, some type⟩
    else none
  | _ => none

/-- What the weak updates demand. -/
def updateDemands (s : Session σ τ) : List (Telling (Option τ)) :=
  (List.range s.graph.stores.size).filterMap s.updateDemand?

lemma mem_edgeDemands {d : Telling (Option τ)} :
    d ∈ s.edgeDemands ↔ ∃ number a edge, s.graph.stores.edges[number]? = some edge ∧
      s.graph.solve.binds (s.graph.stores.root edge.left) a = true ∧
      s.graph.solve.binds (s.graph.stores.root edge.right) a = true ∧
      d = ⟨.edge number a, s.typeOf ⟨s.graph.stores.root edge.left, a⟩,
        s.typeOf ⟨s.graph.stores.root edge.right, a⟩⟩ := by
  simp only [edgeDemands, List.mem_flatMap, List.mem_map, List.mem_filter, Prod.exists,
    Stores.mem_numberedEdges]
  constructor
  · rintro ⟨edge, number, hedge, a, ⟨hleft, hright⟩, rfl⟩
    exact ⟨number, a, edge, hedge, decide_eq_true hleft, hright, rfl⟩
  · rintro ⟨number, a, edge, hedge, hleft, hright, rfl⟩
    exact ⟨edge, number, hedge, a, ⟨of_decide_eq_true hleft, hright⟩, rfl⟩

lemma updateDemand?_eq_some_iff {store : Nat} {d : Telling (Option τ)} :
    s.updateDemand? store = some d ↔ ∃ base a type position message,
      s.graph.stores.nodeAt store = .update base a type false position message ∧
      s.graph.solve.binds (s.graph.stores.root base) (s.graph.classOf a) = true ∧
      d = ⟨.update store (s.graph.classOf a),
        s.typeOf ⟨s.graph.stores.root base, s.graph.classOf a⟩, some type⟩ := by
  unfold updateDemand?
  constructor
  · intro hd
    split at hd
    · rename_i base a type position message hnode
      dsimp only at hd
      split at hd
      · rename_i hbinds
        cases hd
        exact ⟨base, a, type, position, message, hnode, hbinds, rfl⟩
      · cases hd
    · cases hd
  · rintro ⟨base, a, type, position, message, hnode, hbinds, rfl⟩
    simp only [hnode]
    rw [if_pos hbinds]

lemma mem_updateDemands {d : Telling (Option τ)} :
    d ∈ s.updateDemands ↔ ∃ store, s.updateDemand? store = some d := by
  simp only [updateDemands, List.mem_filterMap, List.mem_range]
  refine ⟨fun ⟨store, _, hd⟩ => ⟨store, hd⟩, fun ⟨store, hd⟩ => ⟨store, ?_, hd⟩⟩
  obtain ⟨base, a, type, position, message, hnode, -⟩ := updateDemand?_eq_some_iff.1 hd
  exact Stores.lt_size_of_not_isVariable (by rw [hnode]; rfl)

/-- No edge is demanded twice at one location. -/
lemma nodup_edgeDemands (s : Session σ τ) : s.edgeDemands.Nodup := by
  refine List.nodup_flatMap.2 ⟨fun e _ => ?_, ?_⟩
  · refine List.Nodup.map_on (fun a _ b _ hab => ?_) ((Ascending.nodup _).filter _)
    simpa using congrArg Telling.reason hab
  · have hnumbers : (s.graph.stores.numberedEdges.map Prod.snd).Nodup := by
      rw [Stores.numberedEdges, List.zipIdx_map_snd]
      exact List.nodup_range'
    refine (List.pairwise_map.1 hnumbers).imp fun {e e'} hne => ?_
    refine List.disjoint_left.2 fun d hd hd' => hne ?_
    obtain ⟨a, -, rfl⟩ := List.mem_map.1 hd
    obtain ⟨b, -, hb⟩ := List.mem_map.1 hd'
    have hreason := congrArg Telling.reason hb
    simp only [Reason.edge.injEq] at hreason
    exact hreason.1.symm

/-- No update is demanded twice. -/
lemma nodup_updateDemands (s : Session σ τ) : s.updateDemands.Nodup := by
  refine List.Nodup.filterMap (fun store store' d hd hd' => ?_) List.nodup_range
  obtain ⟨base, a, type, position, message, -, -, rfl⟩ := updateDemand?_eq_some_iff.1 hd
  obtain ⟨base', a', type', position', message', -, -, heq⟩ := updateDemand?_eq_some_iff.1 hd'
  have hreason := congrArg Telling.reason heq
  simp only [Reason.update.injEq] at hreason
  exact hreason.1

/-- What is demanded is demanded once. -/
lemma nodup_demands (s : Session σ τ) : (s.edgeDemands ++ s.updateDemands).Nodup := by
  refine List.Nodup.append s.nodup_edgeDemands s.nodup_updateDemands
    (List.disjoint_left.2 fun d hd hd' => ?_)
  obtain ⟨number, a, edge, -, -, -, rfl⟩ := mem_edgeDemands.1 hd
  obtain ⟨store, hstore⟩ := mem_updateDemands.1 hd'
  obtain ⟨base, b, type, position, message, -, -, heq⟩ := updateDemand?_eq_some_iff.1 hstore
  exact absurd (congrArg Telling.reason heq) (by simp)

/-! ## What closing tells -/

/-- The own cell of an update is bound, and has the type written. -/
lemma typeOf_own (hv : (s.view s.graph.solve).Faithful) {store : Nat} {base : StoreId}
    {a : LocationId} {type : τ} {strong : Bool} {position : Position} {message : String}
    (hnode : s.graph.stores.nodeAt store = .update base a type strong position message) :
    (s.view s.graph.solve).isBound ⟨store, s.graph.classOf a⟩ = true ∧
      s.typeOf ⟨store, s.graph.classOf a⟩ = some type := by
  refine ⟨hv.isBound_own (i := store) (a := a) ?_, ?_⟩
  · rw [show (s.view s.graph.solve).graph = s.graph from rfl, hnode]
    rfl
  · rw [typeOf, Flow.read, hv.binding_own (c := ⟨store, s.graph.classOf a⟩) hnode rfl]

/-- If no update was demoted, the demands of edges and weak updates are all demands of the graph. -/
lemma mem_demands_iff (hv : (s.view s.graph.solve).Faithful) (hdemoted : s.linearities.demoted = [])
    {d : Telling (Option τ)} :
    d ∈ s.edgeDemands ++ s.updateDemands ↔
      ∃ c lower reason, (s.view s.graph.solve).isBound c = true ∧
        (s.view s.graph.solve).Demands c reason lower ∧
        d = ⟨reason, s.typeOf lower, s.typeOf c⟩ := by
  rw [List.mem_append, mem_edgeDemands, mem_updateDemands]
  constructor
  · rintro (⟨number, a, edge, hedge, hleft, hright, rfl⟩ | ⟨store, hstore⟩)
    · exact ⟨⟨s.graph.stores.root edge.right, a⟩, _, _, hright, .edge hedge rfl hleft, rfl⟩
    · obtain ⟨base, a, type, position, message, hnode, hbase, rfl⟩ :=
        updateDemand?_eq_some_iff.1 hstore
      obtain ⟨hbound, htype⟩ := typeOf_own hv hnode
      exact ⟨⟨store, s.graph.classOf a⟩, _, _, hbound,
        .update hnode rfl (fun h => absurd h (by simp)) hbase, by rw [htype]; rfl⟩
  · rintro ⟨⟨store, location⟩, lower, reason, hbound, hdemand, rfl⟩
    cases hdemand with
    | edge hedge hright hleft =>
      cases hright
      exact Or.inl ⟨_, _, _, hedge, hleft, hbound, rfl⟩
    | @update base a type strong position message hnode hlocation hstrong hbase =>
      refine Or.inr ⟨store, updateDemand?_eq_some_iff.2 ?_⟩
      cases strong with
      | true =>
        -- Nothing is demoted yet, so a strong update demands nothing.
        have hmem : store ∈ s.linearities.demoted := hstrong rfl
        rw [hdemoted] at hmem
        exact absurd hmem List.not_mem_nil
      | false =>
        cases hlocation
        have htype := (typeOf_own hv hnode).2
        exact ⟨base, a, type, position, message, hnode, hbase, by rw [← htype]; rfl⟩

/-- Closing a disciplined session in which all cells count tells the lattice exactly what the graph
demands: for every edge and every location that both its ends bind, and for every weak update whose
base binds its location, one inequality between the types that the cells resolve to.  Whatever the
shape of the graph is, nothing else is told, and nothing is told twice. -/
theorem close_tells_each_demand_once (h : Disciplined s) (hopened : s.phase = .opened)
    (hall : s.config.markedOnly = false) :
    ∃ failures s' new, s.close = .ok (.ok failures, s') ∧ s'.graph = s.graph ∧
      s.talk.Tells new s'.talk ∧
      (new.map Telling.present).Perm (s'.edgeDemands ++ s'.updateDemands) := by
  obtain ⟨failures, s', hclose⟩ := exists_close h hopened
  obtain ⟨new, htells, hgraph, hdemoted, hedges, hnodupe, hupdates, hnodupu, hjustified,
    hhandled⟩ := sends_close h hopened hall hclose
  have hv := h.faithful hgraph
  refine ⟨failures, s', new, hclose, hgraph, htells, ?_⟩
  have hreasons : ((new.map Telling.present).map Telling.reason).Nodup := by
    rw [List.map_map]
    exact Flow.nodup_reasons hjustified (hedges ▸ hnodupe) (hupdates ▸ hnodupu)
  refine (List.perm_ext_iff_of_nodup hreasons.of_map s'.nodup_demands).2 fun d => ?_
  rw [mem_demands_iff hv hdemoted, List.mem_map]
  constructor
  · rintro ⟨t, ht, rfl⟩
    obtain ⟨c, lower, hbound, hdemand, hl, hr⟩ := hjustified t ht
    refine ⟨c, lower, t.reason, hbound, hdemand, ?_⟩
    rw [Telling.present, typeOf, typeOf, Flow.read_of_held hl, Flow.read_of_held hr]
  · -- Every bound cell is settled, so what is demanded of it was sent.
    rintro ⟨c, lower, reason, hbound, hdemand, rfl⟩
    obtain ⟨t, ht, hmark⟩ :=
      (hhandled c hbound _ _ hdemand).exists_telling hdemand.markable hedges hupdates
    obtain ⟨c', lower', -, hdemand', hl', hr'⟩ := hjustified t ht
    obtain ⟨rfl, hreason, rfl⟩ := hdemand'.unique hdemand hmark
    refine ⟨t, ht, ?_⟩
    rw [Telling.present, typeOf, typeOf, Flow.read_of_held hl', Flow.read_of_held hr', hreason]

/-- A graph with a cycle of variables, one of which was merged with another, and a weak update of a
location that was merged with the one allocated. -/
def ringScript : List (Command Int) :=
  [.makeLocation "x" 0, .makeLocation "y" 0, .mergeLocations .internal ⟨0⟩ ⟨1⟩,
    .storeVariable .internal "base", .allocate .internal ⟨0⟩ ⟨0⟩, .storeVariable .internal "p",
    .storeVariable .internal "q", .storeVariable .internal "r",
    .mergeStores .internal "merge" ⟨3⟩ ⟨4⟩, .update .internal "update" ⟨2⟩ ⟨1⟩ 7 false,
    .includeStore .internal "in" ⟨1⟩ ⟨2⟩, .includeStore .internal "on" ⟨5⟩ ⟨3⟩,
    .includeStore .internal "back" ⟨4⟩ ⟨2⟩]

theorem close_tells_each_demand_once_ring :
    ∃ (s s' : Session Level Int) (failures : Nat) (new : List (Telling Int)),
      Disciplined s ∧ s.phase = .opened ∧ s.config.markedOnly = false ∧
      s.close = .ok (.ok failures, s') ∧ s.talk.Tells new s'.talk ∧
      (new.map Telling.present).Perm (s'.edgeDemands ++ s'.updateDemands) ∧
      .edge 2 0 ∈ new.map Telling.reason ∧ .update 5 0 ∈ new.map Telling.reason := by
  have hrun : (follow (fun s c => c.Known s.graph) (start ⟨2, false⟩ Level.mk) ringScript).any
      fun s => List.and
        [s.phase = .opened, s.config.markedOnly = false,
          s.graph.stores.nodes.toList = [.var "base", .allocate ⟨0⟩ ⟨0⟩ 0, .var "p", .var "q",
            .var "r", .update ⟨2⟩ ⟨1⟩ 7 false .internal "update"],
          s.graph.stores.edges.toList = [⟨⟨1⟩, ⟨2⟩, .internal, "in"⟩,
            ⟨⟨5⟩, ⟨3⟩, .internal, "on"⟩, ⟨⟨4⟩, ⟨2⟩, .internal, "back"⟩],
          s.graph.classOf ⟨0⟩ = 0, s.graph.classOf ⟨1⟩ = 0, s.graph.stores.root ⟨1⟩ = 1,
          s.graph.stores.root ⟨2⟩ = 2, s.graph.stores.root ⟨3⟩ = 3, s.graph.stores.root ⟨4⟩ = 3,
          s.graph.stores.root ⟨5⟩ = 5] := by
    decide +kernel
  simp only [Option.any_eq_true, and_decide_cons, List.and_nil, and_true] at hrun
  obtain ⟨s, hs, hopened, hall, hnodes, hedges, hx, hy, h₁, h₂, h₃, h₄, h₅⟩ := hrun
  have hdisciplined : Disciplined s := reachableBy_of_follow hs
  obtain ⟨failures, s', new, hclose, hgraph, htells, hperm⟩ :=
    close_tells_each_demand_once hdisciplined hopened hall
  rw [← hgraph] at hnodes hx hy h₁ h₂ h₃ h₄ h₅ hedges
  have hv := hdisciplined.faithful hgraph
  have hnode : ∀ i, s'.graph.stores.nodeAt i = _ := fun i => by
    rw [Stores.nodeAt, ← Array.getElem?_toList, hnodes]
  have hedge : ∀ i : Nat, s'.graph.stores.edges[i]? = _ := fun i => by
    rw [← Array.getElem?_toList, hedges]
  have hroot : ∀ x, (s'.view s'.graph.solve).storeRoot x = s'.graph.stores.root x := fun _ => rfl
  have hview : (s'.view s'.graph.solve).graph = s'.graph := rfl
  -- The location goes from the allocation to `p`, and from the update to `q`, which is also `r`.
  have hbound₁ := hv.isBound_own (i := 1) (a := ⟨0⟩) (by rw [hview, hnode]; rfl)
  have hbound₅ := hv.isBound_own (i := 5) (a := ⟨1⟩) (by rw [hview, hnode]; rfl)
  rw [hview, hx] at hbound₁
  rw [hview, hy] at hbound₅
  have hbound₂ := hv.isBound_of_edge (a := 0) (hedge 0) (by rw [hroot, h₂, hview, hnode]; rfl)
    (by rwa [hroot, h₁])
  have hbound₃ := hv.isBound_of_edge (a := 0) (hedge 1) (by rw [hroot, h₃, hview, hnode]; rfl)
    (by rwa [hroot, h₅])
  rw [hroot, h₂] at hbound₂
  rw [hroot, h₃] at hbound₃
  have htold : ∀ reason l r, ⟨reason, l, r⟩ ∈ s'.edgeDemands ++ s'.updateDemands →
      reason ∈ new.map Telling.reason := by
    intro reason l r hd
    obtain ⟨t, ht, heq⟩ := List.mem_map.1 (hperm.mem_iff.2 hd)
    exact List.mem_map.2 ⟨t, ht, congrArg Telling.reason heq⟩
  refine ⟨s, s', failures, new, hdisciplined, hopened, hall, hclose, htells, hperm, ?_, ?_⟩
  · refine htold _ _ _ (List.mem_append_left _ (mem_edgeDemands.2
      ⟨2, 0, _, hedge 2, ?_, ?_, rfl⟩))
    · rw [h₄]
      exact hbound₃
    · rw [h₂]
      exact hbound₂
  · rw [show Reason.update 5 0 = .update 5 (s'.graph.classOf ⟨1⟩) by rw [hy]]
    refine htold _ _ _ (List.mem_append_right _ (mem_updateDemands.2
      ⟨5, updateDemand?_eq_some_iff.2 ⟨_, _, _, _, _, hnode 5, ?_, rfl⟩⟩))
    rw [h₂, hy]
    exact hbound₂

end Session

end HeapQual
