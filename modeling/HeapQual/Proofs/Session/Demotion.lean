import HeapQual.Proofs.Session.Cone
import HeapQual.Proofs.Session.Linearities
import HeapQual.Proofs.Store.LeastDomains

/-!
# Which strong updates are demoted

A strong update whose location is not linear at its base must keep the old contents after all.
Linearizing finds this out, and demotes such an update: it sends the old contents to the lattice,
once, and settles the cell that holds them.  The old contents of all other strong updates have never
been sent by then (`Session.linearize_demotes_exactly`), because before the linearities are known
nothing is demanded of a strong update (`Session.Disciplined.update?_ne_of_strong`).

Whether an update is demoted is decided by the allocations that reach its base in the present graph.
It does not matter which cells were settled when the session was closed, nor what the graph was
then.
-/

namespace HeapQual

namespace Graph

variable {τ : Type} {g : Graph τ} {a i : Nat} {l l' : Linearity}

/-- The store is a strong update of a location that is not linear at its base. -/
def Demotes (g : Graph τ) (store : Nat) : Prop :=
  ∃ base b type position message,
    g.stores.nodeAt store = .update base b type true position message ∧
      g.HasLinearity (g.classOf b) (g.stores.root base) .omega

lemma HasLinearity.unique (h : g.HasLinearity a i l) (h' : g.HasLinearity a i l') : l = l' := by
  cases l' with
  | zero => exact h.zero_iff.2 (h'.zero_iff.1 rfl)
  | one => exact h.one_iff.2 (h'.one_iff.1 rfl)
  | omega => exact h.omega_iff.2 (h'.omega_iff.1 rfl)

end Graph

namespace Session

variable {σ τ : Type} {command : Command τ} {P : Prop} {s s' : Session σ τ} [QualifierLattice σ τ]

omit [QualifierLattice σ τ] in
/-- The updates that are found to need it are demoted. -/
lemma mem_demoted_iff {g : Graph τ} (hg : g.Sound) (hn : g.Named) {store : Nat} :
    store ∈ (tabulate (g.solveSupplies g.solve).values (updateSites g)).demoted ↔
      g.Demotes store := by
  have hlinearity : ∀ (base : StoreId) (b : LocationId), b.index < g.locations.size →
      g.HasLinearity (g.classOf b) (g.stores.root base)
        (g.supply (g.stores.root base) (g.classOf b)).linearity :=
    fun base b hb => (hg.counts_supply (hg.classOf_lt b hb) _).hasLinearity
  constructor
  · intro hmem
    obtain ⟨site, hsite, rfl⟩ := List.mem_map.1 hmem
    obtain ⟨hsite, hmany⟩ := List.mem_filter.1 hsite
    obtain ⟨hstrong, homega⟩ := Bool.and_eq_true_iff.1 hmany
    obtain ⟨base, b, type, position, message, hnode, hbase, hlocation⟩ := mem_updateSites hsite
    have hb := hn.location_lt site.store b (by rw [hnode]; rfl)
    rw [hstrong] at hnode
    refine ⟨base, b, type, position, message, hnode, ?_⟩
    have hl := hlinearity base b hb
    have heq : (g.supply (g.stores.root base) (g.classOf b)).linearity = .omega := by
      rw [hbase, hlocation]
      exact of_decide_eq_true homega
    rwa [heq] at hl
  · rintro ⟨base, b, type, position, message, hnode, homega⟩
    have hb := hn.location_lt store b (by rw [hnode]; rfl)
    have hvar : (g.stores.nodeAt store).isVariable = false := by
      rw [hnode]
      rfl
    -- An operator is the root of its own class, so it is among the sites.
    have hsite := mem_updateSites_of_node (hg.mem_roots_of_operator hvar) hnode
    refine List.mem_map.2 ⟨_, List.mem_filter.2 ⟨hsite, ?_⟩, rfl⟩
    exact Bool.and_eq_true_iff.2 ⟨rfl, decide_eq_true ((hlinearity base b hb).unique homega)⟩

/-! ## The last phase -/

lemma Ask.phase_linearized (h : Ask command s s') (hs : s.phase = .linearized) :
    s'.phase = .linearized := by
  cases h with
  | chat hchat =>
    obtain ⟨talk, questions, reported, rfl, -⟩ := hchat
    exact hs
  | close hopened => exact absurd (hs.symm.trans hopened) (by simp)
  | linearize hclosed => exact absurd (hs.symm.trans hclosed) (by simp)
  | _ => exact hs

lemma Moves.phase_linearized (h : Moves P command s s') (hs : s.phase = .linearized) :
    s'.phase = .linearized := by
  rcases h with h | ⟨h, -⟩
  · exact h.phase_eq.trans hs
  · induction h with
    | refl => exact hs
    | tail _ hmove ih => exact hmove.phase_linearized ih

/-- Linearizing is for good. -/
lemma DisciplinedRun.phase_linearized (h : DisciplinedRun s s') (hs : Disciplined s)
    (hphase : s.phase = .linearized) : s'.phase = .linearized :=
  DisciplinedRun.induction (motive := fun s => s.phase = .linearized) hs hphase
    (fun _ _ _ _ _ hmoves hphase => hmoves.phase_linearized hphase) (fun _ _ h => h) h

/-! ## Before the linearities are known -/

omit [QualifierLattice σ τ] in
/-- What is demanded of an update: its own cell is above the cell of its base, and if it was made as
a strong update, it was demoted. -/
lemma demands_update_inv {v : View τ} {c lower : Cell} {reason : Reason} {store : Nat}
    (h : v.Demands c reason lower) (hreason : reason.update? = some store) :
    ∃ base b type strong position message,
      v.graph.stores.nodeAt store = .update base b type strong position message ∧
      (strong = true → store ∈ v.demoted) ∧ c = ⟨store, v.graph.classOf b⟩ ∧
      lower = ⟨v.storeRoot base, v.graph.classOf b⟩ ∧
      reason = .update store (v.graph.classOf b) := by
  cases h with
  | edge => cases hreason
  | @update base b type strong position message hnode hlocation hstrong =>
    obtain rfl : c.store = store := Option.some.inj hreason
    refine ⟨base, b, type, strong, position, message, hnode, hstrong, ?_⟩
    rw [hlocation]
    exact ⟨rfl, rfl, rfl⟩

/-- Before a session is linearized, the old contents of its strong updates are not sent. -/
lemma Disciplined.update?_ne_of_strong (h : Disciplined s) (hphase : s.phase ≠ .linearized)
    {store : Nat} {base : StoreId} {b : LocationId} {type : τ} {position : Position}
    {message : String}
    (hnode : s.graph.stores.nodeAt store = .update base b type true position message)
    {t : Telling τ} (ht : t ∈ tellings s.talk.journal) : t.reason.update? ≠ some store := by
  intro hreason
  obtain ⟨s₀, hs₀, hrun, -, c, lower, -, hdemand, -⟩ := h.exists_toldAt (Or.inr ⟨store, hreason⟩) ht
  obtain ⟨base₀, b₀, type₀, strong₀, position₀, message₀, hnode₀, hstrong₀, -⟩ :=
    demands_update_inv hdemand hreason
  have hcoherent := ReachableBy.coherent hs₀
  -- The update was an entry of the graph already when it was told about.
  have hext := (hrun.grows (P := True) hcoherent.sound fun _ _ hc _ => hc).toExtends
  have hlt : store < s₀.graph.stores.size := Stores.lt_size_of_not_isVariable (by
    rw [show s₀.graph.stores.nodeAt store = _ from hnode₀]
    rfl)
  rw [hext.store_eq store hlt] at hnode
  cases hnode.symm.trans hnode₀
  have hphase₀ : s₀.phase ≠ .linearized := fun hphase₀ =>
    hphase (hrun.phase_linearized hs₀ hphase₀)
  have hdemoted : store ∈ s₀.linearities.demoted := hstrong₀ rfl
  rw [hcoherent.linearities_eq hphase₀] at hdemoted
  exact absurd hdemoted List.not_mem_nil

/-! ## Linearizing -/

/-- What linearizing demotes is sent and settled. -/
lemma Coherent.linearize_settles (hs : s.Coherent) (hlayered : s.graph.Layered)
    (h : s.linearize = .ok (.ok (), s')) {site : UpdateSite} (hsite : site ∈ updateSites s.graph)
    (hdemoted : isDemoted (s.graph.solveSupplies s.graph.solve).values site = true) :
    (s'.view s'.graph.solve).Demands ⟨site.store, site.location⟩
        (.update site.store site.location) ⟨site.base, site.location⟩ ∧
      s'.flow.Marked (.update site.store site.location) ∧
      ⟨site.base, site.location⟩ ∈ s'.flow.settled := by
  have hgraph := (hs.linearize_spec h).1
  obtain ⟨-, sol, s₁, s₂, hsolved, hmentions, rfl⟩ := demotes_of_linearize h
  obtain ⟨rfl, hgraph₁, -, -⟩ := hs.solved_spec hsolved
  have hgraph₂ : s₂.graph = s.graph := hmentions.graph_eq.trans hgraph₁
  have hsound := hs.sound
  rw [hgraph]
  rw [← hgraph₂] at hsound hlayered hsite hdemoted ⊢
  obtain ⟨new, -, hsites⟩ := exists_settles_demoteAll hsound hlayered
  exact hsites site hsite hdemoted

/-- Linearizing keeps the ledger. -/
lemma Disciplined.ledger_of_linearize (h : Disciplined s)
    (hlinearize : s.linearize = .ok (.ok (), s')) : s'.Ledger :=
  (linearize_inquires hlinearize).moves.preserves
    (fun _ _ hcoherent hbuild hs => hs.build hcoherent hbuild)
    (fun _ _ hcoherent hlayered hask hs => hs.ask hcoherent hlayered hask)
    (ReachableBy.coherent h) h.layered h.ledger

/-- What linearizing sends of a strong update is between the types that the cells have now. -/
lemma Disciplined.toldAt_of_strong (h : Disciplined s)
    (hlinearize : s.linearize = .ok (.ok (), s')) {store : Nat} {base : StoreId} {b : LocationId}
    {type : τ} {position : Position} {message : String}
    (hnode : s.graph.stores.nodeAt store = .update base b type true position message)
    {t : Telling τ} (ht : t ∈ tellings s'.talk.journal) (hreason : t.reason.update? = some store) :
    s'.ToldAt t := by
  have hclosed := (demotes_of_linearize hlinearize).1
  have hs := ReachableBy.coherent h
  have hasks : Asks .linearize s s' := by
    rcases (linearize_inquires hlinearize).eq_or_asks with rfl | ⟨hasks, -⟩
    · exact .refl
    · exact hasks
  refine (hasks.mem_tellings hs h.layered (Or.inr ⟨store, hreason⟩) ht).resolve_left fun hold => ?_
  exact h.update?_ne_of_strong (by simp [hclosed]) hnode hold hreason

/-- When linearizing has succeeded, the linearity of its location at a strong update tells what was
sent.  If it is omega, the old contents have been sent to the lattice once, as at most the type
written, and the cell that holds them is settled.  Otherwise they were never sent. -/
theorem linearize_demotes_exactly (h : Disciplined s) (hlinearize : s.linearize = .ok (.ok (), s'))
    {x base : StoreId} {b : LocationId} {type : τ} {position : Position} {message : String}
    (hnode : s.graph.stores.node x = .update base b type true position message) :
    ∃ l, s'.linearityAt x b = .ok (.ok l, s') ∧
      s.graph.HasLinearity (s.graph.classOf b) (s.graph.stores.root base) l ∧
      (l = .omega → ∃ old,
        s'.typeOf ⟨s.graph.stores.root base, s.graph.classOf b⟩ = some old ∧
        (tellings s'.talk.journal).filter
            (·.reason.SameMark (.update (s.graph.stores.root x) (s.graph.classOf b))) =
          [⟨.update (s.graph.stores.root x) (s.graph.classOf b), old, type⟩] ∧
        ⟨s.graph.stores.root base, s.graph.classOf b⟩ ∈ s'.flow.settled) ∧
      (l ≠ .omega → (tellings s'.talk.journal).filter
        (·.reason.SameMark (.update (s.graph.stores.root x) (s.graph.classOf b))) = []) := by
  have hs := ReachableBy.coherent h
  obtain ⟨hgraph, -, hlinearities⟩ := hs.linearize_spec hlinearize
  have hnode' : s'.graph.stores.nodeAt (s.graph.stores.root x) =
      .update base b type true position message := by
    rw [hgraph]
    exact hnode
  have hx : x.index < s.graph.stores.size := Stores.lt_size_of_not_isVariable (by
    rw [← hs.sound.stores.isVariable_node, hnode]
    rfl)
  have hb : b.index < s.graph.locations.size :=
    h.layered.location_lt (s.graph.stores.root x) b (congrArg StoreNode.ownLocation? hnode)
  have hsite : (⟨s.graph.stores.root x, s.graph.stores.root base, s.graph.classOf b, true⟩ :
      UpdateSite) ∈ updateSites s.graph :=
    mem_updateSites_of_node (hs.sound.stores.root_mem_roots hx) hnode
  have hcounts := (hs.sound.counts_supply (hs.sound.classOf_lt b hb)
    (s.graph.stores.root base)).hasLinearity
  refine ⟨_, hs.linearityAt_eq hlinearize hb hnode, hcounts, fun homega => ?_, fun hne => ?_⟩
  -- A demoted update was settled, so it is marked, and what is marked was told. As the update was
  -- strong before, it can have been told only by this command.
  · obtain ⟨hdemand, hmarked, hsettled⟩ := hs.linearize_settles h.layered hlinearize hsite
      (Bool.and_eq_true_iff.2 ⟨rfl, decide_eq_true homega⟩)
    have hledger := h.ledger_of_linearize hlinearize
    obtain ⟨t, ht, hmark⟩ := hmarked.exists_telling hdemand.markable hledger.sentEdges_eq
      hledger.sentUpdates_eq
    obtain ⟨-, c, lower, -, hdemand', hlower, hupper⟩ :=
      h.toldAt_of_strong hlinearize hnode ht hmark.2
    obtain ⟨rfl, hreason, rfl⟩ := hdemand'.unique hdemand hmark
    have hv : (s'.view s'.graph.solve).Faithful := h.faithful hgraph
    have hwritten : s'.flow.held (s'.view s'.graph.solve)
        ⟨s.graph.stores.root x, s.graph.classOf b⟩ = some type := by
      rw [Flow.held, hv.binding_own (c := ⟨s.graph.stores.root x, s.graph.classOf b⟩) hnode'
        (congrArg (fun g => g.classOf b) hgraph)]
    refine ⟨t.lower, Flow.read_of_held hlower, ?_, hsettled⟩
    rw [hledger.filter_tellings_eq hdemand.markable ht hmark, ← hreason,
      Option.some.inj (hwritten.symm.trans hupper)]
  -- A strong update that was told must have been demoted, and only at omega are updates demoted.
  · refine List.filter_eq_nil_iff.2 fun t ht hmark => hne ?_
    have hreason := (of_decide_eq_true hmark).2
    obtain ⟨-, c, lower, -, hdemand, -⟩ := h.toldAt_of_strong hlinearize hnode ht hreason
    obtain ⟨base', b', type', strong', position', message', hfound, hstrong', -⟩ :=
      demands_update_inv hdemand hreason
    cases hnode'.symm.trans hfound
    have hdemoted : s.graph.stores.root x ∈ s'.linearities.demoted := hstrong' rfl
    rw [hlinearities, mem_demoted_iff hs.sound h.layered.named] at hdemoted
    obtain ⟨base', b', type', position', message', hfound', homega⟩ := hdemoted
    cases hfound'.symm.trans hnode
    exact hcounts.unique homega

/-- An allocation flows into `both`, and another one does so only after the session was closed.
There is a strong update of the first allocation, and one of `both`. -/
def joinedScript : List (Command Int) :=
  [.makeLocation "x" 0, .storeVariable .internal "left", .allocate .internal ⟨0⟩ ⟨0⟩,
    .storeVariable .internal "right", .allocate .internal ⟨2⟩ ⟨0⟩,
    .storeVariable .internal "both", .includeStore .internal "left" ⟨1⟩ ⟨4⟩,
    .update .internal "single" ⟨1⟩ ⟨0⟩ 1 true, .update .internal "joint" ⟨4⟩ ⟨0⟩ 2 true, .close,
    .includeStore .internal "right" ⟨3⟩ ⟨4⟩]

/-- Nothing was marked, so no cell was settled before.  The second update is demoted, the first one
is not. -/
theorem linearize_demotes_exactly_joined :
    ∃ s s' : Session Level Int, Disciplined s ∧ s.config.markedOnly = true ∧
      s.flow.settled = [] ∧ s.linearize = .ok (.ok (), s') ∧
      s.graph.stores.node ⟨5⟩ = .update ⟨1⟩ ⟨0⟩ 1 true .internal "single" ∧
      s.graph.stores.node ⟨6⟩ = .update ⟨4⟩ ⟨0⟩ 2 true .internal "joint" ∧
      s'.linearityAt ⟨5⟩ ⟨0⟩ = .ok (.ok .one, s') ∧ s'.linearityAt ⟨6⟩ ⟨0⟩ = .ok (.ok .omega, s') ∧
      (tellings s'.talk.journal).filter (·.reason.SameMark (.update 5 0)) = [] ∧
      (tellings s'.talk.journal).filter (·.reason.SameMark (.update 6 0)) =
        [⟨.update 6 0, 0, 2⟩] ∧
      ⟨4, 0⟩ ∈ s'.flow.settled := by
  have hrun : (follow (fun s c => c.Known s.graph) (start ⟨2, true⟩ Level.mk) joinedScript).any
      fun s => succeeds s.linearize fun p => List.and
        [p.1 = .ok (), s.config.markedOnly = true, s.flow.settled = [],
          s.graph.stores.node ⟨5⟩ = .update ⟨1⟩ ⟨0⟩ 1 true .internal "single",
          s.graph.stores.node ⟨6⟩ = .update ⟨4⟩ ⟨0⟩ 2 true .internal "joint",
          s.graph.classOf ⟨0⟩ = 0, s.graph.stores.root ⟨4⟩ = 4, s.graph.stores.root ⟨5⟩ = 5,
          s.graph.stores.root ⟨6⟩ = 6, p.2.typeOf ⟨4, 0⟩ = some 0,
          (p.2.linearityAt ⟨5⟩ ⟨0⟩).map Prod.fst = .ok (.ok .one),
          (p.2.linearityAt ⟨6⟩ ⟨0⟩).map Prod.fst = .ok (.ok .omega)] := by
    decide +kernel
  simp only [Option.any_eq_true, succeeds_eq_true, and_decide_cons, List.and_nil, and_true] at hrun
  obtain ⟨s, hfollow, ⟨_, s'⟩, hlinearize, rfl, hmarked, hsettled, hsingle, hjoint, ha, h₄, h₅, h₆,
    hold, hone, homega⟩ := hrun
  have h : Disciplined s := reachableBy_of_follow hfollow
  obtain ⟨l₅, hl₅, -, -, hsilent⟩ := linearize_demotes_exactly h hlinearize hsingle
  obtain ⟨l₆, hl₆, -, hsent, -⟩ := linearize_demotes_exactly h hlinearize hjoint
  rw [hl₅] at hone
  rw [hl₆] at homega
  cases hone
  cases homega
  obtain ⟨old, htype, honce, hbase⟩ := hsent rfl
  rw [h₅, ha] at hsilent
  rw [h₄, ha] at htype hbase
  rw [h₆, ha] at honce
  obtain rfl : (0 : Int) = old := Option.some.inj (hold.symm.trans htype)
  exact ⟨s, s', h, hmarked, hsettled, hlinearize, hsingle, hjoint, hl₅, hl₆, hsilent (by simp),
    honce, hbase⟩

end Session

end HeapQual
