import HeapQual.Proofs.Session.Retelling

/-!
# Linearities are a snapshot

A session is linearized once, and from then on it answers questions about linearities from the table
that was made.  The table is that of the graph at that time, and it has the representatives and the
updates of that time (`Session.linearityAt_of_linearized`).  So the answers are those of the present
graph as long as nothing was added to it that matters.

When the graph grows afterwards they are not (`Session.linearity_not_of_present_graph`).
Allocations that reach the base of an update only later do not count, and a strong update that they
make unsound is not demoted.  A class that gets another representative is looked up under the new
one, so the answer depends on which of two merged locations is named first.  And an update that was
made later is refused as if it were none.
-/

namespace HeapQual

namespace Graph

variable {τ : Type} {g : Graph τ}

/-- Whether or not the location exists, the supply found at a store gives its linearity: there are
no allocations of what does not exist. -/
lemma Named.hasLinearity_supply (hn : g.Named) (hg : g.Sound) (a i : Nat) :
    g.HasLinearity a i (g.supply i a).linearity := by
  refine Counts.hasLinearity ?_
  by_cases ha : a < g.locations.size
  · exact hg.counts_supply ha i
  · have hnone : ∀ r, ¬g.IsSite a r := by
      rintro r ⟨base, x, fresh, hnode, rfl⟩
      exact ha (hg.classOf_lt x (hn.location_lt r x (by rw [hnode]; rfl)))
    have hjust := hg.justifies_supply i a
    cases hsupply : g.supply i a with
    | none => exact fun r hsite => absurd hsite (hnone r)
    | once r =>
      rw [hsupply] at hjust
      exact absurd hjust.1 (hnone r)
    | many =>
      rw [hsupply] at hjust
      obtain ⟨r, hsite, -⟩ := Several.exists_site hjust
      exact absurd hsite (hnone r)

/-- Paths depend on the stores, and on what effects mention. -/
lemma Passes.congr {g' : Graph τ} {a i j : Nat} (hstores : g'.stores = g.stores)
    (hmentioned : g'.mentioned = g.mentioned) (h : g.Passes a i j) : g'.Passes a i j := by
  obtain ⟨locations, effects, stores⟩ := g
  obtain ⟨locations', effects', stores'⟩ := g'
  obtain rfl : stores' = stores := hstores
  cases h with
  | edge hedge hvariable => exact .edge hedge hvariable
  | restrict hnode h => exact .restrict hnode (congrFun₂ hmentioned _ _ ▸ h)
  | allocate hnode => exact .allocate hnode
  | update hnode => exact .update hnode
  | inside hnode h => exact .inside hnode (congrFun₂ hmentioned _ _ ▸ h)
  | outside hnode h => exact .outside hnode (congrFun₂ hmentioned _ _ ▸ h)

/-- What the solution does not show does not change linearities either. -/
lemma Tweaks.hasLinearity {g' : Graph τ} (h : g.Tweaks g') (hg : g.Sound) (hn : g.Named) {a i : Nat}
    {l : Linearity} (hl : g.HasLinearity a i l) : g'.HasLinearity a i l := by
  have hmentioned : g'.mentioned = g.mentioned := by
    funext e a
    rw [mentioned, mentioned, h.solve_eq hg hn, h.effectRoot_eq]
  have hpasses : g'.Passes = g.Passes := by
    funext a i j
    exact propext ⟨.congr h.stores_eq.symm hmentioned.symm, .congr h.stores_eq hmentioned⟩
  have hsite : g'.IsSite = g.IsSite := by
    funext a r
    rw [IsSite, IsSite, h.stores_eq, h.classOf_eq]
  have hrecurs : g'.Recurs = g.Recurs := by
    funext a r
    simp only [Recurs, Reaches, hpasses, h.stores_eq]
  refine ⟨?_, ?_, ?_⟩
  · rw [hsite, Reaches, hpasses]
    exact hl.zero_iff
  · rw [hsite, hrecurs, Reaches, hpasses]
    exact hl.one_iff
  · rw [hsite, hrecurs, Reaches, hpasses]
    exact hl.omega_iff

end Graph

namespace Session

variable {σ τ : Type} [QualifierLattice σ τ] {s s' s₀ s₁ : Session σ τ}

/-! ## Phases -/

lemma Ask.eq_linearize {c : Command τ} (h : Ask c s s') (hphase : s.phase ≠ .linearized)
    (hphase' : s'.phase = .linearized) : c = .linearize := by
  cases h with
  | chat hchats => exact absurd (hchats.phase_eq.symm.trans hphase') hphase
  | close => cases hphase'
  | linearize _ _ hc => exact hc
  | _ => exact absurd hphase' hphase

lemma Asks.eq_linearize {c : Command τ} (h : Asks c s s') (hphase : s.phase ≠ .linearized)
    (hphase' : s'.phase = .linearized) : c = .linearize := by
  induction h with
  | refl => exact absurd hphase' hphase
  | @tail s₁ s₂ _ hmove ih =>
    by_cases hphase₁ : s₁.phase = .linearized
    · exact ih hphase₁
    · exact hmove.eq_linearize hphase₁ hphase'

lemma linearize_of_done (h : s.exec .linearize = .ok (.done, s')) :
    s.linearize = .ok (.ok (), s') := by
  obtain ⟨⟨answer, s₁⟩, hlinearize, hreply⟩ := bind_eq_ok_iff.1 (perform_eq_ok_of_exec h)
  cases answer with
  | error r => cases hreply
  | ok _ =>
    cases hreply
    exact hlinearize

/-- Only linearizing makes a session linearized. -/
lemma eq_linearize_of_exec (hs : s.graph.Sound) {c : Command τ} {reply : Reply τ}
    (h : s.exec c = .ok (reply, s')) (hphase : s.phase ≠ .linearized)
    (hphase' : s'.phase = .linearized) : c = .linearize ∧ reply = .done := by
  rcases exec_moves (P := False) hs False.elim h with hbuilds | ⟨hasks, -⟩
  · exact absurd (hbuilds.phase_eq.symm.trans hphase') hphase
  · obtain rfl := hasks.eq_linearize hphase hphase'
    obtain ⟨⟨answer, s₁⟩, hlinearize, hreply⟩ := bind_eq_ok_iff.1 (perform_eq_ok_of_exec h)
    cases hreply
    rcases linearize_eq_ok hlinearize with ⟨-, rfl⟩ | ⟨rfl, -⟩
    · exact absurd hphase' hphase
    · exact ⟨rfl, rfl⟩

/-- Every linearized session has been linearized at some time. -/
lemma Disciplined.was_linearized (h : Disciplined s) (hphase : s.phase = .linearized) :
    ∃ s₀ s₁, Disciplined s₀ ∧ s₀.exec .linearize = .ok (.done, s₁) ∧ DisciplinedRun s₁ s := by
  obtain ⟨config, lattice, orders, hrun⟩ := h
  induction hrun with
  | refl => cases hphase
  | @exec s₂ s₃ c reply hrun hc hexec ih =>
    by_cases hbefore : s₂.phase = .linearized
    · obtain ⟨s₀, s₁, hs₀, hlinearize, hsince⟩ := ih hbefore
      exact ⟨s₀, s₁, hs₀, hlinearize, hsince.exec hc hexec⟩
    · have hs₂ : Disciplined s₂ := ⟨config, lattice, orders, hrun⟩
      obtain ⟨rfl, rfl⟩ :=
        eq_linearize_of_exec (ReachableBy.coherent hs₂).sound hexec hbefore hphase
      exact ⟨s₂, s₃, hs₂, hexec, .refl⟩
  | withLattice lattice hrun ih =>
    obtain ⟨s₀, s₁, hs₀, hlinearize, hsince⟩ := ih hphase
    exact ⟨s₀, s₁, hs₀, hlinearize, hsince.withLattice lattice⟩

/-! ## What is kept afterwards -/

/-- Once the session is linearized, its linearities stay, and what was told remains told. -/
lemma DisciplinedRun.since_linearized (h : DisciplinedRun s s') (hs : Disciplined s)
    (hphase : s.phase = .linearized) :
    s'.phase = .linearized ∧ s'.linearities = s.linearities ∧
      ∀ t ∈ tellings s.talk.journal, t ∈ tellings s'.talk.journal := by
  refine DisciplinedRun.induction (motive := fun s' => s'.phase = .linearized ∧
    s'.linearities = s.linearities ∧ ∀ t ∈ tellings s.talk.journal, t ∈ tellings s'.talk.journal)
    hs ⟨hphase, rfl, fun _ ht => ht⟩ ?_ (fun _ _ h => h) h
  rintro command s₁ s₂ hs₁ - hmoves ⟨hphase₁, hlinearities, htold⟩
  obtain ⟨-, new, htells, -⟩ := hmoves.accounts (ReachableBy.coherent hs₁)
  exact ⟨hmoves.phase_linearized hphase₁, (hmoves.linearities_eq hphase₁).trans hlinearities,
    fun t ht => htells.mem_tellings.2 (Or.inr (htold t ht))⟩

/-- A store that is no variable is its own root, and stays so when the graph grows. -/
lemma root_eq_of_operator {g g₀ : Graph τ} (hext : g₀.Extends g) (hg₀ : g₀.Sound) (hg : g.Sound)
    {x : StoreId} (hx : (g₀.stores.node x).isVariable = false) :
    x.index < g₀.stores.size ∧ g.stores.root x = g₀.stores.root x := by
  rw [hg₀.stores.isVariable_node] at hx
  have hlt := Stores.lt_size_of_not_isVariable hx
  have hroot₀ : g₀.stores.root x = x.index := hg₀.stores.root_eq hx
  have hroot : g.stores.root x = x.index := by
    refine hg.stores.root_eq ?_
    rw [hext.store_eq x.index hlt]
    exact hx
  exact ⟨hlt, hroot.trans hroot₀.symm⟩

/-! ## Answers about linearities -/

/-- Linearizing names nothing. -/
lemma known_linearize (g : Graph τ) : (Command.linearize : Command τ).Known g :=
  ⟨fun _ h => absurd h List.not_mem_nil, fun _ h => absurd h List.not_mem_nil,
    fun _ h => absurd h List.not_mem_nil⟩

section Since

variable (h₀ : Disciplined s₀) (hexec : s₀.exec .linearize = .ok (.done, s₁))
  (hrun : DisciplinedRun s₁ s)

include h₀ hexec

lemma disciplined_of_linearize : Disciplined s₁ :=
  ReachableBy.run h₀ (.exec .refl (known_linearize _) hexec)

include hrun

lemma linearities_since : s.phase = .linearized ∧ s.linearities =
    tabulate (s₀.graph.solveSupplies s₀.graph.solve).values (updateSites s₀.graph) := by
  obtain ⟨-, hphase₁, hlinearities⟩ :=
    (ReachableBy.coherent h₀).linearize_spec (linearize_of_done hexec)
  obtain ⟨hphase, hsince, -⟩ := hrun.since_linearized (disciplined_of_linearize h₀ hexec) hphase₁
  exact ⟨hphase, hsince.trans hlinearities⟩

lemma extends_since : s₀.graph.Extends s.graph ∧ s.graph.Sound := by
  have h₁ := disciplined_of_linearize h₀ hexec
  have hgraph := ((ReachableBy.coherent h₀).linearize_spec (linearize_of_done hexec)).1
  have hgrows := hrun.grows (P := True) (ReachableBy.coherent h₁).sound fun _ _ hc _ => hc
  rw [hgraph] at hgrows
  exact ⟨hgrows.toExtends, hgrows.sound⟩

/-- The table of linearities is still that of the graph that was linearized. -/
lemma lookup_since {x base : StoreId} {b : LocationId} {type : τ} {strong : Bool}
    {position : Position} {message : String}
    (hnode : s₀.graph.stores.node x = .update base b type strong position message) :
    s.graph.stores.find x = .ok (s₀.graph.stores.root x) ∧
      s.linearities.byUpdate.lookup (s₀.graph.stores.root x) =
        some ((s₀.graph.solveSupplies s₀.graph.solve).values[s₀.graph.stores.root base]?.getD
          #[]) := by
  have hs₀ := (ReachableBy.coherent h₀).sound
  obtain ⟨hext, hs⟩ := extends_since h₀ hexec hrun
  obtain ⟨hlt, hroot⟩ := root_eq_of_operator hext hs₀ hs (x := x) (by rw [hnode]; rfl)
  refine ⟨Stores.find_eq_ok_iff.2 ⟨hlt.trans_le hext.size_stores, hroot⟩, ?_⟩
  rw [(linearities_since h₀ hexec hrun).2]
  exact lookup_byUpdate _ (hs₀.stores.root_mem_roots hlt) hnode

/-- A question about a linearity is answered for the graph that was linearized, and for the location
that represents the class now. -/
lemma linearityAt_since {x base : StoreId} {a b : LocationId} {type : τ} {strong : Bool}
    {position : Position} {message : String} (ha : a.index < s.graph.locations.size)
    (hnode : s₀.graph.stores.node x = .update base b type strong position message) :
    s.linearityAt x a = .ok (.ok (s₀.graph.supply (s₀.graph.stores.root base)
      (s.graph.classOf a)).linearity, s) := by
  obtain ⟨hfind, hlookup⟩ := lookup_since h₀ hexec hrun hnode
  have hphase := (linearities_since h₀ hexec hrun).1
  unfold linearityAt
  rw [show s.refuseUnlinearized = none by simp [refuseUnlinearized, hphase]]
  refine bind_eq_ok_iff.2 ⟨_, hfind, ?_⟩
  rw [hlookup]
  exact bind_eq_ok_iff.2 ⟨_, Locations.find_eq_ok_iff.2 ⟨ha, rfl⟩, rfl⟩

/-- Only stores that were no updates are refused. -/
lemma node_ne_of_refused {x y base : StoreId} {a b : LocationId} {type : τ} {strong : Bool}
    {position : Position} {message : String}
    (h : s.linearityAt x a = .ok (.error (.notAnUpdate y), s')) :
    s₀.graph.stores.node x ≠ .update base b type strong position message := by
  intro hnode
  obtain ⟨hfind, hlookup⟩ := lookup_since h₀ hexec hrun hnode
  unfold linearityAt at h
  split at h
  · rename_i r hrefuse
    cases h
    unfold refuseUnlinearized at hrefuse
    split at hrefuse <;> cases hrefuse
  · rw [hfind] at h
    obtain ⟨root, hroot, h⟩ := bind_eq_ok_iff.1 h
    cases hroot
    rw [hlookup] at h
    obtain ⟨location, -, h⟩ := bind_eq_ok_iff.1 h
    cases h

/-- Stores that were no updates are refused, also if they have become some since. -/
lemma linearityAt_of_node_ne {x : StoreId} (hx : x.index < s.graph.stores.size) (a : LocationId)
    (hnode : ∀ base b type strong position message,
      s₀.graph.stores.node x ≠ .update base b type strong position message) :
    s.linearityAt x a = .ok (.error (.notAnUpdate x), s) := by
  have hs₀ := (ReachableBy.coherent h₀).sound
  obtain ⟨hphase, hlinearities⟩ := linearities_since h₀ hexec hrun
  obtain ⟨hext, hs⟩ := extends_since h₀ hexec hrun
  have hlookup : s.linearities.byUpdate.lookup (s.graph.stores.root x) = none := by
    rw [hlinearities]
    by_contra hsome
    obtain ⟨supplies, hsupplies⟩ := Option.ne_none_iff_exists'.1 hsome
    obtain ⟨base, b, type, strong, position, message, hentry, -⟩ :=
      exists_update_of_lookup hsupplies
    -- An update is alone in its class, so the entry would be that of the store itself.
    have hoperator : (s₀.graph.stores.nodeAt (s.graph.stores.root x)).isVariable = false := by
      rw [hentry]
      rfl
    have hlt := Stores.lt_size_of_not_isVariable hoperator
    have hroot : x.index = s.graph.stores.root x := by
      refine (hs.stores.merged.root_eq_iff ?_ x.index).1 rfl
      rw [hext.store_eq _ hlt, hoperator]
      exact Bool.false_ne_true
    have hroot₀ : s₀.graph.stores.root x = s.graph.stores.root x := by
      rw [Stores.root, hroot]
      exact hs₀.stores.root_eq hoperator
    refine hnode base b type strong position message ?_
    rw [Stores.node, hroot₀]
    exact hentry
  unfold linearityAt
  rw [show s.refuseUnlinearized = none by simp [refuseUnlinearized, hphase]]
  refine bind_eq_ok_iff.2 ⟨_, Stores.find_eq_ok_iff.2 ⟨hx, rfl⟩, ?_⟩
  rw [hlookup]
  rfl

/-- The old contents of a strong update whose location was not linear were sent when the session was
linearized, and have not been sent again. -/
lemma told_since {x base : StoreId} {b : LocationId} {type : τ} {position : Position}
    {message : String}
    (hnode : s₀.graph.stores.node x = .update base b type true position message)
    (homega : s₀.graph.HasLinearity (s₀.graph.classOf b) (s₀.graph.stores.root base) .omega) :
    ∃ old, s₁.typeOf ⟨s₀.graph.stores.root base, s₀.graph.classOf b⟩ = some old ∧
      (tellings s.talk.journal).filter
          (·.reason.SameMark (.update (s₀.graph.stores.root x) (s₀.graph.classOf b))) =
        [⟨.update (s₀.graph.stores.root x) (s₀.graph.classOf b), old, type⟩] := by
  have hs₀ := ReachableBy.coherent h₀
  have h₁ := disciplined_of_linearize h₀ hexec
  have hlinearize := linearize_of_done hexec
  obtain ⟨hgraph, hphase₁, hlinearities⟩ := hs₀.linearize_spec hlinearize
  have hv : (s₁.view s₁.graph.solve).Faithful := h₀.faithful hgraph
  have hnode₁ : s₁.graph.stores.nodeAt (s₀.graph.stores.root x) =
      .update base b type true position message := by
    rw [hgraph]
    exact hnode
  -- It was told when the session was linearized.
  have hx : x.index < s₀.graph.stores.size := Stores.lt_size_of_not_isVariable (by
    rw [← hs₀.sound.stores.isVariable_node, hnode]
    rfl)
  have hsupply := h₀.layered.named.hasLinearity_supply hs₀.sound (s₀.graph.classOf b)
    (s₀.graph.stores.root base)
  obtain ⟨hdemand, hmarked, -⟩ := hs₀.linearize_settles h₀.layered hlinearize
    (mem_updateSites_of_node (hs₀.sound.stores.root_mem_roots hx) hnode)
    (Bool.and_eq_true_iff.2 ⟨rfl, decide_eq_true (hsupply.unique homega)⟩)
  have hledger := h₁.ledger
  obtain ⟨t, ht, hmark⟩ := hmarked.exists_telling hdemand.markable hledger.sentEdges_eq
    hledger.sentUpdates_eq
  obtain ⟨-, c, lower, -, hdemand', hlower, hupper⟩ :=
    h₀.toldAt_of_strong hlinearize hnode ht hmark.2
  obtain ⟨rfl, hreason, rfl⟩ := hdemand'.unique hdemand hmark
  have hwritten : s₁.flow.held (s₁.view s₁.graph.solve)
      ⟨s₀.graph.stores.root x, s₀.graph.classOf b⟩ = some type := by
    rw [Flow.held, hv.binding_own (c := ⟨s₀.graph.stores.root x, s₀.graph.classOf b⟩) hnode₁
      (congrArg (fun g => g.classOf b) hgraph)]
  refine ⟨t.lower, Flow.read_of_held hlower, ?_⟩
  -- It remains told, and no mark is set twice.
  have htold := (hrun.since_linearized h₁ hphase₁).2.2 t ht
  have hsince : Disciplined s := ReachableBy.run h₁ hrun
  rw [hsince.ledger.filter_tellings_eq hdemand.markable htold hmark, ← hreason,
    Option.some.inj (hwritten.symm.trans hupper)]

end Since

/-- Every linearized session answers questions about linearities as of when it was linearized.  At a
store that was an update then, the answer tells how many allocations of the location that now
represents the class reached the base of the update then, which is what reaches it now unless
something was added or merged since.  Just the stores that were no updates then are refused.  And
for every strong update whose location was not linear then, the old contents have been sent, once,
as they were then. -/
theorem linearityAt_of_linearized (h : Disciplined s) (hphase : s.phase = .linearized) :
    (∃ s₀ s₁, Disciplined s₀ ∧ s₀.exec .linearize = .ok (.done, s₁) ∧ DisciplinedRun s₁ s) ∧
      ∀ s₀ s₁, Disciplined s₀ → s₀.exec .linearize = .ok (.done, s₁) → DisciplinedRun s₁ s →
        (∀ x a base b type strong position message, a.index < s.graph.locations.size →
          s₀.graph.stores.node x = .update base b type strong position message →
          ∃ l, s.linearityAt x a = .ok (.ok l, s) ∧
            s₀.graph.HasLinearity (s.graph.classOf a) (s₀.graph.stores.root base) l ∧
            (s₀.graph.Tweaks s.graph →
              s.graph.HasLinearity (s.graph.classOf a) (s.graph.stores.root base) l)) ∧
        (∀ x y a s', s.linearityAt x a = .ok (.error (.notAnUpdate y), s') →
          ∀ base b type strong position message,
            s₀.graph.stores.node x ≠ .update base b type strong position message) ∧
        (∀ x a, x.index < s.graph.stores.size →
          (∀ base b type strong position message,
            s₀.graph.stores.node x ≠ .update base b type strong position message) →
          s.linearityAt x a = .ok (.error (.notAnUpdate x), s)) ∧
        ∀ x base b type position message,
          s₀.graph.stores.node x = .update base b type true position message →
          s₀.graph.HasLinearity (s₀.graph.classOf b) (s₀.graph.stores.root base) .omega →
          ∃ old, s₁.typeOf ⟨s₀.graph.stores.root base, s₀.graph.classOf b⟩ = some old ∧
            (tellings s.talk.journal).filter
                (·.reason.SameMark (.update (s₀.graph.stores.root x) (s₀.graph.classOf b))) =
              [⟨.update (s₀.graph.stores.root x) (s₀.graph.classOf b), old, type⟩] := by
  refine ⟨h.was_linearized hphase, fun s₀ s₁ h₀ hexec hrun => ⟨?_, ?_, ?_, ?_⟩⟩
  · intro x a base b type strong position message ha hnode
    have hs₀ := (ReachableBy.coherent h₀).sound
    have hl := h₀.layered.named.hasLinearity_supply hs₀ (s.graph.classOf a)
      (s₀.graph.stores.root base)
    refine ⟨_, linearityAt_since h₀ hexec hrun ha hnode, hl, fun htweaks => ?_⟩
    -- As long as no store was made and nothing was merged that matters, the same allocations reach.
    rw [htweaks.stores_eq]
    exact htweaks.hasLinearity hs₀ h₀.layered.named hl
  · intro x y a s' hrefused base b type strong position message
    exact node_ne_of_refused h₀ hexec hrun hrefused
  · intro x a hx hnode
    exact linearityAt_of_node_ne h₀ hexec hrun hx a hnode
  · intro x base b type position message hnode homega
    exact told_since h₀ hexec hrun hnode homega

/-- An allocation of `x` flows into `both`, and two allocations of `y` do.  There are strong updates
of both locations. -/
def sharedScript : List (Command Int) :=
  [.makeLocation "x" 0, .makeLocation "y" 0, .storeVariable .internal "left",
    .storeVariable .internal "right", .storeVariable .internal "both",
    .allocate .internal ⟨0⟩ ⟨0⟩, .allocate .internal ⟨3⟩ ⟨1⟩, .allocate .internal ⟨1⟩ ⟨1⟩,
    .includeStore .internal "left" ⟨4⟩ ⟨2⟩, .includeStore .internal "right" ⟨5⟩ ⟨2⟩,
    .update .internal "single" ⟨2⟩ ⟨0⟩ 5 true, .update .internal "joint" ⟨2⟩ ⟨1⟩ 7 true, .close]

/-- Another allocation of `x` flows into `both`. -/
def lateAllocation : List (Command Int) :=
  [.allocate .internal ⟨5⟩ ⟨0⟩, .includeStore .internal "late" ⟨8⟩ ⟨2⟩]

omit [QualifierLattice σ τ] in
/-- Asking for a linearity changes nothing, so the answer is all that has to be looked at. -/
lemma linearityAt_of_fst {x : StoreId} {a : LocationId} {answer : Except Refusal Linearity}
    (h : ∃ p, s.linearityAt x a = .ok p ∧ p.1 = answer) : s.linearityAt x a = .ok (answer, s) := by
  obtain ⟨⟨answer', s'⟩, hasked, rfl⟩ := h
  obtain rfl := eq_of_linearityAt hasked
  exact hasked

lemma Disciplined.hasLinearity (h : Disciplined s) {a i : Nat} {l : Linearity}
    (hl : (s.graph.supply i a).linearity = l) : s.graph.HasLinearity a i l :=
  hl ▸ h.layered.named.hasLinearity_supply (ReachableBy.coherent h).sound a i

/-- Only the second update was demoted, and the answers stay what they were.  The late allocation is
no update, then as now. -/
theorem linearityAt_of_linearized_late :
    ∃ s₀ s₁ s : Session Level Int, Disciplined s₀ ∧ s₀.exec .linearize = .ok (.done, s₁) ∧
      DisciplinedRun s₁ s ∧ s.phase = .linearized ∧
      s₀.graph.HasLinearity (s.graph.classOf ⟨0⟩) (s₀.graph.stores.root ⟨2⟩) .one ∧
      s.linearityAt ⟨6⟩ ⟨0⟩ = .ok (.ok .one, s) ∧
      s₀.graph.HasLinearity (s.graph.classOf ⟨1⟩) (s₀.graph.stores.root ⟨2⟩) .omega ∧
      s.linearityAt ⟨7⟩ ⟨1⟩ = .ok (.ok .omega, s) ∧
      s.linearityAt ⟨8⟩ ⟨0⟩ = .ok (.error (.notAnUpdate ⟨8⟩), s) ∧
      (tellings s.talk.journal).filter (·.reason.SameMark (.update 7 1)) =
        [⟨.update 7 1, 0, 7⟩] := by
  have hrun : (follow (fun s c => c.Known s.graph) (start ⟨2, false⟩ Level.mk) sharedScript).any
      fun s₀ => succeeds (s₀.exec .linearize) fun p =>
      (follow (fun s c => c.Known s.graph) p.2 lateAllocation).any fun s => List.and
        [p.1 = .done, s.phase = .linearized, s.graph.locations.size = 2, s.graph.stores.size = 9,
          s₀.graph.stores.node ⟨6⟩ = .update ⟨2⟩ ⟨0⟩ 5 true .internal "single",
          s₀.graph.stores.node ⟨7⟩ = .update ⟨2⟩ ⟨1⟩ 7 true .internal "joint",
          s₀.graph.stores.node ⟨8⟩ = .var "", s₀.graph.stores.root ⟨2⟩ = 2,
          s₀.graph.stores.root ⟨7⟩ = 7, s₀.graph.classOf ⟨1⟩ = 1, s.graph.classOf ⟨1⟩ = 1,
          (s₀.graph.supply 2 (s.graph.classOf ⟨0⟩)).linearity = .one,
          (s₀.graph.supply 2 (s.graph.classOf ⟨1⟩)).linearity = .omega,
          p.2.typeOf ⟨2, 1⟩ = some 0] := by
    decide +kernel
  simp only [Option.any_eq_true, succeeds_eq_true, and_decide_cons, List.and_nil, and_true] at hrun
  obtain ⟨s₀, hfollow, ⟨_, s₁⟩, hexec, s, hlater, rfl, hphase, hlocations, hstores, hsingle, hjoint,
    hlate, hroot₂, hroot₇, hclass₀, hclass, hone, homega, hold⟩ := hrun
  have h₀ : Disciplined s₀ := reachableBy_of_follow hfollow
  have hsince : DisciplinedRun s₁ s := runs_of_follow hlater
  have h : Disciplined s := ReachableBy.run (disciplined_of_linearize h₀ hexec) hsince
  obtain ⟨hanswers, -, hrefused, htold⟩ :=
    (linearityAt_of_linearized h hphase).2 s₀ s₁ h₀ hexec hsince
  rw [← hroot₂] at hone homega
  obtain ⟨l₆, hl₆, hcount₆, -⟩ := hanswers ⟨6⟩ ⟨0⟩ _ _ _ _ _ _ (by rw [hlocations]; decide) hsingle
  obtain ⟨l₇, hl₇, hcount₇, -⟩ := hanswers ⟨7⟩ ⟨1⟩ _ _ _ _ _ _ (by rw [hlocations]; decide) hjoint
  obtain rfl : l₆ = .one := hcount₆.unique (h₀.hasLinearity hone)
  obtain rfl : l₇ = .omega := hcount₇.unique (h₀.hasLinearity homega)
  have height := hrefused ⟨8⟩ ⟨0⟩ (by rw [hstores]; decide) (by simp [hlate])
  obtain ⟨old, htype, honce⟩ := htold ⟨7⟩ _ _ _ _ _ hjoint (by
    rw [hclass₀, ← hclass]
    exact hcount₇)
  rw [hroot₂, hclass₀, hold] at htype
  obtain rfl : 0 = old := Option.some.inj htype
  rw [hroot₇, hclass₀] at honce
  exact ⟨s₀, s₁, s, h₀, hexec, hsince, hphase, hcount₆, hl₆, hcount₇, hl₇, height, honce⟩

/-! ## What the table does not follow -/

/-- In the graph as it is then, `x` is not linear any more.  The answer is still that it is, and
after the type of the updated cell was asked for, the old contents have still not been sent. -/
lemma linearity_out_of_date :
    ∃ s s' : Session Level Int, Disciplined s ∧
      s.exec (.typeAt ⟨6⟩ ⟨0⟩) = .ok (.type? (some 5), s') ∧ s'.phase = .linearized ∧
      s'.graph.stores.node ⟨6⟩ = .update ⟨2⟩ ⟨0⟩ 5 true .internal "single" ∧
      s'.graph.HasLinearity (s'.graph.classOf ⟨0⟩) (s'.graph.stores.root ⟨2⟩) .omega ∧
      s'.linearityAt ⟨6⟩ ⟨0⟩ = .ok (.ok .one, s') ∧
      ∀ t ∈ tellings s'.talk.journal, t.reason.update? ≠ some 6 := by
  have hrun : (follow (fun s c => c.Known s.graph) (start ⟨2, false⟩ Level.mk)
      (sharedScript ++ .linearize :: lateAllocation)).any fun s =>
      succeeds (s.exec (.typeAt ⟨6⟩ ⟨0⟩)) fun p =>
      succeeds (p.2.linearityAt ⟨6⟩ ⟨0⟩) fun q => List.and
        [p.1 = .type? (some 5), p.2.phase = .linearized,
          p.2.graph.stores.node ⟨6⟩ = .update ⟨2⟩ ⟨0⟩ 5 true .internal "single",
          (p.2.graph.supply (p.2.graph.stores.root ⟨2⟩) (p.2.graph.classOf ⟨0⟩)).linearity = .omega,
          q.1 = .ok .one, (tellings p.2.talk.journal).filterMap (·.reason.update?) = [7]] := by
    decide +kernel
  simp only [Option.any_eq_true, succeeds_eq_true, and_decide_cons, List.and_nil, and_true] at hrun
  obtain ⟨s, hfollow, ⟨_, s'⟩, hexec, q, hasked, rfl, hphase, hnode, homega, hone, hupdates⟩ := hrun
  have h : Disciplined s := reachableBy_of_follow hfollow
  have h' : Disciplined s' := (h.typeAt_of_exec hexec).2.1
  refine ⟨s, s', h, hexec, hphase, hnode, h'.hasLinearity homega,
    linearityAt_of_fst ⟨q, hasked, hone⟩, fun t ht hupdate => ?_⟩
  have hmem : 6 ∈ (tellings s'.talk.journal).filterMap (·.reason.update?) :=
    List.mem_filterMap.2 ⟨t, ht, hupdate⟩
  rw [hupdates] at hmem
  exact absurd hmem (by decide)

/-- One location is allocated once and updated, another is not used. -/
def soleScript : List (Command Int) :=
  [.makeLocation "x" 0, .makeLocation "y" 0, .storeVariable .internal "base",
    .allocate .internal ⟨0⟩ ⟨0⟩, .update .internal "sole" ⟨1⟩ ⟨0⟩ 5 true, .close, .linearize]

/-- When the two locations are merged, the class is allocated once.  The answer is so if the
allocated location is named first.  If it is named second, the answer is that the class is never
allocated. -/
lemma linearity_by_merge_order :
    ∃ s s₁ s₂ : Session Level Int, Disciplined s ∧ s.phase = .linearized ∧
      s.exec (.mergeLocations .internal ⟨0⟩ ⟨1⟩) = .ok (.done, s₁) ∧
      s.exec (.mergeLocations .internal ⟨1⟩ ⟨0⟩) = .ok (.done, s₂) ∧
      s₁.graph.HasLinearity (s₁.graph.classOf ⟨0⟩) (s₁.graph.stores.root ⟨1⟩) .one ∧
      s₂.graph.HasLinearity (s₂.graph.classOf ⟨0⟩) (s₂.graph.stores.root ⟨1⟩) .one ∧
      s₁.linearityAt ⟨2⟩ ⟨0⟩ = .ok (.ok .one, s₁) ∧
      s₂.linearityAt ⟨2⟩ ⟨0⟩ = .ok (.ok .zero, s₂) := by
  have hrun : (follow (fun s c => c.Known s.graph) (start ⟨2, false⟩ Level.mk) soleScript).any
      fun s => succeeds (s.exec (.mergeLocations .internal ⟨0⟩ ⟨1⟩)) fun p₁ =>
      succeeds (s.exec (.mergeLocations .internal ⟨1⟩ ⟨0⟩)) fun p₂ =>
      succeeds (p₁.2.linearityAt ⟨2⟩ ⟨0⟩) fun q₁ =>
      succeeds (p₂.2.linearityAt ⟨2⟩ ⟨0⟩) fun q₂ => List.and
        [s.phase = .linearized, (Command.mergeLocations .internal ⟨0⟩ ⟨1⟩).Known s.graph,
          (Command.mergeLocations .internal ⟨1⟩ ⟨0⟩).Known s.graph, p₁.1 = .done, p₂.1 = .done,
          (p₁.2.graph.supply (p₁.2.graph.stores.root ⟨1⟩)
            (p₁.2.graph.classOf ⟨0⟩)).linearity = .one,
          (p₂.2.graph.supply (p₂.2.graph.stores.root ⟨1⟩)
            (p₂.2.graph.classOf ⟨0⟩)).linearity = .one,
          q₁.1 = .ok .one, q₂.1 = .ok .zero] := by
    decide +kernel
  simp only [Option.any_eq_true, succeeds_eq_true, and_decide_cons, List.and_nil, and_true] at hrun
  obtain ⟨s, hfollow, ⟨_, s₁⟩, hexec₁, ⟨_, s₂⟩, hexec₂, q₁, hasked₁, q₂, hasked₂, hphase, hknown₁,
    hknown₂, rfl, rfl, hone₁, hone₂, hanswer₁, hanswer₂⟩ := hrun
  have h : Disciplined s := reachableBy_of_follow hfollow
  have h₁ : Disciplined s₁ := h.run (.exec .refl hknown₁ hexec₁)
  have h₂ : Disciplined s₂ := h.run (.exec .refl hknown₂ hexec₂)
  exact ⟨s, s₁, s₂, h, hphase, hexec₁, hexec₂, h₁.hasLinearity hone₁, h₂.hasLinearity hone₂,
    linearityAt_of_fst ⟨q₁, hasked₁, hanswer₁⟩, linearityAt_of_fst ⟨q₂, hasked₂, hanswer₂⟩⟩

/-- An update that was made after the session was linearized is refused as if it were none. -/
lemma late_update_refused :
    ∃ s : Session Level Int, Disciplined s ∧ s.phase = .linearized ∧
      s.graph.stores.node ⟨3⟩ = .update ⟨1⟩ ⟨0⟩ 6 true .internal "late" ∧
      s.linearityAt ⟨3⟩ ⟨0⟩ = .ok (.error (.notAnUpdate ⟨3⟩), s) := by
  have hrun : (follow (fun s c => c.Known s.graph) (start ⟨2, false⟩ Level.mk)
      (soleScript ++ [.update .internal "late" ⟨1⟩ ⟨0⟩ 6 true])).any fun s =>
      succeeds (s.linearityAt ⟨3⟩ ⟨0⟩) fun q => List.and
        [s.phase = .linearized,
          s.graph.stores.node ⟨3⟩ = .update ⟨1⟩ ⟨0⟩ 6 true .internal "late",
          q.1 = .error (.notAnUpdate ⟨3⟩)] := by
    decide +kernel
  simp only [Option.any_eq_true, succeeds_eq_true, and_decide_cons, List.and_nil, and_true] at hrun
  obtain ⟨s, hfollow, q, hasked, hphase, hnode, hanswer⟩ := hrun
  exact ⟨s, reachableBy_of_follow hfollow, hphase, hnode, linearityAt_of_fst ⟨q, hasked, hanswer⟩⟩

/-- In three ways the answers are not those of the present graph: a class that is merged under
another name is looked up under that name, an update that was made later is taken for none, and an
allocation that was made later does not count. -/
theorem linearity_not_of_present_graph :
    (∃ s s₁ s₂ : Session Level Int, Disciplined s ∧ s.phase = .linearized ∧
      s.exec (.mergeLocations .internal ⟨0⟩ ⟨1⟩) = .ok (.done, s₁) ∧
      s.exec (.mergeLocations .internal ⟨1⟩ ⟨0⟩) = .ok (.done, s₂) ∧
      s₁.graph.HasLinearity (s₁.graph.classOf ⟨0⟩) (s₁.graph.stores.root ⟨1⟩) .one ∧
      s₂.graph.HasLinearity (s₂.graph.classOf ⟨0⟩) (s₂.graph.stores.root ⟨1⟩) .one ∧
      s₁.linearityAt ⟨2⟩ ⟨0⟩ = .ok (.ok .one, s₁) ∧
      s₂.linearityAt ⟨2⟩ ⟨0⟩ = .ok (.ok .zero, s₂)) ∧
    (∃ s : Session Level Int, Disciplined s ∧ s.phase = .linearized ∧
      s.graph.stores.node ⟨3⟩ = .update ⟨1⟩ ⟨0⟩ 6 true .internal "late" ∧
      s.linearityAt ⟨3⟩ ⟨0⟩ = .ok (.error (.notAnUpdate ⟨3⟩), s)) ∧
    ∃ s s' : Session Level Int, Disciplined s ∧
      s.exec (.typeAt ⟨6⟩ ⟨0⟩) = .ok (.type? (some 5), s') ∧ s'.phase = .linearized ∧
      s'.graph.stores.node ⟨6⟩ = .update ⟨2⟩ ⟨0⟩ 5 true .internal "single" ∧
      s'.graph.HasLinearity (s'.graph.classOf ⟨0⟩) (s'.graph.stores.root ⟨2⟩) .omega ∧
      s'.linearityAt ⟨6⟩ ⟨0⟩ = .ok (.ok .one, s') ∧
      ∀ t ∈ tellings s'.talk.journal, t.reason.update? ≠ some 6 :=
  ⟨linearity_by_merge_order, late_update_refused, linearity_out_of_date⟩

end Session

end HeapQual
