import HeapQual.Lattice.Level
import HeapQual.Proofs.Reaching
import HeapQual.Proofs.Session.Ledger

/-!
# What linearities mean

The linearity of a location at an update tells how many allocations of the location reach the base
of the update (`Graph.HasLinearity`).  A closed disciplined session can be linearized, and every
linearity that is asked for right afterwards is the right one
(`Session.linearize_counts_allocations`).
-/

namespace HeapQual

/-! ## The linearity of a location at a store -/

namespace Graph

variable {τ : Type} {g : Graph τ} {a i : Nat}

/-- The linearity tells how many allocations of the location reach the store. -/
structure HasLinearity (g : Graph τ) (a i : Nat) (l : Linearity) : Prop where
  zero_iff : l = .zero ↔ ∀ r, g.IsSite a r → ¬g.Reaches a r i
  one_iff : l = .one ↔ ∃ r, (g.IsSite a r ∧ g.Reaches a r i) ∧
    (∀ r', g.IsSite a r' → g.Reaches a r' i → r' = r) ∧ ¬g.Recurs a r
  omega_iff : l = .omega ↔ (∃ r, g.IsSite a r ∧ g.Reaches a r i) ∧
    ∀ r, g.IsSite a r → g.Reaches a r i →
      g.Recurs a r ∨ ∃ r', g.IsSite a r' ∧ g.Reaches a r' i ∧ r' ≠ r

lemma Several.exists_site (h : g.Several a i) : ∃ r, g.IsSite a r ∧ g.Reaches a r i := by
  rcases h with ⟨r, -, -, hr, -⟩ | ⟨r, hr, -⟩
  · exact ⟨r, hr⟩
  · exact ⟨r, hr⟩

/-- Where several allocations reach, each of them recurs or is not the only one. -/
lemma Several.recurs_or_other (h : g.Several a i) (r : Nat) :
    (g.Recurs a r) ∨ ∃ r', g.IsSite a r' ∧ g.Reaches a r' i ∧ r' ≠ r := by
  rcases h with ⟨r₁, r₂, hne, ⟨hsite₁, hr₁⟩, hsite₂, hr₂⟩ | ⟨r₁, ⟨hsite₁, hr₁⟩, hrecurs⟩
  · by_cases hr : r₁ = r
    · exact Or.inr ⟨r₂, hsite₂, hr₂, fun heq => hne (hr.trans heq.symm)⟩
    · exact Or.inr ⟨r₁, hsite₁, hr₁, hr⟩
  · by_cases hr : r₁ = r
    · exact Or.inl (hr ▸ hrecurs)
    · exact Or.inr ⟨r₁, hsite₁, hr₁, hr⟩

theorem Counts.hasLinearity {w : Supply} (h : g.Counts a i w) : g.HasLinearity a i w.linearity := by
  -- The three readings exclude one another, so each case gives one equivalence and refutes two.
  cases w with
  | none =>
    refine ⟨⟨fun _ => h, fun _ => rfl⟩, ⟨nofun, ?_⟩, ⟨nofun, ?_⟩⟩
    · rintro ⟨r, ⟨hsite, hr⟩, -⟩
      exact absurd hr (h r hsite)
    · rintro ⟨⟨r, hsite, hr⟩, -⟩
      exact absurd hr (h r hsite)
  | once r =>
    obtain ⟨⟨hsite, hr⟩, honly, hrecurs⟩ := h
    refine ⟨⟨nofun, fun hnone => absurd hr (hnone r hsite)⟩,
      ⟨fun _ => ⟨r, ⟨hsite, hr⟩, honly, hrecurs⟩, fun _ => rfl⟩, ⟨nofun, ?_⟩⟩
    rintro ⟨-, hall⟩
    rcases hall r hsite hr with hloop | ⟨r', hsite', hr', hne⟩
    · exact absurd hloop hrecurs
    · exact absurd (honly r' hsite' hr') hne
  | many =>
    have hseveral : g.Several a i := h
    obtain ⟨r, hsite, hr⟩ := hseveral.exists_site
    refine ⟨⟨nofun, fun hnone => absurd hr (hnone r hsite)⟩, ⟨nofun, ?_⟩,
      ⟨fun _ => ⟨⟨r, hsite, hr⟩, fun r _ _ => hseveral.recurs_or_other r⟩, fun _ => rfl⟩⟩
    rintro ⟨r, -, honly, hrecurs⟩
    rcases hseveral.recurs_or_other r with hloop | ⟨r', hsite', hr', hne⟩
    · exact absurd hloop hrecurs
    · exact absurd (honly r' hsite' hr') hne

end Graph

namespace Session

variable {σ τ : Type}

/-! ## The table of linearities -/

lemma mem_updateSites_of_node {g : Graph τ} {i : Nat} {base : StoreId} {a : LocationId} {type : τ}
    {strong : Bool} {position : Position} {message : String} (hi : i ∈ g.stores.classes.roots)
    (hnode : g.stores.nodeAt i = .update base a type strong position message) :
    ⟨i, g.stores.root base, g.classOf a, strong⟩ ∈ updateSites g := by
  refine List.mem_filterMap.2 ⟨i, hi, ?_⟩
  simp only [hnode]

/-- Every entry of the table is that of an update, and has what reaches the base of it. -/
lemma exists_update_of_lookup {g : Graph τ} {i : Nat} {values : Array Supplies}
    {supplies : Supplies}
    (h : (tabulate values (updateSites g)).byUpdate.lookup i = some supplies) :
    ∃ base a type strong position message,
      g.stores.nodeAt i = .update base a type strong position message ∧
        supplies = values[g.stores.root base]?.getD #[] := by
  obtain ⟨entries, rest, heq, -⟩ := List.lookup_eq_some_iff.1 h
  have hmem : (i, supplies) ∈ (tabulate values (updateSites g)).byUpdate := by
    rw [heq]
    exact List.mem_append_right _ (List.mem_cons_self ..)
  obtain ⟨⟨store, base', location, strong⟩, hsite, hpair⟩ := List.mem_map.1 hmem
  obtain ⟨hstore, hsupplies⟩ := Prod.mk.inj hpair
  obtain ⟨base, a, type, position, message, hnode, hbase, -⟩ := mem_updateSites hsite
  simp only at hstore hnode hbase
  subst hstore
  exact ⟨base, a, type, strong, position, message, hnode, by rw [← hsupplies, suppliesAt, hbase]⟩

/-- The table has what reaches the base of every update. -/
lemma lookup_byUpdate {g : Graph τ} {i : Nat} {base : StoreId} {a : LocationId} {type : τ}
    {strong : Bool} {position : Position} {message : String} (values : Array Supplies)
    (hi : i ∈ g.stores.classes.roots)
    (hnode : g.stores.nodeAt i = .update base a type strong position message) :
    (tabulate values (updateSites g)).byUpdate.lookup i =
      some (values[g.stores.root base]?.getD #[]) := by
  have hentry : ((tabulate values (updateSites g)).byUpdate.lookup i).isSome = true :=
    List.lookup_isSome_iff.2 ⟨_, List.mem_map.2 ⟨_, mem_updateSites_of_node hi hnode, rfl⟩,
      beq_self_eq_true i⟩
  obtain ⟨supplies, hlookup⟩ := Option.isSome_iff_exists.1 hentry
  -- Whichever entry it is, it is that of this update.
  obtain ⟨_, _, _, _, _, _, hnode', rfl⟩ := exists_update_of_lookup hlookup
  cases hnode'.symm.trans hnode
  exact hlookup

variable [QualifierLattice σ τ] {s s' : Session σ τ}

/-- A closed disciplined session can be linearized. -/
lemma exists_linearize (h : Disciplined s) (hclosed : s.phase = .closed) :
    ∃ s', s.linearize = .ok (.ok (), s') := by
  obtain ⟨s₁, hsolved⟩ := h.coherent.exists_solved h.layered.validate_eq_ok
  unfold linearize
  rw [hclosed]
  exact ⟨_, bind_eq_ok_iff.2 ⟨_, hsolved, rfl⟩⟩

/-- Linearizing records what reaches the bases of the updates of the present graph. -/
lemma Coherent.linearize_spec (hs : s.Coherent) (h : s.linearize = .ok (.ok (), s')) :
    s'.graph = s.graph ∧ s'.phase = .linearized ∧
      s'.linearities =
        tabulate (s.graph.solveSupplies s.graph.solve).values (updateSites s.graph) := by
  obtain ⟨-, sol, s₁, s₂, hsolved, hmentions, rfl⟩ := demotes_of_linearize h
  obtain ⟨rfl, hgraph₁, -, -⟩ := hs.solved_spec hsolved
  have hgraph₂ : s₂.graph = s.graph := hmentions.graph_eq.trans hgraph₁
  obtain ⟨linearities, flow, heq⟩ := s₂.demoteAll_eq s.graph.solve
  rw [linearities_demoteAll, hgraph₂]
  exact ⟨heq ▸ hgraph₂, by rw [heq], rfl⟩

/-- Right after linearizing, the linearity at an update is what reaches its base. -/
lemma Coherent.linearityAt_eq (hs : s.Coherent) (h : s.linearize = .ok (.ok (), s')) {x : StoreId}
    {a b : LocationId} {base : StoreId} {type : τ} {strong : Bool} {position : Position}
    {message : String} (ha : a.index < s.graph.locations.size)
    (hnode : s.graph.stores.node x = .update base b type strong position message) :
    s'.linearityAt x a =
      .ok (.ok (s.graph.supply (s.graph.stores.root base) (s.graph.classOf a)).linearity, s') := by
  obtain ⟨hgraph, hphase, hlinearities⟩ := hs.linearize_spec h
  have hvar : (s.graph.stores.nodeAt x.index).isVariable = false := by
    rw [← hs.sound.stores.isVariable_node, hnode]
    rfl
  have hx := Stores.lt_size_of_not_isVariable hvar
  have hfindx : s'.graph.stores.find x = .ok (s.graph.stores.root x) := by
    rw [hgraph]
    exact Stores.find_eq_ok_iff.2 ⟨hx, rfl⟩
  have hfinda : s'.graph.locations.find a = .ok (s.graph.classOf a) := by
    rw [hgraph]
    exact Locations.find_eq_ok_iff.2 ⟨ha, rfl⟩
  have hlookup := lookup_byUpdate (s.graph.solveSupplies s.graph.solve).values
    (hs.sound.stores.root_mem_roots hx) hnode
  rw [← hlinearities] at hlookup
  unfold linearityAt
  rw [show s'.refuseUnlinearized = none by simp [refuseUnlinearized, hphase]]
  refine bind_eq_ok_iff.2 ⟨_, hfindx, ?_⟩
  rw [hlookup]
  exact bind_eq_ok_iff.2 ⟨_, hfinda, rfl⟩

/-- The search for reaching allocations ends by itself in every disciplined session, and linearizing
succeeds as soon as the session is closed.  Right after it succeeded, the linearity of any location
at any update tells how many allocations of the location reach the base of the update in the present
graph. -/
theorem linearize_counts_allocations (h : Disciplined s) :
    (s.graph.solveSupplies s.graph.solve).queue = [] ∧
      (s.phase = .closed → ∃ s', s.linearize = .ok (.ok (), s')) ∧
      ∀ s', s.linearize = .ok (.ok (), s') → s'.graph = s.graph ∧
        ∀ x a base b type strong position message, a.index < s.graph.locations.size →
          s.graph.stores.node x = .update base b type strong position message →
          ∃ l, s'.linearityAt x a = .ok (.ok l, s') ∧
            s.graph.HasLinearity (s.graph.classOf a) (s.graph.stores.root base) l := by
  have hs := h.coherent
  refine ⟨hs.sound.graded_supplyEquations.queue_solve, exists_linearize h, ?_⟩
  intro s' hlinearize
  refine ⟨(hs.linearize_spec hlinearize).1, ?_⟩
  intro x a base b type strong position message ha hnode
  refine ⟨_, hs.linearityAt_eq hlinearize ha hnode, ?_⟩
  exact (hs.sound.counts_supply (hs.sound.classOf_lt a ha) _).hasLinearity

/-- An allocation of `x`, an update of it that flows into a loop, and an allocation of `y` in the
loop. -/
def loopedScript : List (Command Int) :=
  [.makeLocation "x" 0, .makeLocation "y" 0, .storeVariable .internal "base",
    .allocate .internal ⟨0⟩ ⟨0⟩, .update .internal "first" ⟨1⟩ ⟨0⟩ 1 true,
    .storeVariable .internal "loop", .includeStore .internal "in" ⟨2⟩ ⟨3⟩,
    .allocate .internal ⟨3⟩ ⟨1⟩, .includeStore .internal "back" ⟨4⟩ ⟨3⟩,
    .update .internal "second" ⟨4⟩ ⟨1⟩ 1 true, .close]

theorem linearize_counts_allocations_looped :
    ∃ s s' : Session Level Int, Disciplined s ∧ s.linearize = .ok (.ok (), s') ∧
      s'.linearityAt ⟨2⟩ ⟨1⟩ = .ok (.ok .zero, s') ∧ s'.linearityAt ⟨5⟩ ⟨0⟩ = .ok (.ok .one, s') ∧
      s'.linearityAt ⟨5⟩ ⟨1⟩ = .ok (.ok .omega, s') ∧
      s.graph.HasLinearity (s.graph.classOf ⟨1⟩) (s.graph.stores.root ⟨1⟩) .zero ∧
      s.graph.HasLinearity (s.graph.classOf ⟨0⟩) (s.graph.stores.root ⟨4⟩) .one ∧
      s.graph.HasLinearity (s.graph.classOf ⟨1⟩) (s.graph.stores.root ⟨4⟩) .omega := by
  have hrun : (follow (fun s c => c.Known s.graph) (start ⟨2, false⟩ Level.mk) loopedScript).any
      fun s => succeeds s.linearize fun p => List.and
        [p.1 = .ok (), s.graph.locations.size = 2,
          s.graph.stores.node ⟨2⟩ = .update ⟨1⟩ ⟨0⟩ 1 true .internal "first",
          s.graph.stores.node ⟨5⟩ = .update ⟨4⟩ ⟨1⟩ 1 true .internal "second",
          (p.2.linearityAt ⟨2⟩ ⟨1⟩).map Prod.fst = .ok (.ok .zero),
          (p.2.linearityAt ⟨5⟩ ⟨0⟩).map Prod.fst = .ok (.ok .one),
          (p.2.linearityAt ⟨5⟩ ⟨1⟩).map Prod.fst = .ok (.ok .omega)] := by
    decide +kernel
  simp only [Option.any_eq_true, succeeds_eq_true, and_decide_cons, List.and_nil, and_true] at hrun
  obtain ⟨s, hfollow, ⟨_, s'⟩, hlinearize, rfl, hsize, hfirst, hsecond, hzero, hone, homega⟩ := hrun
  have h : Disciplined s := reachableBy_of_follow hfollow
  obtain ⟨-, -, hcounts⟩ := linearize_counts_allocations h
  obtain ⟨-, hcounts⟩ := hcounts s' hlinearize
  obtain ⟨l₀, hl₀, hzero'⟩ := hcounts ⟨2⟩ ⟨1⟩ _ _ _ _ _ _ (by rw [hsize]; decide) hfirst
  obtain ⟨l₁, hl₁, hone'⟩ := hcounts ⟨5⟩ ⟨0⟩ _ _ _ _ _ _ (by rw [hsize]; decide) hsecond
  obtain ⟨l₂, hl₂, homega'⟩ := hcounts ⟨5⟩ ⟨1⟩ _ _ _ _ _ _ (by rw [hsize]; decide) hsecond
  -- The answers are the ones observed, and the theorem says what they mean.
  rw [hl₀] at hzero
  rw [hl₁] at hone
  rw [hl₂] at homega
  cases hzero
  cases hone
  cases homega
  exact ⟨s, s', h, hlinearize, hl₀, hl₁, hl₂, hzero', hone', homega'⟩

end Session

end HeapQual
