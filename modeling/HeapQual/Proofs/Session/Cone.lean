import HeapQual.Lattice.Taint
import HeapQual.Proofs.Session.Ledger

/-!
# What flows into a cell that is read

The contents of a cell come from its backward cone (`View.Cone`): the stores below its subset edges,
the stores that it passes the search for its type on to, and the bases of updates that keep the old
contents.  When a type is given out, everything that the graph demands of the cells in the cone was
sent to the lattice, once in the whole session (`Session.typeAt_sends_cone`).

The types of the cells may have changed since.  An allocation, for instance, gives its own type as
long as its base does not bind its location, and passes the question on from then on; and what was
sent is not sent again.  What was told still stands for the present types if the search for them
ends where it did then (`Session.FoundAsIn`), for the types of merged cells are equated
(`Session.Remembers`).  Otherwise the present types may be left out
(`Session.typeAt_sends_cone_late`).
-/

namespace HeapQual

/-! ## Cells of a grown graph -/

section Reroot

variable {τ : Type} {g g' : Graph τ}

/-- What was found at a cell, by the present roots. -/
def Binding.reroot (g : Graph τ) : Binding τ → Binding τ
  | value type => .value type
  | owned c => .owned (c.reroot g)

/-- A mark stands for one demand, also after the graph has grown: the cells are those that the
earlier ones have become. -/
lemma View.Demands.reroot_eq {v v' : View τ} (hext : v.graph.Extends v'.graph)
    (hv' : v'.Faithful) {c c' lower lower' : Cell} {reason reason' : Reason}
    (h : v.Demands c reason lower) (h' : v'.Demands c' reason' lower')
    (hbound : v'.isBound c' = true) (hmark : reason.SameMark reason') :
    c.reroot v'.graph = c' ∧ lower.reroot v'.graph = lower' := by
  obtain ⟨store, location⟩ := c
  obtain ⟨store', location'⟩ := c'
  obtain ⟨hedge, hupdate⟩ := hmark
  have hstores : ∀ x, v'.graph.stores.classes.root (v.storeRoot x) = v'.storeRoot x :=
    fun x => hext.stores.root_root x.index
  have hlocations : ∀ a, v'.graph.locations.classes.root (v.graph.classOf a) = v'.graph.classOf a :=
    fun a => hext.locations.root_root a.index
  -- One mark stands for one edge or one update, and these have kept what they name. So only the
  -- roots can have moved.
  cases h with
  | edge hnumber hright =>
    cases h' with
    | edge hnumber' hright' =>
      cases hedge
      cases (hext.edge_eq _ _ hnumber).symm.trans hnumber'
      have hlocation := hv'.solved.root_location hbound
      dsimp only at hright hright' hlocation
      rw [Cell.reroot, Cell.reroot, ← hright, ← hright', hstores, hstores, hlocation]
      exact ⟨rfl, rfl⟩
    | update => cases hedge
  | update hnode hown =>
    cases h' with
    | edge => cases hedge
    | update hnode' hown' =>
      cases hupdate
      have hlt : store < v.graph.stores.size := Stores.lt_size_of_not_isVariable (by
        rw [show v.graph.stores.nodeAt store = _ from hnode]
        rfl)
      cases (hnode.symm.trans (hext.store_eq store hlt).symm).trans hnode'
      have hstore := hv'.solved.root_store hbound
      dsimp only at hown hown' hstore
      rw [Cell.reroot, Cell.reroot, ← hown, ← hown', hstores, hlocations, hstore]
      exact ⟨rfl, rfl⟩

end Reroot

namespace Session

variable {σ τ : Type} {command : Command τ} {P : Prop} {s s' s₀ : Session σ τ}
  {new : List (Telling τ)}

/-! ## Types that were equated -/

/-- The lattice was told that the two types are equal, because cells or locations were merged. -/
def Equates (s : Session σ τ) (type type' : τ) : Prop :=
  ∃ reason, (reason = .cells ∨ reason = .locations) ∧
    ⟨reason, type, type'⟩ ∈ tellings s.talk.journal ∧
    ⟨reason, type', type⟩ ∈ tellings s.talk.journal

/-- The two types are equal by what the lattice was told about merged cells and locations. -/
def Equated (s : Session σ τ) : τ → τ → Prop := Relation.EqvGen s.Equates

lemma Equated.mono {type type' : τ} (h : s.Equated type type')
    (htells : s.talk.Tells new s'.talk) : s'.Equated type type' := by
  refine Relation.EqvGen.mono (fun q q' hq => ?_) _ _ h
  obtain ⟨reason, hreason, hforth, hback⟩ := hq
  exact ⟨reason, hreason, htells.mem_tellings.2 (Or.inr hforth),
    htells.mem_tellings.2 (Or.inr hback)⟩

/-- The type that the cell of a variable once had is still the type of what the cell has become, or
was equated to it. -/
def Remembers (s : Session σ τ) (c : Cell) (type : τ) : Prop :=
  ∃ d kept, s.flow.types.lookup d = some kept ∧ s.Equated type kept ∧
    d.reroot s.graph = c.reroot s.graph ∧ (s.solution ≠ none → d = c.reroot s.graph)

variable {c : Cell} {type : τ} [QualifierLattice σ τ]

lemma Remembers.build (h : s.Remembers c type) (hbuild : Build P command s s') :
    s'.Remembers c type := by
  obtain ⟨d, kept, hlookup, hequated, hreroot, hroot⟩ := h
  cases hbuild with
  | speak hspeaks =>
    obtain ⟨new, htells, -⟩ := hspeaks.toSays
    exact ⟨d, kept, hlookup, hequated.mono htells, hreroot, hroot⟩
  | tweak _ htweaks =>
    refine ⟨d, kept, hlookup, hequated, ?_, fun hne => ?_⟩
    · rw [Cell.reroot_of_tweaks htweaks, Cell.reroot_of_tweaks htweaks, hreroot]
    · rw [Cell.reroot_of_tweaks htweaks, ← hroot hne]
  | @grow graph hgrows =>
    obtain ⟨talk, questions, settled, heq, htells, -⟩ := forget_eq ({ s with graph } : Session σ τ)
    rw [heq]
    refine ⟨d, kept, hlookup, hequated.mono htells, ?_, fun hne => absurd rfl hne⟩
    show d.reroot graph = c.reroot graph
    rw [← Cell.reroot_reroot hgrows.toExtends, hreroot, Cell.reroot_reroot hgrows.toExtends]
  | remember => exact ⟨d, kept, hlookup, hequated, hreroot, hroot⟩
  | exclude => exact ⟨d, kept, hlookup, hequated, hreroot, hroot⟩
  | request => exact ⟨d, kept, hlookup, hequated, hreroot, hroot⟩

lemma Remembers.ask (h : s.Remembers c type) (hs : s.Coherent) (hlayered : s.graph.Layered)
    (hask : Ask command s s') : s'.Remembers c type := by
  obtain ⟨d, kept, hlookup, hequated, hreroot, hroot⟩ := h
  rcases hask.solves_or_advances hs hlayered with ⟨-, rfl⟩ | ⟨new, hadvances⟩
  · obtain ⟨new, htells, hnew, hkept, -⟩ := Flow.rekey_spec s.graph s.flow
    obtain ⟨kept', hlookup', hclash⟩ := hkept d kept hlookup
    have hequated' : ({ s with
        solution := some s.graph.solve, flow := s.flow.rekey s.graph } : Session σ τ).Equated
          type kept := hequated.mono htells
    refine ⟨d.reroot s.graph, kept', hlookup', ?_, ?_, fun _ => hreroot⟩
    · rcases hclash with rfl | ⟨hback, hforth⟩
      · exact hequated'
      · refine .trans _ _ _ hequated' (.rel _ _ ⟨.cells, Or.inl rfl, ?_, ?_⟩)
        · exact htells.mem_tellings.2 (Or.inl hforth)
        · exact htells.mem_tellings.2 (Or.inl hback)
    · show (d.reroot s.graph).reroot s.graph = c.reroot s.graph
      rw [Cell.reroot_reroot (.refl hs.sound), hreroot]
  · refine ⟨d, kept, hadvances.settles.sends.keeps d kept hlookup, ?_, ?_, ?_⟩
    · exact hequated.mono hadvances.settles.sends.tells
    · rw [hadvances.graph_eq, hreroot]
    · rw [hadvances.graph_eq, hadvances.solution_eq]
      exact hroot

theorem DisciplinedRun.remembers (h : DisciplinedRun s s') (hs : Disciplined s)
    (hc : s.Remembers c type) : s'.Remembers c type := by
  refine DisciplinedRun.induction (motive := (·.Remembers c type)) hs hc ?_ (fun _ _ h => h) h
  intro command s₁ s₂ hdisciplined _ hmoves
  exact hmoves.preserves (motive := (·.Remembers c type)) (fun _ _ _ hbuild h => h.build hbuild)
    (fun _ _ hcoherent hlayered hask h => h.ask hcoherent hlayered hask)
    (ReachableBy.coherent hdisciplined) hdisciplined.layered

/-- The search for the type of what a cell has become ends where the search from the cell ended in
the earlier session. -/
def FoundAsIn (s₀ : Session σ τ) (c : Cell) (s : Session σ τ) : Prop :=
  (s.view s.graph.solve).binding (c.reroot s.graph) =
    ((s₀.view s₀.graph.solve).binding c).map (Binding.reroot s.graph)

/-- If the search ends where it did, the type is the earlier one, or was equated to it. -/
theorem FoundAsIn.equated (h : s₀.FoundAsIn c s) (hs₀ : Disciplined s₀)
    (hrun : DisciplinedRun s₀ s) (hsolved : s.solution ≠ none)
    (hheld : s₀.flow.held (s₀.view s₀.graph.solve) c = some type) {type' : τ}
    (htype' : s.typeOf (c.reroot s.graph) = some type') : s.Equated type type' := by
  have hv₀ : (s₀.view s₀.graph.solve).Faithful := hs₀.faithful rfl
  unfold FoundAsIn at h
  unfold Flow.held at hheld
  cases hbinding : (s₀.view s₀.graph.solve).binding c with
  | none =>
    rw [hbinding] at hheld
    cases hheld
  | some b =>
    rw [hbinding] at hheld h
    cases b with
    | value q =>
      cases hheld
      have hvalue : s.typeOf (c.reroot s.graph) = some type := by
        rw [typeOf, Flow.read, h]
        rfl
      cases htype'.symm.trans hvalue
      exact .refl _
    | owned d =>
      have hbound := (View.isBound_of_binding hbinding).1
      have hd : d.reroot s₀.graph = d := by
        have hstore : s₀.graph.stores.classes.root d.store = d.store := hv₀.solved.root_store hbound
        have hlocation : s₀.graph.locations.classes.root d.location = d.location :=
          hv₀.solved.root_location hbound
        rw [Cell.reroot, hstore, hlocation]
      -- The search ends at a cell of a variable, whose type is remembered through merges, up to
      -- types that were equated with it.
      have hremembers : s₀.Remembers d type := ⟨d, type, hheld, .refl _, rfl, fun _ => hd.symm⟩
      obtain ⟨d', kept, hlookup, hequated, -, hroot⟩ := hrun.remembers hs₀ hremembers
      have hheld' : s.flow.held (s.view s.graph.solve) (c.reroot s.graph) = some kept := by
        rw [Flow.held, h, ← hlookup, hroot hsolved]
        rfl
      have hkept : s.typeOf (c.reroot s.graph) = some kept := Flow.read_of_held hheld'
      cases htype'.symm.trans hkept
      exact hequated

/-! ## Reading settles the cone -/

omit [QualifierLattice σ τ] in
lemma findCell_eq_ok {x : StoreId} {a : LocationId} (h : s.findCell x a = .ok c) :
    x.index < s.graph.stores.size ∧ a.index < s.graph.locations.size ∧
      c = ⟨s.graph.stores.root x, s.graph.classOf a⟩ := by
  obtain ⟨store, hstore, h⟩ := bind_eq_ok_iff.1 h
  obtain ⟨location, hlocation, h⟩ := bind_eq_ok_iff.1 h
  cases h
  unfold Stores.find at hstore
  unfold Locations.find at hlocation
  split at hstore
  · rename_i hx
    split at hlocation
    · rename_i ha
      cases hstore
      cases hlocation
      exact ⟨hx, ha, rfl⟩
    · cases hlocation
  · cases hstore

/-- A cell of which the type was given out is bound and settled. -/
lemma settled_of_typeAt (hs : Disciplined s) {x : StoreId} {a : LocationId}
    (h : s.typeAt x a = .ok (.ok (some type), s')) :
    x.index < s.graph.stores.size ∧ a.index < s.graph.locations.size ∧ s'.solution ≠ none ∧
      (s'.view s'.graph.solve).isBound ⟨s'.graph.stores.root x, s'.graph.classOf a⟩ = true ∧
      ⟨s'.graph.stores.root x, s'.graph.classOf a⟩ ∈ s'.flow.settled := by
  unfold typeAt at h
  split at h
  · cases h
  · rename_i hrefuse
    obtain ⟨⟨sol, s₁⟩, hsolved, h⟩ := bind_eq_ok_iff.1 h
    obtain ⟨c, hcell, h⟩ := bind_eq_ok_iff.1 h
    obtain ⟨hasks, hsol, hphase⟩ := asks_solved (c := .typeAt x a) hsolved
    have hopened : s₁.phase ≠ .opened := by
      rw [hphase, refuseUnlinearized_eq_none hrefuse]
      simp
    have hcoherent := (ReachableBy.coherent hs).moves (P := False) (Or.inr ⟨hasks, hopened⟩)
    have hgraph : s₁.graph = s.graph := Asks.graph_eq hasks
    obtain ⟨hx, ha, rfl⟩ := findCell_eq_ok hcell
    cases hcoherent.solution_eq sol hsol
    have hv : (s₁.view s₁.graph.solve).Faithful := hs.faithful hgraph
    -- The cell is bound, because its type was found.
    generalize hc : (⟨s₁.graph.stores.root x, s₁.graph.classOf a⟩ : Cell) = c at h
    obtain ⟨new, hsettles, hsettled⟩ := Flow.settles_settle hv s₁.flow [c]
    have hread := Flow.sends_read (s₁.view s₁.graph.solve)
      (s₁.flow.settle (s₁.view s₁.graph.solve) [c]) c
    injection h with h
    injection h with htype hs'
    injection htype with htype
    have hbound : (s₁.view s₁.graph.solve).isBound c = true := by
      by_contra hunbound
      have hnone : (s₁.view s₁.graph.solve).binding c = none := by
        by_contra hsome
        obtain ⟨b, hb⟩ := Option.ne_none_iff_exists'.1 hsome
        exact hunbound (View.isBound_of_binding_eq_some hb)
      have hnil : ((s₁.flow.settle (s₁.view s₁.graph.solve) [c]).read
          (s₁.view s₁.graph.solve) c).1 = none := by
        rw [Flow.read, hnone]
      exact absurd (htype.symm.trans hnil) (by simp)
    rw [← hs']
    refine ⟨hgraph ▸ hx, hgraph ▸ ha, ?_, ?_, ?_⟩
    · show s₁.solution ≠ none
      simp [hsol]
    · show (s₁.view s₁.graph.solve).isBound ⟨s₁.graph.stores.root x, s₁.graph.classOf a⟩ = true
      rw [hc]
      exact hbound
    · show ⟨s₁.graph.stores.root x, s₁.graph.classOf a⟩ ∈
        ((s₁.flow.settle (s₁.view s₁.graph.solve) [c]).read (s₁.view s₁.graph.solve) c).2.settled
      rw [hc, hread.settled_eq]
      exact hsettled c (List.mem_singleton_self c) hbound

omit [QualifierLattice σ τ] in
/-- With a cell its whole cone is bound and settled. -/
lemma Ledger.settled_of_cone (hs : s.Ledger) (hv : (s.view s.graph.solve).Faithful) {d : Cell}
    (h : (s.view s.graph.solve).Cone c d) (hbound : (s.view s.graph.solve).isBound c = true)
    (hc : c ∈ s.flow.settled) :
    (s.view s.graph.solve).isBound d = true ∧ d ∈ s.flow.settled := by
  induction h with
  | start => exact ⟨hbound, hc⟩
  | @demand d lower reason _ hdemand ih =>
    refine ⟨hdemand.isBound, (hs.finished d ih.2).2 lower ?_⟩
    exact View.mem_sources_iff.2 (Or.inl ⟨reason, hdemand⟩)
  | @step d store _ hstep ih =>
    have hnext := (hv.solved.step_eq_next hstep).2
    refine ⟨hnext, (hs.finished d ih.2).2 _ ?_⟩
    exact View.mem_sources_iff.2 (Or.inr ⟨hstep, rfl, hnext⟩)

omit [QualifierLattice σ τ] in
/-- For an edge and for an update the lattice was told at most one inequality. -/
lemma Ledger.filter_tellings_eq (hs : s.Ledger) {reason : Reason} (hmarkable : reason.Markable)
    {t : Telling τ} (ht : t ∈ tellings s.talk.journal) (hmark : t.reason.SameMark reason) :
    (tellings s.talk.journal).filter (·.reason.SameMark reason) = [t] := by
  -- No mark is set twice, so no two tellings have it.
  have hpairwise : (tellings s.talk.journal).Pairwise fun t₁ t₂ =>
      ¬(t₁.reason.SameMark reason ∧ t₂.reason.SameMark reason) := by
    rcases hmarkable with ⟨key, hkey⟩ | ⟨store, hstore⟩
    · have hnodup := hs.nodup_edges
      rw [hs.sentEdges_eq, List.Nodup, List.pairwise_filterMap] at hnodup
      refine hnodup.imp fun hne hmarks => ?_
      exact hne key (hmarks.1.1.trans hkey) key (hmarks.2.1.trans hkey) rfl
    · have hnodup := hs.nodup_updates
      rw [hs.sentUpdates_eq, List.Nodup, List.pairwise_filterMap] at hnodup
      refine hnodup.imp fun hne hmarks => ?_
      exact hne store (hmarks.1.2.trans hstore) store (hmarks.2.2.trans hstore) rfl
  have hmem : t ∈ (tellings s.talk.journal).filter (·.reason.SameMark reason) :=
    List.mem_filter.2 ⟨ht, decide_eq_true hmark⟩
  have hmarks : ∀ t' ∈ (tellings s.talk.journal).filter (·.reason.SameMark reason),
      t'.reason.SameMark reason := fun t' ht' => of_decide_eq_true (List.mem_filter.1 ht').2
  have hfilter := hpairwise.filter (fun t => decide (t.reason.SameMark reason))
  generalize (tellings s.talk.journal).filter (·.reason.SameMark reason) = found
    at hmem hmarks hfilter
  cases hfilter with
  | nil => exact absurd hmem List.not_mem_nil
  | @cons first rest hfirst =>
    cases rest with
    | nil => rw [List.mem_singleton.1 hmem]
    | cons second rest =>
      refine absurd ⟨hmarks first ?_, hmarks second ?_⟩ (hfirst second (List.mem_cons_self ..))
      · exact List.mem_cons_self ..
      · exact List.mem_cons_of_mem _ (List.mem_cons_self ..)

/-! ## What was told about the cone -/

omit [QualifierLattice σ τ] in
/-- The lattice was told at some point, for this or another reason, that the one type is at most the
other, or that types equated to them are. -/
def Received (s : Session σ τ) (l r : τ) : Prop :=
  ∃ t ∈ tellings s.talk.journal, s.Equated t.lower l ∧ s.Equated t.upper r

/-- The one inequality that was told about a demand: it was told in an earlier session, in which the
graph made the demand already, between the types that the two cells had there. -/
structure SentIn (s₀ : Session σ τ) (c₀ lower₀ : Cell) (t : Telling τ) (s : Session σ τ) (c : Cell)
    (reason : Reason) (lower : Cell) : Prop where
  told_once : (tellings s.talk.journal).filter (·.reason.SameMark reason) = [t]
  disciplined : Disciplined s₀
  run : DisciplinedRun s₀ s
  upper_reroot : c₀.reroot s.graph = c
  lower_reroot : lower₀.reroot s.graph = lower
  demands : (s₀.view s₀.graph.solve).Demands c₀ t.reason lower₀
  lower_eq : s₀.typeOf lower₀ = some t.lower
  upper_eq : s₀.typeOf c₀ = some t.upper

/-- When the type of a cell was given out, then everything that the graph demands of the cells in
its backward cone was sent to the lattice once, between the types that the cells had when it was
sent.  The lattice received the inequality between their present types exactly if the types told
were equated to the present ones, or if it was told so for another reason; and the types told were
equated to the present ones if the search for them ends where it ended then. -/
theorem typeAt_sends_cone (h : Disciplined s) {x : StoreId} {a : LocationId}
    (hread : s.exec (.typeAt x a) = .ok (.type? (some type), s')) {lower : Cell} {reason : Reason}
    (hcone : (s'.view s'.graph.solve).Cone ⟨s'.graph.stores.root x, s'.graph.classOf a⟩ c)
    (hdemand : (s'.view s'.graph.solve).Demands c reason lower) :
    ∃ s₀ c₀ lower₀ t l r, SentIn s₀ c₀ lower₀ t s' c reason lower ∧
      s'.typeOf lower = some l ∧ s'.typeOf c = some r ∧
      (s'.Received l r ↔ s'.Equated t.lower l ∧ s'.Equated t.upper r ∨
        ∃ t' ∈ tellings s'.talk.journal, ¬t'.reason.SameMark reason ∧
          s'.Equated t'.lower l ∧ s'.Equated t'.upper r) ∧
      (s₀.FoundAsIn lower₀ s' → s'.Equated t.lower l) ∧
      (s₀.FoundAsIn c₀ s' → s'.Equated t.upper r) := by
  have htypeAt : s.typeAt x a = .ok (.ok (some type), s') := by
    have hperform := perform_eq_ok_of_exec hread
    obtain ⟨⟨answer, s₁⟩, htypeAt, hreply⟩ := bind_eq_ok_iff.1 hperform
    cases answer with
    | error r => cases hreply
    | ok q =>
      cases hreply
      exact htypeAt
  obtain ⟨hx, ha, hsolved, hbound, hsettled⟩ := settled_of_typeAt h htypeAt
  have hknown : (Command.typeAt x a).Known s.graph :=
    ⟨fun b hb => List.mem_singleton.1 hb ▸ ha, fun e he => absurd he List.not_mem_nil,
      fun y hy => List.mem_singleton.1 hy ▸ hx⟩
  have h' : Disciplined s' := ReachableBy.run h (.exec .refl hknown hread)
  have hledger := h'.ledger
  have hv : (s'.view s'.graph.solve).Faithful := h'.faithful rfl
  obtain ⟨hc, hcsettled⟩ := hledger.settled_of_cone hv hcone hbound hsettled
  -- The demand is marked, so it was told.
  obtain ⟨t, ht, hmark⟩ := ((hledger.finished c hcsettled).1 reason lower hdemand).exists_telling
    hdemand.markable hledger.sentEdges_eq hledger.sentUpdates_eq
  have htmarkable : t.reason.Markable := by
    rw [Reason.Markable, hmark.1, hmark.2]
    exact hdemand.markable
  obtain ⟨s₀, hs₀, hrun, -, c₀, lower₀, -, hdemand₀, hl₀, hr₀⟩ := h'.exists_toldAt htmarkable ht
  have hext : s₀.graph.Extends s'.graph :=
    (hrun.grows (P := True) (ReachableBy.coherent hs₀).sound fun _ _ hc _ => hc).toExtends
  obtain ⟨hcell, hlower⟩ := hdemand₀.reroot_eq hext hv hdemand hc hmark
  have hcell : c₀.reroot s'.graph = c := hcell
  have hlower : lower₀.reroot s'.graph = lower := hlower
  obtain ⟨l, hl⟩ := Flow.exists_read hv hdemand.isBound s'.flow
  obtain ⟨r, hr⟩ := Flow.exists_read hv hc s'.flow
  have honce := hledger.filter_tellings_eq hdemand.markable ht hmark
  refine ⟨s₀, c₀, lower₀, t, l, r, ⟨honce, hs₀, hrun, hcell, hlower, hdemand₀,
    Flow.read_of_held hl₀, Flow.read_of_held hr₀⟩, hl, hr, ⟨?_, ?_⟩, fun hfound => ?_,
    fun hfound => ?_⟩
  · rintro ⟨t', ht', hequated⟩
    by_cases hsame : t'.reason.SameMark reason
    · have hmem : t' ∈ (tellings s'.talk.journal).filter (·.reason.SameMark reason) :=
        List.mem_filter.2 ⟨ht', decide_eq_true hsame⟩
      rw [honce] at hmem
      rw [List.mem_singleton.1 hmem] at hequated
      exact Or.inl hequated
    · exact Or.inr ⟨t', ht', hsame, hequated⟩
  · rintro (hequated | ⟨t', ht', -, hequated⟩)
    · exact ⟨t, ht, hequated⟩
    · exact ⟨t', ht', hequated⟩
  · exact hfound.equated hs₀ hrun hsolved hl₀ (hlower.symm ▸ hl)
  · exact hfound.equated hs₀ hrun hsolved hr₀ (hcell.symm ▸ hr)

omit [QualifierLattice σ τ] in
/-- If no cells and no locations were merged, no types were equated. -/
lemma eq_of_equated (hs : ∀ t ∈ tellings s.talk.journal, t.reason ≠ .cells ∧ t.reason ≠ .locations)
    {type type' : τ} (h : s.Equated type type') : type = type' := by
  induction h with
  | rel q q' hq =>
    obtain ⟨reason, hreason, htold, -⟩ := hq
    rcases hreason with rfl | rfl
    · exact absurd rfl (hs _ htold).1
    · exact absurd rfl (hs _ htold).2
  | refl => rfl
  | symm _ _ _ ih => exact ih.symm
  | trans _ _ _ _ _ ih ih' => exact ih.trans ih'

/-- An allocation flows into `r`; after the session was linearized, its base begins to bind the
location that it allocates. -/
def lateScript : List (Command Int) :=
  [.makeLocation "x" 0, .storeVariable .internal "base", .allocate .internal ⟨0⟩ ⟨0⟩,
    .storeVariable .internal "r", .includeStore .internal "in" ⟨1⟩ ⟨2⟩, .close, .linearize,
    .storeVariable .internal "o", .update .internal "write" ⟨3⟩ ⟨0⟩ 1 true,
    .includeStore .internal "late" ⟨4⟩ ⟨0⟩]

/-- The type of the allocation is that of its base by now, but what was sent is its own type. -/
theorem typeAt_sends_cone_late :
    ∃ s s' : Session Taint Int, Disciplined s ∧
      s.exec (.typeAt ⟨2⟩ ⟨0⟩) = .ok (.type? (some 3), s') ∧
      (s'.view s'.graph.solve).Cone ⟨s'.graph.stores.root ⟨2⟩, s'.graph.classOf ⟨0⟩⟩ ⟨2, 0⟩ ∧
      (s'.view s'.graph.solve).Demands ⟨2, 0⟩ (.edge 0 0) ⟨1, 0⟩ ∧
      (∃ s₀ c₀ lower₀, SentIn s₀ c₀ lower₀ ⟨.edge 0 0, 2, 3⟩ s' ⟨2, 0⟩ (.edge 0 0) ⟨1, 0⟩ ∧
        ¬s₀.FoundAsIn lower₀ s') ∧
      s'.typeOf ⟨1, 0⟩ = some 4 ∧ s'.typeOf ⟨2, 0⟩ = some 3 ∧ ¬s'.Received 4 3 := by
  have hrun : (follow (fun s c => c.Known s.graph)
      (start ⟨2, false⟩ ((Taint.empty.declare "x").2.constant .tainted).2) lateScript).any fun s =>
        succeeds (s.exec (.typeAt ⟨2⟩ ⟨0⟩)) fun p => List.and
          [p.1 = .type? (some 3),
            tellings p.2.talk.journal = [⟨.edge 1 0, 1, 4⟩, ⟨.edge 0 0, 2, 3⟩],
            p.2.typeOf ⟨1, 0⟩ = some 4, p.2.typeOf ⟨2, 0⟩ = some 3,
            p.2.graph.stores.edges[0]? = some ⟨⟨1⟩, ⟨2⟩, .internal, "in"⟩,
            p.2.graph.classOf ⟨0⟩ = 0, p.2.graph.stores.root ⟨1⟩ = 1,
            p.2.graph.stores.root ⟨2⟩ = 2, p.2.graph.solve.binds 1 0 = true] := by
    decide +kernel
  simp only [Option.any_eq_true, succeeds_eq_true, and_decide_cons, List.and_nil, and_true] at hrun
  obtain ⟨s, hfollow, ⟨_, s'⟩, hread, rfl, htellings, hl, hr, hedge, ha, h₁, h₂, hbinds⟩ := hrun
  have hdisciplined : Disciplined s := reachableBy_of_follow hfollow
  have hcone : (s'.view s'.graph.solve).Cone
      ⟨s'.graph.stores.root ⟨2⟩, s'.graph.classOf ⟨0⟩⟩ ⟨2, 0⟩ := by
    rw [h₂, ha]
    exact .start
  have hdemand : (s'.view s'.graph.solve).Demands ⟨2, 0⟩ (.edge 0 0) ⟨1, 0⟩ := by
    have hleft : (s'.view s'.graph.solve).storeRoot ⟨1⟩ = 1 := h₁
    have hbase := View.Demands.edge (v := s'.view s'.graph.solve) (c := ⟨2, 0⟩) hedge h₂
      (hleft.symm ▸ hbinds)
    rw [hleft] at hbase
    exact hbase
  obtain ⟨s₀, c₀, lower₀, t, l, r, hsent, hl', hr', hreceived, hfoundl, hfoundr⟩ :=
    typeAt_sends_cone hdisciplined hread hcone hdemand
  cases hl.symm.trans hl'
  cases hr.symm.trans hr'
  have ht : t = ⟨.edge 0 0, 2, 3⟩ := by
    have honce := hsent.told_once
    rw [htellings] at honce
    have hfilter : ([⟨.edge 1 0, 1, 4⟩, ⟨.edge 0 0, 2, 3⟩] : List (Telling Int)).filter
        (·.reason.SameMark (.edge 0 0)) = [⟨.edge 0 0, 2, 3⟩] := by decide
    rw [hfilter] at honce
    exact (List.head_eq_of_cons_eq honce).symm
  have hequated : ∀ q q', s'.Equated q q' → q = q' := fun q q' h => by
    refine eq_of_equated (fun t ht => ?_) h
    rw [htellings] at ht
    revert t
    decide
  cases ht
  refine ⟨s, s', hdisciplined, hread, hcone, hdemand, ⟨s₀, c₀, lower₀, hsent, fun hfound => ?_⟩,
    hl, hr, fun htold => ?_⟩
  · exact absurd (hequated _ _ (hfoundl hfound)) (by decide)
  · obtain ⟨t', ht', hlower, -⟩ := htold
    replace hlower := hequated _ _ hlower
    rw [htellings] at ht'
    revert t'
    decide

end Session

end HeapQual
