import HeapQual.Flow
import HeapQual.Proofs.Demand
import HeapQual.Proofs.Walk

/-!
# What settling tells

Settling cells tells the lattice an inequality for every edge and every update that was not sent
before, between the types that the cells resolve to.  `Flow.Sends` puts this in one relation: the
inequalities told, the marks set for them, and why each was told (`Flow.Justified`).  It holds of
every step, and so of a whole round (`Flow.settles_settle`), after which everything that the graph
says about a settled cell has been sent (`Flow.Handled`).

Types of cells, once made, stay (`Flow.Keeps`), so what was told while a round was going on is still
between the types of the cells when the round has ended.
-/

namespace HeapQual

namespace Flow

variable {σ τ : Type} {v : View τ} {f f' f'' : Flow σ τ} {c : Cell} {new new' : List (Telling τ)}

/-! ## The types of cells -/

/-- The type of a cell, if the cell is bound and its type was made. -/
def held (v : View τ) (f : Flow σ τ) (c : Cell) : Option τ :=
  match v.binding c with
  | none => none
  | some (.value type) => some type
  | some (.owned cell) => f.types.lookup cell

/-- The types of cells that were made stay. -/
def Keeps (f f' : Flow σ τ) : Prop :=
  ∀ c type, f.types.lookup c = some type → f'.types.lookup c = some type

lemma Keeps.refl (f : Flow σ τ) : f.Keeps f := fun _ _ h => h

lemma Keeps.trans (h : f.Keeps f') (h' : f'.Keeps f'') : f.Keeps f'' :=
  fun c type hc => h' c type (h c type hc)

lemma Keeps.held_eq (h : f.Keeps f') {type : τ} (hheld : f.held v c = some type) :
    f'.held v c = some type := by
  unfold held at hheld ⊢
  split at hheld
  · cases hheld
  · exact hheld
  · exact h _ _ hheld

/-! ## Why something is told -/

/-- The graph demands what was told, and the types are those of the cells. -/
def Justified (v : View τ) (f : Flow σ τ) (t : Telling τ) : Prop :=
  ∃ c lower, v.isBound c = true ∧ v.Demands c t.reason lower ∧
    f.held v lower = some t.lower ∧ f.held v c = some t.upper

lemma held_eq_held (g : Graph τ) (sol : Solution) (demoted demoted' : List Nat) (f : Flow σ τ)
    (c : Cell) : f.held ⟨g, sol, demoted⟩ c = f.held ⟨g, sol, demoted'⟩ c := by
  unfold held
  rw [View.binding_eq_binding g sol demoted demoted']

lemma Justified.demote {g : Graph τ} {sol : Solution} {demoted demoted' : List Nat}
    (hsub : ∀ store ∈ demoted, store ∈ demoted') {t : Telling τ}
    (h : Justified ⟨g, sol, demoted⟩ f t) : Justified ⟨g, sol, demoted'⟩ f t := by
  obtain ⟨c, lower, hbound, hdemand, hl, hr⟩ := h
  exact ⟨c, lower, hbound, hdemand.mono hsub, (held_eq_held ..).symm.trans hl,
    (held_eq_held ..).symm.trans hr⟩

lemma Justified.mono (h : f.Keeps f') {t : Telling τ} (ht : Justified v f t) :
    Justified v f' t := by
  obtain ⟨c, lower, hbound, hdemand, hl, hr⟩ := ht
  exact ⟨c, lower, hbound, hdemand, h.held_eq hl, h.held_eq hr⟩

/-- If every edge and every update is told at most once, no telling occurs twice. -/
lemma nodup_reasons (hnew : ∀ t ∈ new, Justified v f t)
    (hedges : (new.filterMap (·.reason.edge?)).Nodup)
    (hupdates : (new.filterMap (·.reason.update?)).Nodup) :
    (new.map Telling.reason).Nodup := by
  rw [List.Nodup, List.pairwise_filterMap] at hedges hupdates
  refine List.pairwise_map.2 ((hedges.and hupdates).imp_of_mem fun {t t'} ht _ hne heq => ?_)
  obtain ⟨c, lower, -, hdemand, -⟩ := hnew t ht
  rcases hdemand.markable with ⟨number, hkey⟩ | ⟨store, hkey⟩
  · exact hne.1 _ hkey _ (heq ▸ hkey) rfl
  · exact hne.2 _ hkey _ (heq ▸ hkey) rfl

/-- The edge or update that is the reason was sent. -/
def Marked (f : Flow σ τ) (reason : Reason) : Prop :=
  (∀ key, reason.edge? = some key → key ∈ f.sentEdges) ∧
    ∀ store, reason.update? = some store → store ∈ f.sentUpdates

lemma marked_edge {number a : Nat} : f.Marked (.edge number a) ↔ (number, a) ∈ f.sentEdges := by
  simp [Marked, Reason.edge?, Reason.update?]

lemma marked_update {store a : Nat} : f.Marked (.update store a) ↔ store ∈ f.sentUpdates := by
  simp [Marked, Reason.edge?, Reason.update?]

/-- If the marks are those of what was told, then what is marked was told. -/
lemma Marked.exists_telling {reason : Reason} (h : f.Marked reason)
    (hmark : reason.Markable)
    (hedges : f.sentEdges = new.filterMap (·.reason.edge?))
    (hupdates : f.sentUpdates = new.filterMap (·.reason.update?)) :
    ∃ t ∈ new, t.reason.SameMark reason := by
  rcases hmark with ⟨key, hkey⟩ | ⟨store, hstore⟩
  · have hsent := h.1 key hkey
    rw [hedges] at hsent
    obtain ⟨t, ht, htkey⟩ := List.mem_filterMap.1 hsent
    refine ⟨t, ht, htkey.trans hkey.symm, ?_⟩
    rw [Reason.update?_eq_none htkey, Reason.update?_eq_none hkey]
  · have hsent := h.2 store hstore
    rw [hupdates] at hsent
    obtain ⟨t, ht, htstore⟩ := List.mem_filterMap.1 hsent
    refine ⟨t, ht, ?_, htstore.trans hstore.symm⟩
    rw [Reason.edge?_eq_none htstore, Reason.edge?_eq_none hstore]

/-- Everything that the graph demands of the cell was sent. -/
def Handled (v : View τ) (f : Flow σ τ) (c : Cell) : Prop :=
  ∀ reason lower, v.Demands c reason lower → f.Marked reason

/-- Between the two flows the lattice was told this, and nothing is told twice: every telling sets
the mark of its edge or update, which was not set before. -/
structure Sends (v : View τ) (new : List (Telling τ)) (f f' : Flow σ τ) : Prop where
  tells : f.talk.Tells new f'.talk
  keeps : f.Keeps f'
  settled_eq : f'.settled = f.settled
  sentEdges_eq : f'.sentEdges = new.filterMap (·.reason.edge?) ++ f.sentEdges
  sentUpdates_eq : f'.sentUpdates = new.filterMap (·.reason.update?) ++ f.sentUpdates
  nodup_edges : f.sentEdges.Nodup → f'.sentEdges.Nodup
  nodup_updates : f.sentUpdates.Nodup → f'.sentUpdates.Nodup
  justified : ∀ t ∈ new, Justified v f' t

namespace Sends

/-- Nothing was told. -/
lemma of_nil (htells : f.talk.Tells [] f'.talk) (hkeeps : f.Keeps f')
    (hsettled : f'.settled = f.settled) (hedges : f'.sentEdges = f.sentEdges)
    (hupdates : f'.sentUpdates = f.sentUpdates) : f.Sends v [] f' :=
  ⟨htells, hkeeps, hsettled, hedges, hupdates, fun h => hedges ▸ h, fun h => hupdates ▸ h,
    fun _ ht => absurd ht List.not_mem_nil⟩

lemma refl (f : Flow σ τ) : f.Sends v [] f := of_nil (.refl _) (.refl f) rfl rfl rfl

lemma trans (h : f.Sends v new f') (h' : f'.Sends v new' f'') : f.Sends v (new' ++ new) f'' where
  tells := h.tells.trans h'.tells
  keeps := h.keeps.trans h'.keeps
  settled_eq := h'.settled_eq.trans h.settled_eq
  sentEdges_eq := by
    rw [h'.sentEdges_eq, h.sentEdges_eq, List.filterMap_append, List.append_assoc]
  sentUpdates_eq := by
    rw [h'.sentUpdates_eq, h.sentUpdates_eq, List.filterMap_append, List.append_assoc]
  nodup_edges hf := h'.nodup_edges (h.nodup_edges hf)
  nodup_updates hf := h'.nodup_updates (h.nodup_updates hf)
  justified t ht := (List.mem_append.1 ht).elim (h'.justified t)
    fun ht => (h.justified t ht).mono h'.keeps

lemma sentEdges_subset (h : f.Sends v new f') {key : Nat × Nat} (hkey : key ∈ f.sentEdges) :
    key ∈ f'.sentEdges := by
  rw [h.sentEdges_eq]
  exact List.mem_append_right _ hkey

lemma sentUpdates_subset (h : f.Sends v new f') {store : Nat} (hstore : store ∈ f.sentUpdates) :
    store ∈ f'.sentUpdates := by
  rw [h.sentUpdates_eq]
  exact List.mem_append_right _ hstore

end Sends

lemma Marked.mono {reason : Reason} (hf : f.Marked reason) (h : f.Sends v new f') :
    f'.Marked reason :=
  ⟨fun key hkey => h.sentEdges_subset (hf.1 key hkey),
    fun store hstore => h.sentUpdates_subset (hf.2 store hstore)⟩

lemma Handled.mono (hf : Handled v f c) (h : f.Sends v new f') : Handled v f' c :=
  fun reason lower hdemand => (hf reason lower hdemand).mono h

/-- There is nothing left to do for the cell: everything that the graph demands of it was sent, and
the cells that it is computed from are settled. -/
def Finished (v : View τ) (f : Flow σ τ) (c : Cell) : Prop :=
  Handled v f c ∧ ∀ d ∈ v.sources c, d ∈ f.settled

/-- A cell stays finished against another view, if what is demanded in addition was sent, and its
lower cell is settled. -/
lemma Finished.of_demands {v' : View τ} (h : Finished v f c)
    (hmarked : ∀ reason, f.Marked reason → f'.Marked reason)
    (hsettled : ∀ d ∈ f.settled, d ∈ f'.settled)
    (hdemands : ∀ reason lower, v'.Demands c reason lower →
      v.Demands c reason lower ∨ f'.Marked reason ∧ lower ∈ f'.settled)
    (hstep : v'.step c = v.step c) (hbound : ∀ d, v'.isBound d = v.isBound d) :
    Finished v' f' c := by
  refine ⟨fun reason lower hdemand => ?_, fun d hd => ?_⟩
  · rcases hdemands reason lower hdemand with hdemand | ⟨hmark, -⟩
    · exact hmarked reason (h.1 reason lower hdemand)
    · exact hmark
  · rcases View.mem_sources_iff.1 hd with ⟨reason, hdemand⟩ | hnext
    · rcases hdemands reason d hdemand with hdemand | ⟨-, hd⟩
      · exact hsettled d (h.2 d (View.mem_sources_iff.2 (Or.inl ⟨reason, hdemand⟩)))
      · exact hd
    · rw [hstep, hbound] at hnext
      exact hsettled d (h.2 d (View.mem_sources_iff.2 (Or.inr hnext)))

/-- As `Sends`, while cells become settled, for each of which there is nothing left to do. -/
structure Settles (v : View τ) (new : List (Telling τ)) (f f' : Flow σ τ) : Prop where
  sends : ({ f with settled := f'.settled } : Flow σ τ).Sends v new f'
  subset : ∀ c ∈ f.settled, c ∈ f'.settled
  finished : ∀ c ∈ f'.settled, c ∈ f.settled ∨ Finished v f' c

lemma Sends.settles (h : f.Sends v new f') : f.Settles v new f' := by
  have heq : ({ f with settled := f'.settled } : Flow σ τ) = f := by rw [h.settled_eq]
  refine ⟨heq.symm ▸ h, fun c hc => ?_, fun c hc => Or.inl ?_⟩
  · rwa [h.settled_eq]
  · rwa [← h.settled_eq]

lemma Settles.marked (h : f.Settles v new f') {reason : Reason} (hf : f.Marked reason) :
    f'.Marked reason := by
  have hkept : ({ f with settled := f'.settled } : Flow σ τ).Marked reason := hf
  exact hkept.mono h.sends

lemma Finished.mono (hf : Finished v f c) (h : f.Settles v new f') : Finished v f' c :=
  hf.of_demands (fun _ => h.marked) h.subset (fun _ _ hdemand => Or.inl hdemand) rfl fun _ => rfl

lemma Settles.trans (h : f.Settles v new f') (h' : f'.Settles v new' f'') :
    f.Settles v (new' ++ new) f'' := by
  have hfirst : ({ f with settled := f''.settled } : Flow σ τ).Sends v new
      { f' with settled := f''.settled } :=
    ⟨h.sends.tells, h.sends.keeps, rfl, h.sends.sentEdges_eq, h.sends.sentUpdates_eq,
      h.sends.nodup_edges, h.sends.nodup_updates, h.sends.justified⟩
  refine ⟨hfirst.trans h'.sends, fun c hc => h'.subset c (h.subset c hc), fun c hc => ?_⟩
  rcases h'.finished c hc with hc | hc
  · exact (h.finished c hc).imp_right fun hc => hc.mono h'
  · exact Or.inr hc

variable [QualifierLattice σ τ]

/-! ## Reading -/

lemma keeps_ownType (v : View τ) (f : Flow σ τ) (c : Cell) : f.Keeps (f.ownType v c).2 := by
  unfold ownType
  split
  · exact .refl f
  · split
    · exact .refl f
    · intro d type hd
      simp [List.lookup_append, hd]

lemma lookup_ownType (v : View τ) (f : Flow σ τ) (c : Cell) :
    (f.ownType v c).2.types.lookup c = (f.ownType v c).1 := by
  unfold ownType
  split
  · assumption
  · rename_i hnone
    split
    · exact hnone
    · simp [List.lookup_append, hnone]

lemma sends_ownType (v : View τ) (f : Flow σ τ) (c : Cell) : f.Sends v [] (f.ownType v c).2 := by
  have hkeeps := keeps_ownType v f c
  unfold ownType at hkeeps ⊢
  split at hkeeps
  · exact .refl f
  · split at hkeeps
    · exact .refl f
    · exact .of_nil (Dialogue.tells_fresh f.talk _) hkeeps rfl rfl rfl

/-- Reading a cell makes its type if need be, and tells the lattice nothing. -/
lemma sends_read (v : View τ) (f : Flow σ τ) (c : Cell) : f.Sends v [] (f.read v c).2 := by
  unfold read
  split
  · exact .refl f
  · exact .refl f
  · exact sends_ownType v f _

/-- After a cell was read its type is known. -/
lemma held_read (v : View τ) (f : Flow σ τ) (c : Cell) :
    (f.read v c).2.held v c = (f.read v c).1 := by
  unfold held read
  split <;> simp_all [lookup_ownType]

/-- A type that is known is read. -/
lemma read_of_held {type : τ} (h : f.held v c = some type) : (f.read v c).1 = some type := by
  have hkept := (sends_read v f c).keeps.held_eq h
  rwa [held_read] at hkept

/-- A bound cell has a type. -/
lemma exists_read (hv : v.Faithful) (hbound : v.isBound c = true) (f : Flow σ τ) :
    ∃ type, (f.read v c).1 = some type := by
  obtain ⟨b, hb⟩ := hv.exists_binding hbound
  unfold read
  rw [hb]
  cases b with
  | value type => exact ⟨type, rfl⟩
  | owned d =>
    -- The location of the variable's cell has a record to be like.
    have hlt := hv.solved.location_lt (View.isBound_of_binding hb).1
    have hrecord : v.graph.locations.record? d.location =
        some v.graph.locations.records[d.location] := Array.getElem?_eq_getElem hlt
    dsimp only
    unfold ownType
    split
    · exact ⟨_, rfl⟩
    · rw [hrecord]
      exact ⟨_, rfl⟩

/-! ## Sending -/

/-- What an edge into a bound cell says is sent, if it was not sent before. -/
lemma sends_sendEdge (hv : v.Faithful) (hc : v.isBound c = true) {edge : FlowEdge} {number : Nat}
    (hedge : v.graph.stores.edges[number]? = some edge) (hright : v.storeRoot edge.right = c.store)
    (f : Flow σ τ) :
    ∃ new, f.Sends v new (f.sendEdge v c (edge, number)) ∧
      (v.binds (v.storeRoot edge.left) c.location = true →
        (number, c.location) ∈ (f.sendEdge v c (edge, number)).sentEdges) := by
  by_cases hskip : (!v.binds (v.storeRoot edge.left) c.location ||
      decide ((number, c.location) ∈ f.sentEdges)) = true
  · have heq : f.sendEdge v c (edge, number) = f := by
      unfold sendEdge
      exact if_pos hskip
    rw [heq]
    refine ⟨[], .refl f, fun hbinds => ?_⟩
    simpa [hbinds] using hskip
  · have hsend : v.binds (v.storeRoot edge.left) c.location = true ∧
        (number, c.location) ∉ f.sentEdges := by
      simpa using hskip
    obtain ⟨hleft, hnew⟩ := hsend
    -- The edge is marked, then the left cell is read and then the right one. Reading the right cell
    -- may make a type, but leaves the type of the left cell as it is.
    let f₁ : Flow σ τ := { f with sentEdges := (number, c.location) :: f.sentEdges }
    let f₂ := (f₁.read v ⟨v.storeRoot edge.left, c.location⟩).2
    let f₃ := (f₂.read v c).2
    obtain ⟨l, hl⟩ := exists_read hv (c := ⟨v.storeRoot edge.left, c.location⟩) hleft f₁
    obtain ⟨r, hr⟩ := exists_read hv hc f₂
    have hsends₂ : f₁.Sends v [] f₂ := sends_read v f₁ _
    have hsends₃ : f₂.Sends v [] f₃ := sends_read v f₂ c
    have hsends := hsends₂.trans hsends₃
    have heq : f.sendEdge v c (edge, number) =
        { f₃ with
          talk := f₃.talk.require (.edge number c.location) edge.position
            (.flow number c.location edge.message) l r } := by
      unfold sendEdge
      simp only [if_neg hskip]
      rw [hl, hr]
    rw [heq]
    have hheldl : f₃.held v ⟨v.storeRoot edge.left, c.location⟩ = some l :=
      hsends₃.keeps.held_eq ((held_read v f₁ _).trans hl)
    have hheldr : f₃.held v c = some r := (held_read v f₂ c).trans hr
    refine ⟨[⟨.edge number c.location, l, r⟩], ?_, fun _ => ?_⟩
    · refine ⟨hsends.tells.trans (Dialogue.tells_require _ _ _ _ _ _), hsends.keeps,
        hsends.settled_eq, hsends.sentEdges_eq, hsends.sentUpdates_eq, fun hf => ?_,
        hsends.nodup_updates, fun t ht => ?_⟩
      · exact hsends.nodup_edges (List.nodup_cons.2 ⟨hnew, hf⟩)
      · rw [List.mem_singleton.1 ht]
        exact ⟨c, _, hc, .edge hedge hright hleft, hheldl, hheldr⟩
    · exact hsends.sentEdges_subset (List.mem_cons_self ..)

/-- What all edges into a bound cell say is sent. -/
lemma sends_sendEdges (hv : v.Faithful) (hc : v.isBound c = true) (edges : List (FlowEdge × Nat))
    (hedges : ∀ e ∈ edges, e ∈ v.graph.stores.edgesInto c.store) (f : Flow σ τ) :
    ∃ new, f.Sends v new (edges.foldl (sendEdge v c) f) ∧
      ∀ e ∈ edges, v.binds (v.storeRoot e.1.left) c.location = true →
        (e.2, c.location) ∈ (edges.foldl (sendEdge v c) f).sentEdges := by
  induction edges generalizing f with
  | nil => exact ⟨[], .refl f, fun e he => absurd he List.not_mem_nil⟩
  | cons e edges ih =>
    obtain ⟨hedge, hright⟩ := Stores.mem_edgesInto.1 (hedges e (List.mem_cons_self ..))
    obtain ⟨new, hsends, hsent⟩ := sends_sendEdge hv hc hedge hright f
    obtain ⟨new', hsends', hsent'⟩ := ih (fun e he => hedges e (List.mem_cons_of_mem _ he))
      (f.sendEdge v c e)
    refine ⟨new' ++ new, hsends.trans hsends', fun e' he' hbinds => ?_⟩
    rcases List.mem_cons.1 he' with rfl | he'
    · exact hsends'.sentEdges_subset (hsent hbinds)
    · exact hsent' e' he' hbinds

/-- That an update keeps the old contents is sent, if it was not sent before. -/
lemma sends_sendUpdate (hv : v.Faithful) {lower : Cell}
    (hdemand : v.Demands c (.update c.store c.location) lower) (f : Flow σ τ) :
    ∃ new, f.Sends v new (f.sendUpdate v c.store) ∧
      c.store ∈ (f.sendUpdate v c.store).sentUpdates := by
  by_cases hskip : c.store ∈ f.sentUpdates
  · have heq : f.sendUpdate v c.store = f := by
      unfold sendUpdate
      exact if_pos hskip
    rw [heq]
    exact ⟨[], .refl f, hskip⟩
  · have hlower := hdemand.isBound
    cases hdemand with
    | @update base a type strong position message hnode hlocation hstrong hbinds =>
      let f₁ : Flow σ τ := { f with sentUpdates := c.store :: f.sentUpdates }
      let f₂ := (f₁.read v ⟨v.storeRoot base, c.location⟩).2
      obtain ⟨old, hold⟩ := exists_read hv hlower f₁
      have hsends : f₁.Sends v [] f₂ := sends_read v f₁ _
      have heq : f.sendUpdate v c.store =
          { f₂ with
            talk := (f₂.talk.note (.weakUpdate ⟨c.store⟩ old type)).require
              (.update c.store c.location) position (.update c.store message) old type } := by
        unfold sendUpdate
        simp only [if_neg hskip, hnode, hlocation]
        rw [hold]
      rw [heq]
      have hheld : f₂.held v ⟨v.storeRoot base, c.location⟩ = some old :=
        (held_read v f₁ _).trans hold
      have hown : f₂.held v c = some type := by
        rw [held, hv.binding_own hnode hlocation]
      have hc : v.isBound c = true := by
        have h := hv.isBound_own (i := c.store) (a := a) (by rw [hnode]; rfl)
        rwa [hlocation] at h
      refine ⟨[⟨.update c.store c.location, old, type⟩], ?_, ?_⟩
      · refine ⟨(hsends.tells.trans (Dialogue.tells_note _ _)).trans
            (Dialogue.tells_require _ _ _ _ _ _), hsends.keeps, hsends.settled_eq,
          hsends.sentEdges_eq, hsends.sentUpdates_eq, hsends.nodup_edges, fun hf => ?_,
          fun t ht => ?_⟩
        · exact hsends.nodup_updates (List.nodup_cons.2 ⟨hskip, hf⟩)
        · rw [List.mem_singleton.1 ht]
          exact ⟨c, _, hc, .update hnode hlocation hstrong hbinds, hheld, hown⟩
      · exact hsends.sentUpdates_subset (List.mem_cons_self ..)

/-- Nothing is known of any cell, so only an order is used up. -/
lemma rekey_of_types_eq_nil {g : Graph τ} (h : f.types = []) :
    f.rekey g = { f with orders := f.orders.tail } := by
  have henumeration : f.enumeration = [] := by
    rw [enumeration, h]
    cases f.orders.headD [] <;> rfl
  rw [rekey, henumeration, h]
  rfl

/-! ## Visiting and settling -/

/-- A visit sends everything that the graph says about a bound cell. -/
lemma sends_visit (hv : v.Faithful) (hc : v.isBound c = true) (f : Flow σ τ) :
    ∃ new, f.Sends v new (f.visit v c) ∧ Handled v (f.visit v c) c := by
  obtain ⟨new, hsends, hsent⟩ :=
    sends_sendEdges hv hc (v.graph.stores.edgesInto c.store) (fun _ h => h) f
  have hedge : ∀ (number : Nat) edge, v.graph.stores.edges[number]? = some edge →
      v.storeRoot edge.right = c.store → v.binds (v.storeRoot edge.left) c.location = true →
      (number, c.location) ∈
        ((v.graph.stores.edgesInto c.store).foldl (sendEdge v c) f).sentEdges := by
    intro number edge hedge hright hbinds
    exact hsent (edge, number) (Stores.mem_edgesInto.2 ⟨hedge, hright⟩) hbinds
  -- The edges come first. The update, if the cell is the own one of a weak update, comes after them
  -- and keeps their marks.
  unfold visit
  cases hweak : v.weakBase? c with
  | none =>
    refine ⟨new, hsends, fun reason lower hdemand => ?_⟩
    have hlower := hdemand
    cases hdemand with
    | edge hnumber hright hbinds => exact marked_edge.2 (hedge _ _ hnumber hright hbinds)
    | update =>
      rw [View.weakBase?_eq_some_iff_demands.2 hlower] at hweak
      cases hweak
  | some b =>
    obtain ⟨new', hsends', hmarked⟩ :=
      sends_sendUpdate hv (View.weakBase?_eq_some_iff_demands.1 hweak)
        ((v.graph.stores.edgesInto c.store).foldl (sendEdge v c) f)
    refine ⟨new' ++ new, hsends.trans hsends', fun reason lower hdemand => ?_⟩
    cases hdemand with
    | edge hnumber hright hbinds =>
      exact marked_edge.2 (hsends'.sentEdges_subset (hedge _ _ hnumber hright hbinds))
    | update => exact marked_update.2 hmarked

lemma sends_foldl_visit (hv : v.Faithful) (cells : List Cell)
    (hcells : ∀ c ∈ cells, v.isBound c = true) (f : Flow σ τ) :
    ∃ new, f.Sends v new (cells.foldl (visit v) f) ∧
      ∀ c ∈ cells, Handled v (cells.foldl (visit v) f) c := by
  induction cells generalizing f with
  | nil => exact ⟨[], .refl f, fun c hc => absurd hc List.not_mem_nil⟩
  | cons c cells ih =>
    obtain ⟨new, hsends, hhandled⟩ := sends_visit hv (hcells c (List.mem_cons_self ..)) f
    obtain ⟨new', hsends', hhandled'⟩ :=
      ih (fun c hc => hcells c (List.mem_cons_of_mem _ hc)) (f.visit v c)
    refine ⟨new' ++ new, hsends.trans hsends', fun d hd => ?_⟩
    rcases List.mem_cons.1 hd with rfl | hd
    · exact hhandled.mono hsends'
    · exact hhandled' d hd

/-! ## Settling without a solution

Against any view at all, settling only goes on with the dialogue. -/

lemma says_sendEdge (v : View τ) (c : Cell) (f : Flow σ τ) (numbered : FlowEdge × Nat) :
    f.talk.Says (fun _ => True) (f.sendEdge v c numbered).talk := by
  unfold sendEdge
  dsimp only
  split
  · exact .refl _
  · have hleft := sends_read v
      { f with sentEdges := (numbered.2, c.location) :: f.sentEdges }
      ⟨v.storeRoot numbered.1.left, c.location⟩
    have hright := sends_read v (({ f with
      sentEdges := (numbered.2, c.location) :: f.sentEdges } : Flow σ τ).read v
        ⟨v.storeRoot numbered.1.left, c.location⟩).2 c
    have htells := hleft.tells.trans hright.tells
    split
    · exact (htells.trans (Dialogue.tells_require ..)).toSays fun _ _ => trivial
    · exact htells.toSays fun _ _ => trivial

lemma says_sendUpdate (v : View τ) (f : Flow σ τ) (store : Nat) :
    f.talk.Says (fun _ => True) (f.sendUpdate v store).talk := by
  unfold sendUpdate
  split
  · exact .refl _
  · dsimp only
    split
    · rename_i base a type strong position message hnode
      have hold := sends_read v { f with sentUpdates := store :: f.sentUpdates }
        ⟨v.storeRoot base, v.graph.classOf a⟩
      split
      · exact ((hold.tells.trans (Dialogue.tells_note ..)).trans
          (Dialogue.tells_require ..)).toSays fun _ _ => trivial
      · exact hold.tells.toSays fun _ _ => trivial
    · exact .refl _

omit [QualifierLattice σ τ] in
lemma says_foldl {α : Type} {step : Flow σ τ → α → Flow σ τ}
    (hstep : ∀ (f : Flow σ τ) a, f.talk.Says (fun _ => True) (step f a).talk) (items : List α)
    (f : Flow σ τ) : f.talk.Says (fun _ => True) (items.foldl step f).talk := by
  induction items generalizing f with
  | nil => exact .refl _
  | cons item items ih => exact (hstep f item).trans (ih _)

lemma says_settle (v : View τ) (f : Flow σ τ) (seeds : List Cell) :
    f.talk.Says (fun _ => True) (f.settle v seeds).talk := by
  refine says_foldl (fun f c => ?_) (visits v f.settled seeds) _
  unfold visit
  have hedges := says_foldl (says_sendEdge v c) (v.graph.stores.edgesInto c.store) f
  dsimp only
  split
  · exact hedges.trans (says_sendUpdate ..)
  · exact hedges

lemma settled_read (v : View τ) (f : Flow σ τ) (c : Cell) :
    (f.read v c).2.settled = f.settled :=
  (sends_read v f c).settled_eq

lemma settled_sendEdge (v : View τ) (c : Cell) (f : Flow σ τ) (numbered : FlowEdge × Nat) :
    (f.sendEdge v c numbered).settled = f.settled := by
  unfold sendEdge
  dsimp only
  split
  · rfl
  · split
    · exact (settled_read ..).trans (settled_read ..)
    · exact (settled_read ..).trans (settled_read ..)

lemma settled_sendUpdate (v : View τ) (f : Flow σ τ) (store : Nat) :
    (f.sendUpdate v store).settled = f.settled := by
  unfold sendUpdate
  split
  · rfl
  · dsimp only
    split
    · split
      · exact settled_read ..
      · exact settled_read ..
    · rfl

lemma settled_visit (v : View τ) (f : Flow σ τ) (c : Cell) :
    (f.visit v c).settled = f.settled := by
  have hedges : ∀ (edges : List (FlowEdge × Nat)) (f : Flow σ τ),
      (edges.foldl (sendEdge v c) f).settled = f.settled := by
    intro edges
    induction edges with
    | nil => exact fun _ => rfl
    | cons numbered edges ih => exact fun f => (ih _).trans (settled_sendEdge v c f numbered)
  unfold visit
  dsimp only
  split
  · exact (settled_sendUpdate ..).trans (hedges ..)
  · exact hedges ..

section Visits

variable {settled seeds : List Cell}

omit [QualifierLattice σ τ] in
lemma isBound_of_mem_visits (h : c ∈ visits v settled seeds) : v.isBound c = true :=
  Walk.forall_mem_visit (P := fun c => v.isBound c = true)
    (fun _ _ _ he => View.isBound_of_mem_sources he) (fun _ hd => (List.mem_filter.1 hd).2) h

omit [QualifierLattice σ τ] in
/-- Every bound seed is visited, unless it is settled. -/
lemma mem_visits_of_mem_seeds (hv : v.Solved) (settled : List Cell) (hc : c ∈ seeds)
    (hbound : v.isBound c = true) : c ∈ settled ∨ c ∈ visits v settled seeds :=
  Walk.mem_visit_of_mem_seeds (fun _ _ _ he => hv.mem_boundCells.2 (View.isBound_of_mem_sources he))
    (fun _ hd => hv.mem_boundCells.2 (List.mem_filter.1 hd).2) v.card_boundCells
    (List.mem_filter.2 ⟨hc, hbound⟩)

omit [QualifierLattice σ τ] in
/-- With a cell those that it is computed from are visited, unless they are settled. -/
lemma mem_visits_of_mem_sources (hv : v.Solved) {d : Cell} (hc : c ∈ visits v settled seeds)
    (hd : d ∈ v.sources c) : d ∈ settled ∨ d ∈ visits v settled seeds :=
  Walk.mem_visit_of_mem_next (fun _ _ _ he => hv.mem_boundCells.2 (View.isBound_of_mem_sources he))
    (fun _ hd => hv.mem_boundCells.2 (List.mem_filter.1 hd).2) v.card_boundCells hc hd

/-- Settling settles what it visits. -/
lemma mem_settled_settle (v : View τ) (f : Flow σ τ) (seeds : List Cell) :
    c ∈ (f.settle v seeds).settled ↔ c ∈ f.settled ∨ c ∈ visits v f.settled seeds := by
  have hfold : ∀ (cells : List Cell) (f : Flow σ τ),
      (cells.foldl (visit v) f).settled = f.settled := by
    intro cells
    induction cells with
    | nil => exact fun _ => rfl
    | cons d cells ih => exact fun f => (ih _).trans (settled_visit v f d)
  rw [settle, hfold, List.mem_append, List.mem_reverse, or_comm]

/-- Settling sends what the graph demands of the cells newly settled, among which are the bound
seeds. -/
theorem settles_settle (hv : v.Faithful) (f : Flow σ τ) (seeds : List Cell) :
    ∃ new, f.Settles v new (f.settle v seeds) ∧
      ∀ c ∈ seeds, v.isBound c = true → c ∈ (f.settle v seeds).settled := by
  obtain ⟨new, hsends, hhandled⟩ := sends_foldl_visit hv (visits v f.settled seeds)
    (fun _ hc => isBound_of_mem_visits hc)
    { f with settled := (visits v f.settled seeds).reverse ++ f.settled }
  have hsettled : (f.settle v seeds).settled =
      (visits v f.settled seeds).reverse ++ f.settled := hsends.settled_eq
  have hmem {c : Cell} := mem_settled_settle (c := c) v f seeds
  refine ⟨new, ⟨?_, fun c hc => hmem.2 (Or.inl hc), fun c hc => ?_⟩, fun c hc hbound => ?_⟩
  · rw [hsettled]
    exact hsends
  · rcases hmem.1 hc with hc | hc
    · exact Or.inl hc
    · exact Or.inr ⟨hhandled c hc,
        fun d hd => hmem.2 (mem_visits_of_mem_sources hv.solved hc hd)⟩
  · exact hmem.2 (mem_visits_of_mem_seeds hv.solved f.settled hc hbound)

end Visits

end Flow

end HeapQual
