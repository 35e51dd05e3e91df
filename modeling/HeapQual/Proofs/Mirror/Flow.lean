import HeapQual.Proofs.Lookup
import HeapQual.Proofs.Mirror.Graph
import Mathlib.Data.List.Perm.Basic

/-!
# Flows that mirror each other

Two flows *mirror* each other if the same types of cells are known, in whatever order, the same
edges and updates were sent, and the lattice is in the same state; the diagnostics are the same but
for their order and for the effects that are printed in them (`Flow.Mirrors`).  Cells are then read
and settled alike (`Flow.Mirrors.read`, `Flow.Mirrors.settle`).

The tables may be enumerated in different orders.  As long as no two types meet in one cell
(`Flow.NoClash`), this does not show when they are keyed anew (`Flow.Mirrors.rekey`).

It does not matter which cells were settled before: a settled cell is finished, so to visit it once
more changes nothing (`Flow.visit_of_handled`), and the other cells are visited in the same order.
-/

namespace HeapQual

/-! ## Diagnostics up to printed effects -/

/-- A cause without the effects that are printed in it. -/
def Cause.plain : Cause → Cause
  | .notIncluded _ _ _ => .notIncluded 0 "" ""
  | cause => cause

/-- A diagnostic without the effects that are printed in it. -/
def Diagnostic.plain (d : Diagnostic) : Diagnostic := ⟨d.position, d.cause.plain⟩

variable {σ τ : Type}

namespace Dialogue

/-- The lattice is in the same state, and the diagnostics are the same but for their order and the
effects printed in them. -/
structure Mirrors (d d' : Dialogue σ τ) : Prop where
  lattice_eq : d.lattice = d'.lattice
  receiver_eq : d.receiver = d'.receiver
  errors : (d.errors.toList.map Diagnostic.plain).Perm (d'.errors.toList.map Diagnostic.plain)

namespace Mirrors

variable {d d' : Dialogue σ τ}

lemma refl (d : Dialogue σ τ) : d.Mirrors d := ⟨rfl, rfl, .refl _⟩

lemma symm (h : d.Mirrors d') : d'.Mirrors d :=
  ⟨h.lattice_eq.symm, h.receiver_eq.symm, h.errors.symm⟩

lemma trans {d'' : Dialogue σ τ} (h : d.Mirrors d') (h' : d'.Mirrors d'') : d.Mirrors d'' :=
  ⟨h.lattice_eq.trans h'.lattice_eq, h.receiver_eq.trans h'.receiver_eq, h.errors.trans h'.errors⟩

lemma note (h : d.Mirrors d') (n n' : Notice τ) : (d.note n).Mirrors (d'.note n') :=
  ⟨h.lattice_eq, h.receiver_eq, h.errors⟩

lemma report (h : d.Mirrors d') (position : Position) {cause cause' : Cause}
    (hcause : cause.plain = cause'.plain) :
    (d.report position cause).Mirrors (d'.report position cause') := by
  refine ⟨h.lattice_eq, h.receiver_eq, ?_⟩
  simp only [Dialogue.report, Array.toList_push, List.map_append, List.map_cons, List.map_nil,
    Diagnostic.plain, hcause]
  exact h.errors.append_right _

variable [QualifierLattice σ τ]

lemma fresh (h : d.Mirrors d') (like : τ) :
    (d.fresh like).1 = (d'.fresh like).1 ∧ (d.fresh like).2.Mirrors (d'.fresh like).2 := by
  unfold Dialogue.fresh
  rw [h.lattice_eq]
  exact ⟨rfl, rfl, h.receiver_eq, h.errors⟩

lemma tell (h : d.Mirrors d') (reason : Reason) (l r : τ) :
    (d.tell reason l r).1 = (d'.tell reason l r).1 ∧
      (d.tell reason l r).2.Mirrors (d'.tell reason l r).2 := by
  unfold Dialogue.tell
  rw [h.lattice_eq]
  exact ⟨rfl, rfl, h.receiver_eq, h.errors⟩

lemma equate (h : d.Mirrors d') (reason : Reason) (l r : τ) :
    (d.equate reason l r).1 = (d'.equate reason l r).1 ∧
      (d.equate reason l r).2.Mirrors (d'.equate reason l r).2 := by
  obtain ⟨hforth, htold⟩ := h.tell reason l r
  obtain ⟨hback, htold'⟩ := htold.tell reason r l
  exact ⟨congrArg₂ and hforth hback, htold'⟩

lemma require (h : d.Mirrors d') (reason : Reason) (position : Position) (cause : Cause) (l r : τ) :
    (d.require reason position cause l r).Mirrors (d'.require reason position cause l r) := by
  obtain ⟨hholds, htold⟩ := (h.note (.comparing l r) (.comparing l r)).tell reason l r
  unfold Dialogue.require
  dsimp only
  rw [hholds]
  split
  · exact htold
  · exact htold.report position rfl

end Mirrors

end Dialogue

namespace Flow

variable {v v' : View τ} {f f' : Flow σ τ} {R : EffectId → EffectId → Prop} {c : Cell}

/-- The same types of cells are known, the same edges and updates were sent, and the dialogues
mirror each other. -/
structure Mirrors (f f' : Flow σ τ) : Prop where
  types : f.types.Perm f'.types
  lookup_eq : ∀ c, f.types.lookup c = f'.types.lookup c
  sentEdges_eq : f.sentEdges = f'.sentEdges
  sentUpdates_eq : f.sentUpdates = f'.sentUpdates
  talk : f.talk.Mirrors f'.talk

namespace Mirrors

lemma refl (f : Flow σ τ) : f.Mirrors f := ⟨.refl _, fun _ => rfl, rfl, rfl, .refl _⟩

lemma symm (h : f.Mirrors f') : f'.Mirrors f :=
  ⟨h.types.symm, fun c => (h.lookup_eq c).symm, h.sentEdges_eq.symm, h.sentUpdates_eq.symm,
    h.talk.symm⟩

lemma trans {f'' : Flow σ τ} (h : f.Mirrors f') (h' : f'.Mirrors f'') : f.Mirrors f'' :=
  ⟨h.types.trans h'.types, fun c => (h.lookup_eq c).trans (h'.lookup_eq c),
    h.sentEdges_eq.trans h'.sentEdges_eq, h.sentUpdates_eq.trans h'.sentUpdates_eq,
    h.talk.trans h'.talk⟩

lemma withTalk (h : f.Mirrors f') {talk talk' : Dialogue σ τ} (htalk : talk.Mirrors talk') :
    ({ f with talk } : Flow σ τ).Mirrors { f' with talk := talk' } :=
  ⟨h.types, h.lookup_eq, h.sentEdges_eq, h.sentUpdates_eq, htalk⟩

lemma withSettled (h : f.Mirrors f') (settled settled' : List Cell) :
    ({ f with settled } : Flow σ τ).Mirrors { f' with settled := settled' } :=
  ⟨h.types, h.lookup_eq, h.sentEdges_eq, h.sentUpdates_eq, h.talk⟩

lemma foldl {α : Type} (step : Flow σ τ → α → Flow σ τ)
    (hstep : ∀ {f f' : Flow σ τ}, f.Mirrors f' → ∀ a, (step f a).Mirrors (step f' a))
    (h : f.Mirrors f') (items : List α) : (items.foldl step f).Mirrors (items.foldl step f') := by
  induction items generalizing f f' with
  | nil => exact h
  | cons item items ih => exact ih (hstep h item)

variable [QualifierLattice σ τ]

lemma ownType (h : f.Mirrors f') (v : View τ) (c : Cell) :
    (f.ownType v c).1 = (f'.ownType v c).1 ∧ (f.ownType v c).2.Mirrors (f'.ownType v c).2 := by
  unfold Flow.ownType
  rw [h.lookup_eq]
  split
  · exact ⟨rfl, h⟩
  · split
    · exact ⟨rfl, h⟩
    · rename_i r _
      obtain ⟨htype, htalk⟩ := h.talk.fresh r.holds
      dsimp only
      rw [htype]
      refine ⟨rfl, h.types.append_right _, fun d => ?_, h.sentEdges_eq, h.sentUpdates_eq, htalk⟩
      rw [List.lookup_append, List.lookup_append, h.lookup_eq]

lemma read (h : f.Mirrors f') (v : View τ) (c : Cell) :
    (f.read v c).1 = (f'.read v c).1 ∧ (f.read v c).2.Mirrors (f'.read v c).2 := by
  unfold Flow.read
  split
  · exact ⟨rfl, h⟩
  · exact ⟨rfl, h⟩
  · exact h.ownType v _

lemma sendEdge (h : f.Mirrors f') (v : View τ) (c : Cell) (numbered : FlowEdge × Nat) :
    (f.sendEdge v c numbered).Mirrors (f'.sendEdge v c numbered) := by
  unfold Flow.sendEdge
  rw [h.sentEdges_eq]
  dsimp only
  split
  · exact h
  · have hsent : ({ f with sentEdges := (numbered.2, c.location) :: f'.sentEdges } :
        Flow σ τ).Mirrors { f' with sentEdges := (numbered.2, c.location) :: f'.sentEdges } :=
      ⟨h.types, h.lookup_eq, rfl, h.sentUpdates_eq, h.talk⟩
    obtain ⟨hleft, hread⟩ := hsent.read v ⟨v.storeRoot numbered.1.left, c.location⟩
    obtain ⟨hright, hread'⟩ := hread.read v c
    rw [hleft, hright]
    split
    · exact hread'.withTalk (hread'.talk.require ..)
    · exact hread'

lemma sendUpdate (h : f.Mirrors f') (v : View τ) (store : Nat) :
    (f.sendUpdate v store).Mirrors (f'.sendUpdate v store) := by
  unfold Flow.sendUpdate
  rw [h.sentUpdates_eq]
  split
  · exact h
  · have hsent : ({ f with sentUpdates := store :: f'.sentUpdates } : Flow σ τ).Mirrors
        { f' with sentUpdates := store :: f'.sentUpdates } :=
      ⟨h.types, h.lookup_eq, h.sentEdges_eq, rfl, h.talk⟩
    dsimp only
    split
    · rename_i base a type strong position message hnode
      obtain ⟨hold, hread⟩ := hsent.read v ⟨v.storeRoot base, v.graph.classOf a⟩
      rw [hold]
      split
      · exact hread.withTalk ((hread.talk.note _ _).require ..)
      · exact hread
    · exact hsent

lemma visit (h : f.Mirrors f') (v : View τ) (c : Cell) :
    (f.visit v c).Mirrors (f'.visit v c) := by
  have hedges := h.foldl (Flow.sendEdge v c) (fun h => h.sendEdge v c)
    (v.graph.stores.edgesInto c.store)
  unfold Flow.visit
  dsimp only
  split
  · exact hedges.sendUpdate v c.store
  · exact hedges

omit [QualifierLattice σ τ] in
lemma noClash_iff (h : f.Mirrors f') (g : Graph τ) : f.NoClash g ↔ f'.NoClash g :=
  (h.types.map _).nodup_iff

/-- If no types meet, it does not matter in which orders the tables are taken. -/
lemma rekey (h : f.Mirrors f') {g : Graph τ} (hclash : f.NoClash g) :
    (f.rekey g).Mirrors (f'.rekey g) := by
  have hkeys := nodup_keys_rekey g f
  rw [hclash.rekey_eq] at hkeys ⊢
  rw [((h.noClash_iff g).1 hclash).rekey_eq]
  have henumerations := (f.perm_enumeration.trans h.types).trans f'.perm_enumeration.symm
  have hperm := henumerations.map fun entry => (entry.1.reroot g, entry.2)
  exact ⟨hperm, lookup_eq_of_perm hperm hkeys, h.sentEdges_eq, h.sentUpdates_eq, h.talk⟩

end Mirrors

/-! ## Settling -/

/-- Which cells are visited depends on which are settled, but not on the order in which they
were. -/
lemma visits_congr {settled settled' : List Cell} (h : ∀ c, c ∈ settled ↔ c ∈ settled')
    (v : View τ) (seeds : List Cell) : visits v settled seeds = visits v settled' seeds :=
  Walk.visitFrom_congr h _ _

/-- If what is settled was finished, the other cells are visited as if nothing was settled. -/
lemma visits_eq_filter (hv : v.Faithful)
    (hfinished : ∀ c ∈ f.settled, Finished v f c) (seeds : List Cell) :
    visits v f.settled seeds = (visits v [] seeds).filter fun c => !decide (c ∈ f.settled) :=
  Walk.visit_eq_filter (fun c hc d hd => (hfinished c hc).2 d hd)
    (fun _ _ _ he => hv.mem_boundCells.2 (View.isBound_of_mem_sources he))
    (fun _ hd => hv.mem_boundCells.2 (List.mem_filter.1 hd).2) v.card_boundCells

variable [QualifierLattice σ τ]

/-- A table that is keyed by roots already is only taken in another order. -/
lemma Keyed.mirrors_rekey {g : Graph τ} (h : f.Keyed g) :
    f.Mirrors (f.rekey g) := by
  have hlookup := h.lookup_rekey
  rw [h.rekey_eq] at hlookup ⊢
  exact ⟨f.perm_enumeration.symm, fun c => (hlookup c).symm, rfl, rfl, .refl _⟩

/-- To visit a cell of which everything was sent changes nothing. -/
lemma visit_of_handled (h : Handled v f c) : f.visit v c = f := by
  have hedges (edges : List (FlowEdge × Nat))
      (hsub : ∀ e ∈ edges, e ∈ v.graph.stores.edgesInto c.store) :
      edges.foldl (sendEdge v c) f = f := by
    induction edges with
    | nil => rfl
    | cons e edges ih =>
      obtain ⟨hedge, hright⟩ := Stores.mem_edgesInto.1 (hsub e (List.mem_cons_self ..))
      have hskip : f.sendEdge v c e = f := by
        unfold sendEdge
        refine if_pos ?_
        cases hbinds : v.binds (v.storeRoot e.1.left) c.location with
        | false => rfl
        | true => simpa using marked_edge.1 (h _ _ (.edge hedge hright hbinds))
      rw [List.foldl_cons, hskip]
      exact ih fun e he => hsub e (List.mem_cons_of_mem _ he)
  unfold visit
  rw [hedges _ fun _ he => he]
  cases hweak : v.weakBase? c with
  | none => rfl
  | some b =>
    have hmarked := marked_update.1 (h _ _ (View.weakBase?_eq_some_iff_demands.1 hweak))
    unfold sendUpdate
    exact if_pos hmarked

/-- Cells of which everything was sent need not be visited. -/
lemma foldl_visit_filter (hv : v.Faithful) (cells : List Cell)
    (hcells : ∀ c ∈ cells, v.isBound c = true) {done : List Cell}
    (hdone : ∀ c ∈ done, Handled v f c) :
    (cells.filter fun c => !decide (c ∈ done)).foldl (visit v) f = cells.foldl (visit v) f := by
  induction cells generalizing f with
  | nil => rfl
  | cons c cells ih =>
    have hrest : ∀ d ∈ cells, v.isBound d = true := fun d hd =>
      hcells d (List.mem_cons_of_mem _ hd)
    rw [List.foldl_cons]
    by_cases hc : c ∈ done
    · rw [List.filter_cons_of_neg (by simpa using hc), visit_of_handled (hdone c hc)]
      exact ih hrest hdone
    · obtain ⟨new, hsends, -⟩ := sends_visit hv (hcells c (List.mem_cons_self ..)) f
      rw [List.filter_cons_of_pos (by simpa using hc), List.foldl_cons]
      exact ih hrest fun d hd => (hdone d hd).mono hsends

/-- If the settled cells are finished, settling tells what it would tell if nothing was settled. -/
lemma settle_eq_foldl (hv : v.Faithful) (hfinished : ∀ c ∈ f.settled, Finished v f c)
    (seeds : List Cell) : ∃ settled,
      f.settle v seeds = (visits v [] seeds).foldl (visit v) { f with settled } := by
  let f₁ : Flow σ τ := { f with settled := (visits v f.settled seeds).reverse ++ f.settled }
  refine ⟨f₁.settled, ?_⟩
  have hhandled : ∀ c ∈ f.settled, Handled v f₁ c := fun c hc => (hfinished c hc).1
  calc f.settle v seeds
      = (visits v f.settled seeds).foldl (visit v) f₁ := rfl
    _ = ((visits v [] seeds).filter fun c => !decide (c ∈ f.settled)).foldl (visit v) f₁ := by
        rw [← visits_eq_filter hv hfinished]
    _ = (visits v [] seeds).foldl (visit v) f₁ :=
        foldl_visit_filter hv _ (fun c hc => isBound_of_mem_visits hc) hhandled

end Flow

/-! ## Views that mirror each other -/

namespace View.Mirrors

variable {v v' : View τ} {R : EffectId → EffectId → Prop} (h : View.Mirrors R v v')

include h

lemma reach_eq : v.reach = v'.reach := by
  funext c
  unfold reach
  rw [h.targets_eq, h.stores.size_eq]

lemma visits_eq : Flow.visits v = Flow.visits v' := by
  funext settled seeds
  unfold Flow.visits
  rw [h.sources_eq, h.stores.size_eq, h.locations_eq, h.isBound_eq]

variable [QualifierLattice σ τ]

lemma read_eq (f : Flow σ τ) (c : Cell) : f.read v c = f.read v' c := by
  unfold Flow.read Flow.ownType
  rw [h.binding_eq, h.locations_eq]

lemma sendEdge_eq (c : Cell) : Flow.sendEdge (σ := σ) v c = Flow.sendEdge v' c := by
  funext f numbered
  unfold Flow.sendEdge
  simp only [h.storeRoot_eq, h.binds_eq, h.read_eq]

lemma sendUpdate_eq (f : Flow σ τ) (store : Nat) :
    f.sendUpdate v store = f.sendUpdate v' store := by
  unfold Flow.sendUpdate
  simp only [h.storeRoot_eq, h.classOf_eq, h.read_eq]
  have hnode := h.stores.node store
  generalize v.graph.stores.nodeAt store = n at hnode
  generalize v'.graph.stores.nodeAt store = n' at hnode
  cases hnode <;> rfl

lemma visit_eq : Flow.visit (σ := σ) v = Flow.visit v' := by
  funext f c
  unfold Flow.visit
  simp only [h.stores.edgesInto_eq, h.sendEdge_eq, h.weakBase?_eq, h.sendUpdate_eq]

/-- Cells are settled alike against views that mirror each other. -/
lemma settle_eq (f : Flow σ τ) (seeds : List Cell) : f.settle v seeds = f.settle v' seeds := by
  unfold Flow.settle
  rw [h.visits_eq, h.visit_eq]

/-- If settled cells are finished, it does not matter which cells are settled. -/
lemma settle {f f' : Flow σ τ} (hv : v.Faithful) (hv' : v'.Faithful) (hflow : f.Mirrors f')
    (hf : ∀ c ∈ f.settled, Flow.Finished v f c) (hf' : ∀ c ∈ f'.settled, Flow.Finished v' f' c)
    (seeds : List Cell) : (f.settle v seeds).Mirrors (f'.settle v' seeds) := by
  obtain ⟨settled, heq⟩ := Flow.settle_eq_foldl hv hf seeds
  obtain ⟨settled', heq'⟩ := Flow.settle_eq_foldl hv' hf' seeds
  rw [heq, heq', ← h.visits_eq, ← h.visit_eq]
  exact (hflow.withSettled settled settled').foldl (Flow.visit v) (fun h => h.visit v) _

/-- If the same cells are settled, the same cells are settled anew. -/
lemma settle_of_same {f f' : Flow σ τ} (hv : v.Faithful) (hflow : f.Mirrors f')
    (hsame : ∀ c, c ∈ f.settled ↔ c ∈ f'.settled) (seeds : List Cell) :
    (f.settle v seeds).Mirrors (f'.settle v' seeds) ∧
      ∀ c, c ∈ (f.settle v seeds).settled ↔ c ∈ (f'.settle v' seeds).settled := by
  have hsettled (f : Flow σ τ) :
      (f.settle v seeds).settled = (Flow.visits v f.settled seeds).reverse ++ f.settled := by
    obtain ⟨new, hsends, -⟩ := Flow.sends_foldl_visit hv (Flow.visits v f.settled seeds)
      (fun _ hc => Flow.isBound_of_mem_visits hc)
      { f with settled := (Flow.visits v f.settled seeds).reverse ++ f.settled }
    exact hsends.settled_eq
  rw [← h.settle_eq]
  constructor
  · unfold Flow.settle
    dsimp only
    rw [Flow.visits_congr hsame v seeds]
    exact (hflow.withSettled _ _).foldl (Flow.visit v) (fun h => h.visit v) _
  · intro c
    rw [hsettled, hsettled, Flow.visits_congr hsame v seeds, List.mem_append, List.mem_append,
      hsame]

end View.Mirrors

end HeapQual
