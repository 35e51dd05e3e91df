import HeapQual.Proofs.Rekeying
import HeapQual.Proofs.Store.LeastDomains

/-!
# What looking up a location in a store means

A store is read as a partial function from locations to types.  `Graph.Denotes` says what the
operators do to such functions: a restriction forgets what its effect does not mention, an
allocation and an update give a type to one location, an overlay chooses between two stores.  The
types found in any faithful view are lookups of this kind (`View.Faithful.denotes`), because each
operator passes the search on to the store that its equation names.

The type of a variable's cell is made when it is asked for.  Types that were made are found again
after the table is keyed anew, as long as nothing was merged (`Flow.Keyed.keeps_rekey`).
-/

namespace HeapQual

/-! ## The equations of a lookup -/

namespace Graph

variable {τ : Type} {g : Graph τ} {L : StoreId → LocationId → Option τ}

/-- The lookup is the meaning of the stores of the graph. -/
structure Denotes (g : Graph τ) (L : StoreId → LocationId → Option τ) : Prop where
  congr : ∀ x y a b, g.stores.root x = g.stores.root y → g.classOf a = g.classOf b → L x a = L y b
  isSome_iff : ∀ x a, (L x a).isSome = true ↔ g.classOf a ∈ g.boundBy (g.stores.root x)
  restrict : ∀ x a base e, g.stores.node x = .restrict base e →
    L x a = if g.mentioned e (g.classOf a) then L base a else none
  allocate : ∀ x a base b fresh, g.stores.node x = .allocate base b fresh →
    L x a = if g.classOf a ≠ g.classOf b ∨ (L base a).isSome then L base a else some fresh
  update : ∀ x a base b type strong position message,
    g.stores.node x = .update base b type strong position message →
    L x a = if g.classOf a = g.classOf b then some type else L base a
  overlay : ∀ x a inside outside e, g.stores.node x = .overlay inside outside e →
    L x a = if g.mentioned e (g.classOf a) then L inside a else L outside a

/-- Restricting twice to one effect is restricting once. -/
lemma Denotes.restrict_restrict (h : g.Denotes L) {x y base : StoreId} {e : EffectId}
    (hx : g.stores.node x = .restrict base e) (hy : g.stores.node y = .restrict x e)
    (a : LocationId) : L y a = L x a := by
  rw [h.restrict y a x e hy, h.restrict x a base e hx]
  split
  · rfl
  · rfl

end Graph

/-! ## The search for a type, step by step -/

namespace View

variable {τ : Type} {v : View τ} {c : Cell}

/-- What was found is found with more fuel. -/
lemma bindingFrom_succ {fuel : Nat} {b : Binding τ} (h : v.bindingFrom fuel c = some b) :
    v.bindingFrom (fuel + 1) c = some b := by
  induction fuel generalizing c with
  | zero => cases h
  | succ fuel ih =>
    unfold bindingFrom at h ⊢
    split at h
    · cases h
    · exact ih h
    · exact h
    · exact h

lemma binding_of_not_isBound (h : v.isBound c = false) : v.binding c = none := by
  by_contra hne
  obtain ⟨b, hb⟩ := Option.ne_none_iff_exists'.1 hne
  rw [isBound_of_binding_eq_some hb] at h
  cases h

/-- Changes that the solution does not show do not change what is found. -/
lemma binding_of_tweaks {g g' : Graph τ} (h : g.Tweaks g') (sol : Solution)
    (demoted demoted' : List Nat) (c : Cell) :
    binding ⟨g', sol, demoted'⟩ c = binding ⟨g, sol, demoted⟩ c := by
  have hstep := step_of_tweaks h sol demoted demoted'
  have hfrom : ∀ fuel d, bindingFrom ⟨g', sol, demoted'⟩ fuel d =
      bindingFrom ⟨g, sol, demoted⟩ fuel d := by
    intro fuel
    induction fuel with
    | zero => exact fun _ => rfl
    | succ fuel ih =>
      intro d
      simp only [bindingFrom, hstep, ih]
  unfold binding
  rw [hfrom, h.stores_eq]

namespace Faithful

variable (hv : v.Faithful)

include hv

/-- A cell that is what it is in another store is found as it is there. -/
lemma binding_of_next {store : Nat} (h : v.step c = some (.next store)) :
    v.binding c = v.binding ⟨store, c.location⟩ := by
  have hbound := isBound_of_step_eq_some h
  obtain ⟨b, hb⟩ := hv.exists_binding hbound
  obtain ⟨fuel, hfuel⟩ := hv.solved.exists_size_eq_succ hbound
  have hfirst : v.bindingFrom fuel ⟨store, c.location⟩ = some b := by
    rw [binding, hfuel, bindingFrom, h] at hb
    exact hb
  rw [hb, binding, hfuel, bindingFrom_succ hfirst]

lemma binding_of_value {type : τ} (h : v.step c = some (.value type)) :
    v.binding c = some (.value type) := by
  obtain ⟨fuel, hfuel⟩ := hv.solved.exists_size_eq_succ (isBound_of_step_eq_some h)
  rw [binding, hfuel, bindingFrom, h]

lemma isBound_iff {i a : Nat} : v.isBound ⟨i, a⟩ = true ↔ a ∈ v.graph.boundBy i := by
  rw [isBound, binds, hv.solution_eq, Solution.binds, decide_eq_true_eq]
  rfl

end Faithful

end View

/-! ## Reading is looking up -/

namespace Flow

variable {σ τ : Type} [QualifierLattice σ τ] {v : View τ} {c : Cell}

/-- The type that would be read. -/
def lookup (v : View τ) (f : Flow σ τ) (x : StoreId) (a : LocationId) : Option τ :=
  (f.read v ⟨v.graph.stores.root x, v.graph.classOf a⟩).1

lemma read_of_binding_eq {d : Cell} (f : Flow σ τ) (h : v.binding c = v.binding d) :
    (f.read v c).1 = (f.read v d).1 := by
  unfold read
  rw [h]

lemma isSome_read (hv : v.Faithful) (f : Flow σ τ) : (f.read v c).1.isSome = v.isBound c := by
  cases hbound : v.isBound c with
  | true =>
    obtain ⟨type, htype⟩ := exists_read hv hbound f
    rw [htype]
    rfl
  | false =>
    rw [read, View.binding_of_not_isBound hbound]
    rfl

end Flow

namespace View.Faithful

open HeapQual.Flow

variable {σ τ : Type} [QualifierLattice σ τ] {v : View τ} (hv : v.Faithful) (f : Flow σ τ)

include hv

lemma lookup_isSome_iff (x : StoreId) (a : LocationId) :
    (f.lookup v x a).isSome = true ↔
      v.graph.classOf a ∈ v.graph.boundBy (v.graph.stores.root x) := by
  rw [lookup, isSome_read hv, hv.isBound_iff]

lemma lookup_eq_none {x : StoreId} {a : LocationId}
    (h : v.graph.classOf a ∉ v.graph.boundBy (v.graph.stores.root x)) : f.lookup v x a = none := by
  rw [← hv.lookup_isSome_iff f] at h
  exact Option.not_isSome_iff_eq_none.1 h

/-- A store that passes the search on agrees with the other store, whether or not the location is
bound. -/
lemma lookup_eq_lookup {x y : StoreId} {a : LocationId}
    (hbound : v.graph.classOf a ∈ v.graph.boundBy (v.graph.stores.root x) ↔
      v.graph.classOf a ∈ v.graph.boundBy (v.graph.stores.root y))
    (hstep : v.isBound ⟨v.graph.stores.root x, v.graph.classOf a⟩ = true →
      v.step ⟨v.graph.stores.root x, v.graph.classOf a⟩ = some (.next (v.graph.stores.root y))) :
    f.lookup v x a = f.lookup v y a := by
  by_cases hx : v.graph.classOf a ∈ v.graph.boundBy (v.graph.stores.root x)
  · exact read_of_binding_eq f (hv.binding_of_next (hstep (hv.isBound_iff.2 hx)))
  · rw [hv.lookup_eq_none f hx, hv.lookup_eq_none f fun hy => hx (hbound.2 hy)]

lemma lookup_eq_some {x : StoreId} {a : LocationId} {type : τ}
    (h : v.step ⟨v.graph.stores.root x, v.graph.classOf a⟩ = some (.value type)) :
    f.lookup v x a = some type := by
  rw [lookup, Flow.read, hv.binding_of_value h]

theorem denotes : v.graph.Denotes (f.lookup v) := by
  have hagree := hv.layered.named.domainsAgree hv.sound
  have hmentions := hv.solved.mentions_eq_mentioned
  -- One clause for each operator. What a store binds comes from the equations of domains, and where
  -- its cells are looked up comes from one step of the search.
  refine ⟨?_, hv.lookup_isSome_iff f, ?_, ?_, ?_, ?_⟩
  · intro x y a b hxy hab
    rw [lookup, lookup, hxy, hab]
  · intro x a base e hnode
    have hdomain := hagree.restrict _ base e hnode
    split
    · rename_i hmentioned
      refine hv.lookup_eq_lookup f ?_ fun hbound => ?_
      · rw [hdomain]
        exact ⟨fun h => h.1, fun h => ⟨h, hmentioned⟩⟩
      · exact step_restrict hbound hnode
    · rename_i hmentioned
      apply hv.lookup_eq_none f
      rw [hdomain]
      exact fun h => hmentioned h.2
  · intro x a base b fresh hnode
    have hdomain := hagree.allocate _ base b fresh hnode
    split
    -- The allocation is passed over, because the location is bound below.
    · rename_i hask
      rw [hv.lookup_isSome_iff f] at hask
      refine hv.lookup_eq_lookup f ?_ fun hbound => ?_
      · rw [hdomain]
        refine ⟨fun h => ?_, Or.inr⟩
        rcases h with heq | h
        · exact hask.resolve_left fun hne => hne heq
        · exact h
      · refine (step_allocate hbound hnode).trans (if_pos ?_)
        rw [Bool.or_eq_true, decide_eq_true_eq]
        exact hask.imp Ne.symm fun h => hv.isBound_iff.2 h
    · rename_i hask
      rw [hv.lookup_isSome_iff f, not_or, not_not] at hask
      apply hv.lookup_eq_some f
      have hbound : v.isBound ⟨v.graph.stores.root x, v.graph.classOf a⟩ = true := by
        rw [hv.isBound_iff, hdomain]
        exact Or.inl hask.1
      refine (step_allocate hbound hnode).trans (if_neg ?_)
      rw [Bool.or_eq_true, decide_eq_true_eq, not_or, not_not]
      exact ⟨hask.1.symm, fun h => hask.2 (hv.isBound_iff.1 h)⟩
  · intro x a base b type strong position message hnode
    have hdomain := hagree.update _ base b type strong position message hnode
    split
    · rename_i hown
      have hbinding := hv.binding_own
        (c := ⟨v.graph.stores.root x, v.graph.classOf a⟩) hnode hown.symm
      rw [lookup, Flow.read, hbinding]
    · rename_i hother
      refine hv.lookup_eq_lookup f ?_ fun hbound => ?_
      · rw [hdomain]
        exact ⟨fun h => h.resolve_left hother, Or.inr⟩
      · exact (step_update hbound hnode).trans (if_neg fun heq => hother heq.symm)
  · intro x a inside outside e hnode
    have hdomain := hagree.overlay _ inside outside e hnode
    split
    · rename_i hmentioned
      refine hv.lookup_eq_lookup f ?_ fun hbound => ?_
      · rw [hdomain]
        refine ⟨fun h => ?_, fun h => Or.inl ⟨h, hmentioned⟩⟩
        rcases h with h | h
        · exact h.1
        · exact absurd hmentioned (by rw [h.2]; exact Bool.false_ne_true)
      · refine (step_overlay hbound hnode).trans (if_pos ?_)
        rw [hmentions]
        exact hmentioned
    · rename_i hmentioned
      refine hv.lookup_eq_lookup f ?_ fun hbound => ?_
      · rw [hdomain]
        refine ⟨fun h => ?_, fun h => Or.inr ⟨h, Bool.eq_false_iff.2 hmentioned⟩⟩
        rcases h with h | h
        · exact absurd h.2 hmentioned
        · exact h.1
      · refine (step_overlay hbound hnode).trans (if_neg ?_)
        rw [hmentions]
        exact hmentioned

end View.Faithful

/-! ## Types are found again -/

namespace Flow

variable {σ τ : Type} {g : Graph τ} {v : View τ} {f : Flow σ τ} {c : Cell}

/-- The types of cells are keyed by the present roots, each cell once. -/
def Keyed (g : Graph τ) (f : Flow σ τ) : Prop :=
  (∀ entry ∈ f.types, entry.1.reroot g = entry.1) ∧ (f.types.map Prod.fst).Nodup

lemma not_mem_keys_of_lookup {types : List (Cell × τ)} (h : types.lookup c = none) :
    c ∉ types.map Prod.fst := by
  intro hmem
  obtain ⟨entry, hentry, rfl⟩ := List.mem_map.1 hmem
  exact absurd (List.lookup_eq_none_iff.1 h entry hentry) (by simp)

/-- A cell without an entry gets one at the end of the table. -/
lemma nodup_keys_append {types : List (Cell × τ)} (h : (types.map Prod.fst).Nodup)
    (hc : types.lookup c = none) (type : τ) : ((types ++ [(c, type)]).map Prod.fst).Nodup := by
  have hconcat := List.Nodup.concat (not_mem_keys_of_lookup hc) h
  rw [List.concat_eq_append] at hconcat
  rw [List.map_append]
  exact hconcat

lemma lookup_eq_some_iff_mem {types : List (Cell × τ)} (h : (types.map Prod.fst).Nodup) {type : τ} :
    types.lookup c = some type ↔ (c, type) ∈ types := by
  refine ⟨mem_of_lookup_eq_some, fun hmem => ?_⟩
  cases hlookup : types.lookup c with
  | none => exact absurd (List.mem_map_of_mem hmem) (not_mem_keys_of_lookup hlookup)
  | some other =>
    have heq := List.inj_on_of_nodup_map h (mem_of_lookup_eq_some hlookup) hmem rfl
    exact congrArg some (Prod.mk.inj heq).2

/-- The order of a table does not matter to those who look into it. -/
lemma lookup_eq_of_perm {types types' : List (Cell × τ)} (hperm : types.Perm types')
    (h : (types.map Prod.fst).Nodup) (c : Cell) : types.lookup c = types'.lookup c := by
  have h' : (types'.map Prod.fst).Nodup := (hperm.map Prod.fst).nodup_iff.1 h
  ext type
  rw [lookup_eq_some_iff_mem h, lookup_eq_some_iff_mem h', hperm.mem_iff]

lemma nodup_keys_foldl_rekeyEntry (entries : List (Cell × τ)) {r : Rekeyed τ}
    (h : (r.types.map Prod.fst).Nodup) :
    ((entries.foldl (rekeyEntry g) r).types.map Prod.fst).Nodup := by
  induction entries generalizing r with
  | nil => exact h
  | cons entry entries ih =>
    refine ih ?_
    cases hlookup : r.types.lookup (entry.1.reroot g) with
    | some kept =>
      rw [rekeyEntry_of_some hlookup]
      exact h
    | none =>
      rw [rekeyEntry_of_none hlookup]
      exact nodup_keys_append h hlookup entry.2

/-- No two types meet in one cell when the table is keyed anew. -/
def NoClash (g : Graph τ) (f : Flow σ τ) : Prop :=
  (f.types.map fun entry => entry.1.reroot g).Nodup

instance (g : Graph τ) (f : Flow σ τ) : Decidable (f.NoClash g) :=
  inferInstanceAs (Decidable (List.Nodup _))

/-- If no keys become one, keying anew changes the keys only. -/
lemma foldl_rekeyEntry_eq {entries : List (Cell × τ)} {r : Rekeyed τ}
    (h : (r.types.map Prod.fst ++ entries.map fun entry => entry.1.reroot g).Nodup) :
    entries.foldl (rekeyEntry g) r =
      { r with types := r.types ++ entries.map fun entry => (entry.1.reroot g, entry.2) } := by
  induction entries generalizing r with
  | nil => simp
  | cons entry entries ih =>
    have hlookup : r.types.lookup (entry.1.reroot g) = none := by
      rw [List.lookup_eq_none_iff]
      intro other hother
      have hne := (List.nodup_append.1 h).2.2 other.1 (List.mem_map_of_mem hother)
        (entry.1.reroot g) (by simp)
      simpa using Ne.symm hne
    rw [List.foldl_cons, rekeyEntry_of_none hlookup, ih]
    · simp
    · simpa using h

variable [QualifierLattice σ τ]

lemma nodup_keys_rekey (g : Graph τ) (f : Flow σ τ) : ((f.rekey g).types.map Prod.fst).Nodup :=
  nodup_keys_foldl_rekeyEntry _ List.nodup_nil

lemma keyed_rekey (hg : g.Sound) (f : Flow σ τ) : (f.rekey g).Keyed g := by
  obtain ⟨-, -, -, -, hkeys⟩ := rekey_spec g f
  refine ⟨fun entry hentry => ?_, nodup_keys_rekey g f⟩
  obtain ⟨c, hc⟩ := hkeys entry hentry
  rw [hc, Cell.reroot_reroot (.refl hg)]

/-- If no types meet, keying anew takes the table in another order, and changes its keys only. -/
lemma NoClash.rekey_eq (h : f.NoClash g) :
    f.rekey g =
      { f with
        types := f.enumeration.map fun entry => (entry.1.reroot g, entry.2)
        orders := f.orders.tail } := by
  have hfold : f.enumeration.foldl (rekeyEntry g) ⟨[], []⟩ = _ :=
    foldl_rekeyEntry_eq ((f.perm_enumeration.map _).nodup_iff.2 h)
  rw [rekey, hfold]
  rfl

omit [QualifierLattice σ τ] in
lemma Keyed.noClash (h : f.Keyed g) : f.NoClash g := by
  rw [NoClash, List.map_congr_left h.1]
  exact h.2

/-- If all keys are roots and different, keying anew only takes the table in another order. -/
lemma Keyed.rekey_eq (h : f.Keyed g) :
    f.rekey g = { f with types := f.enumeration, orders := f.orders.tail } := by
  have hkeys : f.enumeration.map (fun entry => (entry.1.reroot g, entry.2)) = f.enumeration := by
    refine (List.map_congr_left fun entry hentry => ?_).trans (List.map_id _)
    exact Prod.ext (h.1 entry (f.perm_enumeration.mem_iff.1 hentry)) rfl
  rw [h.noClash.rekey_eq, hkeys]

lemma Keyed.lookup_rekey (h : f.Keyed g) (c : Cell) :
    (f.rekey g).types.lookup c = f.types.lookup c := by
  rw [h.rekey_eq]
  exact (lookup_eq_of_perm f.perm_enumeration.symm h.2 c).symm

/-- Types stay where they are, if nothing was merged. -/
lemma Keyed.keeps_rekey (h : f.Keyed g) : f.Keeps (f.rekey g) :=
  fun c _ hc => (h.lookup_rekey c).trans hc

lemma Keyed.read (hv : v.Faithful) (h : f.Keyed v.graph) (c : Cell) :
    (f.read v c).2.Keyed v.graph := by
  unfold Flow.read
  split
  · exact h
  · exact h
  · rename_i d hbinding
    obtain ⟨hbound, -⟩ := View.isBound_of_binding hbinding
    unfold ownType
    split
    · exact h
    · rename_i hlookup
      split
      · exact h
      · refine ⟨fun entry hentry => ?_, nodup_keys_append h.2 hlookup _⟩
        rcases List.mem_append.1 hentry with hentry | hentry
        · exact h.1 entry hentry
        · rw [List.mem_singleton.1 hentry, Cell.reroot, hv.solved.root_store hbound,
            hv.solved.root_location hbound]

lemma Keyed.sendEdge (hv : v.Faithful) (h : f.Keyed v.graph) (c : Cell)
    (numbered : FlowEdge × Nat) : (f.sendEdge v c numbered).Keyed v.graph := by
  unfold Flow.sendEdge
  dsimp only
  split
  · exact h
  · have hmarked : ({ f with sentEdges := (numbered.2, c.location) :: f.sentEdges } :
        Flow σ τ).Keyed v.graph := h
    have hread := (hmarked.read hv ⟨v.storeRoot numbered.1.left, c.location⟩).read hv c
    split
    · exact hread
    · exact hread

lemma Keyed.sendUpdate (hv : v.Faithful) (h : f.Keyed v.graph) (store : Nat) :
    (f.sendUpdate v store).Keyed v.graph := by
  unfold Flow.sendUpdate
  split
  · exact h
  · have hmarked : ({ f with sentUpdates := store :: f.sentUpdates } :
        Flow σ τ).Keyed v.graph := h
    dsimp only
    split
    · rename_i base a type strong position message hnode
      have hread := hmarked.read hv ⟨v.storeRoot base, v.graph.classOf a⟩
      split
      · exact hread
      · exact hread
    · exact hmarked

lemma Keyed.visit (hv : v.Faithful) (h : f.Keyed v.graph) (c : Cell) :
    (f.visit v c).Keyed v.graph := by
  have hedges : ∀ (edges : List (FlowEdge × Nat)) (f : Flow σ τ), f.Keyed v.graph →
      (edges.foldl (Flow.sendEdge v c) f).Keyed v.graph := by
    intro edges
    induction edges with
    | nil => exact fun f h => h
    | cons edge edges ih => exact fun f h => ih _ (h.sendEdge hv c edge)
  unfold Flow.visit
  dsimp only
  split
  · exact (hedges _ f h).sendUpdate hv c.store
  · exact hedges _ f h

lemma Keyed.settle (hv : v.Faithful) (h : f.Keyed v.graph) (seeds : List Cell) :
    (f.settle v seeds).Keyed v.graph := by
  have hvisits : ∀ (cells : List Cell) (f : Flow σ τ), f.Keyed v.graph →
      (cells.foldl (Flow.visit v) f).Keyed v.graph := by
    intro cells
    induction cells with
    | nil => exact fun f h => h
    | cons c cells ih => exact fun f h => ih _ (h.visit hv c)
  exact hvisits _ _ h

end Flow

end HeapQual
