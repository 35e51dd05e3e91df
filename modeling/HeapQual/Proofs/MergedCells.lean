import HeapQual.Lattice.Level
import HeapQual.Proofs.Rekeying
import HeapQual.Proofs.Session.Invariants

/-!
# Cells that became one

When the table of types is keyed anew, every entry either gives its type to the cell that it has
become or meets there the type of an earlier entry.  In the second case the two types are equated,
and if they cannot be equal that is reported (`Flow.AccountsFor`).  This holds for every table,
whatever was merged and in whichever order the entries are taken
(`Flow.exists_accountsFor_rekey`): the order decides only which of the types stays.

One step of the table is `Rekeyed.Accounts.rekeyEntry`; a whole table is taken by induction on its
entries.
-/

namespace HeapQual

/-- The lattice was told that the type of an entry is equal to the one kept for its cell. -/
structure Equating (τ : Type) where
  kept : τ
  merged : τ
  holds : Bool
  deriving DecidableEq

namespace Dialogue

variable {σ τ : Type} [QualifierLattice σ τ] {d d' : Dialogue σ τ} {calls : List (Equating τ)}

/-- The second dialogue continues the first: types were equated one after the other with these
answers, and those that cannot be equal were reported. -/
inductive Equates : List (Equating τ) → Dialogue σ τ → Dialogue σ τ → Prop
  | nil {d : Dialogue σ τ} : Equates [] d d
  | cons {d d₁ d' : Dialogue σ τ} {kept merged : τ} {holds : Bool} {calls : List (Equating τ)} :
      d.equate .cells kept merged = (holds, d₁) →
      Equates calls (if holds then d₁ else d₁.report .internal .incompatibleCells) d' →
      Equates (⟨kept, merged, holds⟩ :: calls) d d'

/-- Each failure gives one diagnostic. -/
lemma Equates.errors_eq (h : Equates calls d d') :
    d'.errors.toList = d.errors.toList ++
      (calls.filter fun call => !call.holds).map fun _ => ⟨.internal, .incompatibleCells⟩ := by
  induction h with
  | nil => simp
  | @cons d d₁ d' kept merged holds calls hequate _ ih =>
    have herrors : d₁.errors = d.errors := by
      rw [← show (d.equate .cells kept merged).2 = d₁ from congrArg Prod.snd hequate]
      rfl
    cases holds with
    | true => simpa [herrors] using ih
    | false => simpa [report, herrors] using ih

/-- Equating what clashes is a sequence of such calls. -/
lemma exists_equates (clashes : List (τ × τ)) (d : Dialogue σ τ) :
    ∃ calls : List (Equating τ), Equates calls d (clashes.foldl Flow.equateClash d) ∧
      calls.map (fun call => (call.kept, call.merged)) = clashes := by
  induction clashes generalizing d with
  | nil => exact ⟨[], .nil, rfl⟩
  | cons clash clashes ih =>
    obtain ⟨calls, hcalls, heq⟩ := ih (Flow.equateClash d clash)
    refine ⟨⟨clash.1, clash.2, (d.equate .cells clash.1 clash.2).1⟩ :: calls, .cons rfl hcalls, ?_⟩
    rw [List.map_cons, heq]

end Dialogue

namespace Flow

variable {σ τ : Type} {g : Graph τ}

/-! ## Keying one entry after the other -/

/-- Where the types and clashes come from, when these entries have been keyed anew. -/
structure Rekeyed.Accounts (g : Graph τ) (entries : List (Cell × τ)) (r : Rekeyed τ) : Prop where
  nodup : (r.types.map Prod.fst).Nodup
  origin : ∀ entry ∈ r.types, ∃ c, (c, entry.2) ∈ entries ∧ c.reroot g = entry.1
  clash : ∀ clash ∈ r.clashes, ∃ c, (c, clash.2) ∈ entries ∧
    r.types.lookup (c.reroot g) = some clash.1
  length_eq : r.types.length + r.clashes.length = entries.length

/-- Keying one more entry anew. -/
lemma Rekeyed.Accounts.rekeyEntry {entries : List (Cell × τ)} {r : Rekeyed τ}
    (h : r.Accounts g entries) (entry : Cell × τ) :
    (rekeyEntry g r entry).Accounts g (entries ++ [entry]) := by
  have hlength := h.length_eq
  have horigin : ∀ e ∈ r.types, ∃ c, (c, e.2) ∈ entries ++ [entry] ∧ c.reroot g = e.1 :=
    fun e he => (h.origin e he).imp fun _ hc => ⟨List.mem_append_left _ hc.1, hc.2⟩
  have hclash : ∀ clash ∈ r.clashes, ∃ c, (c, clash.2) ∈ entries ++ [entry] ∧
      r.types.lookup (c.reroot g) = some clash.1 :=
    fun clash hmem => (h.clash clash hmem).imp fun _ hc => ⟨List.mem_append_left _ hc.1, hc.2⟩
  have hnew : (entry.1, entry.2) ∈ entries ++ [entry] :=
    List.mem_append_right _ (List.mem_singleton_self _)
  -- The entry clashes with a type that is kept already, or is the first one of its cell.
  cases hlookup : r.types.lookup (entry.1.reroot g) with
  | some kept =>
    rw [rekeyEntry_of_some hlookup]
    refine ⟨h.nodup, horigin, fun clash hmem => ?_, ?_⟩
    · rcases List.mem_append.1 hmem with hmem | hmem
      · exact hclash clash hmem
      · rw [List.mem_singleton.1 hmem]
        exact ⟨entry.1, hnew, hlookup⟩
    · simp only [List.length_append, List.length_singleton]
      omega
  | none =>
    rw [rekeyEntry_of_none hlookup]
    have hfresh : entry.1.reroot g ∉ r.types.map Prod.fst := by
      intro hmem
      obtain ⟨e, he, heq⟩ := List.mem_map.1 hmem
      have hne := List.lookup_eq_none_iff.1 hlookup e he
      simp [heq] at hne
    refine ⟨?_, fun e he => ?_, fun clash hmem => ?_, ?_⟩
    · rw [List.map_append]
      exact h.nodup.append (List.nodup_singleton _) (by simpa using hfresh)
    · rcases List.mem_append.1 he with he | he
      · exact horigin e he
      · rw [List.mem_singleton.1 he]
        exact ⟨entry.1, hnew, rfl⟩
    · obtain ⟨c, hc, hkept⟩ := hclash clash hmem
      exact ⟨c, hc, by simp [List.lookup_append, hkept]⟩
    · simp only [List.length_append, List.length_singleton]
      omega

/-- Keying a whole table anew. -/
lemma Rekeyed.Accounts.foldl {entries : List (Cell × τ)} {r : Rekeyed τ}
    (h : r.Accounts g entries) (more : List (Cell × τ)) :
    (more.foldl (Flow.rekeyEntry g) r).Accounts g (entries ++ more) := by
  induction more generalizing entries r with
  | nil => rwa [List.append_nil]
  | cons entry more ih =>
    rw [List.append_cons]
    exact ih (h.rekeyEntry entry)

lemma Rekeyed.Accounts.empty (g : Graph τ) :
    Rekeyed.Accounts g [] (⟨[], []⟩ : Rekeyed τ) :=
  ⟨List.nodup_nil, fun _ h => absurd h List.not_mem_nil, fun _ h => absurd h List.not_mem_nil, rfl⟩

/-! ## Nothing gets lost -/

variable [QualifierLattice σ τ]

/-- The second table is the first, keyed by the roots of this graph, and these types were equated
for it. -/
structure AccountsFor (g : Graph τ) (f f' : Flow σ τ) (calls : List (Equating τ)) : Prop where
  rooted : ∀ entry ∈ f'.types, entry.1.reroot g = entry.1
  nodup : (f'.types.map Prod.fst).Nodup
  kept : ∀ entry ∈ f.types, ∃ kept, f'.types.lookup (entry.1.reroot g) = some kept ∧
    (kept = entry.2 ∨ ∃ call ∈ calls, call.kept = kept ∧ call.merged = entry.2)
  origin : ∀ entry ∈ f'.types, ∃ c, (c, entry.2) ∈ f.types ∧ c.reroot g = entry.1
  clash : ∀ call ∈ calls, ∃ c, (c, call.merged) ∈ f.types ∧
    f'.types.lookup (c.reroot g) = some call.kept
  length_eq : f'.types.length + calls.length = f.types.length
  equates : f.talk.Equates calls f'.talk
  errors_eq : f'.talk.errors.toList = f.talk.errors.toList ++
    (calls.filter fun call => !call.holds).map fun _ => ⟨.internal, .incompatibleCells⟩
  rest : f' = { f with types := f'.types, orders := f.orders.tail, talk := f'.talk }

/-- Whatever was merged, and in whichever order the table is read, keying it anew loses no cell.
Types that met in one cell were equated, and every time that this could not be done there is one
diagnostic. -/
theorem exists_accountsFor_rekey (hstores : g.stores.classes.Sound)
    (hlocations : g.locations.classes.Sound) (f : Flow σ τ) {order : List (Cell × τ)}
    (horder : order.Perm f.types) :
    (∃ calls, AccountsFor g f (({ f with types := order } : Flow σ τ).rekey g) calls) ∧
      (⟨.internal, .incompatibleCells⟩ : Diagnostic).message =
        "incompatible cells in unified stores" := by
  refine ⟨?_, rfl⟩
  generalize henumeration : ({ f with types := order } : Flow σ τ).enumeration = entries
  have hperm : entries.Perm f.types :=
    henumeration ▸ (perm_enumeration ({ f with types := order } : Flow σ τ)).trans horder
  unfold rekey
  rw [henumeration]
  -- What the fold over the entries keeps and what clashes is one invariant; that the clashes are
  -- equated afterwards, one call for each, is another.
  have haccounts := (Rekeyed.Accounts.empty g).foldl entries
  have hkeeps (entry : Cell × τ) (hentry : entry ∈ entries) :=
    keeps_foldl_rekeyEntry (g := g) entries ⟨[], []⟩ (Or.inl hentry)
  obtain ⟨calls, hequates, hclashes⟩ :=
    Dialogue.exists_equates (entries.foldl (rekeyEntry g) ⟨[], []⟩).clashes f.talk
  have hcall {call : Equating τ} (h : call ∈ calls) :
      (call.kept, call.merged) ∈ (entries.foldl (rekeyEntry g) ⟨[], []⟩).clashes :=
    hclashes ▸ List.mem_map_of_mem h
  refine ⟨calls, ?_, haccounts.nodup, ?_, ?_, ?_, ?_, hequates, hequates.errors_eq, rfl⟩
  · intro entry hentry
    obtain ⟨c, -, hroot⟩ := haccounts.origin entry hentry
    rw [← hroot]
    exact congrArg₂ Cell.mk (hstores.root_root c.store) (hlocations.root_root c.location)
  · intro entry hentry
    obtain ⟨kept, hkept, heq | hmem⟩ := hkeeps entry (hperm.mem_iff.2 hentry)
    · exact ⟨kept, hkept, Or.inl heq⟩
    · rw [← hclashes] at hmem
      obtain ⟨call, hcall, heq⟩ := List.mem_map.1 hmem
      obtain ⟨rfl, hmerged⟩ := Prod.mk.inj heq
      exact ⟨_, hkept, Or.inr ⟨call, hcall, rfl, hmerged⟩⟩
  · intro entry hentry
    obtain ⟨c, hc, hroot⟩ := haccounts.origin entry hentry
    exact ⟨c, hperm.mem_iff.1 hc, hroot⟩
  · intro call hmem
    obtain ⟨c, hc, hkept⟩ := haccounts.clash _ (hcall hmem)
    exact ⟨c, hperm.mem_iff.1 hc, hkept⟩
  · have hlength := haccounts.length_eq
    rw [← hclashes, List.length_map, List.nil_append] at hlength
    exact hlength.trans hperm.length_eq

/-- Two of three stores are merged, and so are two locations. -/
def mergedCellsScript : List (Command Int) :=
  [.makeLocation "x" 1, .makeLocation "y" 1, .storeVariable .internal "r",
    .storeVariable .internal "s", .storeVariable .internal "t",
    .mergeStores .internal "merge" ⟨0⟩ ⟨1⟩, .mergeLocations .internal ⟨0⟩ ⟨1⟩]

/-- Three cells of the merged stores, and one of the third. -/
def mergedCells : Flow Level Int :=
  { Flow.start Level.mk with types := [(⟨0, 0⟩, 1), (⟨1, 0⟩, 2), (⟨1, 1⟩, 1), (⟨2, 1⟩, 5)] }

/-- Read from the end, the three cells become one.  The type of the last of them stays, one of the
others is equal to it, and one is not. -/
theorem exists_accountsFor_rekey_reversed :
    ∃ (g : Graph Int) (f' : Flow Level Int) (calls : List (Equating Int)),
      g.stores.classes.Sound ∧ g.locations.classes.Sound ∧
      ({ mergedCells with types := mergedCells.types.reverse } : Flow Level Int).rekey g = f' ∧
      AccountsFor g mergedCells f' calls ∧
      f'.types = [(⟨2, 0⟩, 5), (⟨0, 0⟩, 1)] ∧ calls.length = 2 ∧
      f'.talk.errors.toList = [⟨.internal, .incompatibleCells⟩] := by
  have hrun : (Session.follow (fun _ _ => True) (Session.start ⟨2, false⟩ Level.mk)
      mergedCellsScript).any fun s =>
        let f' := ({ mergedCells with types := mergedCells.types.reverse } : Flow Level Int).rekey
          s.graph
        List.and [f'.types = [(⟨2, 0⟩, 5), (⟨0, 0⟩, 1)],
          f'.talk.errors.toList = [⟨.internal, .incompatibleCells⟩]] := by
    decide +kernel
  simp only [Option.any_eq_true, and_decide_cons, List.and_nil, and_true] at hrun
  obtain ⟨s, hs, htypes, herrors⟩ := hrun
  have hsound := (Session.ReachableBy.coherent
    (Session.reachableBy_of_follow hs)).sound
  obtain ⟨⟨calls, hcalls⟩, -⟩ := exists_accountsFor_rekey hsound.stores.classes
    hsound.locations.classes mergedCells mergedCells.types.reverse_perm
  refine ⟨s.graph, _, calls, hsound.stores.classes, hsound.locations.classes, rfl, hcalls, htypes,
    ?_, herrors⟩
  have hlength := hcalls.length_eq
  rw [htypes] at hlength
  exact Nat.add_left_cancel (n := 2) hlength

end Flow

end HeapQual
