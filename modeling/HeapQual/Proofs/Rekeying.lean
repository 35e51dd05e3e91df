import HeapQual.Proofs.Flow

/-!
# Keying the types of cells anew

When stores or locations were merged, several types may be known for what is now one cell.  Keying
the table anew keeps one of them for every cell and tells the lattice that the others are equal to
it (`Flow.rekey_spec`).  So no type gets lost: what was known of a cell is known of its present
root, up to types that were equated.

The table may be enumerated in any order: an arrangement is a permutation (`perm_arrange`), and
every permutation is an arrangement (`exists_arrange_eq`).
-/

namespace HeapQual

/-! ## Orders of enumeration -/

section Arrange

variable {α : Type}

lemma perm_arrange (picks : List Nat) (items : List α) : (arrange picks items).Perm items := by
  induction picks generalizing items with
  | nil => exact .refl items
  | cons pick picks ih =>
    cases items with
    | nil => exact .refl []
    | cons item items =>
      have hrest := (ih items).cons item
      rw [← List.take_append_drop pick (arrange picks items)] at hrest
      exact List.perm_middle.trans hrest

/-- No order is left out. -/
theorem exists_arrange_eq {items items' : List α} (h : items'.Perm items) :
    ∃ picks, arrange picks items = items' := by
  induction items generalizing items' with
  | nil => exact ⟨[], h.eq_nil.symm⟩
  | cons item items ih =>
    -- The first item stands somewhere in the other list, and the rest is arranged around it.
    obtain ⟨before, after, rfl⟩ := List.append_of_mem (h.mem_iff.2 (List.mem_cons_self ..))
    obtain ⟨picks, hpicks⟩ := ih (List.perm_middle.symm.trans h).cons_inv
    refine ⟨before.length :: picks, ?_⟩
    simp only [arrange, hpicks, List.take_left', List.drop_left']

end Arrange

/-- The cell that a cell has become, by the present roots. -/
def Cell.reroot {τ : Type} (g : Graph τ) (c : Cell) : Cell :=
  ⟨g.stores.classes.root c.store, g.locations.classes.root c.location⟩

lemma Cell.reroot_reroot {τ : Type} {g g' : Graph τ} (h : g.Extends g') (c : Cell) :
    (c.reroot g).reroot g' = c.reroot g' := by
  simp only [Cell.reroot, h.stores.root_root, h.locations.root_root]

lemma Cell.reroot_of_tweaks {τ : Type} {g g' : Graph τ} (h : g.Tweaks g') (c : Cell) :
    c.reroot g' = c.reroot g := by
  have hlocation : g'.locations.classes.root c.location = g.locations.classes.root c.location :=
    congrFun h.classOf_eq ⟨c.location⟩
  rw [Cell.reroot, Cell.reroot, h.stores_eq, hlocation]

/-- If nothing was merged in the end, nothing was merged on the way. -/
lemma Cell.reroot_eq_of_between {τ : Type} {g g' g'' : Graph τ} (h : g.Extends g')
    (h' : g'.Extends g'') (hg' : g'.Sound) (heq : ∀ c : Cell, c.reroot g'' = c.reroot g)
    (c : Cell) : c.reroot g' = c.reroot g := by
  have hstore := h.stores.root_eq_of_between h'.stores hg'.stores.classes
    (fun i => congrArg Cell.store (heq ⟨i, 0⟩)) c.store
  have hlocation := h.locations.root_eq_of_between h'.locations hg'.locations.classes
    (fun i => congrArg Cell.location (heq ⟨0, i⟩)) c.location
  rw [Cell.reroot, Cell.reroot, hstore, hlocation]

namespace Flow

variable {σ τ : Type} {g : Graph τ} {r : Rekeyed τ} {c : Cell} {type : τ}

lemma rekeyEntry_of_some {entry : Cell × τ} {kept : τ}
    (h : r.types.lookup (entry.1.reroot g) = some kept) :
    rekeyEntry g r entry = { r with clashes := r.clashes ++ [(kept, entry.2)] } := by
  unfold rekeyEntry
  dsimp only
  rw [show r.types.lookup (⟨g.stores.classes.root entry.1.store,
    g.locations.classes.root entry.1.location⟩ : Cell) = some kept from h]

lemma rekeyEntry_of_none {entry : Cell × τ} (h : r.types.lookup (entry.1.reroot g) = none) :
    rekeyEntry g r entry = { r with types := r.types ++ [(entry.1.reroot g, entry.2)] } := by
  unfold rekeyEntry
  dsimp only
  rw [show r.types.lookup (⟨g.stores.classes.root entry.1.store,
    g.locations.classes.root entry.1.location⟩ : Cell) = none from h]
  rfl

/-- The type of an entry is kept at its present root, or clashes with the one that is. -/
def Rekeyed.Keeps (g : Graph τ) (r : Rekeyed τ) (entry : Cell × τ) : Prop :=
  ∃ kept, r.types.lookup (entry.1.reroot g) = some kept ∧
    (kept = entry.2 ∨ (kept, entry.2) ∈ r.clashes)

lemma Rekeyed.Keeps.rekeyEntry {entry entry' : Cell × τ} (h : r.Keeps g entry) :
    (rekeyEntry g r entry').Keeps g entry := by
  obtain ⟨kept, hkept, hclash⟩ := h
  cases hlookup : r.types.lookup (entry'.1.reroot g) with
  | some other =>
    rw [rekeyEntry_of_some hlookup]
    exact ⟨kept, hkept, hclash.imp_right (List.mem_append_left _)⟩
  | none =>
    rw [rekeyEntry_of_none hlookup]
    refine ⟨kept, ?_, hclash⟩
    simp [List.lookup_append, hkept]

lemma keeps_rekeyEntry (g : Graph τ) (r : Rekeyed τ) (entry : Cell × τ) :
    (rekeyEntry g r entry).Keeps g entry := by
  cases hlookup : r.types.lookup (entry.1.reroot g) with
  | some kept =>
    rw [rekeyEntry_of_some hlookup]
    exact ⟨kept, hlookup, Or.inr (List.mem_append_right _ (List.mem_singleton_self _))⟩
  | none =>
    rw [rekeyEntry_of_none hlookup]
    refine ⟨entry.2, ?_, Or.inl rfl⟩
    simp [List.lookup_append, hlookup]

lemma keeps_foldl_rekeyEntry (entries : List (Cell × τ)) (r : Rekeyed τ) {entry : Cell × τ}
    (h : entry ∈ entries ∨ r.Keeps g entry) :
    (entries.foldl (rekeyEntry g) r).Keeps g entry := by
  induction entries generalizing r with
  | nil => exact h.resolve_left List.not_mem_nil
  | cons first entries ih =>
    apply ih
    rcases h with h | h
    · rcases List.mem_cons.1 h with rfl | h
      · exact Or.inr (keeps_rekeyEntry g r entry)
      · exact Or.inl h
    · exact Or.inr h.rekeyEntry

/-- The table is keyed by present roots. -/
lemma exists_reroot_of_mem_rekeyed (entries : List (Cell × τ)) (r : Rekeyed τ)
    (hr : ∀ entry ∈ r.types, ∃ c : Cell, entry.1 = c.reroot g) {entry : Cell × τ}
    (h : entry ∈ (entries.foldl (rekeyEntry g) r).types) : ∃ c : Cell, entry.1 = c.reroot g := by
  induction entries generalizing r with
  | nil => exact hr entry h
  | cons first entries ih =>
    refine ih (rekeyEntry g r first) (fun e he => ?_) h
    cases hlookup : r.types.lookup (first.1.reroot g) with
    | some kept =>
      rw [rekeyEntry_of_some hlookup] at he
      exact hr e he
    | none =>
      rw [rekeyEntry_of_none hlookup] at he
      rcases List.mem_append.1 he with he | he
      · exact hr e he
      · rw [List.mem_singleton.1 he]
        exact ⟨first.1, rfl⟩

lemma mem_of_lookup_eq_some {types : List (Cell × τ)} (h : types.lookup c = some type) :
    (c, type) ∈ types := by
  obtain ⟨before, after, rfl, -⟩ := List.lookup_eq_some_iff.1 h
  simp

lemma perm_enumeration (f : Flow σ τ) : f.enumeration.Perm f.types :=
  perm_arrange _ f.types

variable [QualifierLattice σ τ]

lemma tells_equateClashes (clashes : List (τ × τ)) (talk : Dialogue σ τ) :
    ∃ new, talk.Tells new (clashes.foldl equateClash talk) ∧ (∀ t ∈ new, t.reason = .cells) ∧
      ∀ clash ∈ clashes, ⟨.cells, clash.1, clash.2⟩ ∈ new ∧ ⟨.cells, clash.2, clash.1⟩ ∈ new := by
  induction clashes generalizing talk with
  | nil =>
    exact ⟨[], .refl _, fun t ht => absurd ht List.not_mem_nil,
      fun clash hclash => absurd hclash List.not_mem_nil⟩
  | cons clash clashes ih =>
    -- Both directions are required even where the first is refused.
    have hfirst : talk.Tells [⟨.cells, clash.2, clash.1⟩, ⟨.cells, clash.1, clash.2⟩]
        (equateClash talk clash) := by
      have hequate := Dialogue.tells_equate talk .cells clash.1 clash.2
      unfold equateClash
      dsimp only
      split
      · exact hequate
      · exact hequate.trans (Dialogue.tells_report _ _ _)
    obtain ⟨new, htells, hreason, hmem⟩ := ih (equateClash talk clash)
    refine ⟨_, hfirst.trans htells, fun t ht => ?_, fun clash' hclash' => ?_⟩
    · rcases List.mem_append.1 ht with ht | ht
      · exact hreason t ht
      · simp only [List.mem_cons, List.not_mem_nil, or_false] at ht
        rcases ht with rfl | rfl <;> rfl
    · rcases List.mem_cons.1 hclash' with rfl | hclash'
      · exact ⟨List.mem_append_right _ (by simp), List.mem_append_right _ (by simp)⟩
      · obtain ⟨hforth, hback⟩ := hmem clash' hclash'
        exact ⟨List.mem_append_left _ hforth, List.mem_append_left _ hback⟩

/-- Keying anew keeps, for every cell of which a type is known, a type that is equal to it or was
equated to it. -/
theorem rekey_spec (g : Graph τ) (f : Flow σ τ) :
    ∃ new, f.talk.Tells new (f.rekey g).talk ∧ (∀ t ∈ new, t.reason = .cells) ∧
      (∀ c type, f.types.lookup c = some type →
        ∃ kept, (f.rekey g).types.lookup (c.reroot g) = some kept ∧
          (kept = type ∨ ⟨.cells, kept, type⟩ ∈ new ∧ ⟨.cells, type, kept⟩ ∈ new)) ∧
      ∀ entry ∈ (f.rekey g).types, ∃ c : Cell, entry.1 = c.reroot g := by
  obtain ⟨new, htells, hreason, hclash⟩ :=
    tells_equateClashes (f.enumeration.foldl (rekeyEntry g) ⟨[], []⟩).clashes f.talk
  refine ⟨new, htells, hreason, fun c type hc => ?_, fun entry hentry => ?_⟩
  · obtain ⟨kept, hkept, heq | hmem⟩ := keeps_foldl_rekeyEntry (g := g) f.enumeration ⟨[], []⟩
      (Or.inl (f.perm_enumeration.mem_iff.2 (mem_of_lookup_eq_some hc)))
    · exact ⟨kept, hkept, Or.inl heq⟩
    · exact ⟨kept, hkept, Or.inr (hclash _ hmem)⟩
  · exact exists_reroot_of_mem_rekeyed f.enumeration ⟨[], []⟩
      (fun e he => absurd he List.not_mem_nil) hentry

end Flow

end HeapQual
