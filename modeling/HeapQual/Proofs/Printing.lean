import HeapQual.Proofs.Session.Closing

/-!
# Printing does not fail

A store can be printed if everything exists that it names, and only then
(`Graph.printable_storePieces_iff`).  So in a graph in which everything exists that is named
(`Graph.Named`) every piece of a printed store exists.  Whether an output is full before a piece is
reached then makes no difference to whether printing fails.
-/

namespace HeapQual

/-- None of the pieces names what does not exist. -/
def Printable (pieces : List (Except Fault String)) : Prop := ∀ p ∈ pieces, ∃ text, p = .ok text

lemma Output.exists_writeAll {pieces : List (Except Fault String)} (h : Printable pieces)
    (o : Output) : ∃ o', o.writeAll pieces = .ok o' := by
  induction pieces generalizing o with
  | nil => exact ⟨o, rfl⟩
  | cons piece pieces ih =>
    obtain ⟨text, rfl⟩ := h piece (List.mem_cons_self ..)
    unfold writeAll
    split
    · exact ⟨o, rfl⟩
    · exact ih (fun p hp => h p (List.mem_cons_of_mem _ hp)) (o.write text)

lemma Session.exists_printed {τ : Type} {pieces : List (Except Fault String)} (h : Printable pieces)
    (limit : Option Nat) :
    ∃ o, (Session.printed pieces limit : Except Fault (Reply τ)) = .ok (.ofOutput o) := by
  obtain ⟨o, ho⟩ := Output.exists_writeAll h (Output.start limit)
  exact ⟨o, congrArg (Except.map Reply.ofOutput) ho⟩

/-- An output without a bound takes all pieces. -/
lemma Output.writeAll_of_mapM {pieces : List (Except Fault String)} {texts : List String}
    (h : pieces.mapM id = .ok texts) (text : String) :
    Output.writeAll pieces ⟨text, none, false⟩ = .ok ⟨text ++ String.join texts, none, false⟩ := by
  rw [mapM_eq_ok_iff] at h
  induction h generalizing text with
  | nil => rw [writeAll, String.join_nil, String.append_empty]
  | @cons piece first _ _ hpiece _ ih =>
    obtain rfl : piece = .ok first := hpiece
    rw [String.join_cons, ← String.append_assoc]
    exact ih (text ++ first)

lemma Session.printed_of_mapM {τ : Type} {pieces : List (Except Fault String)}
    {texts : List String} (h : pieces.mapM id = .ok texts) :
    (Session.printed pieces none : Except Fault (Reply τ)) = .ok (.text (String.join texts)) := by
  have hwrite := Output.writeAll_of_mapM h ""
  rw [String.empty_append] at hwrite
  exact congrArg (Except.map Reply.ofOutput) hwrite

namespace Graph

variable {τ : Type} {g : Graph τ} {x : StoreId} {a : LocationId} {e : EffectId}

lemma exists_storeName_iff : (∃ text, g.storeName x = .ok text) ↔ x.index < g.stores.size := by
  unfold storeName
  rw [exists_bind_eq_ok_iff]
  simp only [Stores.find_eq_ok_iff]
  constructor
  · rintro ⟨_, ⟨hx, -⟩, -⟩
    exact hx
  · intro hx
    refine ⟨_, ⟨hx, rfl⟩, ?_⟩
    split <;> exact ⟨_, rfl⟩

lemma exists_rootLabel (hx : x.index < g.stores.size) : ∃ text, g.rootLabel x = .ok text := by
  unfold rootLabel Stores.find
  rw [if_pos hx]
  exact ⟨_, rfl⟩

lemma exists_printEffect_iff : (∃ text, g.printEffect e = .ok text) ↔ e.index < g.effects.size := by
  unfold printEffect
  rw [exists_bind_eq_ok_iff]
  simp only [Effects.find_eq_ok_iff]
  constructor
  · rintro ⟨_, ⟨he, -⟩, -⟩
    exact he
  · intro he
    exact ⟨_, ⟨he, rfl⟩, _, rfl⟩

lemma exists_printLocation_iff :
    (∃ text, g.printLocation a = .ok text) ↔ a.index < g.locations.size := by
  unfold printLocation
  rw [exists_map_eq_ok_iff]
  simp only [Locations.find_eq_ok_iff]
  constructor
  · rintro ⟨_, ha, -⟩
    exact ha
  · intro ha
    exact ⟨_, ha, rfl⟩

/-- Everything that the store at this position names exists. -/
structure NamedAt (g : Graph τ) (i : Nat) : Prop where
  operand_lt : ∀ x ∈ (g.stores.nodeAt i).operands, x.index < g.stores.size
  location_lt : ∀ a, (g.stores.nodeAt i).ownLocation? = some a → a.index < g.locations.size
  effect_lt : ∀ e, (g.stores.nodeAt i).effect? = some e → e.index < g.effects.size

lemma Named.namedAt (hg : g.Named) (i : Nat) : g.NamedAt i :=
  ⟨hg.operand_lt i, hg.location_lt i, hg.effect_lt i⟩

lemma namedAt_iff {i : Nat} : g.NamedAt i ↔
    (∀ x ∈ (g.stores.nodeAt i).operands, x.index < g.stores.size) ∧
      (∀ a, (g.stores.nodeAt i).ownLocation? = some a → a.index < g.locations.size) ∧
      ∀ e, (g.stores.nodeAt i).effect? = some e → e.index < g.effects.size :=
  ⟨fun h => ⟨h.operand_lt, h.location_lt, h.effect_lt⟩, fun h => ⟨h.1, h.2.1, h.2.2⟩⟩

/-- The operator at a position can be printed if everything exists that it names, and only then. -/
lemma printable_storePieces_iff {i : Nat} : Printable (g.storePieces i) ↔ g.NamedAt i := by
  have hpure (text : String) : ∃ t, (pure text : Except Fault String) = .ok t := ⟨text, rfl⟩
  rw [namedAt_iff]
  unfold storePieces Printable
  cases g.stores.nodeAt i with
  | var name =>
    simp [StoreNode.operands, StoreNode.ownLocation?, StoreNode.effect?, hpure]
  | restrict base e =>
    simp [StoreNode.operands, StoreNode.ownLocation?, StoreNode.effect?, exists_map_eq_ok_iff,
      exists_storeName_iff, exists_printEffect_iff]
  | allocate base a fresh =>
    rw [List.forall_mem_singleton, exists_both_eq_ok_iff, exists_printLocation_iff,
      exists_storeName_iff]
    simp [StoreNode.operands, StoreNode.ownLocation?, StoreNode.effect?, and_comm]
  | overlay inside outside e =>
    rw [List.forall_mem_cons, List.forall_mem_cons, List.forall_mem_singleton,
      exists_both_eq_ok_iff, exists_storeName_iff, exists_storeName_iff, exists_printEffect_iff]
    simp [StoreNode.operands, StoreNode.ownLocation?, StoreNode.effect?, hpure]
  | update base a type strong position message =>
    rw [List.forall_mem_singleton, exists_both_eq_ok_iff, exists_printLocation_iff,
      exists_storeName_iff]
    simp [StoreNode.operands, StoreNode.ownLocation?, StoreNode.effect?]
namespace Named

/-- The operator at a position can be printed. -/
lemma printable_storePieces (hg : g.Named) (i : Nat) : Printable (g.storePieces i) :=
  printable_storePieces_iff.2 (hg.namedAt i)

lemma printable_printStore (hg : g.Named) (hx : x.index < g.stores.size) :
    Printable (g.printStore x) := by
  unfold printStore Stores.find
  rw [if_pos hx]
  exact hg.printable_storePieces _

lemma printable_printStoreRaw (hg : g.Named) (hx : x.index < g.stores.size) :
    Printable (g.printStoreRaw x) := by
  unfold printStoreRaw Stores.find
  rw [if_pos hx]
  have hoperand := hg.operand_lt (g.stores.root x)
  refine List.forall_mem_cons.2 ⟨⟨_, rfl⟩, List.forall_mem_singleton.2 ?_⟩
  generalize g.stores.nodeAt (g.stores.root x) = node at hoperand ⊢
  cases node with
  | var name => exact ⟨_, rfl⟩
  | restrict base e =>
    obtain ⟨store, hstore⟩ := exists_rootLabel (hoperand base (List.mem_singleton_self _))
    simp only [hstore]
    exact ⟨_, rfl⟩
  | allocate base a fresh =>
    obtain ⟨store, hstore⟩ := exists_rootLabel (hoperand base (List.mem_singleton_self _))
    simp only [hstore]
    exact ⟨_, rfl⟩
  | overlay inside outside e =>
    obtain ⟨first, hfirst⟩ := exists_rootLabel (hoperand inside (List.mem_cons_self ..))
    obtain ⟨second, hsecond⟩ := exists_rootLabel (hoperand outside
      (List.mem_cons_of_mem _ (List.mem_singleton_self _)))
    simp only [hfirst, hsecond]
    exact ⟨_, rfl⟩
  | update base a type strong position message =>
    obtain ⟨store, hstore⟩ := exists_rootLabel (hoperand base (List.mem_singleton_self _))
    simp only [hstore]
    exact ⟨_, rfl⟩

end Named

end Graph

end HeapQual
