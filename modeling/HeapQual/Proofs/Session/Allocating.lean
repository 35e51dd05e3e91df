import HeapQual.Lattice.Level
import HeapQual.Proofs.Session.Aliases
import HeapQual.Proofs.Store.LeastDomains

/-!
# Allocating the locations of an effect

All locations of an effect can be allocated at once.  The effect is taken apart along its unions
(`Effects.Spreads`), and its parts must be empty or atoms.  Of the locations of its atoms one of
each class is kept (`Session.Keeps`), and an allocation is made for each of them, from the last to
the first, each on the one before (`Stores.Stacked`).

A call that fails does not say what was done until then.  So the same steps are taken by a
computation that has a session also when it ends with a fault (`Session.allocatingAll`).  It fails
before the first allocation or not at all, because atoms are about locations that exist
(`Session.allocatesAll_of_reachable`).
-/

namespace HeapQual

/-! ## The parts of a union -/

/-- Can an effect with this expression be part of a union that is allocated?  A variable and an
intersection cannot. -/
def EffectNode.isAllocatable : EffectNode → Bool
  | var _ | inter _ _ => false
  | _ => true

/-- The location of an atom. -/
def EffectNode.location? : EffectNode → Option LocationId
  | atom _ a => some a
  | _ => none

namespace Effects

variable {t : Effects} {e : EffectId} {leaves : List EffectId} {locations : Nat}

/-- Taken apart along its unions, the effect has these parts, from left to right. -/
inductive Spreads (t : Effects) : EffectId → List EffectId → Prop
  | leaf {e : EffectId} : (∀ a b, t.node e ≠ .union a b) → Spreads t e [e]
  | union {e a b : EffectId} {left right : List EffectId} : t.node e = .union a b →
      Spreads t a left → Spreads t b right → Spreads t e (left ++ right)

/-- Every effect can be taken apart. -/
lemma Sound.exists_spreads (ht : t.Sound locations) (e : EffectId) :
    ∃ leaves, t.Spreads e leaves := by
  -- Operands come before their operators.
  induction hi : e.index using Nat.strongRecOn generalizing e with
  | _ i ih =>
    by_cases hunion : ∃ a b, t.node e = .union a b
    · obtain ⟨a, b, hnode⟩ := hunion
      have hlt : ∀ x ∈ [a, b], x.index < i := fun x hx =>
        hi ▸ ht.operand_lt_index (e := e) (a := x) (by rw [hnode]; exact hx)
      obtain ⟨left, hleft⟩ := ih a.index (hlt a (by simp)) a rfl
      obtain ⟨right, hright⟩ := ih b.index (hlt b (by simp)) b rfl
      exact ⟨_, .union hnode hleft hright⟩
    · exact ⟨_, .leaf fun a b hnode => hunion ⟨a, b, hnode⟩⟩

/-- The locations of the atoms among some effects. -/
def locationsOf (t : Effects) (parts : List EffectId) : List LocationId :=
  parts.filterMap fun part => (t.node part).location?

lemma mem_locationsOf {parts : List EffectId} {a : LocationId} :
    a ∈ t.locationsOf parts ↔ ∃ part ∈ parts, ∃ kind, t.node part = .atom kind a := by
  rw [locationsOf, List.mem_filterMap]
  refine exists_congr fun part => and_congr_right fun _ => ?_
  cases t.node part <;> simp [EffectNode.location?]

/-- The search finds the locations of the atoms from left to right, or the first part that cannot be
allocated. -/
lemma Spreads.atomsFrom_eq (ht : t.Sound locations) (h : t.Spreads e leaves) {fuel : Nat}
    (hfuel : e.index < fuel) :
    t.atomsFrom fuel e = (leaves.find? fun part => !(t.node part).isAllocatable).elim
      (.ok (t.locationsOf leaves)) .error := by
  induction h generalizing fuel with
  | @leaf e hleaf =>
    obtain ⟨fuel, rfl⟩ := Nat.exists_eq_add_of_lt hfuel
    cases hnode : t.node e with
    | union a b => exact absurd hnode (hleaf a b)
    | _ =>
      simp [atomsFrom, locationsOf, hnode, EffectNode.location?, EffectNode.isAllocatable]
  | @union e a b left right hnode _ _ ihleft ihright =>
    have hlt : ∀ x ∈ [a, b], x.index < e.index := fun x hx =>
      ht.operand_lt_index (by rw [hnode]; exact hx)
    obtain ⟨fuel, rfl⟩ := Nat.exists_eq_succ_of_ne_zero (Nat.ne_zero_of_lt hfuel)
    have hleft := ihleft ((hlt a (by simp)).trans_le (Nat.le_of_lt_succ hfuel))
    have hright := ihright ((hlt b (by simp)).trans_le (Nat.le_of_lt_succ hfuel))
    simp only [atomsFrom, hnode, hleft, hright, List.find?_append]
    -- The left operand is searched first.
    cases left.find? fun part => !(t.node part).isAllocatable with
    | some part => rfl
    | none =>
      cases right.find? fun part => !(t.node part).isAllocatable with
      | some part => rfl
      | none => exact congrArg Except.ok List.filterMap_append.symm

end Effects

/-! ## Allocations on one another -/

namespace Stores

variable {τ : Type} {t t' : Stores τ} {first : Nat} {base x : StoreId}
  {bound : List (LocationId × τ)}

/-- The store allocates these locations on a base, with these types, the first outermost.  The
allocations are numbered from the innermost on. -/
inductive Stacked (t : Stores τ) (first : Nat) (base : StoreId) :
    List (LocationId × τ) → StoreId → Prop
  | base : Stacked t first base [] base
  | allocate {bound : List (LocationId × τ)} {y : StoreId} {a : LocationId} {type : τ} :
      Stacked t first base bound y → t.nodeAt (first + bound.length) = .allocate y a type →
      Stacked t first base ((a, type) :: bound) ⟨first + bound.length⟩

lemma Stacked.mono (h : t.Stacked first base bound x)
    (heq : ∀ i < first + bound.length, t'.nodeAt i = t.nodeAt i) :
    t'.Stacked first base bound x := by
  induction h with
  | base => exact .base
  | @allocate bound _ _ _ _ hnode ih =>
    have hlt : first + bound.length < first + (bound.length + 1) := Nat.lt_succ_self _
    exact .allocate (ih fun i hi => heq i (hi.trans hlt)) ((heq _ hlt).trans hnode)

end Stores

/-- A stack of allocations binds what its base binds and what it allocates. -/
lemma Graph.DomainsAgree.stacked {τ : Type} {g : Graph τ} {D : Nat → Set Nat} {first : Nat}
    {base x : StoreId} {bound : List (LocationId × τ)} (hD : g.DomainsAgree D) (hg : g.Sound)
    (h : g.stores.Stacked first base bound x) :
    D (g.stores.root x) =
      D (g.stores.root base) ∪ {i | ∃ a ∈ bound.map Prod.fst, g.classOf a = i} := by
  induction h with
  | base => simp
  | @allocate bound y a type _ hnode ih =>
    have hroot : g.stores.root ⟨first + bound.length⟩ = first + bound.length :=
      hg.stores.root_eq (by rw [hnode]; rfl)
    rw [hroot, hD.allocate _ _ _ _ hnode, ih]
    ext i
    simp only [Set.mem_insert_iff, Set.mem_union, Set.mem_ofPred_eq, List.map_cons,
      List.exists_mem_cons_iff, eq_comm (a := i)]
    exact or_left_comm

namespace Session

variable {σ τ : Type} {s s' s₁ : Session σ τ} {base x : StoreId} {e : EffectId} {a : LocationId}
  {classOf : LocationId → Nat} {locations kept : List LocationId}

/-! ## One location of each class -/

/-- One location of each class is kept. -/
structure Keeps (classOf : LocationId → Nat) (locations kept : List LocationId) : Prop where
  sublist : kept.Sublist locations
  pairwise : kept.Pairwise fun a b => classOf a ≠ classOf b
  covers : ∀ a ∈ locations, ∃ b ∈ kept, classOf b = classOf a

lemma keeps_distinct (classOf : LocationId → Nat) (locations : List LocationId) :
    Keeps classOf locations (distinct classOf locations) := by
  induction locations with
  | nil => exact ⟨.slnil, .nil, fun a ha => absurd ha List.not_mem_nil⟩
  | cons a rest ih =>
    rw [distinct]
    refine ⟨(List.filter_sublist.trans ih.sublist).cons_cons a, ?_, ?_⟩
    · refine List.pairwise_cons.2 ⟨fun b hb => ?_, ih.pairwise.filter _⟩
      exact (of_decide_eq_true (List.mem_filter.1 hb).2).symm
    · intro b hb
      rcases List.mem_cons.1 hb with rfl | hb
      · exact ⟨b, List.mem_cons_self .., rfl⟩
      · obtain ⟨c, hc, hclass⟩ := ih.covers b hb
        by_cases hsame : classOf c = classOf a
        · exact ⟨a, List.mem_cons_self .., hsame.symm.trans hclass⟩
        · exact ⟨c, List.mem_cons_of_mem _ (List.mem_filter.2 ⟨hc, decide_eq_true hsame⟩), hclass⟩

lemma Keeps.reverse (h : Keeps classOf locations kept) :
    Keeps classOf locations.reverse kept.reverse where
  sublist := h.sublist.reverse
  pairwise := List.pairwise_reverse.2 (h.pairwise.imp Ne.symm)
  covers a ha := by
    obtain ⟨b, hb, hclass⟩ := h.covers a (List.mem_reverse.1 ha)
    exact ⟨b, List.mem_reverse.2 hb, hclass⟩

/-- What is kept stands for all locations, also when classes were joined. -/
lemma Keeps.classes_eq (h : Keeps classOf locations kept) {classOf' : LocationId → Nat}
    (hjoined : ∀ a b, classOf a = classOf b → classOf' a = classOf' b) :
    {i | ∃ a ∈ kept, classOf' a = i} = {i | ∃ a ∈ locations, classOf' a = i} := by
  ext i
  constructor
  · rintro ⟨a, ha, rfl⟩
    exact ⟨a, h.sublist.subset ha, rfl⟩
  · rintro ⟨a, ha, rfl⟩
    obtain ⟨b, hb, hclass⟩ := h.covers a ha
    exact ⟨b, hb, hjoined b a hclass⟩

/-! ## The session at a fault -/

/-- What a computation returns, if the session is given up at a fault. -/
def returned {α : Type} : EStateM.Result Fault (Session σ τ) α → Except Fault (α × Session σ τ)
  | .ok a s => .ok (a, s)
  | .error fault _ => .error fault

lemma returned_bind {α β : Type} (f : EStateM Fault (Session σ τ) α)
    (k : α → EStateM Fault (Session σ τ) β) (s : Session σ τ) :
    returned ((f >>= k) s) = returned (f s) >>= fun p => returned (k p.1 p.2) := by
  show returned (EStateM.bind f k s) = _
  unfold EStateM.bind
  cases f s <;> rfl

lemma returned_ofExcept_bind {α β : Type} (r : Except Fault α)
    (k : α → EStateM Fault (Session σ τ) β) (s : Session σ τ) :
    returned ((MonadExcept.ofExcept r >>= k : EStateM Fault (Session σ τ) β) s) =
      r >>= fun a => returned (k a s) := by
  cases r <;> rfl

variable [QualifierLattice σ τ]

/-- The steps of an allocation. -/
def allocating (position : Position) (base : StoreId) (a : LocationId) :
    EStateM Fault (Session σ τ) StoreId := do
  let record ← MonadExcept.ofExcept ((← get).graph.locations.read a)
  let fresh ← modifyGet fun s =>
    ((s.talk.fresh record.holds).1, s.withTalk (s.talk.fresh record.holds).2)
  let x ← modifyGet fun s => s.enterStore (.allocate base a fresh)
  modify fun s => s.note (.allocationMade position base a x)
  return x

/-- The steps of allocating every location of an effect. -/
def allocatingAll (position : Position) (base : StoreId) (e : EffectId) :
    EStateM Fault (Session σ τ) StoreId := do
  let s ← get
  let _ ← MonadExcept.ofExcept (s.graph.effects.find e)
  let locations ← MonadExcept.ofExcept ((s.graph.effects.atoms e).mapError .notAllocatable)
  (distinct s.graph.classOf locations.reverse).foldlM (allocating position) base

lemma returned_allocating (position : Position) (base : StoreId) (a : LocationId)
    (s : Session σ τ) : returned (allocating position base a s) = s.allocate position base a :=
  returned_ofExcept_bind (s.graph.locations.read a) _ s

lemma returned_allocatingSteps (position : Position) (base : StoreId)
    (locations : List LocationId) (s : Session σ τ) :
    returned (locations.foldlM (allocating position) base s) =
      locations.foldlM (fun (x, s) a => s.allocate position x a) (base, s) := by
  induction locations generalizing base s with
  | nil => rfl
  | cons a locations ih =>
    rw [List.foldlM_cons, List.foldlM_cons, returned_bind, returned_allocating]
    exact congrArg _ (funext fun p => ih p.1 p.2)

/-- With the session at a fault given up, these are the steps of the call. -/
lemma returned_allocatingAll (position : Position) (base : StoreId) (e : EffectId)
    (s : Session σ τ) :
    returned (allocatingAll position base e s) = s.allocateAll position base e := by
  refine (returned_ofExcept_bind (s.graph.effects.find e) _ s).trans ?_
  refine congrArg _ (funext fun _ => ?_)
  refine (returned_ofExcept_bind ((s.graph.effects.atoms e).mapError .notAllocatable) _ s).trans ?_
  cases s.graph.effects.atoms e with
  | error part => rfl
  | ok locations => exact returned_allocatingSteps ..

lemma perform_allocateAll (position : Position) (base : StoreId) (e : EffectId)
    (s : Session σ τ) : s.perform (.allocateAll position base e) =
      (returned (allocatingAll position base e s)).map fun p => (.store p.1, p.2) := by
  rw [returned_allocatingAll]
  show s.allocateAll position base e >>= _ = _
  cases s.allocateAll position base e <;> rfl

/-! ## One allocation for each class -/

/-- These locations were allocated on a base, with types that the lattice has made for them, and
nothing else was done. -/
structure Allocated (s : Session σ τ) (base : StoreId) (bound : List (LocationId × τ))
    (x : StoreId) (s' : Session σ τ) : Prop where
  stacked : s'.graph.stores.Stacked s.graph.stores.size base bound x
  size_eq : s'.graph.stores.size = s.graph.stores.size + bound.length
  nodeAt_eq : ∀ i < s.graph.stores.size, s'.graph.stores.nodeAt i = s.graph.stores.nodeAt i
  edges_eq : s'.graph.stores.edges = s.graph.stores.edges
  locations_eq : s'.graph.locations = s.graph.locations
  effects_eq : s'.graph.effects = s.graph.effects
  calls : ∃ made, s.talk.Calls made s'.talk ∧ List.Forall₂ (fun p call => ∃ like,
    s.graph.locations.held? (s.graph.classOf p.1) = some like ∧ call = .made like p.2) bound made

variable {bound : List (LocationId × τ)}

omit [QualifierLattice σ τ] in
lemma Allocated.refl (s : Session σ τ) (base : StoreId) : s.Allocated base [] base s :=
  ⟨.base, rfl, fun _ _ => rfl, rfl, rfl, rfl, [], .refl _, .nil⟩

omit [QualifierLattice σ τ] in
lemma returned_eq_ok_iff {α : Type} {r : EStateM.Result Fault (Session σ τ) α} {answer : α} :
    returned r = .ok (answer, s) ↔ r = .ok answer s := by
  cases r <;> simp [returned]

omit [QualifierLattice σ τ] in
lemma calls_enterStore (s : Session σ τ) (node : StoreNode τ) :
    s.talk.Calls [] (s.enterStore node).2.talk :=
  calls_forget (s.withStores (s.graph.stores.add node).2)

/-- An allocation makes a type and enters a store with it. -/
lemma allocate_of_read {record : LocationRecord τ} (hread : s.graph.locations.read a = .ok record)
    (position : Position) (base : StoreId) :
    ∃ type s', s.allocate position base a = .ok (⟨s.graph.stores.size⟩, s') ∧
      s'.graph = { s.graph with stores := (s.graph.stores.add (.allocate base a type)).2 } ∧
      s.talk.Calls [.made record.holds type] s'.talk := by
  refine ⟨_, _, bind_eq_ok_iff.2 ⟨record, hread, rfl⟩, graph_forget _, ?_⟩
  have hfresh := Dialogue.calls_fresh s.talk record.holds
  have henter := calls_enterStore (s.withTalk (s.talk.fresh record.holds).2)
    (.allocate base a (s.talk.fresh record.holds).1)
  exact (hfresh.trans henter).trans (Dialogue.calls_note ..)

/-- A location that exists can be allocated on what was allocated before. -/
lemma Allocated.step (h : s.Allocated base bound x s₁) (hs : s.graph.Sound)
    (ha : a.index < s.graph.locations.size) (position : Position) :
    ∃ type s₂, allocating position x a s₁ = .ok ⟨s.graph.stores.size + bound.length⟩ s₂ ∧
      s.Allocated base ((a, type) :: bound) ⟨s.graph.stores.size + bound.length⟩ s₂ := by
  obtain ⟨record, hread, hrecord⟩ := read_of_lt hs ha
  rw [← h.locations_eq] at hread
  obtain ⟨type, s₂, hallocate, hgraph, hcall⟩ := allocate_of_read hread position x
  rw [← returned_allocating, returned_eq_ok_iff, h.size_eq] at hallocate
  have hnodeAt (i : Nat) : s₂.graph.stores.nodeAt i =
      if i = s.graph.stores.size + bound.length then .allocate x a type
      else s₁.graph.stores.nodeAt i := by
    rw [hgraph, ← h.size_eq]
    exact Stores.nodeAt_add ..
  have hbelow : ∀ i < s.graph.stores.size + bound.length,
      s₂.graph.stores.nodeAt i = s₁.graph.stores.nodeAt i := fun i hi => by
    rw [hnodeAt, if_neg hi.ne]
  obtain ⟨made, hmade, hlike⟩ := h.calls
  refine ⟨type, s₂, hallocate, ?_⟩
  constructor
  · exact .allocate (h.stacked.mono hbelow) ((hnodeAt _).trans (if_pos rfl))
  · rw [hgraph, List.length_cons, ← Nat.add_assoc, ← h.size_eq]
    exact Stores.size_add ..
  · exact fun i hi => (hbelow i (Nat.lt_add_right _ hi)).trans (h.nodeAt_eq i hi)
  · rw [hgraph]
    exact h.edges_eq
  · rw [hgraph]
    exact h.locations_eq
  · rw [hgraph]
    exact h.effects_eq
  · refine ⟨_, hmade.trans hcall, .cons ⟨record.holds, ?_, rfl⟩ hlike⟩
    exact congrArg (Option.map LocationRecord.holds) hrecord

/-- Locations that exist can be allocated one after the other. -/
lemma Allocated.steps (h : s.Allocated base bound x s₁) (hs : s.graph.Sound)
    (hlt : ∀ a ∈ locations, a.index < s.graph.locations.size) (position : Position) :
    ∃ bound' y s₂, locations.foldlM (allocating position) x s₁ = .ok y s₂ ∧
      s.Allocated base bound' y s₂ ∧
      bound'.map Prod.fst = locations.reverse ++ bound.map Prod.fst := by
  induction locations generalizing bound x s₁ with
  | nil => exact ⟨bound, x, s₁, rfl, h, rfl⟩
  | cons a locations ih =>
    obtain ⟨ha, hrest⟩ := List.forall_mem_cons.1 hlt
    obtain ⟨type, s₂, hstep, hallocated⟩ := h.step hs ha position
    obtain ⟨bound', y, s₃, hsteps, hall, hbound⟩ := ih hallocated hrest
    refine ⟨bound', y, s₃, ?_, hall, ?_⟩
    · rw [← returned_eq_ok_iff, List.foldlM_cons, returned_bind, hstep]
      exact returned_eq_ok_iff.2 hsteps
    · rw [hbound, List.map_cons, List.reverse_cons, List.append_assoc]
      rfl

variable {leaves : List EffectId}

/-- What is done with an effect that exists depends on what is found in it. -/
lemma allocatingAll_of_lt (he : e.index < s.graph.effects.size) (position : Position)
    (base : StoreId) : allocatingAll position base e s =
      (MonadExcept.ofExcept ((s.graph.effects.atoms e).mapError .notAllocatable) >>=
        fun locations => (distinct s.graph.classOf locations.reverse).foldlM
          (allocating position) base : EStateM Fault (Session σ τ) StoreId) s := by
  have hfind : s.graph.effects.find e = .ok (s.graph.effects.root e) :=
    Effects.find_eq_ok_iff.2 ⟨he, rfl⟩
  show (MonadExcept.ofExcept (s.graph.effects.find e) >>= _ :
    EStateM Fault (Session σ τ) StoreId) s = _
  rw [hfind]
  rfl

/-- If a part cannot be allocated, the first such part is named, before anything was done. -/
lemma allocatingAll_eq_error (hs : s.graph.Sound) (he : e.index < s.graph.effects.size)
    (hleaves : s.graph.effects.Spreads e leaves) {part : EffectId}
    (hpart : (leaves.find? fun part => !(s.graph.effects.node part).isAllocatable) = some part)
    (position : Position) (base : StoreId) :
    allocatingAll position base e s = .error (.notAllocatable part) s := by
  rw [allocatingAll_of_lt he, Effects.atoms, hleaves.atomsFrom_eq hs.effects he, hpart]
  rfl

/-- If all parts can be allocated, one location of each class is. -/
lemma allocatingAll_eq_ok (hs : s.graph.Sound) (he : e.index < s.graph.effects.size)
    (hleaves : s.graph.effects.Spreads e leaves)
    (hall : (leaves.find? fun part => !(s.graph.effects.node part).isAllocatable) = none)
    (position : Position) (base : StoreId) :
    ∃ bound x s', allocatingAll position base e s = .ok x s' ∧ s.Allocated base bound x s' ∧
      Keeps s.graph.classOf (s.graph.effects.locationsOf leaves) (bound.map Prod.fst) := by
  set locations := s.graph.effects.locationsOf leaves with hlocations
  have hkeeps := keeps_distinct s.graph.classOf locations.reverse
  have hlt : ∀ a ∈ distinct s.graph.classOf locations.reverse,
      a.index < s.graph.locations.size := by
    intro a ha
    obtain ⟨part, -, kind, hnode⟩ :=
      Effects.mem_locationsOf.1 (List.mem_reverse.1 (hkeeps.sublist.subset ha))
    exact hs.effects.atom_lt _ kind a hnode
  obtain ⟨bound, x, s', hsteps, hallocated, hbound⟩ :=
    (Allocated.refl s base).steps hs hlt position
  refine ⟨bound, x, s', ?_, hallocated, ?_⟩
  · rw [allocatingAll_of_lt he, Effects.atoms, hleaves.atomsFrom_eq hs.effects he, hall]
    exact hsteps
  · have hkept := hkeeps.reverse
    rw [List.reverse_reverse] at hkept
    rwa [hbound, List.map_nil, List.append_nil]

/-- Allocating the locations of an effect with these parts fails at once, or it allocates one
location of each class. -/
structure AllocatesAll (s : Session σ τ) (position : Position) (base : StoreId) (e : EffectId)
    (leaves : List EffectId) : Prop where
  perform_eq : s.perform (.allocateAll position base e) =
    (returned (allocatingAll position base e s)).map fun p => (.store p.1, p.2)
  fails_iff : (∃ fault, s.perform (.allocateAll position base e) = .error fault) ↔
    ∃ part ∈ leaves, (s.graph.effects.node part).isAllocatable = false
  /-- At a fault, which names such a part, the session is as it was. -/
  fault : ∀ fault s', allocatingAll position base e s = .error fault s' → s' = s ∧
    ∃ part ∈ leaves, (s.graph.effects.node part).isAllocatable = false ∧
      fault = .notAllocatable part
  /-- Otherwise one location of each class is allocated.  In all later sessions the result binds
  what the base binds, and the locations of the effect. -/
  binds : ∀ reply s', s.perform (.allocateAll position base e) = .ok (reply, s') →
    ∃ bound x, reply = .store x ∧ s.Allocated base bound x s' ∧
      Keeps s.graph.classOf (s.graph.effects.locationsOf leaves) (bound.map Prod.fst) ∧
      ∀ t, Runs (fun _ _ => True) s' t → t.graph.Named →
        t.graph.boundBy (t.graph.stores.root x) = t.graph.boundBy (t.graph.stores.root base) ∪
          {i | ∃ a ∈ s.graph.effects.locationsOf leaves, t.graph.classOf a = i}

/-- In all later sessions, what was allocated on a base binds what the base binds and the locations
of which some were kept. -/
lemma Allocated.boundBy_eq {t : Session σ τ} (h : s.Allocated base bound x s')
    (hkeeps : Keeps s.graph.classOf locations (bound.map Prod.fst)) (hs' : s'.graph.Sound)
    (hrun : Runs (fun _ _ => True) s' t) (hnamed : t.graph.Named) :
    t.graph.boundBy (t.graph.stores.root x) = t.graph.boundBy (t.graph.stores.root base) ∪
      {i | ∃ a ∈ locations, t.graph.classOf a = i} := by
  have hgrows := hrun.grows (P := False) hs' fun _ _ _ hfalse => hfalse.elim
  have hext := hgrows.toExtends
  have hstacked : t.graph.stores.Stacked s.graph.stores.size base bound x :=
    h.stacked.mono fun i hi => hext.store_eq i (h.size_eq ▸ hi)
  rw [(hnamed.domainsAgree hgrows.sound).stacked hgrows.sound hstacked, hkeeps.classes_eq]
  -- Locations that were in one class are still in one class.
  intro a b hab
  have hroot : s'.graph.locations.root a = s'.graph.locations.root b := by
    rw [h.locations_eq]
    exact hab
  exact hext.locations.root_congr hroot

/-- Allocating the locations of an effect that exists fails at once, if the effect cannot be taken
apart into atoms, or it allocates one location of each class. -/
theorem allocatesAll_of_reachable (h : Reachable s) (position : Position) (base : StoreId)
    (he : e.index < s.graph.effects.size) :
    (∃ leaves, s.graph.effects.Spreads e leaves) ∧
      ∀ leaves, s.graph.effects.Spreads e leaves → s.AllocatesAll position base e leaves := by
  have hs : s.graph.Sound := h.coherent.sound
  refine ⟨hs.effects.exists_spreads e, fun leaves hleaves => ?_⟩
  have hperform := perform_allocateAll position base e s
  -- The parts are checked before anything is allocated.
  cases hfind : leaves.find? fun part => !(s.graph.effects.node part).isAllocatable with
  | some part =>
    have hmem : part ∈ leaves := List.mem_of_find?_eq_some hfind
    have hnot : (s.graph.effects.node part).isAllocatable = false := by
      simpa using List.find?_some hfind
    have herror := allocatingAll_eq_error hs he hleaves hfind position base
    rw [herror] at hperform
    refine ⟨herror ▸ hperform, iff_of_true ⟨_, hperform⟩ ⟨part, hmem, hnot⟩,
      fun fault s' hfault => ?_, fun reply s' hreply => ?_⟩
    · cases herror.symm.trans hfault
      exact ⟨rfl, part, hmem, hnot, rfl⟩
    · cases hperform.symm.trans hreply
  | none =>
    obtain ⟨bound, x, s₁, hok, hallocated, hkeeps⟩ :=
      allocatingAll_eq_ok hs he hleaves hfind position base
    have hcall : s.allocateAll position base e = .ok (x, s₁) := by
      rw [← returned_allocatingAll, hok]
      rfl
    have hs₁ : s₁.graph.Sound :=
      ((builds_allocateAll (P := False) hs (fun hfalse => hfalse.elim) hcall).grows hs).sound
    rw [hok] at hperform
    refine ⟨hok ▸ hperform, ⟨?_, ?_⟩, fun fault s' hfault => ?_, fun reply s' hreply => ?_⟩
    · rintro ⟨fault, hfault⟩
      cases hperform.symm.trans hfault
    · rintro ⟨part, hpart, hnot⟩
      have hyes := List.find?_eq_none.1 hfind part hpart
      simp [hnot] at hyes
    · cases hok.symm.trans hfault
    · cases hperform.symm.trans hreply
      exact ⟨bound, x, rfl, hallocated, hkeeps, fun t hrun hnamed =>
        hallocated.boundBy_eq hkeeps hs₁ hrun hnamed⟩

/-- A union names one location twice and two locations that are merged.  It is part of two larger
unions, one of which has a variable and is united with the other. -/
def unionScript : List (Command Int) :=
  [.makeLocation "x" 10, .makeLocation "y" 20, .makeLocation "z" 30,
    .storeVariable .internal "base", .atom .read ⟨0⟩, .atom .read ⟨1⟩, .union ⟨1⟩ ⟨2⟩,
    .atom .read ⟨2⟩, .union ⟨3⟩ ⟨4⟩, .atom .write ⟨1⟩, .union ⟨5⟩ ⟨6⟩, .effectVariable "rest",
    .union ⟨5⟩ ⟨8⟩, .union ⟨7⟩ ⟨9⟩, .mergeLocations .internal ⟨0⟩ ⟨2⟩]

/-- Of the locations of four atoms two are allocated, the last ones of their classes.  The third
location, which is met before the last, is outermost.  With the variable nothing is allocated. -/
theorem allocatesAll_of_reachable_merged :
    ∃ s s' : Session Level Int, Reachable s ∧
      s.AllocatesAll .internal ⟨0⟩ ⟨7⟩ [⟨1⟩, ⟨2⟩, ⟨4⟩, ⟨6⟩] ∧
      s.perform (.allocateAll .internal ⟨0⟩ ⟨7⟩) = .ok (.store ⟨2⟩, s') ∧
      s'.graph.stores.size = 3 ∧ s'.graph.stores.nodeAt 1 = .allocate ⟨0⟩ ⟨1⟩ 20 ∧
      s'.graph.stores.nodeAt 2 = .allocate ⟨1⟩ ⟨2⟩ 10 ∧
      s'.graph.boundBy (s'.graph.stores.root ⟨2⟩) =
        s'.graph.boundBy (s'.graph.stores.root ⟨0⟩) ∪ {0, 1} ∧
      (∃ fault, s.perform (.allocateAll .internal ⟨0⟩ ⟨10⟩) = .error fault) ∧
      ∀ fault t, allocatingAll .internal ⟨0⟩ ⟨10⟩ s = .error fault t → t = s := by
  have hrun : (follow (fun _ _ => True) (start ⟨2, false⟩ Level.mk) unionScript).any fun s =>
      succeeds (s.perform (.allocateAll .internal ⟨0⟩ ⟨7⟩)) fun p => succeeds p.2.graph.validate
        fun _ => List.and
          [p.1 = .store ⟨2⟩, s.graph.effects.size = 11, s.graph.effects.node ⟨1⟩ = .atom .read ⟨0⟩,
            s.graph.effects.node ⟨2⟩ = .atom .read ⟨1⟩, s.graph.effects.node ⟨3⟩ = .union ⟨1⟩ ⟨2⟩,
            s.graph.effects.node ⟨4⟩ = .atom .read ⟨2⟩, s.graph.effects.node ⟨5⟩ = .union ⟨3⟩ ⟨4⟩,
            s.graph.effects.node ⟨6⟩ = .atom .write ⟨1⟩, s.graph.effects.node ⟨7⟩ = .union ⟨5⟩ ⟨6⟩,
            s.graph.effects.node ⟨8⟩ = .var "rest", s.graph.effects.node ⟨9⟩ = .union ⟨5⟩ ⟨8⟩,
            s.graph.effects.node ⟨10⟩ = .union ⟨7⟩ ⟨9⟩, p.2.graph.stores.size = 3,
            p.2.graph.stores.nodeAt 1 = .allocate ⟨0⟩ ⟨1⟩ 20,
            p.2.graph.stores.nodeAt 2 = .allocate ⟨1⟩ ⟨2⟩ 10, p.2.graph.classOf ⟨0⟩ = 0,
            p.2.graph.classOf ⟨1⟩ = 1, p.2.graph.classOf ⟨2⟩ = 0] := by
    decide +kernel
  simp only [Option.any_eq_true, succeeds_eq_true, and_decide_cons, List.and_nil, and_true] at hrun
  obtain ⟨s, hs, ⟨_, s'⟩, hperform, _, hvalidate, rfl, hsize, h₁, h₂, h₃, h₄, h₅, h₆, h₇, h₈, h₉,
    h₁₀, hstores, hinner, houter, hx, hy, hz⟩ := hrun
  have h : Reachable s := reachableBy_of_follow hs
  have hleaf {e : EffectId} {node : EffectNode} (hnode : s.graph.effects.node e = node)
      (hunion : ∀ a b, node ≠ .union a b) : s.graph.effects.Spreads e [e] :=
    .leaf fun a b => hnode ▸ hunion a b
  have hfive : s.graph.effects.Spreads ⟨5⟩ [⟨1⟩, ⟨2⟩, ⟨4⟩] :=
    .union h₅ (.union h₃ (hleaf h₁ (by simp)) (hleaf h₂ (by simp))) (hleaf h₄ (by simp))
  have hseven : s.graph.effects.Spreads ⟨7⟩ [⟨1⟩, ⟨2⟩, ⟨4⟩, ⟨6⟩] :=
    .union h₇ hfive (hleaf h₆ (by simp))
  have hten : s.graph.effects.Spreads ⟨10⟩ [⟨1⟩, ⟨2⟩, ⟨4⟩, ⟨6⟩, ⟨1⟩, ⟨2⟩, ⟨4⟩, ⟨8⟩] :=
    .union h₁₀ hseven (.union h₉ hfive (hleaf h₈ (by simp)))
  have hgood := (allocatesAll_of_reachable h .internal ⟨0⟩ (by rw [hsize]; decide)).2 _ hseven
  have hbad := (allocatesAll_of_reachable h .internal ⟨0⟩ (by rw [hsize]; decide)).2 _ hten
  obtain ⟨bound, x, hx', hallocated, hkeeps, hbound⟩ := hgood.binds _ s' hperform
  cases hx'
  have hnamed : s'.graph.Named := Graph.validate_eq_ok_iff.1 hvalidate
  refine ⟨s, s', h, hgood, hperform, hstores, hinner, houter, ?_, ?_, ?_⟩
  · have hlocations : s.graph.effects.locationsOf [⟨1⟩, ⟨2⟩, ⟨4⟩, ⟨6⟩] =
        [⟨0⟩, ⟨1⟩, ⟨2⟩, ⟨1⟩] := by
      simp [Effects.locationsOf, h₁, h₂, h₄, h₆, EffectNode.location?]
    rw [hbound s' .refl hnamed, hlocations]
    refine congrArg _ (Set.ext fun i => ?_)
    simp only [Set.mem_ofPred_eq, List.exists_mem_cons_iff, List.not_mem_nil, false_and,
      exists_false, or_false, hx, hy, hz, Set.mem_insert_iff, Set.mem_singleton_iff]
    omega
  · refine hbad.fails_iff.2 ⟨⟨8⟩, by simp, ?_⟩
    rw [h₈]
    rfl
  · exact fun fault t hfault => (hbad.fault fault t hfault).1

end Session

end HeapQual
