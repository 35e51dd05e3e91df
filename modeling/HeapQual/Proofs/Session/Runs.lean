import HeapQual.Command
import HeapQual.Proofs.Computation
import Mathlib.Tactic.Common

/-!
# Runs of sessions

A run is a sequence of commands that were carried out without a fault.  Between commands the caller
may make types of its own, which changes the state of the lattice and nothing else.

`Session.Runs` takes a condition on the commands.  Without one, every session that can exist is
*reachable*.  A session is *disciplined* if every command named only handles that existed when it
was given (`Command.Known`); it then never names a store before it is made.
-/

namespace HeapQual

/-! ## The handles that a command names -/

/-- The locations that a restriction names. -/
def Restriction.locations : Restriction → List LocationId
  | location a _ _ => [a]
  | _ => []

/-- The effects that a restriction names. -/
def Restriction.effects : Restriction → List EffectId
  | location _ _ e => [e]
  | disjoint e₁ e₂ => [e₁, e₂]
  | everywhere _ e => [e]
  | implies _ e₁ _ e₂ => [e₁, e₂]

namespace Command

variable {τ : Type}

/-- The locations that a command names. -/
def locations : Command τ → List LocationId
  | locationName a => [a]
  | locationClass a => [a]
  | heldType a => [a]
  | isMarked a => [a]
  | markLocation a => [a]
  | sameLocation a b => [a, b]
  | mergeLocations _ a b => [a, b]
  | atom _ a => [a]
  | exclude x => x.restriction.locations
  | isAccessed a _ => [a]
  | allocate _ _ a => [a]
  | update _ _ _ a _ _ => [a]
  | propagate _ _ a => [a]
  | typeAt _ a => [a]
  | linearityAt _ a => [a]
  | printLocation a _ => [a]
  | _ => []

/-- The effects that a command names. -/
def effects : Command τ → List EffectId
  | union e₁ e₂ => [e₁, e₂]
  | inter e₁ e₂ => [e₁, e₂]
  | locationOfAtom e => [e]
  | markEffect e => [e]
  | knownEqual e₁ e₂ => [e₁, e₂]
  | includeEffect _ e₁ e₂ => [e₁, e₂]
  | equateEffects _ e₁ e₂ => [e₁, e₂]
  | mergeEffects e₁ e₂ => [e₁, e₂]
  | exclude x => x.restriction.effects
  | isAccessed _ e => [e]
  | restrict _ _ e => [e]
  | allocateAll _ _ e => [e]
  | overlay _ _ _ e => [e]
  | printEffect e _ => [e]
  | _ => []

/-- The stores that a command names. -/
def stores : Command τ → List StoreId
  | restrict _ base _ => [base]
  | allocate _ base _ => [base]
  | allocateAll _ base _ => [base]
  | overlay _ inside outside _ => [inside, outside]
  | update _ _ base _ _ _ => [base]
  | joinStores _ _ x y => [x, y]
  | sameStore x y => [x, y]
  | includeStore _ _ left right => [left, right]
  | equateStores _ _ x y => [x, y]
  | mergeStores _ _ x y => [x, y]
  | propagate _ x _ => [x]
  | domain x => [x]
  | typeAt x _ => [x]
  | linearityAt x _ => [x]
  | printStore x _ => [x]
  | printStoreRaw x _ => [x]
  | printCells _ x _ => [x]
  | draw _ roots => roots
  | _ => []

/-- Everything that a command names exists. -/
structure Known (g : Graph τ) (c : Command τ) : Prop where
  location_lt : ∀ a ∈ c.locations, a.index < g.locations.size
  effect_lt : ∀ e ∈ c.effects, e.index < g.effects.size
  store_lt : ∀ s ∈ c.stores, s.index < g.stores.size

instance (g : Graph τ) (c : Command τ) : Decidable (c.Known g) :=
  decidable_of_iff
    ((∀ a ∈ c.locations, a.index < g.locations.size) ∧
      (∀ e ∈ c.effects, e.index < g.effects.size) ∧ ∀ s ∈ c.stores, s.index < g.stores.size)
    ⟨fun ⟨hl, he, hs⟩ => ⟨hl, he, hs⟩, fun h => ⟨h.location_lt, h.effect_lt, h.store_lt⟩⟩

end Command

namespace Session

variable {σ τ : Type} [QualifierLattice σ τ]

/-- A run from one session to another by commands that were allowed when they were given. -/
inductive Runs (allowed : Session σ τ → Command τ → Prop) (s : Session σ τ) :
    Session σ τ → Prop
  | refl : Runs allowed s s
  | exec {s' s'' : Session σ τ} {c : Command τ} {reply : Reply τ} :
      Runs allowed s s' → allowed s' c → s'.exec c = .ok (reply, s'') → Runs allowed s s''
  | withLattice {s' : Session σ τ} (lattice : σ) :
      Runs allowed s s' → Runs allowed s (s'.withLattice lattice)

/-- There is a run to this session, in whichever orders the table of types is enumerated. -/
def ReachableBy (allowed : Session σ τ → Command τ → Prop) (s : Session σ τ) : Prop :=
  ∃ config lattice orders, Runs allowed (Session.start config lattice orders) s

/-- The session can exist. -/
def Reachable (s : Session σ τ) : Prop := ReachableBy (fun _ _ => True) s

/-- The session can exist, and no command named what did not exist. -/
def Disciplined (s : Session σ τ) : Prop := ReachableBy (fun s c => c.Known s.graph) s

/-- A run in which no command named what did not exist. -/
abbrev DisciplinedRun (s s' : Session σ τ) : Prop := Runs (fun s c => c.Known s.graph) s s'

variable {allowed : Session σ τ → Command τ → Prop} {s s' s'' : Session σ τ}

lemma Runs.trans (h : Runs allowed s s') (h' : Runs allowed s' s'') : Runs allowed s s'' := by
  induction h' with
  | refl => exact h
  | exec _ hallowed hexec ih => exact ih.exec hallowed hexec
  | withLattice lattice _ ih => exact ih.withLattice lattice

lemma ReachableBy.run (h : ReachableBy allowed s) (hrun : Runs allowed s s') :
    ReachableBy allowed s' := by
  obtain ⟨config, lattice, orders, hstart⟩ := h
  exact ⟨config, lattice, orders, hstart.trans hrun⟩

/-- What is disciplined can exist. -/
lemma Disciplined.reachable (h : Disciplined s) : Reachable s := by
  obtain ⟨config, lattice, orders, hrun⟩ := h
  refine ⟨config, lattice, orders, ?_⟩
  induction hrun with
  | refl => exact .refl
  | exec _ _ hexec ih => exact ih.exec trivial hexec
  | withLattice lattice _ ih => exact ih.withLattice lattice

theorem ReachableBy.induction {motive : Session σ τ → Prop}
    (start : ∀ config lattice orders, motive (Session.start config lattice orders))
    (exec : ∀ s c reply s', allowed s c → motive s → s.exec c = .ok (reply, s') → motive s')
    (withLattice : ∀ s lattice, motive s → motive (s.withLattice lattice))
    (h : ReachableBy allowed s) : motive s := by
  obtain ⟨config, lattice, orders, hrun⟩ := h
  induction hrun with
  | refl => exact start config lattice orders
  | exec _ hallowed hexec ih => exact exec _ _ _ _ hallowed ih hexec
  | withLattice lattice _ ih => exact withLattice _ lattice ih

/-! ## Following a script -/

deriving instance DecidableEq for StoreNode

deriving instance DecidableEq for Reply

/-- Carry out a list of commands, as far as they are allowed and without a fault. -/
def follow (allowed : Session σ τ → Command τ → Prop) [∀ s c, Decidable (allowed s c)]
    (s : Session σ τ) : List (Command τ) → Option (Session σ τ)
  | [] => some s
  | c :: commands =>
    if allowed s c then
      match s.exec c with
      | .ok (_, s') => follow allowed s' commands
      | .error _ => none
    else none

lemma follow_cons_eq_some_iff [∀ s c, Decidable (allowed s c)] {c : Command τ}
    {commands : List (Command τ)} :
    follow allowed s (c :: commands) = some s' ↔ allowed s c ∧ ∃ reply s₁,
      s.exec c = .ok (reply, s₁) ∧ follow allowed s₁ commands = some s' := by
  rw [follow]
  by_cases hallowed : allowed s c
  · rw [if_pos hallowed]
    cases s.exec c with
    | error => simp
    | ok p =>
      obtain ⟨reply, s₁⟩ := p
      simp [hallowed]
  · simp [hallowed]

lemma runs_of_follow [∀ s c, Decidable (allowed s c)] {commands : List (Command τ)}
    (h : follow allowed s commands = some s') : Runs allowed s s' := by
  induction commands generalizing s with
  | nil =>
    cases h
    exact .refl
  | cons c commands ih =>
    obtain ⟨hallowed, reply, s₁, hexec, hfollow⟩ := follow_cons_eq_some_iff.1 h
    exact (Runs.exec .refl hallowed hexec).trans (ih hfollow)

lemma reachableBy_of_follow [∀ s c, Decidable (allowed s c)] {config : Config} {lattice : σ}
    {orders : List (List Nat)} {commands : List (Command τ)}
    (h : follow allowed (start config lattice orders) commands = some s) :
    ReachableBy allowed s :=
  ⟨config, lattice, orders, runs_of_follow h⟩

end Session

end HeapQual
