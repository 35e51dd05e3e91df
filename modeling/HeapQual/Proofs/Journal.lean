import HeapQual.Journal
import Mathlib.Tactic.Common

/-!
# What the lattice was told

The journal records every inequality that the lattice was told.  `Dialogue.Tells` says exactly which
inequalities were told between two points of a dialogue, and `Dialogue.Says` only for what kind of
reasons.

The answers are recorded too.  `Dialogue.Replays` says that they, and the lattice itself, are what
one gets by asking the lattice all of it again.
-/

namespace HeapQual

/-! ## Tellings -/

/-- An inequality that the lattice was told, with the reason for it. -/
structure Telling (τ : Type) where
  reason : Reason
  lower : τ
  upper : τ
  deriving DecidableEq

/-- The telling, compared with what cells resolve to. -/
def Telling.present {τ : Type} (t : Telling τ) : Telling (Option τ) :=
  ⟨t.reason, some t.lower, some t.upper⟩

/-- The edge and the location along which a type flows, if that is the reason. -/
def Reason.edge? : Reason → Option (Nat × Nat)
  | edge number location => some (number, location)
  | _ => none

/-- The update that keeps old contents, if that is the reason. -/
def Reason.update? : Reason → Option Nat
  | update store _ => some store
  | _ => none

lemma Reason.update?_eq_none {r : Reason} {key : Nat × Nat} (h : r.edge? = some key) :
    r.update? = none := by
  cases r with
  | edge => rfl
  | _ => cases h

lemma Reason.edge?_eq_none {r : Reason} {store : Nat} (h : r.update? = some store) :
    r.edge? = none := by
  cases r with
  | update => rfl
  | _ => cases h

/-- The reason is an edge or an update, which is marked when it is sent. -/
def Reason.Markable (r : Reason) : Prop :=
  (∃ key, r.edge? = some key) ∨ ∃ store, r.update? = some store

/-- Both reasons set the same mark. -/
def Reason.SameMark (r r' : Reason) : Prop := r.edge? = r'.edge? ∧ r.update? = r'.update?

instance (r r' : Reason) : Decidable (r.SameMark r') := inferInstanceAs (Decidable (_ ∧ _))

variable {σ τ : Type}

/-- What the lattice was told in an event. -/
def Event.telling? : Event τ → Option (Telling τ)
  | told reason l r _ => some ⟨reason, l, r⟩
  | _ => none

/-- What the lattice was told in a sequence of events. -/
def tellings (events : List (Event τ)) : List (Telling τ) := events.filterMap Event.telling?

/-- The diagnostic made in an event. -/
def Event.diagnostic? : Event τ → Option Diagnostic
  | reported _ d => some d
  | _ => none

/-- The diagnostics made in a sequence of events. -/
def diagnostics (events : List (Event τ)) : List Diagnostic := events.filterMap Event.diagnostic?

namespace Dialogue

variable {d d' d'' : Dialogue σ τ} {p : Reason → Prop} {new new' : List (Telling τ)}

/-! ## Going on with a dialogue -/

/-- The second dialogue continues the first, and in between the lattice was told just this, the
latest first. -/
def Tells (new : List (Telling τ)) (d d' : Dialogue σ τ) : Prop :=
  ∃ events, d'.journal = events ++ d.journal ∧ tellings events = new

lemma Tells.refl (d : Dialogue σ τ) : d.Tells [] d := ⟨[], rfl, rfl⟩

lemma Tells.trans (h : d.Tells new d') (h' : d'.Tells new' d'') : d.Tells (new' ++ new) d'' := by
  obtain ⟨events, hjournal, rfl⟩ := h
  obtain ⟨events', hjournal', rfl⟩ := h'
  refine ⟨events' ++ events, by rw [hjournal', hjournal, List.append_assoc], ?_⟩
  exact List.filterMap_append

lemma Tells.tellings_eq (h : d.Tells new d') :
    tellings d'.journal = new ++ tellings d.journal := by
  obtain ⟨events, hjournal, rfl⟩ := h
  rw [hjournal]
  exact List.filterMap_append

lemma Tells.mem_tellings (h : d.Tells new d') {t : Telling τ} :
    t ∈ tellings d'.journal ↔ t ∈ new ∨ t ∈ tellings d.journal := by
  rw [h.tellings_eq, List.mem_append]

lemma Tells.cons (event : Event τ) (hjournal : d'.journal = event :: d.journal) :
    d.Tells event.telling?.toList d' := by
  refine ⟨[event], hjournal, ?_⟩
  cases h : event.telling? <;> simp [tellings, h]

lemma tells_note (d : Dialogue σ τ) (n : Notice τ) : d.Tells [] (d.note n) :=
  .cons (.noted n) rfl

lemma tells_report (d : Dialogue σ τ) (position : Position) (cause : Cause) :
    d.Tells [] (d.report position cause) :=
  .cons (.reported d.receiver ⟨position, cause⟩) rfl

section Lattice

variable [QualifierLattice σ τ]

lemma tells_fresh (d : Dialogue σ τ) (like : τ) : d.Tells [] (d.fresh like).2 :=
  .cons (.made like (d.fresh like).1) rfl

lemma tells_tell (d : Dialogue σ τ) (reason : Reason) (l r : τ) :
    d.Tells [⟨reason, l, r⟩] (d.tell reason l r).2 :=
  .cons (.told reason l r (d.tell reason l r).1) rfl

/-- Equating two types tells both inequalities. -/
lemma tells_equate (d : Dialogue σ τ) (reason : Reason) (l r : τ) :
    d.Tells [⟨reason, r, l⟩, ⟨reason, l, r⟩] (d.equate reason l r).2 :=
  (tells_tell d reason l r).trans (tells_tell _ reason r l)

/-- Requiring an inequality tells it once, whether or not it can be satisfied. -/
lemma tells_require (d : Dialogue σ τ) (reason : Reason) (position : Position) (cause : Cause)
    (l r : τ) : d.Tells [⟨reason, l, r⟩] (d.require reason position cause l r) := by
  have htell := (tells_note d (.comparing l r)).trans (tells_tell _ reason l r)
  unfold require
  simp only
  split
  · exact htell
  · exact htell.trans (tells_report _ position cause)

end Lattice

/-! ## What it was about -/

/-- The second dialogue continues the first, and in between the lattice was told inequalities for
such reasons only. -/
def Says (p : Reason → Prop) (d d' : Dialogue σ τ) : Prop :=
  ∃ new, d.Tells new d' ∧ ∀ t ∈ new, p t.reason

lemma Tells.toSays (h : d.Tells new d') (hp : ∀ t ∈ new, p t.reason) : d.Says p d' := ⟨new, h, hp⟩

lemma Tells.says_nil (h : d.Tells [] d') : d.Says p d' :=
  h.toSays fun _ ht => absurd ht List.not_mem_nil

lemma Says.tells (h : d.Says (fun _ => False) d') : d.Tells [] d' := by
  obtain ⟨new, htells, hnone⟩ := h
  rwa [List.eq_nil_iff_forall_not_mem.2 hnone] at htells

lemma Says.of_journal_eq (h : d'.journal = d.journal) : d.Says p d' :=
  Tells.says_nil ⟨[], h, rfl⟩

lemma Says.refl (d : Dialogue σ τ) : d.Says p d := .of_journal_eq rfl

lemma Says.trans (h : d.Says p d') (h' : d'.Says p d'') : d.Says p d'' := by
  obtain ⟨new, htells, hp⟩ := h
  obtain ⟨new', htells', hp'⟩ := h'
  exact (htells.trans htells').toSays fun t ht => (List.mem_append.1 ht).elim (hp' t) (hp t)

/-- No diagnostic is lost from the journal. -/
lemma Says.mem_diagnostics (h : d.Says p d') {diagnostic : Diagnostic}
    (hd : diagnostic ∈ diagnostics d.journal) : diagnostic ∈ diagnostics d'.journal := by
  obtain ⟨new, ⟨events, hjournal, -⟩, -⟩ := h
  rw [hjournal, diagnostics, List.filterMap_append]
  exact List.mem_append_right _ hd

lemma mem_diagnostics_report (d : Dialogue σ τ) (position : Position) (cause : Cause) :
    ⟨position, cause⟩ ∈ diagnostics (d.report position cause).journal :=
  List.mem_cons_self ..

lemma says_note (d : Dialogue σ τ) (n : Notice τ) : d.Says p (d.note n) := (tells_note d n).says_nil

lemma says_report (d : Dialogue σ τ) (position : Position) (cause : Cause) :
    d.Says p (d.report position cause) :=
  (tells_report d position cause).says_nil

variable [QualifierLattice σ τ]

lemma says_fresh (d : Dialogue σ τ) (like : τ) : d.Says p (d.fresh like).2 :=
  (tells_fresh d like).says_nil

end Dialogue

/-! ## Replaying

The journal has all that the lattice was asked, so the lattice can be asked again.  A dialogue
replays another one if that gives the recorded answers, and the lattice as it is now.
-/

section Replay

variable [QualifierLattice σ τ]

/-- Ask a lattice again what it was asked in an event: the event with the answer given now, and the
lattice after it. -/
def Event.askAgain (lattice : σ) : Event τ → Event τ × σ
  | made like _ =>
    let (type, lattice) := QualifierLattice.fresh lattice like
    (made like type, lattice)
  | told reason l r _ =>
    let (holds, lattice) := QualifierLattice.leq lattice l r
    (told reason l r holds, lattice)
  | reported receiver d => (reported receiver d, lattice)
  | noted n => (noted n, lattice)

/-- Ask a lattice again what it was asked in a sequence of events, the latest first. -/
def replay (lattice : σ) : List (Event τ) → List (Event τ) × σ
  | [] => ([], lattice)
  | event :: events =>
    let (events, lattice) := replay lattice events
    let (event, lattice) := event.askAgain lattice
    (event :: events, lattice)

lemma replay_append {lattice : σ} {events : List (Event τ)}
    (h : (replay lattice events).1 = events) (later : List (Event τ)) :
    replay lattice (later ++ events) = ((replay (replay lattice events).2 later).1 ++ events,
      (replay (replay lattice events).2 later).2) := by
  induction later with
  | nil => exact Prod.ext h rfl
  | cons event later ih =>
    rw [List.cons_append, replay, ih]
    rfl

namespace Dialogue

variable {d d' d'' : Dialogue σ τ}

/-- The second dialogue continues the first.  Asked again what it was asked in between, the lattice
of the first gives the same answers and becomes the lattice of the second. -/
def Replays (d d' : Dialogue σ τ) : Prop :=
  ∃ events, d'.journal = events ++ d.journal ∧ replay d.lattice events = (events, d'.lattice)

lemma Replays.of_eq (hjournal : d'.journal = d.journal) (hlattice : d'.lattice = d.lattice) :
    d.Replays d' :=
  ⟨[], hjournal, by rw [hlattice, replay]⟩

lemma Replays.trans (h : d.Replays d') (h' : d'.Replays d'') : d.Replays d'' := by
  obtain ⟨events, hjournal, hreplay⟩ := h
  obtain ⟨later, hjournal', hreplay'⟩ := h'
  refine ⟨later ++ events, by rw [hjournal', hjournal, List.append_assoc], ?_⟩
  rw [replay_append (by rw [hreplay]), hreplay, hreplay']

lemma Replays.cons {event : Event τ} (hjournal : d'.journal = event :: d.journal)
    (h : event.askAgain d.lattice = (event, d'.lattice)) : d.Replays d' := by
  refine ⟨[event], hjournal, ?_⟩
  simp only [replay, h]

lemma replays_note (d : Dialogue σ τ) (n : Notice τ) : d.Replays (d.note n) := .cons rfl rfl

lemma replays_report (d : Dialogue σ τ) (position : Position) (cause : Cause) :
    d.Replays (d.report position cause) :=
  .cons rfl rfl

lemma replays_fresh (d : Dialogue σ τ) (like : τ) : d.Replays (d.fresh like).2 := .cons rfl rfl

lemma replays_tell (d : Dialogue σ τ) (reason : Reason) (l r : τ) :
    d.Replays (d.tell reason l r).2 :=
  .cons rfl rfl

lemma replays_require (d : Dialogue σ τ) (reason : Reason) (position : Position) (cause : Cause)
    (l r : τ) : d.Replays (d.require reason position cause l r) := by
  have htell := (replays_note d (.comparing l r)).trans (replays_tell _ reason l r)
  unfold require
  dsimp only
  split
  · exact htell
  · exact htell.trans (replays_report _ position cause)

/-- What every event keeps true of the lattice and the journal is kept by a dialogue that
replays. -/
lemma Replays.keeps {P : σ → List (Event τ) → Prop} (h : d.Replays d')
    (hevent : ∀ lattice lattice' journal event, event.askAgain lattice = (event, lattice') →
      P lattice journal → P lattice' (event :: journal))
    (hd : P d.lattice d.journal) : P d'.lattice d'.journal := by
  obtain ⟨events, hjournal, hreplay⟩ := h
  rw [hjournal]
  generalize d'.lattice = lattice' at hreplay ⊢
  clear hjournal
  -- The latest event was asked last, of the lattice that the earlier ones have led to.
  induction events generalizing lattice' with
  | nil =>
    cases hreplay
    exact hd
  | cons event events ih =>
    rw [replay] at hreplay
    obtain ⟨hcons, rfl⟩ := Prod.ext_iff.1 hreplay
    obtain ⟨hsame, hevents⟩ := List.cons_eq_cons.1 hcons
    exact hevent _ _ _ _ (Prod.ext hsame rfl) (ih _ (Prod.ext hevents rfl))

end Dialogue

end Replay

end HeapQual
