import HeapQual.Proofs.Journal
import HeapQual.Session

/-!
# Calls to the lattice

Some events of a journal are calls to the lattice, which is asked for a type or told an inequality.
The others are diagnostics and notices, of which the lattice knows nothing.  `Dialogue.Calls` says
that a dialogue goes on with just the given calls, whatever else is said, so that "the lattice is
called once" and "the lattice is not called" are statements about two dialogues.
-/

namespace HeapQual

variable {σ τ : Type}

/-- Is the event a call to the lattice? -/
def Event.isCall : Event τ → Bool
  | made .. | told .. => true
  | _ => false

/-- The calls to the lattice in a sequence of events. -/
def calls (events : List (Event τ)) : List (Event τ) := events.filter Event.isCall

namespace Dialogue

variable {d d' d'' : Dialogue σ τ} {new new' : List (Event τ)}

/-- The second dialogue continues the first, and in between just these calls were made to the
lattice, the latest first. -/
def Calls (new : List (Event τ)) (d d' : Dialogue σ τ) : Prop :=
  ∃ events, d'.journal = events ++ d.journal ∧ calls events = new

lemma Calls.of_journal_eq (h : d'.journal = d.journal) : d.Calls [] d' := ⟨[], h, rfl⟩

lemma Calls.refl (d : Dialogue σ τ) : d.Calls [] d := .of_journal_eq rfl

lemma Calls.trans (h : d.Calls new d') (h' : d'.Calls new' d'') : d.Calls (new' ++ new) d'' := by
  obtain ⟨events, hjournal, rfl⟩ := h
  obtain ⟨events', hjournal', rfl⟩ := h'
  refine ⟨events' ++ events, by rw [hjournal', hjournal, List.append_assoc], ?_⟩
  exact List.filter_append ..

/-- The calls so far are those before and the new ones. -/
lemma Calls.calls_eq (h : d.Calls new d') : calls d'.journal = new ++ calls d.journal := by
  obtain ⟨events, hjournal, rfl⟩ := h
  rw [hjournal]
  exact List.filter_append ..

lemma calls_note (d : Dialogue σ τ) (n : Notice τ) : d.Calls [] (d.note n) :=
  ⟨[.noted n], rfl, rfl⟩

lemma calls_report (d : Dialogue σ τ) (position : Position) (cause : Cause) :
    d.Calls [] (d.report position cause) :=
  ⟨[.reported d.receiver ⟨position, cause⟩], rfl, rfl⟩

variable [QualifierLattice σ τ]

lemma calls_fresh (d : Dialogue σ τ) (like : τ) :
    d.Calls [.made like (d.fresh like).1] (d.fresh like).2 :=
  ⟨[.made like (d.fresh like).1], rfl, rfl⟩

lemma calls_tell (d : Dialogue σ τ) (reason : Reason) (l r : τ) :
    d.Calls [.told reason l r (d.tell reason l r).1] (d.tell reason l r).2 :=
  ⟨[.told reason l r (d.tell reason l r).1], rfl, rfl⟩

/-- Equating two types puts two inequalities to the lattice, one after the other. -/
lemma calls_equate (d : Dialogue σ τ) (reason : Reason) (l r : τ) :
    ∃ forth back, d.Calls [.told reason r l back, .told reason l r forth]
      (d.equate reason l r).2 :=
  ⟨_, _, (calls_tell d reason l r).trans (calls_tell _ reason r l)⟩

end Dialogue

/-- Forgetting a solution does not concern the lattice. -/
lemma Session.calls_forget (s : Session σ τ) : s.talk.Calls [] s.forget.talk := by
  unfold forget
  split
  · exact .refl _
  · exact Dialogue.calls_note ..

end HeapQual
