import HeapQual.Proofs.Flow
import Mathlib.Logic.Relation

/-!
# What is said while cells are settled

A dialogue goes on by utterances of a few kinds.  While cells are settled, notices are written,
types are asked for, and inequalities are required for edges and updates, each with the diagnostic
that belongs to it (`Dialogue.Requires`).  Besides, the types of merged locations and cells are
equated, other diagnostics are made, diagnostics are taken away and receivers installed
(`Dialogue.Utters`).

So in a dialogue that began with nothing said, the diagnostics about edges and updates are those of
the inequalities that the lattice rejected, one for each (`Dialogue.Fair`).

A flow books what it tells (`Flow.Books`): an edge at a location, or an update, is told only if it
is not yet marked, and is marked afterwards.  This holds whatever the cells are read against.
-/

namespace HeapQual

open Relation (ReflTransGen)

variable {σ τ : Type}

/-! ## Marks -/

/-- What is marked when it is sent. -/
inductive Mark where
  | edge (number location : Nat)
  | update (store : Nat)
  deriving DecidableEq

/-- The mark that is set for a reason. -/
def Reason.mark? : Reason → Option Mark
  | edge number location => some (.edge number location)
  | update store _ => some (.update store)
  | _ => none

/-- The mark of the edge or the update that a diagnostic with this cause is about. -/
def Cause.mark? : Cause → Option Mark
  | flow number location _ => some (.edge number location)
  | update store _ => some (.update store)
  | _ => none

/-- The mark of the edge or the update that a diagnostic is about. -/
def Diagnostic.mark? (d : Diagnostic) : Option Mark := d.cause.mark?

/-- The number of the inclusion that a diagnostic with this cause is about. -/
def Cause.inclusion? : Cause → Option Nat
  | notIncluded number _ _ => some number
  | _ => none

/-- A diagnostic with this cause is about no inclusion. -/
def Cause.Discreet (cause : Cause) : Prop := cause.inclusion? = none

lemma Reason.markable_iff {r : Reason} : r.Markable ↔ ∃ mark, r.mark? = some mark := by
  cases r <;> simp [Markable, edge?, update?, mark?]

lemma Reason.sameMark_iff {r r' : Reason} : r.SameMark r' ↔ r.mark? = r'.mark? := by
  cases r <;> cases r' <;> simp [SameMark, edge?, update?, mark?]

lemma Reason.not_markable_locations : ¬locations.Markable := by simp [markable_iff, mark?]

lemma Reason.not_markable_cells : ¬cells.Markable := by simp [markable_iff, mark?]

lemma Reason.mark?_eq_none {r : Reason} (h : ¬r.Markable) : r.mark? = none := by
  by_contra hne
  exact h (markable_iff.2 (Option.ne_none_iff_exists'.1 hne))

/-- The reason of an inequality that was rejected. -/
def Event.rejected? : Event τ → Option Reason
  | told reason _ _ false => some reason
  | _ => none

/-- The reasons of the inequalities that were rejected in a sequence of events. -/
def rejections (events : List (Event τ)) : List Reason := events.filterMap Event.rejected?

/-- What was rejected was told. -/
lemma rejections_sublist (events : List (Event τ)) :
    (rejections events).Sublist ((tellings events).map Telling.reason) := by
  induction events with
  | nil => exact .refl _
  | cons event events ih =>
    cases event with
    | told reason l r holds =>
      cases holds with
      | false => exact ih.cons_cons reason
      | true => exact ih.cons reason
    | _ => exact ih

/-! ## Utterances -/

namespace Dialogue

variable {d d' : Dialogue σ τ} {p p' : Reason → Prop} {q q' : Cause → Prop}

section Lattice

variable [QualifierLattice σ τ]

/-- One utterance while cells are settled.  Inequalities are required for such edges and updates
only. -/
inductive Requires (p : Reason → Prop) : Dialogue σ τ → Dialogue σ τ → Prop
  | note {d : Dialogue σ τ} (n : Notice τ) : Requires p d (d.note n)
  | fresh {d : Dialogue σ τ} (like : τ) : Requires p d (d.fresh like).2
  | require {d : Dialogue σ τ} {reason : Reason} (position : Position) {cause : Cause} (l r : τ) :
      reason.Markable → p reason → cause.mark? = reason.mark? →
      Requires p d (d.require reason position cause l r)

/-- One utterance.  The lattice is told inequalities for such reasons only, and diagnostics about
anything but edges and updates are made for such causes only. -/
inductive Utters (p : Reason → Prop) (q : Cause → Prop) : Dialogue σ τ → Dialogue σ τ → Prop
  | require {d d' : Dialogue σ τ} : Requires p d d' → Utters p q d d'
  | tell {d : Dialogue σ τ} {reason : Reason} (l r : τ) :
      p reason → ¬reason.Markable → Utters p q d (d.tell reason l r).2
  | report {d : Dialogue σ τ} (position : Position) {cause : Cause} :
      cause.mark? = none → q cause → Utters p q d (d.report position cause)
  | clear {d : Dialogue σ τ} : Utters p q d { d with errors := #[] }
  | receive {d : Dialogue σ τ} (receiver : Option String) : Utters p q d { d with receiver }

/-- A sequence of utterances. -/
abbrev Speaks (p : Reason → Prop) (q : Cause → Prop) : Dialogue σ τ → Dialogue σ τ → Prop :=
  ReflTransGen (Utters p q)

lemma Speaks.mono (h : d.Speaks p q d') (hp : ∀ reason, p reason → p' reason)
    (hq : ∀ cause, q cause → q' cause) : d.Speaks p' q' d' := by
  refine ReflTransGen.mono (fun d d' hstep => ?_) _ _ h
  cases hstep with
  | require hstep =>
    cases hstep with
    | note n => exact .require (.note n)
    | fresh like => exact .require (.fresh like)
    | require position l r hmark hreason hblames =>
      exact .require (.require position l r hmark (hp _ hreason) hblames)
  | tell l r hreason hmark => exact .tell l r (hp _ hreason) hmark
  | report position hmark hcause => exact .report position hmark (hq _ hcause)
  | clear => exact .clear
  | receive receiver => exact .receive receiver

lemma speaks_note (d : Dialogue σ τ) (n : Notice τ) : d.Speaks p q (d.note n) :=
  .single (.require (.note n))

lemma speaks_report (d : Dialogue σ τ) (position : Position) {cause : Cause}
    (h : cause.mark? = none) (hq : q cause) : d.Speaks p q (d.report position cause) :=
  .single (.report position h hq)

lemma speaks_of_requires (h : ReflTransGen (Requires p) d d') : d.Speaks p q d' :=
  ReflTransGen.mono (fun _ _ => Utters.require) _ _ h

lemma speaks_equate {reason : Reason} (hp : p reason) (hreason : ¬reason.Markable)
    (d : Dialogue σ τ) (l r : τ) : d.Speaks p q (d.equate reason l r).2 :=
  (ReflTransGen.single (.tell l r hp hreason)).tail (.tell r l hp hreason)

lemma Speaks.toSays (h : d.Speaks p q d') : d.Says p d' := by
  induction h with
  | refl => exact .refl _
  | tail _ hstep ih =>
    refine ih.trans ?_
    cases hstep with
    | require hstep =>
      cases hstep with
      | note n => exact says_note _ n
      | fresh like => exact says_fresh _ like
      | require position l r _ hreason =>
        exact (tells_require ..).toSays fun t ht => List.mem_singleton.1 ht ▸ hreason
    | tell l r hreason =>
      exact (tells_tell ..).toSays fun t ht => List.mem_singleton.1 ht ▸ hreason
    | report position => exact says_report _ position _
    | clear => exact .of_journal_eq rfl
    | receive => exact .of_journal_eq rfl

/-- Whatever is said, the lattice and its answers are those of the events in the journal. -/
theorem Speaks.replays (h : d.Speaks p q d') : d.Replays d' := by
  induction h with
  | refl => exact .of_eq rfl rfl
  | tail _ hstep ih =>
    refine ih.trans ?_
    cases hstep with
    | require hstep =>
      cases hstep with
      | note n => exact replays_note _ n
      | fresh like => exact replays_fresh _ like
      | require position l r => exact replays_require ..
    | tell l r => exact replays_tell _ _ l r
    | report position => exact replays_report _ position _
    -- The diagnostics at hand and their receiver are no concern of the lattice.
    | clear => exact .of_eq rfl rfl
    | receive => exact .of_eq rfl rfl

/-- While cells are settled, diagnostics are made about edges and updates only. -/
lemma errors_of_requires (h : ReflTransGen (Requires p) d d') :
    ∃ made, d'.errors.toList = d.errors.toList ++ made ∧
      ∀ diagnostic ∈ made, diagnostic.mark? ≠ none := by
  induction h with
  | refl => exact ⟨[], (List.append_nil _).symm, fun _ h => absurd h List.not_mem_nil⟩
  | @tail d₁ d₂ _ hstep ih =>
    obtain ⟨made, herrors, hmade⟩ := ih
    cases hstep with
    | note => exact ⟨made, herrors, hmade⟩
    | fresh => exact ⟨made, herrors, hmade⟩
    | @require reason position cause l r hmark _ hblames =>
      unfold Dialogue.require
      dsimp only
      split
      · exact ⟨made, herrors, hmade⟩
      · refine ⟨made ++ [⟨position, cause⟩], ?_, fun diagnostic hdiagnostic => ?_⟩
        · have hpush : (d₁.errors.push ⟨position, cause⟩).toList =
              d.errors.toList ++ (made ++ [⟨position, cause⟩]) := by
            rw [Array.toList_push, herrors, List.append_assoc]
          exact hpush
        · rcases List.mem_append.1 hdiagnostic with hdiagnostic | hdiagnostic
          · exact hmade diagnostic hdiagnostic
          · obtain ⟨mark, hmark⟩ := Reason.markable_iff.1 hmark
            rw [List.mem_singleton.1 hdiagnostic, Diagnostic.mark?, hblames, hmark]
            exact Option.some_ne_none mark

end Lattice

/-! ## Fairness -/

/-- The diagnostics about edges and updates are those of the inequalities that were rejected, one
for each and in the same order. -/
def Fair (d : Dialogue σ τ) : Prop :=
  (diagnostics d.journal).filterMap Diagnostic.mark? =
    (rejections d.journal).filterMap Reason.mark?

/-- An event that is neither a rejection nor a diagnostic. -/
lemma Fair.cons (hd : d.Fair) (event : Event τ) (hrejected : event.rejected? = none)
    (hdiagnostic : event.diagnostic? = none) (h : d'.journal = event :: d.journal) : d'.Fair := by
  unfold Fair diagnostics rejections
  rw [h, List.filterMap_cons_none hdiagnostic, List.filterMap_cons_none hrejected]
  exact hd

lemma Fair.report (hd : d.Fair) (position : Position) {cause : Cause} (h : cause.mark? = none) :
    (d.report position cause).Fair := by
  have hdiagnostics : diagnostics (d.report position cause).journal =
      ⟨position, cause⟩ :: diagnostics d.journal := rfl
  have hmark : Diagnostic.mark? ⟨position, cause⟩ = none := h
  unfold Fair
  rw [hdiagnostics, List.filterMap_cons_none hmark]
  exact hd

variable [QualifierLattice σ τ]

lemma rejections_tell (d : Dialogue σ τ) (reason : Reason) (l r : τ) :
    rejections (d.tell reason l r).2.journal =
      if (d.tell reason l r).1 then rejections d.journal else reason :: rejections d.journal := by
  have hjournal : (d.tell reason l r).2.journal =
      .told reason l r (d.tell reason l r).1 :: d.journal := rfl
  rw [hjournal]
  cases (d.tell reason l r).1 <;> rfl

/-- An inequality that is neither about an edge nor about an update may be rejected. -/
lemma Fair.tell (hd : d.Fair) {reason : Reason} (h : ¬reason.Markable) (l r : τ) :
    (d.tell reason l r).2.Fair := by
  have hdiagnostics : diagnostics (d.tell reason l r).2.journal = diagnostics d.journal := rfl
  unfold Fair
  rw [hdiagnostics, rejections_tell]
  split
  · exact hd
  · rw [List.filterMap_cons_none (Reason.mark?_eq_none h)]
    exact hd

/-- An inequality that is rejected is reported at once. -/
lemma Fair.require (hd : d.Fair) {reason : Reason} {cause : Cause}
    (h : cause.mark? = reason.mark?) (position : Position) (l r : τ) :
    (d.require reason position cause l r).Fair := by
  have hrejections := rejections_tell (d.note (.comparing l r)) reason l r
  unfold Dialogue.require
  dsimp only
  split
  · rename_i hholds
    rw [if_pos hholds] at hrejections
    unfold Fair
    rw [hrejections]
    exact hd
  · rename_i hholds
    rw [if_neg hholds] at hrejections
    have hdiagnostics : diagnostics
        (((d.note (.comparing l r)).tell reason l r).2.report position cause).journal =
          ⟨position, cause⟩ :: diagnostics d.journal := rfl
    have hreported : rejections
        (((d.note (.comparing l r)).tell reason l r).2.report position cause).journal =
          reason :: rejections d.journal := hrejections
    have hmark : Diagnostic.mark? ⟨position, cause⟩ = reason.mark? := h
    unfold Fair
    rw [hdiagnostics, hreported, List.filterMap_cons, List.filterMap_cons, hmark, hd]

theorem Fair.speaks (hd : d.Fair) (h : d.Speaks p q d') : d'.Fair := by
  induction h with
  | refl => exact hd
  | tail _ hstep ih =>
    cases hstep with
    | require hstep =>
      cases hstep with
      | note n => exact ih.cons (.noted n) rfl rfl rfl
      | fresh like => exact ih.cons (.made like _) rfl rfl rfl
      | require position l r _ _ hblames => exact ih.require hblames position l r
    | tell l r _ hreason => exact ih.tell hreason l r
    | report position hcause _ => exact ih.report position hcause
    | clear => exact ih
    | receive => exact ih

end Dialogue

/-! ## Booking -/

namespace Flow

variable {p : Reason → Prop} {v : View τ} {f f' f'' : Flow σ τ} {c : Cell}

lemma Marked.of_sameMark {r r' : Reason} (hf : f.Marked r) (h : r.SameMark r') : f.Marked r' :=
  ⟨fun key hkey => hf.1 key (h.1.trans hkey), fun store hstore => hf.2 store (h.2.trans hstore)⟩

variable [QualifierLattice σ τ]

/-- What was told between the two flows was not marked before, is marked now, and satisfies the
condition. -/
structure Books (p : Reason → Prop) (f f' : Flow σ τ) : Prop where
  requires : ReflTransGen (Dialogue.Requires p) f.talk f'.talk
  marked : ∀ reason, f.Marked reason → f'.Marked reason
  /-- Nothing is told twice, or that is marked. -/
  exists_tells : ∃ new, f.talk.Tells new f'.talk ∧
    new.Pairwise (fun t t' => ¬t.reason.SameMark t'.reason) ∧
    ∀ t ∈ new, p t.reason ∧ ¬f.Marked t.reason ∧ f'.Marked t.reason

namespace Books

/-- Nothing is told. -/
lemma of_nil (hrequires : ReflTransGen (Dialogue.Requires p) f.talk f'.talk)
    (htells : f.talk.Tells [] f'.talk) (hmarked : ∀ reason, f.Marked reason → f'.Marked reason) :
    f.Books p f' :=
  ⟨hrequires, hmarked, [], htells, .nil, fun _ ht => absurd ht List.not_mem_nil⟩

lemma refl (f : Flow σ τ) : f.Books p f := .of_nil .refl (.refl _) fun _ h => h

lemma trans (h : f.Books p f') (h' : f'.Books p f'') : f.Books p f'' := by
  obtain ⟨hrequires, hmarked, new, htells, hpairwise, hnew⟩ := h
  obtain ⟨hrequires', hmarked', new', htells', hpairwise', hnew'⟩ := h'
  refine ⟨hrequires.trans hrequires', fun reason hreason => hmarked' _ (hmarked _ hreason),
    new' ++ new, htells.trans htells', ?_, fun t ht => ?_⟩
  · -- What is told later was not marked in between, what was told before was.
    refine List.pairwise_append.2 ⟨hpairwise', hpairwise, fun t ht t' ht' hsame => ?_⟩
    exact (hnew' t ht).2.1 ((hnew t' ht').2.2.of_sameMark ⟨hsame.1.symm, hsame.2.symm⟩)
  · rcases List.mem_append.1 ht with ht | ht
    · obtain ⟨hp, hunmarked, hmark⟩ := hnew' t ht
      exact ⟨hp, fun h => hunmarked (hmarked _ h), hmark⟩
    · obtain ⟨hp, hunmarked, hmark⟩ := hnew t ht
      exact ⟨hp, hunmarked, hmarked' _ hmark⟩

lemma foldl {α : Type} {step : Flow σ τ → α → Flow σ τ} {items : List α}
    (hstep : ∀ item ∈ items, ∀ f : Flow σ τ, f.Books p (step f item)) (f : Flow σ τ) :
    f.Books p (items.foldl step f) := by
  induction items generalizing f with
  | nil => exact .refl f
  | cons item items ih =>
    exact (hstep item (List.mem_cons_self ..) f).trans
      (ih (fun i hi => hstep i (List.mem_cons_of_mem _ hi)) _)

/-- Something is marked, types are read, and then it is required. -/
lemma require {f₁ : Flow σ τ} (h : f.Books p f₁) {reason : Reason} {cause : Cause}
    (hp : p reason) (hmark : reason.Markable) (hblames : cause.mark? = reason.mark?)
    (hnew : ¬f.Marked reason) (htells : f.talk.Tells [] f₁.talk) (hmarked : f₁.Marked reason)
    (position : Position) (l r : τ) :
    f.Books p { f₁ with talk := f₁.talk.require reason position cause l r } := by
  refine ⟨h.requires.tail (.require position l r hmark hp hblames), h.marked, [⟨reason, l, r⟩],
    htells.trans (Dialogue.tells_require ..), List.pairwise_singleton _ _, fun t ht => ?_⟩
  rw [List.mem_singleton.1 ht]
  exact ⟨hp, hnew, hmarked⟩

end Books

/-- Reading a cell tells the lattice nothing. -/
lemma requires_read (v : View τ) (f : Flow σ τ) (c : Cell) :
    ReflTransGen (Dialogue.Requires p) f.talk (f.read v c).2.talk := by
  unfold read
  split
  · exact .refl
  · exact .refl
  · unfold ownType
    split
    · exact .refl
    · split
      · exact .refl
      · exact .single (.fresh _)

lemma books_read (v : View τ) (f : Flow σ τ) (c : Cell) : f.Books p (f.read v c).2 :=
  .of_nil (requires_read v f c) (sends_read v f c).tells fun _ h => h.mono (sends_read v f c)

lemma books_sendEdge (v : View τ) (c : Cell) (f : Flow σ τ) (numbered : FlowEdge × Nat)
    (hp : p (.edge numbered.2 c.location)) : f.Books p (f.sendEdge v c numbered) := by
  obtain ⟨edge, number⟩ := numbered
  unfold sendEdge
  dsimp only
  split
  · exact .refl f
  · rename_i hskip
    have hnew : ¬f.Marked (.edge number c.location) := by
      rw [marked_edge]
      simp_all
    -- The mark is set first, and the two types are read after that.
    generalize hf₁ : ({ f with sentEdges := (number, c.location) :: f.sentEdges } : Flow σ τ) = f₁
    have hbooks : f.Books p f₁ ∧ f.talk.Tells [] f₁.talk ∧ f₁.Marked (.edge number c.location) := by
      rw [← hf₁]
      refine ⟨.of_nil .refl (.refl _) fun _ h => ?_, .refl _, marked_edge.2 (List.mem_cons_self ..)⟩
      exact ⟨fun key hkey => List.mem_cons_of_mem _ (h.1 key hkey), h.2⟩
    obtain ⟨hbooks, htells, hmark⟩ := hbooks
    have hleft := sends_read v f₁ ⟨v.storeRoot edge.left, c.location⟩
    have hright := sends_read v (f₁.read v ⟨v.storeRoot edge.left, c.location⟩).2 c
    have hreads := (hbooks.trans (books_read v f₁ ⟨v.storeRoot edge.left, c.location⟩)).trans
      (books_read v _ c)
    split
    · exact hreads.require hp (Or.inl ⟨_, rfl⟩) rfl hnew
        ((htells.trans hleft.tells).trans hright.tells) ((hmark.mono hleft).mono hright) _ _ _
    · exact hreads

lemma books_sendUpdate (v : View τ) (f : Flow σ τ) (store : Nat)
    (hp : ∀ location, p (.update store location)) : f.Books p (f.sendUpdate v store) := by
  unfold sendUpdate
  split
  · exact .refl f
  · rename_i hskip
    have hnew : ∀ location, ¬f.Marked (.update store location) := fun location =>
      marked_update.not.2 hskip
    -- The mark is set before the old contents are read, also if there are none.
    generalize hf₁ : ({ f with sentUpdates := store :: f.sentUpdates } : Flow σ τ) = f₁
    have hbooks : f.Books p f₁ ∧ f.talk.Tells [] f₁.talk ∧
        ∀ location, f₁.Marked (.update store location) := by
      rw [← hf₁]
      refine ⟨.of_nil .refl (.refl _) fun _ h => ?_, .refl _, fun location =>
        marked_update.2 (List.mem_cons_self ..)⟩
      exact ⟨h.1, fun key hkey => List.mem_cons_of_mem _ (h.2 key hkey)⟩
    obtain ⟨hbooks, htells, hmark⟩ := hbooks
    dsimp only
    split
    · rename_i base a type strong position message hnode
      have hread := sends_read v f₁ ⟨v.storeRoot base, v.graph.classOf a⟩
      have hreads := hbooks.trans (books_read v f₁ ⟨v.storeRoot base, v.graph.classOf a⟩)
      split
      · rename_i old _
        have hnote : f.Books p { (f₁.read v ⟨v.storeRoot base, v.graph.classOf a⟩).2 with
            talk := (f₁.read v ⟨v.storeRoot base, v.graph.classOf a⟩).2.talk.note
              (.weakUpdate ⟨store⟩ old type) } :=
          hreads.trans (.of_nil (.single (.note _)) (Dialogue.tells_note ..) fun _ h => h)
        have hmarked := (hmark (v.graph.classOf a)).mono hread
        exact hnote.require (hp _) (Or.inr ⟨_, rfl⟩) rfl (hnew _)
          ((htells.trans hread.tells).trans (Dialogue.tells_note ..)) hmarked _ _ _
      · exact hreads
    · exact hbooks

/-- What is told while a cell is visited is about its location, or an update. -/
lemma books_visit (v : View τ) (f : Flow σ τ) (c : Cell)
    (hedge : ∀ number, p (.edge number c.location)) (hupdate : ∀ store a, p (.update store a)) :
    f.Books p (f.visit v c) := by
  have hedges : f.Books p ((v.graph.stores.edgesInto c.store).foldl (sendEdge v c) f) :=
    .foldl (fun numbered _ f => books_sendEdge v c f numbered (hedge _)) f
  unfold visit
  dsimp only
  split
  · exact hedges.trans (books_sendUpdate v _ c.store (hupdate _))
  · exact hedges

/-- What is told while cells are settled is about locations that are bound, or an update. -/
lemma books_settle (v : View τ) (f : Flow σ τ) (seeds : List Cell)
    (hedge : ∀ number store a, v.binds store a = true → p (.edge number a))
    (hupdate : ∀ store a, p (.update store a)) : f.Books p (f.settle v seeds) := by
  have hsettled : f.Books p
      { f with settled := (visits v f.settled seeds).reverse ++ f.settled } :=
    .of_nil .refl (.refl _) fun _ h => h
  refine hsettled.trans (.foldl (fun c hc f => ?_) _)
  exact books_visit v f c (fun number => hedge number _ _ (isBound_of_mem_visits hc)) hupdate

end Flow

end HeapQual
