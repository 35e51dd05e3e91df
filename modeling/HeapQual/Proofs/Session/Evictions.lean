import HeapQual.Lattice.Level
import HeapQual.Lattice.Taint
import HeapQual.Proofs.Mirror.Commands

/-!
# What an eviction costs

The memo tables of a session forget: a recipe or a question evicts the one that was in its slot.
What was evicted is worked out once more when it is next asked for.  For a question this cannot be
noticed.  For a recipe it means that the expression gets a second handle, so that sessions whose
tables differ in size give out different handles.

A caller refers to an effect as the answer to an earlier call.  A *play* (`Play`) is a session with
the effects that it gave out, and a call names them by their positions.  Two plays of the same calls
then run through sessions that mirror each other (`Play.Concords`), and their transcripts agree
(`Play.transcripts_agree_of_parallel`).

This needs that the plays are *parallel* (`Play.Parallel`), for it matters of some handles that they
are the same.  An inclusion in a union that has variables makes the handle grow and not the
expression, and intersections are compared by their handles.  If such an effect was made twice in
one session and once in the other, then a later answer may differ.  The order in which `allocateAll`
allocates, and the order in which `linearize` demotes, must be the same as well.

The table of types of cells is enumerated in an order that is free to differ in the two sessions and
each time.  So no two types may meet in one cell when it is keyed anew, for an eviction that makes
the graph grow has the table keyed once more, and which of the types stays depends on the order.

If any of this fails, then an eviction may show (`Play.eviction_shows_unless_parallel`).
-/

namespace HeapQual

/-- What a caller does. -/
inductive Call (σ τ : Type) where
  | command (c : Command τ)
  | retype (change : σ → σ)

/-- The replies are the same, but for what a command may show of effects. -/
def Call.Agrees {σ τ : Type} (reply reply' : Reply τ) : Call σ τ → Prop
  | .command c => c.Agrees reply reply'
  | .retype _ => reply = reply'

/-- A session, and the effects that it has given out. -/
structure Play (σ τ : Type) where
  session : Session σ τ
  effects : List EffectId

namespace Play

variable {σ τ : Type} {p p' : Play σ τ} {c : Command τ}

/-! ## Playing -/

/-- A new session.  The empty effect is there from the start. -/
def start (config : Config) (lattice : σ) (orders : List (List Nat)) : Play σ τ :=
  ⟨Session.start config lattice orders, [.empty]⟩

/-- The effect at a position. -/
def effectAt (p : Play σ τ) (position : EffectId) : EffectId :=
  p.effects.getD position.index .empty

/-- Everything that the command refers to was given out. -/
structure Allows (p : Play σ τ) (c : Command τ) : Prop where
  position_lt : ∀ e ∈ c.effects, e.index < p.effects.length
  known : (c.mapEffects p.effectAt).Known p.session.graph

instance (p : Play σ τ) (c : Command τ) : Decidable (p.Allows c) :=
  decidable_of_iff ((∀ e ∈ c.effects, e.index < p.effects.length) ∧
    (c.mapEffects p.effectAt).Known p.session.graph)
    ⟨fun h => ⟨h.1, h.2⟩, fun h => ⟨h.position_lt, h.known⟩⟩

/-- The order in which a call allocates or demotes is the same in both plays. -/
def InOrder (p p' : Play σ τ) : Call σ τ → Prop
  | .command c => Session.InOrder p.session p'.session p.effectAt p'.effectAt c
  | .retype _ => True

instance (p p' : Play σ τ) : (call : Call σ τ) → Decidable (p.InOrder p' call)
  | .command c =>
    inferInstanceAs (Decidable (Session.InOrder p.session p'.session p.effectAt p'.effectAt c))
  | .retype _ => isTrue trivial

/-- If the call asks for the solution, no two types meet in one cell. -/
def ClashFree (p : Play σ τ) : Call σ τ → Prop
  | .command c => Session.Inquiring c → p.session.flow.NoClash p.session.graph
  | .retype _ => True

instance (p : Play σ τ) : (call : Call σ τ) → Decidable (p.ClashFree call)
  | .command c =>
    inferInstanceAs (Decidable (Session.Inquiring c → p.session.flow.NoClash p.session.graph))
  | .retype _ => isTrue trivial

/-- Effects for which it matters are told apart in the one play as in the other. -/
def TellsApartAs (p p' : Play σ τ) : Prop :=
  ∀ x ∈ p.effects.zip p'.effects, ∀ y ∈ p.effects.zip p'.effects,
    p.session.graph.effects.Pivotal x.1 ∨ p'.session.graph.effects.Pivotal x.2 →
      (x.1 = y.1 ↔ x.2 = y.2)

instance (p p' : Play σ τ) : Decidable (p.TellsApartAs p') := by
  unfold TellsApartAs
  infer_instance

variable [QualifierLattice σ τ]

/-- Make one call, if what it refers to was given out and there is no fault. -/
def step (p : Play σ τ) : Call σ τ → Option (Reply τ × Play σ τ)
  | .retype change =>
    some (.done, ⟨p.session.withLattice (change p.session.lattice), p.effects⟩)
  | .command c =>
    if p.Allows c then
      match p.session.exec (c.mapEffects p.effectAt) with
      | .ok (reply, s) => some (reply, ⟨s, p.effects ++ reply.effect?.toList⟩)
      | .error _ => none
    else none

/-- Make the calls one after the other, up to the first that cannot be made.  The answer has the
calls that were made with their replies. -/
def run (p : Play σ τ) : List (Call σ τ) → List (Call σ τ × Reply τ) × Play σ τ
  | [] => ([], p)
  | call :: calls =>
    match p.step call with
    | some (reply, q) => ((call, reply) :: (q.run calls).1, (q.run calls).2)
    | none => ([], p)

/-- Along the calls, the effects for which it matters are told apart in the one play as in the
other, the order of allocations and demotions is the same, and no two types meet in one cell. -/
def Parallel (p p' : Play σ τ) : List (Call σ τ) → Prop
  | [] => True
  | call :: calls =>
    p.TellsApartAs p' ∧ p.InOrder p' call ∧ p.ClashFree call ∧
      match p.step call, p'.step call with
      | some (_, q), some (_, q') => q.Parallel q' calls
      | _, _ => True

instance Parallel.decide (p p' : Play σ τ) :
    (calls : List (Call σ τ)) → Decidable (p.Parallel p' calls)
  | [] => isTrue trivial
  | call :: calls =>
    have : Decidable (match p.step call, p'.step call with
        | some (_, q), some (_, q') => q.Parallel q' calls
        | _, _ => True) :=
      match p.step call, p'.step call with
      | some (_, q), some (_, q') => Parallel.decide q q' calls
      | some _, none => isTrue trivial
      | none, _ => isTrue trivial
    inferInstanceAs (Decidable (_ ∧ _ ∧ _ ∧ _))

/-! ## Two plays of the same calls -/

omit [QualifierLattice σ τ] in
/-- The effects were given out for the same call. -/
def Paired (p p' : Play σ τ) (e e' : EffectId) : Prop := (e, e') ∈ p.effects.zip p'.effects

/-- The plays are about sessions that mirror each other, and gave out effects for the same calls. -/
structure Concords (p p' : Play σ τ) : Prop where
  length_eq : p.effects.length = p'.effects.length
  empty : Paired p p' .empty .empty
  mirrors : p.session.Mirrors (Paired p p') p'.session
  left : Session.Disciplined p.session
  right : Session.Disciplined p'.session

omit [QualifierLattice σ τ] in
lemma paired_effectAt (hlength : p.effects.length = p'.effects.length) {e : EffectId}
    (he : e.index < p.effects.length) : Paired p p' (p.effectAt e) (p'.effectAt e) := by
  have he' := hlength ▸ he
  refine List.mem_iff_getElem?.2 ⟨e.index, ?_⟩
  simp [effectAt, he, he']

omit [QualifierLattice σ τ] in
lemma paired_append (hlength : p.effects.length = p'.effects.length) (s s' : Session σ τ)
    (e e' : EffectId) :
    Paired ⟨s, p.effects ++ [e]⟩ ⟨s', p'.effects ++ [e']⟩ =
      Effects.Mirrors.With (Paired p p') e e' := by
  funext f f'
  simp [Paired, Effects.Mirrors.With, List.zip_append hlength]

omit [QualifierLattice σ τ] in
lemma TellsApartAs.distinguishes (h : p.TellsApartAs p') :
    p.session.graph.effects.Distinguishes (Paired p p') p'.session.graph.effects :=
  fun _ _ _ _ he hf => h _ he _ hf

omit [QualifierLattice σ τ] in
lemma effectAt_mem {e : EffectId} (he : e.index < p.effects.length) : p.effectAt e ∈ p.effects := by
  simp [effectAt, he]

omit [QualifierLattice σ τ] in
/-- If the effects given out exist, then positions and handles are all that counts. -/
lemma allows_iff (hp : ∀ e ∈ p.effects, e.index < p.session.graph.effects.size) :
    p.Allows c ↔ (∀ e ∈ c.effects, e.index < p.effects.length) ∧
      (∀ a ∈ c.locations, a.index < p.session.graph.locations.size) ∧
      ∀ x ∈ c.stores, x.index < p.session.graph.stores.size := by
  constructor
  · intro h
    have hlocations := h.known.location_lt
    have hstores := h.known.store_lt
    rw [c.locations_mapEffects] at hlocations
    rw [c.stores_mapEffects] at hstores
    exact ⟨h.position_lt, hlocations, hstores⟩
  · rintro ⟨hposition, hlocations, hstores⟩
    refine ⟨hposition, ?_, fun e he => ?_, ?_⟩
    · rwa [c.locations_mapEffects]
    · rw [c.effects_mapEffects] at he
      obtain ⟨position, hmem, rfl⟩ := List.mem_map.1 he
      exact hp _ (effectAt_mem (hposition position hmem))
    · rwa [c.stores_mapEffects]

omit [QualifierLattice σ τ] in
/-- The tables of new sessions mirror each other. -/
lemma mirrors_start (config config' : Config) (lattice lattice' : σ)
    (orders orders' : List (List Nat)) :
    Effects.start.Mirrors
      (Paired (start config lattice orders : Play σ τ) (start config' lattice' orders'))
      Effects.start := by
  have hpaired {e e' : EffectId}
      (h : Paired (start config lattice orders : Play σ τ) (start config' lattice' orders') e e') :
      e = .empty ∧ e' = .empty := by
    simpa [Paired, Play.start] using h
  refine ⟨fun e e' h => ?_, fun e e' h => ?_, fun e e' h => ?_, fun e e' h => ?_,
    fun e e' f f' h _ hvariable => ?_⟩
  all_goals obtain ⟨rfl, rfl⟩ := hpaired h
  · decide
  · decide
  · rfl
  · exact .empty
  · cases hvariable

namespace Concords

theorem start (bits bits' : Nat) (markedOnly : Bool) (lattice : σ)
    (orders orders' : List (List Nat)) :
    Concords (.start ⟨bits, markedOnly⟩ lattice orders : Play σ τ)
      (.start ⟨bits', markedOnly⟩ lattice orders') where
  length_eq := rfl
  empty := .head _
  mirrors :=
    { markedOnly_eq := rfl
      phase_eq := rfl
      locations_eq := rfl
      effects := mirrors_start _ _ _ _ _ _
      stores := ⟨rfl, fun _ => .var "", rfl, rfl⟩
      inclusions := .zero
      exclusions := .nil
      requests_eq := rfl
      linearities_eq := rfl
      flow := ⟨.refl _, fun _ => rfl, rfl, rfl, .refl _⟩
      left := ⟨Cache.obeys_of_slots_eq_nil rfl, fun _ h => absurd h List.not_mem_nil, nofun⟩
      right := ⟨Cache.obeys_of_slots_eq_nil rfl, fun _ h => absurd h List.not_mem_nil, nofun⟩ }
  left := ⟨_, _, _, .refl⟩
  right := ⟨_, _, _, .refl⟩

lemma left_lt (h : Concords p p') : ∀ e ∈ p.effects, e.index < p.session.graph.effects.size := by
  intro e he
  rw [← List.map_fst_zip h.length_eq.le] at he
  obtain ⟨⟨e, e'⟩, hpaired, rfl⟩ := List.mem_map.1 he
  exact h.mirrors.effects.left_lt e e' hpaired

lemma right_lt (h : Concords p p') :
    ∀ e ∈ p'.effects, e.index < p'.session.graph.effects.size := by
  intro e he
  rw [← List.map_snd_zip h.length_eq.ge] at he
  obtain ⟨⟨e, e'⟩, hpaired, rfl⟩ := List.mem_map.1 he
  exact h.mirrors.effects.right_lt e e' hpaired

/-- The plays allow the same commands. -/
lemma allows_iff (h : Concords p p') : p.Allows c ↔ p'.Allows c := by
  rw [Play.allows_iff h.left_lt, Play.allows_iff h.right_lt, h.length_eq, h.mirrors.locations_eq,
    h.mirrors.stores.size_eq]

lemma addresses_of_allows (h : Concords p p') (hc : p.Allows c) :
    Session.Addresses (Paired p p') c p.effectAt p'.effectAt p.session p'.session :=
  ⟨fun e he => paired_effectAt h.length_eq (hc.position_lt e he), hc.known,
    (h.allows_iff.1 hc).known⟩

/-- After a command the plays hold what the sessions made of it, and the effects given out. -/
lemma of_answers (h : Concords p p') {x x' : Reply τ × Session σ τ}
    (hx : Session.Answers (Paired p p') c x x') (hleft : Session.Disciplined x.2)
    (hright : Session.Disciplined x'.2) :
    c.Agrees x.1 x'.1 ∧ Concords ⟨x.2, p.effects ++ x.1.effect?.toList⟩
      ⟨x'.2, p'.effects ++ x'.1.effect?.toList⟩ := by
  cases hx with
  | @effect e e' s s' hmirrors =>
    have hpaired := paired_append h.length_eq s s' e e'
    refine ⟨trivial, ?_, ?_, ?_, hleft, hright⟩
    · simp [h.length_eq, Reply.effect?]
    · exact hpaired ▸ Or.inl h.empty
    · exact hpaired ▸ hmirrors
  | @other reply reply' s s' hreply hreply' hagrees hmirrors =>
    refine ⟨hagrees, ?_⟩
    simp only [hreply, hreply', Option.toList_none, List.append_nil]
    exact ⟨h.length_eq, h.empty, hmirrors, hleft, hright⟩

theorem step (h : Concords p p') {call : Call σ τ} (happart : p.TellsApartAs p')
    (horder : p.InOrder p' call) (hclash : p.ClashFree call) :
    Option.Rel (fun x x' => call.Agrees x.1 x'.1 ∧ Concords x.2 x'.2)
      (p.step call) (p'.step call) := by
  cases call with
  | retype change =>
    have htalk := h.mirrors.flow.talk
    have hlattice : p.session.lattice = p'.session.lattice := htalk.lattice_eq
    refine .some ⟨rfl, h.length_eq, h.empty, ?_, h.left.run (.withLattice _ .refl),
      h.right.run (.withLattice _ .refl)⟩
    exact h.mirrors.withTalk ⟨congrArg change hlattice, htalk.receiver_eq, htalk.errors⟩
  | command c =>
    unfold Play.step
    -- The plays gave out equally many effects and have tables of equal size, so a call is allowed
    -- in both or in neither.
    by_cases hc : p.Allows c
    · have hc' := h.allows_iff.1 hc
      have hexec := h.mirrors.exec h.left.invariants h.right.invariants happart.distinguishes
        h.empty (h.addresses_of_allows hc) horder hclash
      simp only [if_pos hc, if_pos hc']
      generalize hleft : p.session.exec (c.mapEffects p.effectAt) = x at hexec ⊢
      generalize hright : p'.session.exec (c.mapEffects p'.effectAt) = x' at hexec ⊢
      cases hexec with
      | error => exact .none
      | ok hanswers =>
        exact .some (h.of_answers hanswers (h.left.run (.exec .refl hc.known hleft))
          (h.right.run (.exec .refl hc'.known hright)))
    · simp only [if_neg hc, if_neg (h.allows_iff.not.1 hc)]
      exact .none

theorem run (h : Concords p p') {calls : List (Call σ τ)} (hparallel : p.Parallel p' calls) :
    List.Forall₂ (fun x x' => x.1 = x'.1 ∧ x.1.Agrees x.2 x'.2) (p.run calls).1 (p'.run calls).1 ∧
      Concords (p.run calls).2 (p'.run calls).2 := by
  induction calls generalizing p p' with
  | nil => exact ⟨.nil, h⟩
  | cons call calls ih =>
    obtain ⟨happart, horder, hclash, hrest⟩ := hparallel
    have hstep := h.step happart horder hclash
    unfold Play.run
    revert hrest
    generalize p.step call = x at hstep ⊢
    generalize p'.step call = x' at hstep ⊢
    intro hrest
    cases hstep with
    | none => exact ⟨.nil, h⟩
    | some hreplies =>
      obtain ⟨htranscript, hconcords⟩ := ih hreplies.2 hrest
      exact ⟨.cons ⟨rfl, hreplies.1⟩ htranscript, hconcords⟩

end Concords

/-- Two callers make the same calls, to sessions that differ in the sizes of their memo tables, and
in the orders in which types of cells are enumerated.  If the plays are parallel, then the same
calls can be made, their replies agree, and in the end the same diagnostics were reported, but for
the effects printed in them.  What the tables evict is worked out once more. -/
theorem transcripts_agree_of_parallel {bits bits' : Nat} {markedOnly : Bool} {lattice : σ}
    {orders orders' : List (List Nat)} {calls : List (Call σ τ)}
    (h : (start ⟨bits, markedOnly⟩ lattice orders).Parallel
      (start ⟨bits', markedOnly⟩ lattice orders') calls) :
    List.Forall₂ (fun x x' => x.1 = x'.1 ∧ x.1.Agrees x.2 x'.2)
      ((start ⟨bits, markedOnly⟩ lattice orders).run calls).1
      ((start ⟨bits', markedOnly⟩ lattice orders').run calls).1 ∧
    (((start ⟨bits, markedOnly⟩ lattice orders).run calls).2.session.errors.map
      Diagnostic.plain).Perm
      (((start ⟨bits', markedOnly⟩ lattice orders').run calls).2.session.errors.map
        Diagnostic.plain) := by
  obtain ⟨htranscript, hconcords⟩ :=
    (Concords.start bits bits' markedOnly lattice orders orders').run h
  exact ⟨htranscript, hconcords.mirrors.flow.talk.errors⟩

/-- A read and two unions are made twice, and used as if each was made once.  An inclusion and an
exclusion fail, and an update is demoted.  In the end the read is made a third time, and the type of
a cell is asked for. -/
def forgetfulScript : List (Call Level Int) :=
  [.makeLocation "x" 0, .makeLocation "y" 0, .atom .read ⟨0⟩, .atom .write ⟨1⟩, .union ⟨1⟩ ⟨2⟩,
    .atom .read ⟨0⟩, .union ⟨4⟩ ⟨2⟩, .effectVariable "v", .union ⟨4⟩ ⟨6⟩, .inter ⟨6⟩ ⟨2⟩,
    .union ⟨1⟩ ⟨6⟩, .includeEffect .internal ⟨5⟩ ⟨6⟩, .includeEffect .internal ⟨9⟩ ⟨4⟩,
    .exclude ⟨.internal, .location ⟨1⟩ .write ⟨7⟩⟩, .storeVariable .internal "s",
    .allocate .internal ⟨0⟩ ⟨1⟩, .allocateAll .internal ⟨1⟩ ⟨3⟩, .restrict .internal ⟨3⟩ ⟨7⟩,
    .update .internal "write" ⟨4⟩ ⟨1⟩ 1 true, .includeStore .internal "loop" ⟨5⟩ ⟨0⟩,
    .includeStore .internal "all" ⟨3⟩ ⟨0⟩, .close,
    .isAccessed ⟨1⟩ ⟨7⟩, .isAccessed ⟨1⟩ ⟨9⟩, .isAccessed ⟨0⟩ ⟨8⟩, .domain ⟨4⟩, .linearize,
    .linearityAt ⟨5⟩ ⟨1⟩, .atom .read ⟨0⟩, .typeAt ⟨0⟩ ⟨1⟩, .errorCount].map .command

/-- Tables with one slot forget each recipe at once, and large tables none.  The handles differ, and
one session keys its types once more and in another order.  All else agrees. -/
theorem transcripts_agree_of_parallel_forgetful :
    (start ⟨0, false⟩ Level.mk [[], [1]]).Parallel (start ⟨14, false⟩ Level.mk []) forgetfulScript ∧
      ((start ⟨0, false⟩ Level.mk [[], [1]]).run forgetfulScript).2.effects.map (·.index) =
        [0, 1, 2, 3, 4, 5, 6, 7, 8, 9, 10] ∧
      ((start ⟨14, false⟩ Level.mk []).run forgetfulScript).2.effects.map (·.index) =
        [0, 1, 2, 3, 1, 3, 4, 5, 6, 5, 1] ∧
      ((start ⟨0, false⟩ Level.mk [[], [1]]).run forgetfulScript).2.session.flow.types ≠
        ((start ⟨14, false⟩ Level.mk []).run forgetfulScript).2.session.flow.types ∧
      ((start ⟨14, false⟩ Level.mk []).run forgetfulScript).1.length = forgetfulScript.length ∧
      List.Forall₂ (fun x x' => x.1 = x'.1 ∧ x.1.Agrees x.2 x'.2)
        ((start ⟨0, false⟩ Level.mk [[], [1]]).run forgetfulScript).1
        ((start ⟨14, false⟩ Level.mk []).run forgetfulScript).1 ∧
      (((start ⟨0, false⟩ Level.mk [[], [1]]).run forgetfulScript).2.session.errors.map
        Diagnostic.plain).Perm
        (((start ⟨14, false⟩ Level.mk []).run forgetfulScript).2.session.errors.map
          Diagnostic.plain) := by
  have hparallel : (start ⟨0, false⟩ Level.mk [[], [1]]).Parallel (start ⟨14, false⟩ Level.mk [])
      forgetfulScript := by
    decide +kernel
  refine ⟨hparallel, ?_, ?_, ?_, ?_, transcripts_agree_of_parallel hparallel⟩
  · decide +kernel
  · decide +kernel
  · decide +kernel
  · decide +kernel

/-- A union of two variables is made twice, with another effect in between, and the read is included
in the first union. -/
def grownScript : List (Call Level Int) :=
  [.makeLocation "x" 0, .effectVariable "a", .effectVariable "b", .union ⟨1⟩ ⟨2⟩, .atom .read ⟨0⟩,
    .union ⟨1⟩ ⟨2⟩, .includeEffect .internal ⟨4⟩ ⟨3⟩, .close, .isAccessed ⟨0⟩ ⟨3⟩,
    .isAccessed ⟨0⟩ ⟨5⟩].map .command

/-- An intersection of two variables is made twice, and the read is included in the union of the two
intersections. -/
def twinsScript : List (Call Level Int) :=
  [.makeLocation "x" 0, .effectVariable "a", .effectVariable "b", .inter ⟨1⟩ ⟨2⟩, .atom .read ⟨0⟩,
    .inter ⟨1⟩ ⟨2⟩, .union ⟨3⟩ ⟨5⟩, .includeEffect .internal ⟨4⟩ ⟨6⟩, .close,
    .isAccessed ⟨0⟩ ⟨1⟩].map .command

/-- A union is made of a read that was forgotten and made again, and the locations of the union are
allocated. -/
def reorderedScript : List (Call Taint Int) :=
  .retype (fun t => (t.declare "q").2) ::
  [.makeLocation "x" 0, .makeLocation "y" 0, .atom .read ⟨0⟩, .atom .read ⟨1⟩, .atom .read ⟨0⟩,
    .union ⟨2⟩ ⟨3⟩, .storeVariable .internal "s", .allocateAll .internal ⟨0⟩ ⟨4⟩, .close,
    .linearize, .typeAt ⟨2⟩ ⟨0⟩].map .command

/-- Four strong updates are demoted.  The contents of the last one flow into the base of the first
one, and a read is made once more after the graph is closed. -/
def reopenedScript : List (Call Taint Int) :=
  [.retype (fun t => (t.declare "q").2), .retype (fun t => (t.constant .tainted).2),
    .retype (fun t => (t.constant .untainted).2), .retype (fun t => (t.declare "v").2),
    .retype (fun t => (t.declare "w").2)] ++
  [.makeLocation "x" 0, .atom .read ⟨0⟩, .atom .write ⟨0⟩, .storeVariable .internal "s",
    .update .internal "first" ⟨0⟩ ⟨0⟩ 4 true, .storeVariable .internal "r",
    .allocate .internal ⟨2⟩ ⟨0⟩, .allocate .internal ⟨3⟩ ⟨0⟩,
    .update .internal "second" ⟨4⟩ ⟨0⟩ 1 true, .update .internal "third" ⟨5⟩ ⟨0⟩ 3 true,
    .update .internal "fourth" ⟨6⟩ ⟨0⟩ 2 true, .includeStore .internal "loop" ⟨7⟩ ⟨0⟩, .close,
    .atom .read ⟨0⟩, .linearize].map .command

/-- A read is made once more after the graph was linearized, and then two locations of one store are
merged. -/
def mergedScript : List (Call Level Int) :=
  [.makeLocation "x" 0, .makeLocation "y" 1, .atom .read ⟨0⟩, .atom .write ⟨0⟩,
    .storeVariable .internal "b", .allocate .internal ⟨0⟩ ⟨0⟩, .allocate .internal ⟨1⟩ ⟨1⟩,
    .storeVariable .internal "s", .includeStore .internal "flow" ⟨2⟩ ⟨3⟩, .close, .linearize,
    .atom .read ⟨0⟩, .typeAt ⟨3⟩ ⟨0⟩, .mergeLocations .internal ⟨0⟩ ⟨1⟩,
    .typeAt ⟨3⟩ ⟨0⟩].map .command

/-- An eviction may show in plays that are not parallel.  If a union was forgotten, then the second
one is another effect, and the read is not found in it.  If an intersection was forgotten, then the
union is not known to be the intersection, and the variables do not grow with it.  If a read was
forgotten, then it comes last in a union, and the fresh types are made in another order.  If it is
made again after the graph was closed, then the cells are settled again, and the lattice finds that
another update fails.  And if it is made again before two cells become one, then the table of types
is keyed once more, and the next time another type stays. -/
theorem eviction_shows_unless_parallel :
    (((start ⟨0, false⟩ Level.mk []).run grownScript).1.getLast?.map (·.2) = some (.flag false) ∧
      ((start ⟨14, false⟩ Level.mk []).run grownScript).1.getLast?.map (·.2) = some (.flag true)) ∧
    (((start ⟨0, false⟩ Level.mk []).run twinsScript).1.getLast?.map (·.2) = some (.flag false) ∧
      ((start ⟨14, false⟩ Level.mk []).run twinsScript).1.getLast?.map (·.2) = some (.flag true)) ∧
    (((start ⟨0, false⟩ Taint.empty []).run reorderedScript).1.getLast?.map (·.2) =
        some (.type? (some 1)) ∧
      ((start ⟨14, false⟩ Taint.empty []).run reorderedScript).1.getLast?.map (·.2) =
        some (.type? (some 2))) ∧
    (((start ⟨0, false⟩ Taint.empty []).run reopenedScript).2.session.errors.map
        Diagnostic.message = ["third"] ∧
      ((start ⟨14, false⟩ Taint.empty []).run reopenedScript).2.session.errors.map
        Diagnostic.message = ["fourth"]) ∧
    ((start ⟨0, false⟩ Level.mk [[], [], [1]]).run mergedScript).1.getLast?.map (·.2) =
        some (.type? (some 0)) ∧
      ((start ⟨14, false⟩ Level.mk [[], [], [1]]).run mergedScript).1.getLast?.map (·.2) =
        some (.type? (some 1)) := by
  refine ⟨⟨?_, ?_⟩, ⟨?_, ?_⟩, ⟨?_, ?_⟩, ⟨?_, ?_⟩, ?_, ?_⟩
  all_goals decide +kernel

end Play

end HeapQual
