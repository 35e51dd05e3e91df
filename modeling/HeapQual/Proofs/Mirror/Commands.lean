import HeapQual.Proofs.Drawing
import HeapQual.Proofs.Mirror.Asking

/-!
# Commands to sessions that mirror each other

Two sessions that mirror each other are given the same command, except that each is given its own
effects.  Then both carry it out or both fail, their replies *agree* (`Command.Agrees`), and they
mirror each other afterwards (`Session.Mirrors.exec`).

Replies agree if they are equal, apart from handles of effects and from texts in which effects are
printed or counted.  Diagnostics may come in another order.
-/

namespace HeapQual

/-! ## Renaming effects -/

/-- The restriction on other effects. -/
def Restriction.mapEffects (f : EffectId → EffectId) : Restriction → Restriction
  | location a kind e => location a kind (f e)
  | disjoint e₁ e₂ => disjoint (f e₁) (f e₂)
  | everywhere kind e => everywhere kind (f e)
  | implies kind₁ e₁ kind₂ e₂ => implies kind₁ (f e₁) kind₂ (f e₂)

lemma Restriction.mirrors_mapEffects {R : EffectId → EffectId → Prop} {f f' : EffectId → EffectId}
    {r : Restriction} (h : ∀ e ∈ r.effects, R (f e) (f' e)) :
    (r.mapEffects f).Mirrors R (r.mapEffects f') := by
  cases r with
  | location a kind e => exact .location a kind (h e (List.mem_singleton_self e))
  | disjoint e₁ e₂ =>
    exact .disjoint (h e₁ (List.mem_cons_self ..)) (h e₂ (List.mem_cons_of_mem _ (.head _)))
  | everywhere kind e => exact .everywhere kind (h e (List.mem_singleton_self e))
  | implies kind₁ e₁ kind₂ e₂ =>
    exact .implies kind₁ kind₂ (h e₁ (List.mem_cons_self ..))
      (h e₂ (List.mem_cons_of_mem _ (.head _)))

lemma Restriction.effects_mapEffects (f : EffectId → EffectId) (r : Restriction) :
    (r.mapEffects f).effects = r.effects.map f := by
  cases r <;> rfl

lemma Restriction.locations_mapEffects (f : EffectId → EffectId) (r : Restriction) :
    (r.mapEffects f).locations = r.locations := by
  cases r <;> rfl

namespace Command

variable {τ : Type}

/-- The command about other effects. -/
def mapEffects (f : EffectId → EffectId) : Command τ → Command τ
  | union e₁ e₂ => union (f e₁) (f e₂)
  | inter e₁ e₂ => inter (f e₁) (f e₂)
  | locationOfAtom e => locationOfAtom (f e)
  | markEffect e => markEffect (f e)
  | knownEqual e₁ e₂ => knownEqual (f e₁) (f e₂)
  | includeEffect position e₁ e₂ => includeEffect position (f e₁) (f e₂)
  | equateEffects position e₁ e₂ => equateEffects position (f e₁) (f e₂)
  | mergeEffects e₁ e₂ => mergeEffects (f e₁) (f e₂)
  | exclude x => exclude ⟨x.position, x.restriction.mapEffects f⟩
  | isAccessed a e => isAccessed a (f e)
  | restrict position base e => restrict position base (f e)
  | allocateAll position base e => allocateAll position base (f e)
  | overlay position inside outside e => overlay position inside outside (f e)
  | printEffect e limit => printEffect (f e) limit
  | c => c

lemma effects_mapEffects (f : EffectId → EffectId) (c : Command τ) :
    (c.mapEffects f).effects = c.effects.map f := by
  cases c with
  | exclude x => exact x.restriction.effects_mapEffects f
  | _ => rfl

lemma locations_mapEffects (f : EffectId → EffectId) (c : Command τ) :
    (c.mapEffects f).locations = c.locations := by
  cases c with
  | exclude x => exact x.restriction.locations_mapEffects f
  | _ => rfl

lemma stores_mapEffects (f : EffectId → EffectId) (c : Command τ) :
    (c.mapEffects f).stores = c.stores := by
  cases c <;> rfl

/-- Does the reply show effects by their names or numbers, or how large the memo tables are? -/
def showsEffects : Command τ → Bool
  | printEffect _ _ => true
  | printStore _ _ => true
  | printStoreRaw _ _ => true
  | draw _ _ => true
  | config => true
  | summary => true
  | _ => false

/-- The replies are the same, but for handles of effects, for texts that show effects, and for the
order of diagnostics. -/
def Agrees (c : Command τ) : Reply τ → Reply τ → Prop
  | .effect _, .effect _ => True
  | .diagnostics list, .diagnostics list' =>
    (list.map Diagnostic.plain).Perm (list'.map Diagnostic.plain)
  | reply, reply' => c.showsEffects = true ∨ reply = reply'

lemma agrees_refl (c : Command τ) (reply : Reply τ) : c.Agrees reply reply := by
  cases reply with
  | effect e => trivial
  | diagnostics list => exact .refl _
  | _ => exact Or.inr rfl

lemma agrees_ofOutput {c : Command τ} (hc : c.showsEffects = true) (o o' : Output) :
    c.Agrees (.ofOutput o) (.ofOutput o') := by
  unfold Reply.ofOutput
  split <;> split <;> exact Or.inl hc

end Command

/-- The effect that a reply gives out. -/
def Reply.effect? {τ : Type} : Reply τ → Option EffectId
  | effect e => some e
  | _ => none

lemma Reply.effect?_ofOutput {τ : Type} (o : Output) :
    (Reply.ofOutput o : Reply τ).effect? = none := by
  unfold ofOutput
  split <;> rfl

lemma Reply.effect?_ofExcept {τ α : Type} {g : α → Reply τ} (hg : ∀ a, (g a).effect? = none)
    (answer : Except Refusal α) : (Reply.ofExcept g answer).effect? = none := by
  cases answer with
  | error r => rfl
  | ok a => exact hg a

namespace Session

variable {σ τ : Type} {R : EffectId → EffectId → Prop} {s s' t t' : Session σ τ}
  {f f' : EffectId → EffectId} {c : Command τ}

/-! ## What comes of a command -/

/-- The replies agree, and the sessions mirror each other with the effects given out. -/
inductive Answers (R : EffectId → EffectId → Prop) (c : Command τ) :
    Reply τ × Session σ τ → Reply τ × Session σ τ → Prop
  | effect {e e' : EffectId} {s s' : Session σ τ} : s.Mirrors (Effects.Mirrors.With R e e') s' →
      Answers R c (.effect e, s) (.effect e', s')
  | other {reply reply' : Reply τ} {s s' : Session σ τ} : reply.effect? = none →
      reply'.effect? = none → c.Agrees reply reply' → s.Mirrors R s' →
      Answers R c (reply, s) (reply', s')

lemma Answers.of_eq {reply : Reply τ} (hreply : reply.effect? = none) (h : s.Mirrors R s') :
    Answers R c (reply, s) (reply, s') :=
  .other hreply hreply (c.agrees_refl reply) h

/-- A command that is done by a function which gives a session. -/
lemma answers_session {x x' : Except Fault (Session σ τ)} {reply : Reply τ}
    (hreply : reply.effect? = none) (h : Concurs (Mirrors R) x x') :
    Concurs (Answers R c) (x >>= fun s => pure (reply, s)) (x' >>= fun s => pure (reply, s)) :=
  h.bind fun _ _ h => .ok (.of_eq hreply h)

/-- A command that is done by a function which gives an answer and a session. -/
lemma answers_of_sameAnswer {α : Type} {x x' : Except Fault (α × Session σ τ)} {g : α → Reply τ}
    (hreply : ∀ a, (g a).effect? = none) (h : Concurs (SameAnswer R) x x') :
    Concurs (Answers R c) (x >>= fun p => pure (g p.1, p.2))
      (x' >>= fun p => pure (g p.1, p.2)) := by
  refine h.bind ?_
  rintro ⟨a, t⟩ ⟨_, t'⟩ ⟨rfl, ht⟩
  exact .ok (.of_eq (hreply a) ht)

/-- A command that is done by a function which gives an effect and a session. -/
lemma answers_of_madeRelated {x x' : Except Fault (EffectId × Session σ τ)}
    (h : Concurs (MadeRelated R) x x') :
    Concurs (Answers R c) (x >>= fun p => pure (.effect p.1, p.2))
      (x' >>= fun p => pure (.effect p.1, p.2)) :=
  h.bind fun _ _ h => .ok (.effect h)

/-- A command that reads what is the same in both sessions. -/
lemma answers_read {α : Type} {x x' : Except Fault α} {g : α → Reply τ}
    (hreply : ∀ a, (g a).effect? = none) (hx : x = x') (h : s.Mirrors R s') :
    Concurs (Answers R c) (x >>= fun a => pure (g a, s)) (x' >>= fun a => pure (g a, s')) := by
  refine (Concurs.of_eq hx).bind ?_
  rintro a _ rfl
  exact .ok (.of_eq (hreply a) h)

/-- A command that prints, and does not fail. -/
lemma answers_printed {pieces pieces' : List (Except Fault String)} (hpieces : Printable pieces)
    (hpieces' : Printable pieces') (hshown : c.showsEffects = true ∨ pieces = pieces')
    (limit : Option Nat) (h : s.Mirrors R s') :
    Concurs (Answers R c) (printed pieces limit >>= fun reply => pure (reply, s))
      (printed pieces' limit >>= fun reply => pure (reply, s')) := by
  obtain ⟨o, ho⟩ := exists_printed hpieces limit
  obtain ⟨o', ho'⟩ := exists_printed hpieces' limit
  have hagrees : c.Agrees (.ofOutput o : Reply τ) (.ofOutput o') := by
    rcases hshown with hc | rfl
    · exact Command.agrees_ofOutput hc o o'
    · rw [Except.ok.inj (ho.symm.trans ho')]
      exact c.agrees_refl _
  rw [ho, ho']
  exact .ok (.other (Reply.effect?_ofOutput o) (Reply.effect?_ofOutput o') hagrees h)

/-- The command is about effects of the one session, or about the related ones of the other. -/
structure Addresses (R : EffectId → EffectId → Prop) (c : Command τ) (f f' : EffectId → EffectId)
    (s s' : Session σ τ) : Prop where
  rel : ∀ e ∈ c.effects, R (f e) (f' e)
  left : (c.mapEffects f).Known s.graph
  right : (c.mapEffects f').Known s'.graph

/-- The order in which a command allocates or demotes is the same in both sessions.  It shows, for a
lattice may number the fresh types as they are made, and which of several inequalities fails may
depend on which one the lattice is told first. -/
def InOrder (s s' : Session σ τ) (f f' : EffectId → EffectId) : Command τ → Prop
  | .allocateAll _ _ e =>
    (s.graph.effects.atoms (f e)).toOption = (s'.graph.effects.atoms (f' e)).toOption
  | .linearize => s.flow.settled ⊆ s'.flow.settled ∧ s'.flow.settled ⊆ s.flow.settled
  | _ => True

instance (s s' : Session σ τ) (f f' : EffectId → EffectId) (c : Command τ) :
    Decidable (InOrder s s' f f' c) :=
  decidable_of_iff ((match c with
    | .allocateAll _ _ e => decide ((s.graph.effects.atoms (f e)).toOption =
        (s'.graph.effects.atoms (f' e)).toOption)
    | .linearize => decide (s.flow.settled ⊆ s'.flow.settled ∧ s'.flow.settled ⊆ s.flow.settled)
    | _ => true) = true) (by cases c <;> simp [InOrder])

variable [QualifierLattice σ τ]

theorem Mirrors.perform (h : s.Mirrors R s') (hs : s.Invariants) (hs' : s'.Invariants)
    (hd : s.graph.effects.Distinguishes R s'.graph.effects) (hempty : R .empty .empty)
    (hc : Addresses R c f f' s s') (horder : InOrder s s' f f' c)
    (hclash : Inquiring c → s.flow.NoClash s.graph) :
    Concurs (Answers R c) (s.perform (c.mapEffects f)) (s'.perform (c.mapEffects f')) := by
  have hsound := hs.coherent.sound
  have hsound' := hs'.coherent.sound
  have hrel := hc.rel
  have hnamed : s.graph.Named := hs.layered.named
  have hnamed' : s'.graph.Named := hs'.layered.named
  have hseparates := hd.separates
  cases c with
  | makeLocation name holds =>
    exact answers_of_sameAnswer (fun _ => rfl) (.ok (h.makeLocation name holds))
  | locationName a => exact answers_read (fun _ => rfl) (by rw [h.locations_eq]) h
  | locationClass a => exact answers_read (fun _ => rfl) (h.find_location a) h
  | heldType a => exact answers_read (fun _ => rfl) (by rw [h.locations_eq]) h
  | isMarked a => exact answers_read (fun _ => rfl) (by rw [h.locations_eq]) h
  | markLocation a => exact answers_session rfl (h.markLocation a)
  | sameLocation a b => exact answers_read (fun _ => rfl) (h.sameLocation_eq a b) h
  | mergeLocations position a b => exact answers_session rfl (h.mergeLocations position a b)
  | emptyEffect => exact .ok (.effect (h.madeRelated hempty))
  | atom kind a => exact answers_of_madeRelated (h.atom hsound hsound' kind a)
  | effectVariable name => exact .ok (.effect (h.effectVariable hsound hsound' name name))
  | freshEffect => exact .ok (.effect (h.freshEffect hsound hsound'))
  | union e₁ e₂ =>
    exact answers_of_madeRelated (h.union hsound hsound' hseparates (hrel e₁ (.head _))
      (hrel e₂ (.tail _ (.head _))))
  | inter e₁ e₂ =>
    exact answers_of_madeRelated (h.inter hsound hsound' hseparates (hrel e₁ (.head _))
      (hrel e₂ (.tail _ (.head _))) hempty)
  | locationOfAtom e =>
    exact answers_read (fun _ => rfl) (h.locationOfAtom_eq (hrel e (.head _))) h
  | markEffect e => exact answers_session rfl (h.markEffect (hrel e (.head _)))
  | knownEqual e₁ e₂ =>
    exact answers_read (fun _ => rfl) (h.knownEqual_eq hsound hsound' hseparates (hrel e₁ (.head _))
      (hrel e₂ (.tail _ (.head _)))) h
  | includeEffect position e₁ e₂ =>
    exact answers_session rfl (h.includeEffect hsound hsound' hseparates (hrel e₁ (.head _))
      (hrel e₂ (.tail _ (.head _))) position)
  | equateEffects position e₁ e₂ =>
    exact answers_session rfl (h.equateEffects hsound hsound' hseparates (hrel e₁ (.head _))
      (hrel e₂ (.tail _ (.head _))) position)
  | mergeEffects e₁ e₂ =>
    exact answers_session rfl (h.mergeEffects hsound hsound' (hrel e₁ (.head _))
      (hrel e₂ (.tail _ (.head _))))
  | exclude x =>
    exact answers_session rfl (h.exclude hs hs' hd (hclash trivial)
      ⟨rfl, Restriction.mirrors_mapEffects hrel⟩)
  | isAccessed a e =>
    exact answers_of_sameAnswer (Reply.effect?_ofExcept fun _ => rfl)
      (h.isAccessed hs hs' hd (hclash trivial) a (hrel e (.head _)))
  | close =>
    exact answers_of_sameAnswer (Reply.effect?_ofExcept fun _ => rfl)
      (h.close hs hs' hd (hclash trivial))
  | storeVariable position name =>
    exact answers_of_sameAnswer (fun _ => rfl) (.ok (h.storeVariable position name))
  | restrict position base e =>
    exact answers_of_sameAnswer (fun _ => rfl) (.ok (h.restrict position base (hrel e (.head _))))
  | allocate position base a =>
    exact answers_of_sameAnswer (fun _ => rfl) (h.allocate position base a)
  | allocateAll position base e =>
    exact answers_of_sameAnswer (fun _ => rfl)
      (h.allocateAll position base (hrel e (.head _)) horder)
  | overlay position inside outside e =>
    exact answers_of_sameAnswer (fun _ => rfl)
      (.ok (h.overlay position inside outside (hrel e (.head _))))
  | update position message base a type strong =>
    exact answers_of_sameAnswer (fun _ => rfl) (.ok (h.update position message base a type strong))
  | joinStores position message x y =>
    exact answers_of_sameAnswer (fun _ => rfl) (h.joinStores position message x y)
  | sameStore x y => exact answers_read (fun _ => rfl) (h.sameStore_eq x y) h
  | includeStore position message left right =>
    exact answers_session rfl (h.includeStore position message left right)
  | equateStores position message x y =>
    exact answers_session rfl (h.equateStores position message x y)
  | mergeStores position message x y =>
    exact answers_session rfl (h.mergeStores position message x y)
  | propagate direction x a =>
    exact answers_session rfl (h.propagate hs hs' hd (hclash trivial) direction x a)
  | domain x =>
    exact answers_of_sameAnswer (Reply.effect?_ofExcept fun _ => rfl)
      (h.domain hs hs' hd (hclash trivial) x)
  | typeAt x a =>
    exact answers_of_sameAnswer (Reply.effect?_ofExcept fun _ => rfl)
      (h.typeAt hs hs' hd (hclash trivial) x a)
  | linearize =>
    exact answers_of_sameAnswer (Reply.effect?_ofExcept fun _ => rfl)
      (h.linearize hs hs' hd (hclash trivial)
        fun _ => ⟨fun hc => horder.1 hc, fun hc => horder.2 hc⟩)
  | linearityAt x a =>
    exact answers_of_sameAnswer (Reply.effect?_ofExcept fun _ => rfl) (h.linearityAt x a)
  | printLocation a limit =>
    have heq : s.graph.printLocation a = s'.graph.printLocation a := by
      unfold Graph.printLocation
      rw [h.locations_eq]
    exact answers_printed
      (List.forall_mem_singleton.2
        (Graph.exists_printLocation_iff.2 (hc.left.location_lt a (.head _))))
      (List.forall_mem_singleton.2
        (Graph.exists_printLocation_iff.2 (hc.right.location_lt a (.head _))))
      (Or.inr (congrArg (fun text => [text]) heq)) limit h
  | printEffect e limit =>
    exact answers_printed
      (List.forall_mem_singleton.2
        (Graph.exists_printEffect_iff.2 (hc.left.effect_lt _ (.head _))))
      (List.forall_mem_singleton.2
        (Graph.exists_printEffect_iff.2 (hc.right.effect_lt _ (.head _))))
      (Or.inl rfl) limit h
  | printStore x limit =>
    exact answers_printed (hnamed.printable_printStore (hc.left.store_lt x (.head _)))
      (hnamed'.printable_printStore (hc.right.store_lt x (.head _))) (Or.inl rfl) limit h
  | printStoreRaw x limit =>
    exact answers_printed (hnamed.printable_printStoreRaw (hc.left.store_lt x (.head _)))
      (hnamed'.printable_printStoreRaw (hc.right.store_lt x (.head _))) (Or.inl rfl) limit h
  | printCells style x limit =>
    exact answers_of_sameAnswer (Reply.effect?_ofExcept Reply.effect?_ofOutput)
      (h.printCells hs hs' hd (hclash trivial) style x limit)
  | draw style roots =>
    obtain ⟨picture, hpicture⟩ := hnamed.exists_render hsound style hc.left.store_lt
    obtain ⟨picture', hpicture'⟩ := hnamed'.exists_render hsound' style hc.right.store_lt
    exact Corresponds.bind (R := fun _ _ => True) (hpicture ▸ hpicture' ▸ .ok trivial)
      fun _ _ _ => .ok (.other rfl rfl (Or.inl rfl) h)
  | phase =>
    refine .ok (.other rfl rfl (Or.inr ?_) h)
    rw [h.phase_eq]
  | config => exact .ok (.other rfl rfl (Or.inl rfl) h)
  | summary => exact .ok (.other rfl rfl (Or.inl rfl) h)
  | errors => exact .ok (.other rfl rfl h.flow.talk.errors h)
  | errorCount =>
    have hcount := h.flow.talk.errors.length_eq
    rw [List.length_map, List.length_map] at hcount
    exact .ok (.other rfl rfl (Or.inr (congrArg Reply.number hcount)) h)
  | takeErrors =>
    exact .ok (.other rfl rfl h.flow.talk.errors
      (h.withTalk ⟨h.flow.talk.lattice_eq, h.flow.talk.receiver_eq, .refl _⟩))
  | setReceiver receiver =>
    exact .ok (.of_eq rfl (h.withTalk ⟨h.flow.talk.lattice_eq, rfl, h.flow.talk.errors⟩))

omit [QualifierLattice σ τ] in
lemma Answers.talk {p p' : Reply τ × Session σ τ} (h : Answers R c p p') :
    p.2.talk.Mirrors p'.2.talk := by
  cases h with
  | effect h => exact h.flow.talk
  | other _ _ _ h => exact h.flow.talk

/-- The command is carried out alike, whatever the lattice makes of it. -/
theorem Mirrors.exec (h : s.Mirrors R s') (hs : s.Invariants) (hs' : s'.Invariants)
    (hd : s.graph.effects.Distinguishes R s'.graph.effects) (hempty : R .empty .empty)
    (hc : Addresses R c f f' s s') (horder : InOrder s s' f f' c)
    (hclash : Inquiring c → s.flow.NoClash s.graph) :
    Concurs (Answers R c) (s.exec (c.mapEffects f)) (s'.exec (c.mapEffects f')) := by
  refine (h.perform hs hs' hd hempty hc horder hclash).bind fun p p' hp => ?_
  dsimp only [Session.lattice]
  rw [hp.talk.lattice_eq]
  split
  · exact .error trivial
  · exact .ok hp

end Session

end HeapQual
