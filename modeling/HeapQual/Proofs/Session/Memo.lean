import HeapQual.Lattice.Level
import HeapQual.Proofs.Session.Remarking

/-!
# Remembered answers are exact

A session remembers the answers to membership questions about marked effects.  Every answer that it
remembers is the one that the solution of the present graph gives.  So a mark cannot be noticed:
whatever a caller does, it hears the same whether or not it marks effects on the way
(`Session.memo_exact`).

What a caller hears (`Session.hear`) is the reply to each command that is not a mark, with the whole
dialogue up to then, and the fault that ends the session.  The dialogue has all questions put to the
lattice, all diagnostics and the log.
-/

namespace HeapQual

/-- Does the command do nothing but mark an effect? -/
def Command.marksEffect {τ : Type} : Command τ → Bool
  | markEffect _ => true
  | _ => false

/-- What a caller does. -/
inductive Act (σ τ : Type) where
  | command (c : Command τ)
  | retype (change : σ → σ)

/-- Does the caller do nothing but mark an effect? -/
def Act.isMark {σ τ : Type} : Act σ τ → Bool
  | command c => c.marksEffect
  | retype _ => false

/-- Every number is that of a kind. -/
lemma Kind.exists_rank (n : Nat) : ∃ kind : Kind, n = kind.rank := by
  match n with
  | 0 => exact ⟨.any, rfl⟩
  | 1 => exact ⟨.readWrite, rfl⟩
  | 2 => exact ⟨.read, rfl⟩
  | 3 => exact ⟨.write, rfl⟩
  | 4 => exact ⟨.alloc, rfl⟩
  | tag + 5 => exact ⟨.custom tag, Nat.add_comm tag 5⟩

namespace Session

variable {σ τ : Type} [QualifierLattice σ τ] {s s' t : Session σ τ}

/-! ## Commands -/

/-- Sessions that differ in marks and in remembered answers do the same with a command. -/
lemma Remarks.perform (h : s.Remarks s') (hs : s.Trusted) (hs' : s'.Trusted) {c : Command τ}
    (hc : c.marksEffect = false) : Matches (Along Remarks) (s.perform c) (s'.perform c) := by
  have hread (a : LocationId) : s.graph.locations.read a = s'.graph.locations.read a := by
    rw [h.locations_eq]
  have hfind (a : LocationId) : s.graph.locations.find a = s'.graph.locations.find a := by
    rw [h.locations_eq]
  cases c with
  | makeLocation name holds => exact matches_along (h.makeLocation name holds)
  | locationName a => exact h.look (hread a) _
  | locationClass a => exact h.look (hfind a) _
  | heldType a => exact h.look (hread a) _
  | isMarked a => exact h.look (hread a) _
  | markLocation a => exact matches_session (h.markLocation a)
  | sameLocation a b =>
    refine h.look ?_ _
    unfold sameLocation
    rw [hfind a, hfind b]
  | mergeLocations position a b => exact matches_session (h.mergeLocations position a b)
  | emptyEffect => exact .ok ⟨rfl, h⟩
  | atom kind a => exact matches_answer (h.atom kind a)
  | effectVariable name => exact matches_along (h.effectVariable name)
  | freshEffect => exact matches_along h.freshEffect
  | union e₁ e₂ => exact matches_answer (h.union e₁ e₂)
  | inter e₁ e₂ => exact matches_answer (h.inter e₁ e₂)
  | locationOfAtom e =>
    refine h.look ?_ _
    obtain ⟨marked, questions, rfl⟩ := h
    rfl
  | markEffect e => cases hc
  | knownEqual e₁ e₂ => exact h.look (h.knownEqual_eq e₁ e₂) _
  | includeEffect position e₁ e₂ => exact matches_session (h.includeEffect position e₁ e₂)
  | equateEffects position e₁ e₂ => exact matches_session (h.equateEffects position e₁ e₂)
  | mergeEffects e₁ e₂ => exact matches_session (h.mergeEffects e₁ e₂)
  | exclude x => exact matches_session (h.exclude hs hs' x)
  | isAccessed a e => exact matches_answer (h.isAccessed hs hs' a e)
  | close => exact matches_answer (h.close hs hs')
  | storeVariable position name => exact matches_along (h.storeVariable position name)
  | restrict position base e =>
    exact matches_along (h.enterStore_note (.restrict base e) (.restrictionMade position base e))
  | allocate position base a => exact matches_answer (h.allocate position base a)
  | allocateAll position base e => exact matches_answer (h.allocateAll position base e)
  | overlay position inside outside e =>
    exact matches_along (h.enterStore_note (.overlay inside outside e)
      (.overlayMade position inside outside e))
  | update position message base a type strong =>
    exact matches_along (h.enterStore_note (.update base a type strong position message)
      (.updateMade position base a strong))
  | joinStores position message x y => exact matches_answer (h.joinStores position message x y)
  | sameStore x y => exact h.look (h.sameStore_eq x y) _
  | includeStore position message left right =>
    exact matches_session (h.includeStore position message left right)
  | equateStores position message x y =>
    exact matches_session (h.equateStores position message x y)
  | mergeStores position message x y => exact matches_session (h.mergeStores position message x y)
  | propagate direction x a => exact matches_session (h.propagate direction x a)
  | domain x => exact matches_answer (h.domain x)
  | typeAt x a => exact matches_answer (h.typeAt x a)
  | linearize => exact matches_answer h.linearize
  | linearityAt x a => exact matches_answer (h.linearityAt x a)
  | printLocation a limit =>
    refine h.look ?_ id
    unfold Graph.printLocation
    rw [hfind a, h.locations_eq]
  | printEffect e limit =>
    refine h.look ?_ id
    obtain ⟨marked, questions, rfl⟩ := h
    exact congrArg (fun text => printed [text] limit) (Graph.printEffect_remark ..).symm
  | printStore x limit =>
    refine h.look ?_ id
    obtain ⟨marked, questions, rfl⟩ := h
    exact congrArg (fun pieces => printed pieces limit) (Graph.printStore_remark ..).symm
  | printStoreRaw x limit =>
    refine h.look ?_ id
    obtain ⟨marked, questions, rfl⟩ := h
    rfl
  | printCells style x limit => exact matches_answer (h.printCells style x limit)
  | draw style roots =>
    refine h.look ?_ _
    obtain ⟨marked, questions, rfl⟩ := h
    exact (Graph.render_remark ..).symm
  | phase =>
    obtain ⟨marked, questions, rfl⟩ := h
    exact .ok ⟨rfl, _, _, rfl⟩
  | config =>
    obtain ⟨marked, questions, rfl⟩ := h
    exact .ok ⟨rfl, _, _, rfl⟩
  | summary =>
    obtain ⟨marked, questions, rfl⟩ := h
    exact .ok ⟨rfl, _, _, rfl⟩
  | errors =>
    obtain ⟨marked, questions, rfl⟩ := h
    exact .ok ⟨rfl, _, _, rfl⟩
  | errorCount =>
    obtain ⟨marked, questions, rfl⟩ := h
    exact .ok ⟨rfl, _, _, rfl⟩
  | takeErrors =>
    obtain ⟨marked, questions, rfl⟩ := h
    exact .ok ⟨rfl, _, _, rfl⟩
  | setReceiver receiver =>
    obtain ⟨marked, questions, rfl⟩ := h
    exact .ok ⟨rfl, _, _, rfl⟩

lemma Remarks.exec (h : s.Remarks s') (hs : s.Trusted) (hs' : s'.Trusted) {c : Command τ}
    (hc : c.marksEffect = false) : Matches (Along Remarks) (s.exec c) (s'.exec c) := by
  refine (h.perform hs hs' hc).bind ?_
  rintro ⟨reply, t⟩ ⟨_, t'⟩ ⟨rfl, ht⟩
  have hlattice : t'.lattice = t.lattice := congrArg Dialogue.lattice ht.talk_eq
  dsimp only
  rw [hlattice]
  split
  · exact .error rfl
  · exact .ok ⟨rfl, ht⟩

lemma remarks_of_exec {c : Command τ} (hc : c.marksEffect = true) {reply : Reply τ}
    (h : s.exec c = .ok (reply, t)) : s.Remarks t := by
  cases c with
  | markEffect e =>
    exact of_bind_session (fun _ => remarks_of_markEffect) (perform_eq_ok_of_exec h)
  | _ => cases hc

/-! ## What a caller hears -/

/-- The replies to the commands that are not marks, each with the dialogue up to it, and the fault
that ended the session, if there was one. -/
def hear (s : Session σ τ) : List (Act σ τ) → List (Reply τ × Dialogue σ τ) × Option Fault
  | [] => ([], none)
  | .retype change :: acts => (s.withLattice (change s.lattice)).hear acts
  | .command c :: acts =>
    match s.exec c with
    | .error f => ([], some f)
    | .ok (reply, s') =>
      if c.marksEffect then s'.hear acts
      else
        let (heard, fault) := s'.hear acts
        ((reply, s'.talk) :: heard, fault)

/-- Is every mark carried out, up to the first fault? -/
def heeds (s : Session σ τ) : List (Act σ τ) → Bool
  | [] => true
  | .retype change :: acts => (s.withLattice (change s.lattice)).heeds acts
  | .command c :: acts =>
    match s.exec c with
    | .error _ => !c.marksEffect
    | .ok (_, s') => s'.heeds acts

variable {c : Command τ} {reply : Reply τ} {f : Fault} {acts : List (Act σ τ)}

lemma hear_of_error (h : s.exec c = .error f) : s.hear (.command c :: acts) = ([], some f) := by
  rw [hear, h]

lemma hear_of_mark (hc : c.marksEffect = true) (h : s.exec c = .ok (reply, t)) :
    s.hear (.command c :: acts) = t.hear acts := by
  rw [hear, h]
  exact if_pos hc

lemma hear_of_ok (hc : c.marksEffect = false) (h : s.exec c = .ok (reply, t)) :
    s.hear (.command c :: acts) = ((reply, t.talk) :: (t.hear acts).1, (t.hear acts).2) := by
  rw [hear, h]
  exact if_neg (Bool.eq_false_iff.1 hc)

lemma heeds_of_error (h : s.exec c = .error f) :
    s.heeds (.command c :: acts) = !c.marksEffect := by
  rw [heeds, h]

lemma heeds_of_ok (h : s.exec c = .ok (reply, t)) :
    s.heeds (.command c :: acts) = t.heeds acts := by
  rw [heeds, h]

/-- Without the marks a caller hears the same. -/
lemma Remarks.hear_filter (h : s.Remarks s') (hs : Reachable s) (hs' : Reachable s')
    (hheeds : s.heeds acts = true) :
    s'.hear (acts.filter fun act => !act.isMark) = s.hear acts := by
  induction acts generalizing s s' with
  | nil => rfl
  | cons act acts ih =>
    cases act with
    | retype change =>
      exact ih (h.withLattice change) (hs.run (.withLattice _ .refl))
        (hs'.run (.withLattice _ .refl)) hheeds
    | command c =>
      by_cases hc : c.marksEffect = true
      · -- The mark is made on one side only, and leaves a session that differs in it.
        rw [List.filter_cons_of_neg (by simp [Act.isMark, hc])]
        cases hexec : s.exec c with
        | error f => simp [heeds_of_error hexec, hc] at hheeds
        | ok p =>
          obtain ⟨reply, t⟩ := p
          rw [hear_of_mark hc hexec]
          exact ih ((remarks_of_exec hc hexec).symm.trans h) (hs.run (.exec .refl trivial hexec))
            hs' (heeds_of_ok hexec ▸ hheeds)
      · rw [Bool.not_eq_true] at hc
        rw [List.filter_cons_of_pos (by simp [Act.isMark, hc])]
        have hmatches := h.exec hs.trusted hs'.trusted hc
        generalize hexec : s.exec c = x at hmatches
        generalize hexec' : s'.exec c = x' at hmatches
        cases hmatches with
        | error hfault =>
          obtain rfl := hfault
          rw [hear_of_error hexec, hear_of_error hexec']
        | @ok p p' hp =>
          obtain ⟨reply, t⟩ := p
          obtain ⟨_, t'⟩ := p'
          obtain ⟨rfl, ht⟩ := hp
          have hrest := ih ht (hs.run (.exec .refl trivial hexec))
            (hs'.run (.exec .refl trivial hexec')) (heeds_of_ok hexec ▸ hheeds)
          rw [hear_of_ok hc hexec, hear_of_ok hc hexec', hrest, ht.talk_eq]

/-! ## Exactness -/

/-- An answer is remembered only while a solution is held, and is the one that it gives. -/
lemma Reachable.answer_eq (h : Reachable s) {entry : Nat × TripleKey × Bool}
    (hentry : entry ∈ s.questions.slots) :
    s.solution = some s.graph.solve ∧ ∃ kind : Kind, entry.2.1.snd = kind.rank ∧
      entry.2.2 = s.graph.solve.touches entry.2.1.thd entry.2.1.fst kind := by
  cases hsol : s.solution with
  | none =>
    rw [(h.trusted.cleared hsol).1] at hentry
    exact absurd hentry List.not_mem_nil
  | some sol =>
    obtain rfl := h.coherent.solution_eq sol hsol
    obtain ⟨kind, hkind⟩ := Kind.exists_rank entry.2.1.snd
    exact ⟨rfl, kind, hkind, h.trusted.answers _ hsol entry hentry kind hkind⟩

/-- An effect that exists can be marked, unless the lattice is at fault. -/
lemma exists_exec_markEffect {e : EffectId} (he : e.index < s.graph.effects.size)
    (hlattice : QualifierLattice.fault? s.lattice = none) :
    ∃ t, s.exec (.markEffect e) = .ok (.done, t) := by
  let marked := s.withEffects (s.graph.effects.mark (s.graph.effects.root e))
  have hfind : s.graph.effects.find e = .ok (s.graph.effects.root e) := if_pos he
  have hmark : s.markEffect e = .ok marked := by
    unfold markEffect
    rw [hfind]
    rfl
  have hperform : s.perform (.markEffect e) = .ok (.done, marked) :=
    congrArg (fun x => x >>= fun t => pure (Reply.done, t)) hmark
  have hsame : marked.lattice = s.lattice := rfl
  refine ⟨marked, ?_⟩
  unfold exec
  rw [hperform]
  simp only [bind, Except.bind, pure, Except.pure, hsame, hlattice]

/-- In every session that can exist, an answer that is remembered about an effect and a location at
a kind is the one that the solution gives, which is held and is that of the present graph.  Effects
that exist can be marked.  From then on a caller who does the same but for marks hears the same: the
same replies and refusals, the same questions to the lattice, diagnostics and log after each
command, and the same fault at the end. -/
theorem memo_exact (h : Reachable s) :
    (∀ entry ∈ s.questions.slots, s.solution = some s.graph.solve ∧
      ∃ kind : Kind, entry.2.1.snd = kind.rank ∧
        entry.2.2 = s.graph.solve.touches entry.2.1.thd entry.2.1.fst kind) ∧
      (∀ e : EffectId, e.index < s.graph.effects.size →
        QualifierLattice.fault? s.lattice = none → ∃ t, s.exec (.markEffect e) = .ok (.done, t)) ∧
      ∀ acts acts' : List (Act σ τ),
        (acts.filter fun act => !act.isMark) = (acts'.filter fun act => !act.isMark) →
        s.heeds acts = true → s.heeds acts' = true → s.hear acts = s.hear acts' := by
  refine ⟨fun entry hentry => h.answer_eq hentry, fun e he => exists_exec_markEffect he, ?_⟩
  intro acts acts' hfilter hheeds hheeds'
  calc s.hear acts
      = s.hear (acts.filter fun act => !act.isMark) :=
        ((Remarks.refl s).hear_filter h h hheeds).symm
    _ = s.hear (acts'.filter fun act => !act.isMark) := by rw [hfilter]
    _ = s.hear acts' := (Remarks.refl s).hear_filter h h hheeds'

/-- Two locations, of which a marked variable accesses one.  A question about each is remembered. -/
def recallScript : List (Command Int) :=
  [.makeLocation "x" 0, .makeLocation "y" 0, .atom .read ⟨0⟩, .effectVariable "v",
    .effectVariable "w", .includeEffect .internal ⟨1⟩ ⟨2⟩, .markEffect ⟨2⟩, .close,
    .isAccessed ⟨0⟩ ⟨2⟩, .isAccessed ⟨1⟩ ⟨2⟩]

/-- The questions are put again, before and after the variable was merged with one that accesses
more. -/
def recallActs : List (Act Level Int) :=
  [.command (.isAccessed ⟨0⟩ ⟨3⟩), .command (.isAccessed ⟨1⟩ ⟨2⟩), .command (.atom .write ⟨1⟩),
    .command (.includeEffect .internal ⟨4⟩ ⟨3⟩), .command (.isAccessed ⟨1⟩ ⟨3⟩),
    .command (.mergeEffects ⟨3⟩ ⟨2⟩), .command (.isAccessed ⟨1⟩ ⟨2⟩),
    .command (.isAccessed ⟨9⟩ ⟨2⟩)]

/-- The same with marks on all effects. -/
def markedActs : List (Act Level Int) :=
  .command (.markEffect ⟨3⟩) :: .command (.markEffect ⟨1⟩) ::
    recallActs.flatMap fun act => [act, .command (.markEffect ⟨2⟩)]

/-- Two answers are remembered.  With more marks and without, the caller hears that the variable
accesses the second location once it is merged, and ends by the same fault. -/
theorem memo_exact_merged :
    ∃ s : Session Level Int, Reachable s ∧
      (s.questions.slots.map fun entry => (entry.2.1, entry.2.2)) =
        [(⟨1, Kind.any.rank, 2⟩, false), (⟨0, Kind.any.rank, 2⟩, true)] ∧
      (∀ entry ∈ s.questions.slots, ∃ kind : Kind, entry.2.1.snd = kind.rank ∧
        entry.2.2 = s.graph.solve.touches entry.2.1.thd entry.2.1.fst kind) ∧
      s.hear markedActs = s.hear recallActs ∧
      ((s.hear markedActs).1.map Prod.fst) = [.flag false, .flag false, .effect ⟨4⟩, .done,
        .flag true, .done, .flag true] ∧
      (s.hear markedActs).2 = some (.unknownLocation ⟨9⟩) := by
  have hrun : (follow (fun _ _ => True) (start ⟨3, false⟩ Level.mk) recallScript).any fun s =>
      List.and [(s.questions.slots.map fun entry => (entry.2.1, entry.2.2)) =
          [(⟨1, Kind.any.rank, 2⟩, false), (⟨0, Kind.any.rank, 2⟩, true)],
        s.heeds markedActs = true, s.heeds recallActs = true,
        (s.hear markedActs).1.map Prod.fst =
          [.flag false, .flag false, .effect ⟨4⟩, .done, .flag true, .done, .flag true],
        (s.hear markedActs).2 = some (.unknownLocation ⟨9⟩)] := by
    decide +kernel
  simp only [Option.any_eq_true, and_decide_cons, List.and_nil, and_true] at hrun
  obtain ⟨s, hs, hslots, hheeds, hheeds', hreplies, hfault⟩ := hrun
  have h : Reachable s := reachableBy_of_follow hs
  obtain ⟨hexact, -, hhear⟩ := memo_exact h
  have hfilter : (markedActs.filter fun act => !act.isMark) =
      recallActs.filter fun act => !act.isMark := rfl
  exact ⟨s, h, hslots, fun entry hentry => (hexact entry hentry).2,
    hhear _ _ hfilter hheeds hheeds', hreplies, hfault⟩

end Session

end HeapQual
