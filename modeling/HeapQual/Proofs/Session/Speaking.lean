import HeapQual.Proofs.Session.Invariants

/-!
# What a command says

Every command goes on with the dialogue by a sequence of utterances (`Session.exec_speaks`), because
each of its moves does.  Building tells the lattice at most that merged locations hold equal types,
and reports no inclusion (`Session.Builds.speaks`).  Asking tells it about edges, updates and merged
cells, and if it reports inclusions, then those that fail by the solution (`Session.Ask.discloses`).

So for every lattice, its state and its answers in a session are those of replaying the journal
(`Session.replay_journal`).
-/

namespace HeapQual

open Relation (ReflTransGen)

/-- The lattice may be told something for this reason while the command is carried out. -/
def Command.Prompts {τ : Type} (c : Command τ) (reason : Reason) : Prop :=
  (reason.Markable ∨ reason = .cells) ∨ c.Occasions reason

namespace Session

variable {σ τ : Type} [QualifierLattice σ τ] {P : Prop} {p : Reason → Prop} {q : Cause → Prop}
  {c : Command τ} {s s' : Session σ τ}

/-! ## Building -/

lemma speaks_forget (s : Session σ τ) : s.talk.Speaks p q s.forget.talk := by
  unfold forget
  split
  · exact .refl
  · exact Dialogue.speaks_note _ .solutionDropped

lemma Build.speaks (h : Build P c s s') :
    s.talk.Speaks c.Occasions Cause.Discreet s'.talk := by
  cases h with
  | speak hspeaks => exact hspeaks
  | @grow graph => exact speaks_forget ({ s with graph } : Session σ τ)
  | _ => exact .refl

lemma Builds.speaks (h : Builds P c s s') :
    s.talk.Speaks c.Occasions Cause.Discreet s'.talk := by
  induction h with
  | refl => exact .refl
  | tail _ hmove ih => exact ih.trans hmove.speaks

/-! ## Asking -/

lemma speaks_rekey (hp : p .cells) (hq : ∀ cause, cause.Discreet → q cause)
    (g : Graph τ) (f : Flow σ τ) :
    f.talk.Speaks p q (f.rekey g).talk := by
  have hclashes : ∀ (clashes : List (τ × τ)) (talk : Dialogue σ τ),
      talk.Speaks p q (clashes.foldl Flow.equateClash talk) := by
    intro clashes
    induction clashes with
    | nil => exact fun talk => .refl
    | cons clash clashes ih =>
      intro talk
      refine ReflTransGen.trans ?_ (ih _)
      unfold Flow.equateClash
      dsimp only
      split
      · exact Dialogue.speaks_equate hp Reason.not_markable_cells _ _ _
      · exact (Dialogue.speaks_equate hp Reason.not_markable_cells _ _ _).trans
          (Dialogue.speaks_report _ _ rfl (hq _ rfl))
  exact hclashes _ f.talk

lemma requires_settle (s : Session σ τ) (sol : Solution) (seeds : List Cell) :
    ReflTransGen (Dialogue.Requires Reason.Markable) s.talk (s.settle sol seeds).talk :=
  (Flow.books_settle (s.view sol) s.flow seeds (fun _ _ _ _ => Or.inl ⟨_, rfl⟩)
    fun _ _ => Or.inr ⟨_, rfl⟩).requires

lemma requires_settleDue {sol : Solution} (h : s.settleDue sol = .ok s') :
    ReflTransGen (Dialogue.Requires Reason.Markable) s.talk s'.talk := by
  obtain ⟨requested, -, h⟩ := bind_eq_ok_iff.1 h
  cases h
  exact (requires_settle { s with requests := [] } sol _).tail (.note _)

lemma requires_demote (sol : Solution) (s : Session σ τ) (site : UpdateSite) :
    ReflTransGen (Dialogue.Requires Reason.Markable) s.talk (demote sol s site).talk := by
  unfold demote
  dsimp only
  generalize @Notice.updateDemoted τ _ _ = n
  have hsend := Flow.books_sendUpdate (p := Reason.Markable) ((s.note n).view sol) (s.note n).flow
    site.store fun _ => Or.inr ⟨_, rfl⟩
  exact (ReflTransGen.head (.note n) hsend.requires).trans (requires_settle ({ s.note n with
    flow := (s.note n).flow.sendUpdate ((s.note n).view sol) site.store } : Session σ τ) sol _)

lemma requires_foldl_demote (sol : Solution) (sites : List UpdateSite) (s : Session σ τ) :
    ReflTransGen (Dialogue.Requires Reason.Markable) s.talk
      (sites.foldl (demote sol) s).talk := by
  induction sites generalizing s with
  | nil => exact .refl
  | cons site sites ih => exact (requires_demote sol s site).trans (ih _)

/-- An asking move reports no inclusion, or those that fail by the solution held. -/
lemma Ask.discloses (h : Ask c s s') :
    (s'.reported = s.reported ∧ s.talk.Speaks (fun reason => reason.Markable ∨ reason = .cells)
        Cause.Discreet s'.talk) ∨
      ∃ sol, s.solution = some sol ∧ s' = (s.reportViolations sol).2 := by
  have hrequires {d d' : Dialogue σ τ}
      (h : ReflTransGen (Dialogue.Requires Reason.Markable) d d') :
      d.Speaks (fun reason => reason.Markable ∨ reason = .cells) Cause.Discreet d' :=
    (Dialogue.speaks_of_requires h).mono (fun _ => Or.inl) fun _ => id
  cases h with
  | chat _ _ hdiscloses =>
    refine hdiscloses.imp_left fun h => ⟨h.1, h.2.mono (fun _ => False.elim) fun _ => id⟩
  | solve => exact Or.inl ⟨rfl, speaks_rekey (Or.inr rfl) (fun _ => id) s.graph s.flow⟩
  | discharge => exact Or.inl ⟨rfl, .refl⟩
  | close => exact Or.inl ⟨rfl, .refl⟩
  | @settle sol seeds => exact Or.inl ⟨rfl, hrequires (requires_settle s sol seeds)⟩
  | @read sol cell =>
    exact Or.inl ⟨rfl, hrequires (Flow.requires_read (s.view sol) s.flow cell)⟩
  | @linearize sol =>
    refine Or.inl ⟨?_, hrequires (requires_foldl_demote sol _ { s with
      linearities := tabulate (s.graph.solveSupplies sol).values (updateSites s.graph)
      phase := .linearized })⟩
    obtain ⟨linearities, flow, heq⟩ := s.demoteAll_eq sol
    rw [heq]

lemma Ask.speaks (h : Ask c s s') :
    s.talk.Speaks (fun reason => reason.Markable ∨ reason = .cells) (fun _ => True) s'.talk := by
  rcases h.discloses with ⟨-, hspeaks⟩ | ⟨sol, -, rfl⟩
  · exact hspeaks.mono (fun _ => id) fun _ _ => trivial
  · obtain ⟨talk, questions, reported, heq, hspeaks⟩ := chats_reportViolations s sol
    rw [heq]
    exact hspeaks.mono (fun _ => False.elim) fun _ => id

lemma Asks.speaks (h : Asks c s s') :
    s.talk.Speaks (fun reason => reason.Markable ∨ reason = .cells) (fun _ => True) s'.talk := by
  induction h with
  | refl => exact .refl
  | tail _ hmove ih => exact ih.trans hmove.speaks

/-! ## Every command -/

/-- A command goes on with the dialogue.  If it merges locations, it may equate the types that they
hold. -/
theorem exec_speaks {reply : Reply τ} (hs : s.graph.Sound) (h : s.exec c = .ok (reply, s')) :
    s.talk.Speaks c.Prompts (fun _ => True) s'.talk := by
  rcases exec_moves (P := False) hs False.elim h with hbuilds | ⟨hasks, -⟩
  · exact hbuilds.speaks.mono (fun _ => Or.inr) fun _ _ => trivial
  · exact hasks.speaks.mono (fun _ => Or.inl) fun _ => id

/-! ## Replaying a session -/

/-- As long as only the session uses the lattice, the lattice and all its answers can be had from
the journal. -/
lemma replays_of_follow {allowed : Session σ τ → Command τ → Prop}
    [∀ s c, Decidable (allowed s c)] {commands : List (Command τ)} (hs : s.graph.Sound)
    (h : follow allowed s commands = some s') : s.talk.Replays s'.talk := by
  induction commands generalizing s with
  | nil =>
    cases h
    exact .of_eq rfl rfl
  | cons c commands ih =>
    obtain ⟨-, reply, s₁, hexec, hfollow⟩ := follow_cons_eq_some_iff.1 h
    have hs₁ := ((exec_moves (P := False) hs False.elim hexec).grows hs).sound
    exact (exec_speaks hs hexec).replays.trans (ih hs₁ hfollow)

/-- The lattice a session began with, asked all that the journal says it was asked, gives the
answers that the journal has, and ends in the state that the session has it in. -/
theorem replay_journal {allowed : Session σ τ → Command τ → Prop} [∀ s c, Decidable (allowed s c)]
    {config : Config} {lattice : σ} {orders : List (List Nat)} {commands : List (Command τ)}
    (h : follow allowed (start config lattice orders) commands = some s) :
    replay lattice s.talk.journal = (s.talk.journal, s.talk.lattice) := by
  obtain ⟨events, hjournal, hreplay⟩ := replays_of_follow Graph.Sound.start h
  have hall : s.talk.journal = events := hjournal.trans (List.append_nil events)
  rw [hall]
  exact hreplay

end Session

end HeapQual
