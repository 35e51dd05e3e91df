import HeapQual.Proofs.Session.Building

/-!
# Commands that ask

What the commands that close a graph, put questions to it, and find its linearities come to, as
sequences of asking moves; and with that, what every command comes to (`Session.exec_moves`).
-/

namespace HeapQual

open Relation (ReflTransGen)

namespace Session

variable {σ τ : Type} {P : Prop} {c : Command τ} {s s' : Session σ τ}

/-! ## Refusals -/

lemma refuseOpen_eq_none_iff : s.refuseOpen = none ↔ s.phase ≠ .opened := by
  unfold refuseOpen
  cases s.phase <;> simp

lemma refuseUnlinearized_eq_none (h : s.refuseUnlinearized = none) : s.phase = .linearized := by
  cases hphase : s.phase <;> simp_all [refuseUnlinearized]

lemma eq_of_linearityAt {x : StoreId} {a : LocationId} {answer : Except Refusal Linearity}
    (h : s.linearityAt x a = .ok (answer, s')) : s' = s := by
  unfold linearityAt at h
  split at h
  · cases h
    rfl
  · obtain ⟨root, -, h⟩ := bind_eq_ok_iff.1 h
    split at h
    · cases h
      rfl
    · obtain ⟨location, -, h⟩ := bind_eq_ok_iff.1 h
      cases h
      rfl

/-- The answer declines a question because of the phase. -/
def Declined {α : Type} (answer : Except Refusal α) : Prop :=
  ∃ r, answer = .error r ∧ r ≠ .outputFull

lemma declined_of_refuseOpen {α : Type} {r : Refusal} (h : s.refuseOpen = some r) :
    Declined (.error r : Except Refusal α) := by
  refine ⟨r, rfl, ?_⟩
  rintro rfl
  cases hphase : s.phase <;> simp [refuseOpen, hphase] at h

lemma declined_of_refuseUnlinearized {α : Type} {r : Refusal}
    (h : s.refuseUnlinearized = some r) : Declined (.error r : Except Refusal α) := by
  refine ⟨r, rfl, ?_⟩
  rintro rfl
  cases hphase : s.phase <;> simp [refuseUnlinearized, hphase] at h

/-! ## Replies -/

/-- A command that answers a question about the graph as it is. -/
lemma eq_of_bind_pure {α : Type} {x : Except Fault α} {f : α → Reply τ} {reply : Reply τ}
    (h : (x >>= fun a => pure (f a, s)) = .ok (reply, s')) : s' = s := by
  obtain ⟨a, -, h⟩ := bind_eq_ok_iff.1 h
  cases h
  rfl

/-- A command that is done by a function which gives a session. -/
lemma of_bind_session {Q : Session σ τ → Prop} {x : Except Fault (Session σ τ)} {r reply : Reply τ}
    (hx : ∀ s₁, x = .ok s₁ → Q s₁) (h : (x >>= fun s₁ => pure (r, s₁)) = .ok (reply, s')) :
    Q s' := by
  obtain ⟨s₁, h₁, h⟩ := bind_eq_ok_iff.1 h
  cases h
  exact hx _ h₁

/-- A command that is done by a function which gives an answer and a session. -/
lemma of_bind_answer {Q : Session σ τ → Prop} {α : Type} {x : Except Fault (α × Session σ τ)}
    {f : α × Session σ τ → Reply τ} {reply : Reply τ} (hx : ∀ a s₁, x = .ok (a, s₁) → Q s₁)
    (h : (x >>= fun p => pure (f p, p.2)) = .ok (reply, s')) : Q s' := by
  obtain ⟨⟨a, s₁⟩, h₁, h⟩ := bind_eq_ok_iff.1 h
  cases h
  exact hx a _ h₁

variable [QualifierLattice σ τ]

/-! ## Reporting what fails -/

lemma chats_foldl_reportViolation (numbers : List Nat) (count : Nat) (s : Session σ τ) :
    s.Chats (numbers.foldl reportViolation (count, s)).2 ∧
      (numbers.foldl reportViolation (count, s)).2.questions = s.questions := by
  induction numbers generalizing count s with
  | nil => exact ⟨.refl s, rfl⟩
  | cons number numbers ih =>
    have hstep : s.Chats (reportViolation (count, s) number).2 ∧
        (reportViolation (count, s) number).2.questions = s.questions := by
      unfold reportViolation
      simp only
      split
      · exact ⟨.refl s, rfl⟩
      · split
        · exact ⟨.refl s, rfl⟩
        · exact ⟨⟨_, _, _, rfl, Dialogue.speaks_report _ _ rfl trivial⟩, rfl⟩
    obtain ⟨hchats, hquestions⟩ := ih _ _
    exact ⟨hstep.1.trans hchats, hquestions.trans hstep.2⟩

lemma chats_reportViolations (s : Session σ τ) (sol : Solution) :
    s.Chats (s.reportViolations sol).2 :=
  (chats_foldl_reportViolation sol.violations 0 s).1

lemma questions_reportViolations (s : Session σ τ) (sol : Solution) :
    (s.reportViolations sol).2.questions = s.questions :=
  (chats_foldl_reportViolation sol.violations 0 s).2

omit [QualifierLattice σ τ] in
/-- What is reported stays reported, and what fails and exists is reported. -/
lemma mem_reported_foldl_reportViolation (numbers : List Nat) (tally : Tally σ τ) {number : Nat}
    (h : number ∈ tally.2.reported ∨
      number ∈ numbers ∧ tally.2.graph.effects.inclusions[number]? ≠ none) :
    number ∈ (numbers.foldl reportViolation tally).2.reported := by
  induction numbers generalizing tally with
  | nil => exact h.resolve_right fun h => absurd h.1 List.not_mem_nil
  | cons first numbers ih =>
    refine ih _ ?_
    unfold reportViolation
    dsimp only
    split
    · rename_i hreported
      rcases h with h | ⟨h, hexists⟩
      · exact Or.inl h
      · rcases List.mem_cons.1 h with rfl | h
        · exact Or.inl hreported
        · exact Or.inr ⟨h, hexists⟩
    · split
      · rename_i hnone
        rcases h with h | ⟨h, hexists⟩
        · exact Or.inl h
        · rcases List.mem_cons.1 h with rfl | h
          · exact absurd hnone hexists
          · exact Or.inr ⟨h, hexists⟩
      · rcases h with h | ⟨h, hexists⟩
        · exact Or.inl (List.mem_cons_of_mem _ h)
        · rcases List.mem_cons.1 h with rfl | h
          · exact Or.inl (List.mem_cons_self ..)
          · exact Or.inr ⟨h, hexists⟩

/-! ## Notices -/

lemma mentions_foldl_note {α : Type} (notice : α → Notice τ) (items : List α) (s : Session σ τ) :
    s.Mentions (items.foldl (fun s item => s.note (notice item)) s) := by
  induction items generalizing s with
  | nil => exact .refl s
  | cons item items ih => exact (mentions_note s _).trans (ih _)

lemma mentions_noteSolution (s : Session σ τ) (sol : Solution) : s.Mentions (s.noteSolution sol) :=
  ((mentions_note s _).trans (mentions_note _ _)).trans (mentions_note _ _)

/-! ## Membership questions -/

omit [QualifierLattice σ τ] in
/-- A question changes at most which answers are remembered. -/
lemma asks_eq_ok {sol : Solution} {location : Nat} {kind : Kind} {e : EffectId} {answer : Bool}
    (h : s.asks sol location kind e = .ok (answer, s')) :
    ∃ questions, s' = { s with questions } ∧
      (s.questions.Obeys sol.Answers → questions.Obeys sol.Answers) := by
  obtain ⟨root, -, h⟩ := bind_eq_ok_iff.1 h
  split at h
  · dsimp only at h
    split at h
    · cases h
      exact ⟨_, rfl, fun hanswers => hanswers.get? _⟩
    · cases h
      refine ⟨_, rfl, fun hanswers => (hanswers.get? _).insert ?_⟩
      exact sol.answers_touches location root kind
  · cases h
    exact ⟨s.questions, rfl, id⟩

lemma consults_asks {sol : Solution} {location : Nat} {kind : Kind} {e : EffectId} {answer : Bool}
    (h : s.asks sol location kind e = .ok (answer, s')) : s.Consults sol s' := by
  obtain ⟨questions, rfl, hanswers⟩ := asks_eq_ok h
  exact ⟨⟨_, _, _, rfl, .refl⟩, .refl, rfl, hanswers⟩

lemma consults_checkLocation {sol : Solution} {position : Position} {kind : Kind} {e : EffectId}
    {count count' location : Nat}
    (h : checkLocation sol position kind e (count, s) location = .ok (count', s')) :
    s.Consults sol s' := by
  obtain ⟨⟨found, s₁⟩, h₁, h⟩ := bind_eq_ok_iff.1 h
  dsimp only at h
  split at h
  · cases h
    exact (consults_asks h₁).trans (consults_report sol _ _ rfl rfl)
  · cases h
    exact consults_asks h₁

lemma consults_checkLocations {sol : Solution} {position : Position} {kind : Kind} {e : EffectId}
    {locations : List Nat} {count count' : Nat}
    (h : locations.foldlM (checkLocation sol position kind e) (count, s) = .ok (count', s')) :
    s.Consults sol s' := by
  induction locations generalizing count s with
  | nil =>
    cases h
    exact .refl sol _
  | cons location locations ih =>
    obtain ⟨⟨count₁, s₁⟩, h₁, h⟩ := bind_eq_ok_iff.1 h
    exact (consults_checkLocation h₁).trans (ih h)

lemma consults_checkShared {sol : Solution} {position : Position} {e : EffectId}
    {accesses : List Access} {last : Option Nat} {count count' : Nat}
    (h : checkShared sol position e accesses last (count, s) = .ok (count', s')) :
    s.Consults sol s' := by
  induction accesses generalizing last count s with
  | nil =>
    cases h
    exact .refl sol _
  | cons access accesses ih =>
    unfold checkShared at h
    split at h
    · exact ih h
    · obtain ⟨⟨found, s₁⟩, h₁, h⟩ := bind_eq_ok_iff.1 h
      dsimp only at h
      split at h
      · have hreport : s₁.Consults sol (s₁.report position (.shared access.kind access.location
            (s₁.graph.locations.nameOf access.location))) :=
          consults_report sol s₁ position rfl rfl
        exact ((consults_asks h₁).trans hreport).trans (ih h)
      · exact (consults_asks h₁).trans (ih h)

lemma consults_checkExclusion {sol : Solution} {x : Exclusion} {count count' : Nat}
    (h : checkExclusion sol (count, s) x = .ok (count', s')) : s.Consults sol s' := by
  unfold checkExclusion at h
  dsimp only at h
  split at h
  · obtain ⟨root, -, h⟩ := bind_eq_ok_iff.1 h
    exact consults_checkLocation h
  · obtain ⟨root, -, h⟩ := bind_eq_ok_iff.1 h
    exact consults_checkShared h
  · exact consults_checkLocations h
  · obtain ⟨root, -, h⟩ := bind_eq_ok_iff.1 h
    exact consults_checkLocations h

lemma consults_checkExclusions {sol : Solution} {exclusions : List Exclusion} {count count' : Nat}
    (h : exclusions.foldlM (checkExclusion sol) (count, s) = .ok (count', s')) :
    s.Consults sol s' := by
  induction exclusions generalizing count s with
  | nil =>
    cases h
    exact .refl sol _
  | cons x exclusions ih =>
    obtain ⟨⟨count₁, s₁⟩, h₁, h⟩ := bind_eq_ok_iff.1 h
    exact (consults_checkExclusion h₁).trans (ih h)

/-! ## What asking leaves alone -/

lemma foldl_demote_eq (sol : Solution) (sites : List UpdateSite) (s : Session σ τ) :
    ∃ flow, sites.foldl (demote sol) s = { s with flow } := by
  induction sites generalizing s with
  | nil => exact ⟨s.flow, rfl⟩
  | cons site sites ih =>
    obtain ⟨flow, hflow⟩ := ih (demote sol s site)
    exact ⟨flow, by rw [List.foldl_cons, hflow]; rfl⟩

/-- Demoting changes the linearities, the phase, and what is known about cells. -/
lemma demoteAll_eq (s : Session σ τ) (sol : Solution) :
    ∃ linearities flow, s.demoteAll sol = { s with linearities, flow, phase := .linearized } := by
  obtain ⟨flow, hflow⟩ := foldl_demote_eq sol _ { s with
    linearities := tabulate (s.graph.solveSupplies sol).values (updateSites s.graph)
    phase := .linearized }
  exact ⟨_, flow, hflow⟩

lemma Ask.graph_eq (h : Ask c s s') : s'.graph = s.graph := by
  cases h with
  | chat hchat =>
    obtain ⟨talk, questions, reported, rfl, -⟩ := hchat
    rfl
  | linearize =>
    rename_i sol _ _ _
    obtain ⟨linearities, flow, heq⟩ := s.demoteAll_eq sol
    rw [heq]
  | _ => rfl

lemma Asks.graph_eq (h : Asks c s s') : s'.graph = s.graph := by
  induction h with
  | refl => rfl
  | tail _ hmove ih => exact hmove.graph_eq.trans ih

/-- Once the graph is solved it stays solved. -/
lemma Ask.solution_eq (h : Ask c s s') {sol : Solution} (hsol : s.solution = some sol) :
    s'.solution = some sol := by
  cases h with
  | chat hchat =>
    obtain ⟨talk, questions, reported, rfl, -⟩ := hchat
    exact hsol
  | solve hnone => exact absurd (hsol.symm.trans hnone) (by simp)
  | linearize =>
    rename_i sol' _ _ _
    obtain ⟨linearities, flow, heq⟩ := s.demoteAll_eq sol'
    rw [heq]
    exact hsol
  | _ => exact hsol

/-- A closed graph is not opened again. -/
lemma Asks.solution_eq (h : Asks c s s') {sol : Solution} (hsol : s.solution = some sol) :
    s'.solution = some sol := by
  induction h with
  | refl => exact hsol
  | tail _ hmove ih => exact hmove.solution_eq ih

lemma Ask.phase_ne_opened (h : Ask c s s') (hs : s.phase ≠ .opened) : s'.phase ≠ .opened := by
  cases h with
  | chat hchat =>
    obtain ⟨talk, questions, reported, rfl, -⟩ := hchat
    exact hs
  | close hopened => exact absurd hopened hs
  | linearize =>
    rename_i sol _ _ _
    obtain ⟨linearities, flow, heq⟩ := s.demoteAll_eq sol
    rw [heq]
    simp
  | _ => exact hs

lemma Asks.phase_ne_opened (h : Asks c s s') (hs : s.phase ≠ .opened) : s'.phase ≠ .opened := by
  induction h with
  | refl => exact hs
  | tail _ hmove ih => exact hmove.phase_ne_opened ih

/-! ## The commands -/

lemma Mentions.asks (h : s.Mentions s') : Asks c s s' := by
  obtain ⟨talk, rfl, hspeaks⟩ := h
  have hchats : s.Chats (s.withTalk talk) :=
    ⟨talk, _, _, rfl, hspeaks.mono (fun _ => id) fun _ _ => trivial⟩
  exact .single (.chat hchats (Or.inl rfl) (Or.inl ⟨rfl, hspeaks⟩))

lemma asks_note (s : Session σ τ) (n : Notice τ) : Asks c s (s.note n) := (mentions_note s n).asks

lemma asks_consult {sol : Solution} (hsol : s.solution = some sol) (h : s.Consults sol s') :
    Asks c s s' :=
  .single (.chat h.chats (Or.inr ⟨sol, hsol, h⟩) (Or.inl ⟨h.reported_eq, h.speaks⟩))

lemma asks_reportViolations {sol : Solution} (hsol : s.solution = some sol) :
    Asks c s (s.reportViolations sol).2 :=
  .single (.chat (chats_reportViolations s sol) (Or.inl (questions_reportViolations s sol))
    (Or.inr ⟨sol, hsol, rfl⟩))

/-- Asking for the solution solves the graph, unless its solution is known; nothing else changes
but the dialogue and the types of merged cells. -/
lemma asks_solved {sol : Solution} (h : s.solved = .ok (sol, s')) :
    Asks c s s' ∧ s'.solution = some sol ∧ s'.phase = s.phase := by
  unfold solved at h
  split at h
  · rename_i sol' hsol
    cases h
    exact ⟨.refl, hsol, rfl⟩
  · rename_i hnone
    obtain ⟨_, hvalidate, h⟩ := bind_eq_ok_iff.1 h
    have hsolve : Asks c s _ :=
      (mentions_noteSolution s s.graph.solve).asks.tail (.solve hnone hvalidate)
    dsimp only at h
    split at h
    · cases h
      exact ⟨hsolve, rfl, rfl⟩
    · cases h
      refine ⟨hsolve.trans (asks_reportViolations rfl), ?_⟩
      obtain ⟨talk, questions, reported, heq, -⟩ := chats_reportViolations
        ({ s.noteSolution s.graph.solve with
          solution := some s.graph.solve
          flow := (s.noteSolution s.graph.solve).flow.rekey s.graph } : Session σ τ) s.graph.solve
      exact ⟨(congrArg Session.solution heq).trans rfl, (congrArg Session.phase heq).trans rfl⟩

lemma solved_eq_ok {sol : Solution} (h : s.solved = .ok (sol, s')) :
    s'.graph = s.graph ∧ s'.solution = some sol ∧ s'.phase = s.phase :=
  ⟨(asks_solved (c := .summary) h).1.graph_eq, (asks_solved (c := .summary) h).2⟩

/-- An inquiry that is not declined asks. -/
lemma Inquires.eq_or_asks {declined : Prop} (h : Inquires c declined s s') :
    s' = s ∨ Asks c s s' ∧ s'.phase ≠ .opened := by
  cases h with
  | declined => exact Or.inl rfl
  | asks hmentions hsolved hasks hphase =>
    exact Or.inr ⟨(hmentions.asks.trans (asks_solved hsolved).1).trans hasks, hphase⟩

lemma Inquires.imp {declined declined' : Prop} (h : Inquires c declined s s')
    (himp : declined → declined') : Inquires c declined' s s' := by
  cases h with
  | declined h => exact .declined (himp h)
  | asks hmentions hsolved hasks hphase => exact .asks hmentions hsolved hasks hphase

lemma Inquires.moves {declined : Prop} (h : Inquires c declined s s') : Moves P c s s' := by
  rcases h.eq_or_asks with rfl | hasks
  · exact Or.inl .refl
  · exact Or.inr hasks

lemma Moves.of_waits_or_inquires {declined : Prop}
    (h : (s.phase = .opened ∧ Builds P c s s') ∨ Inquires c declined s s') : Moves P c s s' :=
  h.elim (fun h => Or.inl h.2) Inquires.moves

/-- A question that is put at once to the solution of a graph which is no longer open. -/
lemma Inquires.of_solved {declined : Prop} {s₀ s₁ : Session σ τ} {sol : Solution}
    (hmentions : s.Mentions s₀) (hphase : s.phase ≠ .opened) (hsolved : s₀.solved = .ok (sol, s₁))
    (hasks : s₁.solution = some sol → Asks c s₁ s') : Inquires c declined s s' := by
  obtain ⟨hfirst, hsol, hphase₁⟩ := asks_solved (c := c) hsolved
  refine .asks hmentions hsolved (hasks hsol) ((hasks hsol).phase_ne_opened ?_)
  obtain ⟨talk, rfl, -⟩ := hmentions
  rw [hphase₁]
  exact hphase

/-- An exclusion waits while the graph is open, and is checked at once otherwise. -/
lemma exclude_eq_ok {x : Exclusion} (h : s.exclude x = .ok s') :
    (s.phase = .opened ∧
        s' = { s.note (.exclusionAdded x) with exclusions := s.exclusions ++ [x] }) ∨
      (s.phase ≠ .opened ∧ ∃ sol s₁ count, (s.note (.exclusionAdded x)).solved = .ok (sol, s₁) ∧
        checkExclusion sol (0, s₁) x = .ok (count, s')) := by
  unfold exclude at h
  dsimp only at h
  split at h
  case' h_1 =>
    obtain ⟨root, -, h⟩ := bind_eq_ok_iff.1 h
    split at h
    · cases h
  -- What is left past the guard is the same for all exclusions.
  all_goals
    split at h
    · rename_i hphase
      exact Or.inl ⟨hphase, (Except.ok.inj h).symm⟩
    · rename_i hphase
      obtain ⟨⟨sol, s₁⟩, hsolved, h⟩ := bind_eq_ok_iff.1 h
      obtain ⟨⟨count, s₂⟩, hcheck, h⟩ := bind_eq_ok_iff.1 h
      cases h
      exact Or.inr ⟨hphase, sol, s₁, count, hsolved, hcheck⟩

lemma exclude_inquires {x : Exclusion} (hx : P → x.Known s.graph) (h : s.exclude x = .ok s') :
    (s.phase = .opened ∧ Builds P c s s') ∨ Inquires c False s s' := by
  rcases exclude_eq_ok h with ⟨hphase, rfl⟩ | ⟨hphase, sol, s₁, count, hsolved, hcheck⟩
  · exact Or.inl ⟨hphase, (builds_note s (.exclusionAdded x)).tail (.exclude hx)⟩
  · exact Or.inr (.of_solved (mentions_note s _) hphase hsolved fun hsol =>
      asks_consult hsol (consults_checkExclusion hcheck))

lemma isAccessed_inquires {a : LocationId} {e : EffectId} {answer : Except Refusal Bool}
    (h : s.isAccessed a e = .ok (answer, s')) : Inquires c (Declined answer) s s' := by
  unfold isAccessed at h
  split at h
  · rename_i hrefuse
    cases h
    exact .declined (declined_of_refuseOpen hrefuse)
  · rename_i hrefuse
    obtain ⟨⟨sol, s₁⟩, hsolved, h⟩ := bind_eq_ok_iff.1 h
    obtain ⟨root, -, h⟩ := bind_eq_ok_iff.1 h
    obtain ⟨⟨b, s₂⟩, hasked, h⟩ := bind_eq_ok_iff.1 h
    cases h
    exact .of_solved (.refl s) (refuseOpen_eq_none_iff.1 hrefuse) hsolved fun hsol =>
      asks_consult hsol (consults_asks hasked)

lemma asks_settleDue {sol : Solution} (hsol : s.solution = some sol)
    (h : s.settleDue sol = .ok s') : Asks c s s' := by
  obtain ⟨requested, -, h⟩ := bind_eq_ok_iff.1 h
  cases h
  have hdischarge : Asks c s { s with requests := [] } :=
    .single (.discharge s.exclusions [])
  exact (hdischarge.tail (.settle _ hsol)).trans (asks_note _ _)

/-- Closing solves the graph, reports and checks what waits, and settles cells. -/
lemma close_eq_ok {answer : Except Refusal Nat} (h : s.close = .ok (answer, s'))
    (hphase : s.phase = .opened) :
    ∃ sol s₁ s₂ s₃ failures, s.solved = .ok (sol, s₁) ∧
      s₁.exclusions.foldlM (checkExclusion sol)
        (({ s₁ with exclusions := [] } : Session σ τ).reportViolations sol) = .ok (failures, s₂) ∧
      ({ s₂ with phase := .closed } : Session σ τ).settleDue sol = .ok s₃ ∧
      answer = .ok failures ∧
      s' = s₃.note (.exclusionsChecked s₁.exclusions.length failures) := by
  unfold close at h
  rw [hphase] at h
  obtain ⟨⟨sol, s₁⟩, hsolved, h⟩ := bind_eq_ok_iff.1 h
  obtain ⟨⟨failures, s₂⟩, hchecked, h⟩ := bind_eq_ok_iff.1 h
  obtain ⟨s₃, hsettled, h⟩ := bind_eq_ok_iff.1 h
  cases h
  exact ⟨sol, s₁, s₂, s₃, failures, hsolved, hchecked, hsettled, rfl, rfl⟩

lemma close_inquires {answer : Except Refusal Nat} (h : s.close = .ok (answer, s')) :
    Inquires .close (Declined answer) s s' ∧ s'.phase ≠ .opened := by
  by_cases hphase : s.phase = .opened
  · obtain ⟨sol, s₁, s₂, s₃, failures, hsolved, hchecked, hsettled, -, rfl⟩ := close_eq_ok h hphase
    obtain ⟨-, hsol, hphase₁⟩ := asks_solved (c := .close) hsolved
    have hdischarge : Asks .close s₁ { s₁ with exclusions := [] } :=
      .single (.discharge [] s₁.requests)
    have hreport : Asks .close _ _ :=
      asks_reportViolations (s := { s₁ with exclusions := [] }) hsol
    have hconsults := consults_checkExclusions hchecked
    have hchats := (chats_reportViolations _ sol).trans hconsults.chats
    -- What fails by the solution has been reported when the phase changes.
    have hreported : ∀ number ∈ sol.violations,
        s₁.graph.effects.inclusions[number]? ≠ none → number ∈ s₂.reported := by
      intro number hnumber hexists
      rw [hconsults.reported_eq]
      exact mem_reported_foldl_reportViolation sol.violations
        (0, ({ s₁ with exclusions := [] } : Session σ τ)) (Or.inr ⟨hnumber, hexists⟩)
    have hs₂ : s₂.phase = .opened ∧ s₂.solution = some sol ∧ s₂.graph = s₁.graph := by
      obtain ⟨talk, questions, reported, rfl, -⟩ := hchats
      exact ⟨hphase₁.trans hphase, hsol, rfl⟩
    have hclose : Ask .close s₂ { s₂ with phase := .closed } := by
      refine .close hs₂.1 rfl fun sol' hsol' => ?_
      obtain rfl : sol = sol' := Option.some.inj (hs₂.2.1.symm.trans hsol')
      rw [hs₂.2.2]
      exact hreported
    have hcheck := ((hdischarge.trans hreport).trans
      (asks_consult (hreport.solution_eq hsol) hconsults)).tail hclose
    have hsettle := (asks_settleDue (s := { s₂ with phase := .closed }) hs₂.2.1 hsettled).trans
      (asks_note (c := .close) s₃ (.exclusionsChecked s₁.exclusions.length failures))
    have hne := Asks.phase_ne_opened hsettle (by simp)
    exact ⟨.asks (.refl s) hsolved (hcheck.trans hsettle) hne, hne⟩
  · unfold close at h
    split at h
    · contradiction
    · cases h
      exact ⟨.declined ⟨_, rfl, nofun⟩, hphase⟩

lemma propagate_of_opened (hphase : s.phase = .opened) (direction : Direction) (x : StoreId)
    (a : LocationId) :
    s.propagate direction x a = .ok { s.note (.propagationAsked x a direction) with
      requests := s.requests ++ [⟨x, a, direction⟩] } := by
  unfold propagate
  dsimp only
  rw [show (s.note (.propagationAsked x a direction)).phase = .opened from hphase]
  rfl

lemma propagate_of_ne_opened (hphase : s.phase ≠ .opened) (direction : Direction) (x : StoreId)
    (a : LocationId) :
    s.propagate direction x a = (s.note (.propagationAsked x a direction)).solved >>= fun p =>
      p.2.findCell x a >>= fun c => pure (p.2.settle p.1 (p.2.seedsOf p.1 direction c)) := by
  unfold propagate
  dsimp only
  split
  · exact absurd ‹_› hphase
  · rfl

lemma propagate_inquires {direction : Direction} {x : StoreId} {a : LocationId}
    (hx : P → x.index < s.graph.stores.size) (ha : P → a.index < s.graph.locations.size)
    (h : s.propagate direction x a = .ok s') :
    (s.phase = .opened ∧ Builds P c s s') ∨ Inquires c False s s' := by
  by_cases hphase : s.phase = .opened
  · rw [propagate_of_opened hphase] at h
    cases h
    exact Or.inl ⟨hphase, (builds_note s (.propagationAsked x a direction)).tail
      (.request fun hP => ⟨ha hP, hx hP⟩)⟩
  · rw [propagate_of_ne_opened hphase] at h
    obtain ⟨⟨sol, s₁⟩, hsolved, h⟩ := bind_eq_ok_iff.1 h
    obtain ⟨cell, -, h⟩ := bind_eq_ok_iff.1 h
    cases h
    exact Or.inr (.of_solved (mentions_note s _) hphase hsolved fun hsol =>
      .single (.settle (s₁.seedsOf sol direction cell) hsol))

lemma asks_readCell {sol : Solution} (hsol : s.solution = some sol) (cell : Cell) :
    Asks c s (s.readCell sol cell).2 ∧ (s.readCell sol cell).2.solution = some sol :=
  ⟨.head (.settle [cell] hsol) (.single (.read cell hsol)), hsol⟩

lemma domain_inquires {x : StoreId} {answer : Except Refusal (List LocationId)}
    (h : s.domain x = .ok (answer, s')) : Inquires c (Declined answer) s s' := by
  unfold domain at h
  split at h
  · rename_i hrefuse
    cases h
    exact .declined (declined_of_refuseOpen hrefuse)
  · rename_i hrefuse
    obtain ⟨⟨sol, s₁⟩, hsolved, h⟩ := bind_eq_ok_iff.1 h
    obtain ⟨root, -, h⟩ := bind_eq_ok_iff.1 h
    cases h
    exact .of_solved (.refl s) (refuseOpen_eq_none_iff.1 hrefuse) hsolved fun _ => .refl

lemma typeAt_inquires {x : StoreId} {a : LocationId} {answer : Except Refusal (Option τ)}
    (h : s.typeAt x a = .ok (answer, s')) : Inquires c (Declined answer) s s' := by
  unfold typeAt at h
  split at h
  · rename_i hrefuse
    cases h
    exact .declined (declined_of_refuseUnlinearized hrefuse)
  · rename_i hrefuse
    obtain ⟨⟨sol, s₁⟩, hsolved, h⟩ := bind_eq_ok_iff.1 h
    obtain ⟨cell, -, h⟩ := bind_eq_ok_iff.1 h
    cases h
    have hphase : s.phase ≠ .opened := by simp [refuseUnlinearized_eq_none hrefuse]
    exact .of_solved (.refl s) hphase hsolved fun hsol => (asks_readCell hsol cell).1

lemma asks_printCellsAt {sol : Solution} {style : CellStyle} {store : Nat} {locations : List Nat}
    {out out' : Output} (hsol : s.solution = some sol)
    (h : printCellsAt sol style store locations out s = .ok (out', s')) : Asks c s s' := by
  induction locations generalizing out s with
  | nil =>
    cases h
    exact .refl
  | cons location locations ih =>
    unfold printCellsAt at h
    obtain ⟨hread, hsol'⟩ := asks_readCell (c := c) hsol ⟨store, location⟩
    split at h
    · cases h
      exact .refl
    · split at h
      · rename_i s₁ hcell
        rw [hcell] at hread hsol'
        exact hread.trans (ih hsol' h)
      · rename_i type s₁ hcell
        rw [hcell] at hread hsol'
        obtain ⟨out₁, -, h⟩ := bind_eq_ok_iff.1 h
        exact hread.trans (ih hsol' h)

lemma printCells_inquires {style : CellStyle} {x : StoreId} {limit : Option Nat}
    {answer : Except Refusal Output} (h : s.printCells style x limit = .ok (answer, s')) :
    Inquires c (Declined answer) s s' := by
  unfold printCells at h
  split at h
  · rename_i hrefuse
    cases h
    exact .declined (declined_of_refuseOpen hrefuse)
  · rename_i hrefuse
    obtain ⟨⟨sol, s₁⟩, hsolved, h⟩ := bind_eq_ok_iff.1 h
    obtain ⟨root, -, h⟩ := bind_eq_ok_iff.1 h
    obtain ⟨⟨out, s₂⟩, hprint, h⟩ := bind_eq_ok_iff.1 h
    cases h
    exact .of_solved (.refl s) (refuseOpen_eq_none_iff.1 hrefuse) hsolved fun hsol =>
      asks_printCellsAt hsol hprint

/-- Linearizing is declined unless the graph is closed and not yet linearized.  Otherwise it asks
for the solution, writes to the log what it finds, and demotes the strong updates that need it. -/
lemma linearize_eq_ok {answer : Except Refusal Unit} (h : s.linearize = .ok (answer, s')) :
    (Declined answer ∧ s' = s) ∨
      (answer = .ok () ∧ s.phase = .closed ∧
        ∃ sol s₁ s₂, s.solved = .ok (sol, s₁) ∧ s₁.Mentions s₂ ∧ s' = s₂.demoteAll sol) := by
  unfold linearize at h
  split at h
  · cases h
    exact Or.inl ⟨⟨_, rfl, nofun⟩, rfl⟩
  · cases h
    exact Or.inl ⟨⟨_, rfl, nofun⟩, rfl⟩
  · rename_i hphase
    obtain ⟨⟨sol, s₁⟩, hsolved, h⟩ := bind_eq_ok_iff.1 h
    dsimp only at h
    have hmentions := mentions_foldl_note (fun site : UpdateSite =>
      .linearityFound site.store site.location
        (linearityOf (s₁.graph.solveSupplies sol).values site)) (updateSites s₁.graph) s₁
    generalize List.foldl _ s₁ (updateSites s₁.graph) = noted at h hmentions
    generalize @Notice.linearitiesFound τ _ _ = n at h
    obtain ⟨talk, heq, hspeaks⟩ := hmentions.trans (mentions_note noted n)
    obtain ⟨hanswer, hs'⟩ := Prod.mk.inj (Except.ok.inj h)
    refine Or.inr ⟨hanswer.symm, hphase, sol, s₁, _, hsolved, ⟨talk, rfl, hspeaks⟩, ?_⟩
    rw [← hs', heq]
    rfl

lemma demotes_of_linearize (h : s.linearize = .ok (.ok (), s')) :
    s.phase = .closed ∧
      ∃ sol s₁ s₂, s.solved = .ok (sol, s₁) ∧ s₁.Mentions s₂ ∧ s' = s₂.demoteAll sol := by
  rcases linearize_eq_ok h with ⟨⟨_, hrefused, -⟩, -⟩ | ⟨-, hdemotes⟩
  · cases hrefused
  · exact hdemotes

lemma linearize_inquires {answer : Except Refusal Unit} (h : s.linearize = .ok (answer, s')) :
    Inquires .linearize (Declined answer) s s' := by
  rcases linearize_eq_ok h with ⟨hdeclined, rfl⟩ |
    ⟨-, hphase, sol, s₁, s₂, hsolved, hmentions, rfl⟩
  · exact .declined hdeclined
  · have hphase₁ := (asks_solved (c := .linearize) hsolved).2.2.trans hphase
    refine .of_solved (.refl s) (by simp [hphase]) hsolved fun hsol => hmentions.asks.tail ?_
    obtain ⟨talk, rfl, -⟩ := hmentions
    exact .linearize hphase₁ hsol rfl

/-! ## Every command -/

lemma perform_eq_ok_of_exec {reply : Reply τ} (h : s.exec c = .ok (reply, s')) :
    s.perform c = .ok (reply, s') := by
  obtain ⟨⟨reply₁, s₁⟩, hperform, h⟩ := bind_eq_ok_iff.1 h
  dsimp only at h
  split at h
  · cases h
  · cases h
    exact hperform

/-- The commands that put questions to the solution of the graph. -/
def Inquiring : Command τ → Prop
  | .exclude _ | .isAccessed .. | .close | .propagate .. | .domain _ | .typeAt .. | .linearize
  | .printCells .. => True
  | _ => False

instance : DecidablePred (Inquiring : Command τ → Prop) := fun c => by
  cases c <;> unfold Inquiring <;> infer_instance

/-- A command that puts no question and does not let the graph grow leaves the session as it is, or
changes who is told of diagnostics. -/
lemma exec_builds_of_not_grows {reply : Reply τ} (hgrows : c.grows = false) (hc : ¬Inquiring c)
    (h : s.exec c = .ok (reply, s')) : Builds P c s s' := by
  have hperform := perform_eq_ok_of_exec h
  clear h
  cases c with
  | linearityAt x a =>
    exact of_bind_answer (fun _ _ h => eq_of_linearityAt h ▸ .refl) hperform
  | takeErrors =>
    cases hperform
    exact builds_speak (.single .clear)
  | setReceiver receiver =>
    cases hperform
    exact builds_speak (.single (.receive receiver))
  | locationName a => exact eq_of_bind_pure hperform ▸ .refl
  | locationClass a => exact eq_of_bind_pure hperform ▸ .refl
  | heldType a => exact eq_of_bind_pure hperform ▸ .refl
  | isMarked a => exact eq_of_bind_pure hperform ▸ .refl
  | sameLocation a b => exact eq_of_bind_pure hperform ▸ .refl
  | locationOfAtom e => exact eq_of_bind_pure hperform ▸ .refl
  | knownEqual e₁ e₂ => exact eq_of_bind_pure hperform ▸ .refl
  | sameStore x y => exact eq_of_bind_pure hperform ▸ .refl
  | printLocation a limit => exact eq_of_bind_pure hperform ▸ .refl
  | printEffect e limit => exact eq_of_bind_pure hperform ▸ .refl
  | printStore x limit => exact eq_of_bind_pure hperform ▸ .refl
  | printStoreRaw x limit => exact eq_of_bind_pure hperform ▸ .refl
  | draw style roots => exact eq_of_bind_pure hperform ▸ .refl
  | emptyEffect => cases hperform; exact .refl
  | phase => cases hperform; exact .refl
  | config => cases hperform; exact .refl
  | summary => cases hperform; exact .refl
  | errors => cases hperform; exact .refl
  | errorCount => cases hperform; exact .refl
  | exclude | isAccessed | close | propagate | domain | typeAt | linearize | printCells =>
    exact absurd trivial hc
  | _ => cases hgrows

/-- A command that lets the graph grow builds. -/
lemma exec_builds_of_grows {reply : Reply τ} (hs : s.graph.Sound) (hP : P → c.Known s.graph)
    (hgrows : c.grows = true) (h : s.exec c = .ok (reply, s')) : Builds P c s s' := by
  have hperform := perform_eq_ok_of_exec h
  -- One lemma for each command that makes the graph grow. What exists is needed only where the
  -- command makes a store from it.
  clear h
  cases c with
  | makeLocation name holds =>
    cases hperform
    exact builds_makeLocation hs name holds
  | markLocation a =>
    exact of_bind_session (fun _ h => builds_markLocation hs h) hperform
  | mergeLocations position a b =>
    exact of_bind_session (fun _ h => builds_mergeLocations hs h) hperform
  | atom kind a =>
    exact of_bind_answer (fun _ _ h => builds_atom hs h) hperform
  | effectVariable name =>
    cases hperform
    exact builds_effectVariable hs rfl name
  | freshEffect =>
    cases hperform
    exact builds_freshEffect hs rfl
  | union e₁ e₂ =>
    exact of_bind_answer (fun _ _ h => builds_union hs h) hperform
  | inter e₁ e₂ =>
    exact of_bind_answer (fun _ _ h => builds_inter hs h) hperform
  | markEffect e =>
    exact of_bind_session (fun _ h => builds_markEffect hs h) hperform
  | includeEffect position e₁ e₂ =>
    exact of_bind_session (fun _ h => builds_includeEffect hs rfl h) hperform
  | equateEffects position e₁ e₂ =>
    exact of_bind_session (fun _ h => builds_equateEffects hs h) hperform
  | mergeEffects e₁ e₂ =>
    exact of_bind_session (fun _ h => builds_mergeEffects hs h) hperform
  | storeVariable position name =>
    cases hperform
    exact builds_storeVariable hs rfl position name
  | restrict position base e =>
    cases hperform
    exact builds_restrict hs position
      (fun p => (hP p).store_lt base (by simp [Command.stores]))
      fun p => (hP p).effect_lt e (by simp [Command.effects])
  | allocate position base a =>
    exact of_bind_answer (fun _ _ h => (builds_allocate hs rfl
      (fun p => (hP p).store_lt base (by simp [Command.stores]))
      (Or.inl (by simp [Command.operands])) h).1) hperform
  | allocateAll position base e =>
    exact of_bind_answer (fun _ _ h => builds_allocateAll hs
      (fun p => (hP p).store_lt base (by simp [Command.stores])) h) hperform
  | overlay position inside outside e =>
    cases hperform
    exact builds_overlay hs position
      (fun p => (hP p).store_lt inside (by simp [Command.stores]))
      (fun p => (hP p).store_lt outside (by simp [Command.stores]))
      fun p => (hP p).effect_lt e (by simp [Command.effects])
  | update position message base a type strong =>
    cases hperform
    exact builds_update hs position message type strong
      (fun p => (hP p).store_lt base (by simp [Command.stores]))
      fun p => (hP p).location_lt a (by simp [Command.locations])
  | joinStores position message x y =>
    exact of_bind_answer (fun _ _ h => builds_joinStores hs h) hperform
  | includeStore position message left right =>
    exact of_bind_session (fun _ h => builds_includeStore hs rfl h) hperform
  | equateStores position message x y =>
    exact of_bind_session (fun _ h => builds_equateStores hs h) hperform
  | mergeStores position message x y =>
    exact of_bind_session (fun _ h => builds_mergeStores hs h) hperform
  | _ => cases hgrows

/-- Every command that puts no question builds, if it changes anything at all. -/
theorem exec_builds {reply : Reply τ} (hs : s.graph.Sound) (hP : P → c.Known s.graph)
    (hc : ¬Inquiring c) (h : s.exec c = .ok (reply, s')) : Builds P c s s' := by
  cases hgrows : c.grows with
  | false => exact exec_builds_of_not_grows hgrows hc h
  | true => exact exec_builds_of_grows hs hP hgrows h

/-- The reply declines a command because of the phase. -/
def Refuses (reply : Reply τ) : Prop := ∃ r text, reply = .refused r text ∧ r ≠ .outputFull

lemma inquires_of_answer {α : Type} {x : Except Fault (Answer σ τ α)} {f : α → Reply τ}
    {reply : Reply τ}
    (hx : ∀ answer s₁, x = .ok (answer, s₁) → Inquires c (Declined answer) s s₁)
    (h : (x >>= fun p => pure (Reply.ofExcept f p.1, p.2)) = .ok (reply, s')) :
    Inquires c (Refuses reply) s s' := by
  obtain ⟨⟨answer, s₁⟩, h₁, h⟩ := bind_eq_ok_iff.1 h
  cases h
  refine (hx answer _ h₁).imp ?_
  rintro ⟨r, rfl, hr⟩
  exact ⟨r, _, rfl, hr⟩

/-- A command that puts a question waits while the graph is open, or is declined because of the
phase, or asks for the solution. -/
theorem exec_inquires {reply : Reply τ} (hP : P → c.Known s.graph) (hc : Inquiring c)
    (h : s.exec c = .ok (reply, s')) :
    (s.phase = .opened ∧ Builds P c s s') ∨ Inquires c (Refuses reply) s s' := by
  have hperform := perform_eq_ok_of_exec h
  cases c with
  | exclude x =>
    refine (of_bind_session (fun _ h => exclude_inquires ?_ h) hperform).imp_right
      fun h => h.imp False.elim
    exact fun p => ⟨(hP p).location_lt, (hP p).effect_lt⟩
  | propagate direction x a =>
    refine (of_bind_session (fun _ h => propagate_inquires ?_ ?_ h) hperform).imp_right
      fun h => h.imp False.elim
    · exact fun p => (hP p).store_lt x (by simp [Command.stores])
    · exact fun p => (hP p).location_lt a (by simp [Command.locations])
  | isAccessed a e =>
    exact Or.inr (inquires_of_answer (fun _ _ h => isAccessed_inquires h) hperform)
  | close => exact Or.inr (inquires_of_answer (fun _ _ h => (close_inquires h).1) hperform)
  | domain x => exact Or.inr (inquires_of_answer (fun _ _ h => domain_inquires h) hperform)
  | typeAt x a => exact Or.inr (inquires_of_answer (fun _ _ h => typeAt_inquires h) hperform)
  | linearize => exact Or.inr (inquires_of_answer (fun _ _ h => linearize_inquires h) hperform)
  | printCells style x limit =>
    exact Or.inr (inquires_of_answer (fun _ _ h => printCells_inquires h) hperform)
  | _ => exact hc.elim

/-- A command builds or asks, and a session in which something was asked is no longer open. -/
theorem exec_moves {reply : Reply τ} (hs : s.graph.Sound) (hP : P → c.Known s.graph)
    (h : s.exec c = .ok (reply, s')) : Moves P c s s' := by
  by_cases hc : Inquiring c
  · exact .of_waits_or_inquires (exec_inquires hP hc h)
  · exact Or.inl (exec_builds hs hP hc h)

theorem exec_edits {reply : Reply τ} (hs : s.graph.Sound) (hP : P → c.Known s.graph)
    (h : s.exec c = .ok (reply, s')) : Graph.Edits P c s.graph s'.graph := by
  rcases exec_moves hs hP h with hbuilds | ⟨hasks, -⟩
  · exact hbuilds.edits
  · rw [hasks.graph_eq]

end Session

end HeapQual
