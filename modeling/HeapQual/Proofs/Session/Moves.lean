import HeapQual.Proofs.Cache
import HeapQual.Proofs.Edits
import HeapQual.Proofs.Session.Runs
import HeapQual.Proofs.Speech

/-!
# What a command can do

Every command that is carried out either *builds* or *asks* (`Session.exec_moves`).

Building (`Session.Build`) lets the graph grow, which forgets the solution, or changes what the
solution does not show; it makes types, merges the types that locations hold, and lets exclusions
and requests wait.  It never touches what is known about cells.

Asking (`Session.Ask`) leaves the graph alone.  It solves the graph if that was not done since the
graph has grown, reports, settles cells, reads their types, and moves on to later phases.  Of
membership questions it remembers only what the solution says, and it reports only inclusions that
fail by the solution.  A session that asked anything is no longer open.

Both are sequences of a few primitive moves, so an invariant of sessions is shown by looking at each
move once.  The moves know the command that they are made for: which entries it may merge, whether
it may close or linearize the session.
-/

namespace HeapQual

open Relation (ReflTransGen)

/-! ## Waiting exclusions and requests -/

variable {σ τ : Type}

/-- Everything that an exclusion names exists. -/
structure Exclusion.Known (g : Graph τ) (x : Exclusion) : Prop where
  location_lt : ∀ a ∈ x.restriction.locations, a.index < g.locations.size
  effect_lt : ∀ e ∈ x.restriction.effects, e.index < g.effects.size

/-- Everything that a request names exists. -/
structure Request.Known (g : Graph τ) (r : Request) : Prop where
  location_lt : r.location.index < g.locations.size
  store_lt : r.store.index < g.stores.size

lemma Exclusion.Known.extend {g g' : Graph τ} {x : Exclusion} (h : x.Known g) (hg : g.Extends g') :
    x.Known g' :=
  ⟨fun a ha => (h.location_lt a ha).trans_le hg.size_locations,
    fun e he => (h.effect_lt e he).trans_le hg.size_effects⟩

lemma Request.Known.extend {g g' : Graph τ} {r : Request} (h : r.Known g) (hg : g.Extends g') :
    r.Known g' :=
  ⟨h.location_lt.trans_le hg.size_locations, h.store_lt.trans_le hg.size_stores⟩

/-- The command gives this reason to tell the lattice something: it merges locations. -/
def Command.Occasions (c : Command τ) (reason : Reason) : Prop :=
  reason = .locations ∧ c.mergedLocations ≠ []

namespace Session

variable [QualifierLattice σ τ] {c : Command τ} {s s' s'' : Session σ τ}

/-! ## Building -/

/-- One move in building a graph for a command.  If the condition holds, expressions, exclusions and
requests are about what exists. -/
inductive Build (P : Prop) (c : Command τ) : Session σ τ → Session σ τ → Prop
  | speak {s : Session σ τ} {talk : Dialogue σ τ} :
      s.talk.Speaks c.Occasions Cause.Discreet talk → Build P c s (s.withTalk talk)
  /-- The graph changes in a way that its solution does not show. -/
  | tweak {s : Session σ τ} {graph : Graph τ} :
      s.graph.Grows P graph → s.graph.Tweaks graph → s.graph.Edit P c graph → c.grows = true →
      Build P c s { s with graph }
  | grow {s : Session σ τ} {graph : Graph τ} :
      s.graph.Grows P graph → s.graph.Edit P c graph → c.grows = true →
      Build P c s ({ s with graph } : Session σ τ).forget
  | remember {s : Session σ τ} {recipes : Cache Effects.Recipe EffectId} : c.remembers = true →
      Build P c s { s with recipes }
  | exclude {s : Session σ τ} {x : Exclusion} :
      (P → x.Known s.graph) → Build P c s { s with exclusions := s.exclusions ++ [x] }
  | request {s : Session σ τ} {r : Request} :
      (P → r.Known s.graph) → Build P c s { s with requests := s.requests ++ [r] }

/-- A sequence of building moves. -/
abbrev Builds (P : Prop) (c : Command τ) : Session σ τ → Session σ τ → Prop :=
  ReflTransGen (Build P c)

/-! ## Asking -/

/-- Something is noted, reported or looked up, but the lattice is told nothing. -/
def Chats (s s' : Session σ τ) : Prop :=
  ∃ talk questions reported, s' = { s.withTalk talk with questions, reported } ∧
    s.talk.Speaks (fun _ => False) (fun _ => True) talk

lemma Chats.refl (s : Session σ τ) : s.Chats s :=
  ⟨s.talk, s.questions, s.reported, rfl, .refl⟩

lemma Chats.trans (h : s.Chats s') (h' : s'.Chats s'') : s.Chats s'' := by
  obtain ⟨talk, questions, reported, rfl, hspeaks⟩ := h
  obtain ⟨talk', questions', reported', rfl, hspeaks'⟩ := h'
  exact ⟨talk', questions', reported', rfl, hspeaks.trans hspeaks'⟩

lemma Chats.graph_eq (h : s.Chats s') : s'.graph = s.graph := by
  obtain ⟨talk, questions, reported, rfl, -⟩ := h
  rfl

lemma Chats.phase_eq (h : s.Chats s') : s'.phase = s.phase := by
  obtain ⟨talk, questions, reported, rfl, -⟩ := h
  rfl

lemma Chats.linearities_eq (h : s.Chats s') : s'.linearities = s.linearities := by
  obtain ⟨talk, questions, reported, rfl, -⟩ := h
  rfl

lemma Chats.settled_eq (h : s.Chats s') : s'.flow.settled = s.flow.settled := by
  obtain ⟨talk, questions, reported, rfl, -⟩ := h
  rfl

/-- Something is noted, or reported that is about no inclusion. -/
def Mentions (s s' : Session σ τ) : Prop :=
  ∃ talk, s' = s.withTalk talk ∧ s.talk.Speaks (fun _ => False) Cause.Discreet talk

lemma Mentions.refl (s : Session σ τ) : s.Mentions s := ⟨s.talk, rfl, .refl⟩

lemma Mentions.trans (h : s.Mentions s') (h' : s'.Mentions s'') : s.Mentions s'' := by
  obtain ⟨talk, rfl, hspeaks⟩ := h
  obtain ⟨talk', rfl, hspeaks'⟩ := h'
  exact ⟨talk', rfl, hspeaks.trans hspeaks'⟩

lemma Mentions.graph_eq (h : s.Mentions s') : s'.graph = s.graph := by
  obtain ⟨talk, rfl, -⟩ := h
  rfl

lemma mentions_note (s : Session σ τ) (n : Notice τ) : s.Mentions (s.note n) :=
  ⟨_, rfl, Dialogue.speaks_note _ n⟩

/-- The lattice is told nothing, no inclusion is reported, and the answers that are remembered stay
those of the solution. -/
structure Consults (sol : Solution) (s s' : Session σ τ) : Prop where
  chats : s.Chats s'
  speaks : s.talk.Speaks (fun _ => False) Cause.Discreet s'.talk
  reported_eq : s'.reported = s.reported
  answers : s.questions.Obeys sol.Answers → s'.questions.Obeys sol.Answers

lemma Consults.refl (sol : Solution) (s : Session σ τ) : s.Consults sol s :=
  ⟨.refl s, .refl, rfl, id⟩

lemma Consults.trans {sol : Solution} (h : s.Consults sol s') (h' : s'.Consults sol s'') :
    s.Consults sol s'' :=
  ⟨h.chats.trans h'.chats, h.speaks.trans h'.speaks, h'.reported_eq.trans h.reported_eq,
    h'.answers ∘ h.answers⟩

lemma Mentions.consults (h : s.Mentions s') (sol : Solution) : s.Consults sol s' := by
  obtain ⟨talk, rfl, hspeaks⟩ := h
  exact ⟨⟨talk, _, _, rfl, hspeaks.mono (fun _ => id) fun _ _ => trivial⟩, hspeaks, rfl, id⟩

lemma consults_report (sol : Solution) (s : Session σ τ) (position : Position) {cause : Cause}
    (hmark : cause.mark? = none) (hcause : cause.Discreet) :
    s.Consults sol (s.report position cause) :=
  Mentions.consults ⟨_, rfl, Dialogue.speaks_report _ position hmark hcause⟩ sol

/-- The answers that are remembered change only when questions are put to the solution held. -/
def Learns (s s' : Session σ τ) : Prop :=
  s'.questions = s.questions ∨ ∃ sol, s.solution = some sol ∧ s.Consults sol s'

/-- No inclusion is reported, or those that fail by the solution held. -/
def Discloses (s s' : Session σ τ) : Prop :=
  (s'.reported = s.reported ∧ s.talk.Speaks (fun _ => False) Cause.Discreet s'.talk) ∨
    ∃ sol, s.solution = some sol ∧ s' = (s.reportViolations sol).2

/-- Record the linearities found, and demote the strong updates that need it. -/
def demoteAll (s : Session σ τ) (sol : Solution) : Session σ τ :=
  let found := (s.graph.solveSupplies sol).values
  let sites := updateSites s.graph
  (sites.filter (isDemoted found)).foldl (demote sol)
    { s with linearities := tabulate found sites, phase := .linearized }

/-- One move in asking about a graph for a command. -/
inductive Ask (c : Command τ) : Session σ τ → Session σ τ → Prop
  | chat {s s' : Session σ τ} : s.Chats s' → s.Learns s' → s.Discloses s' → Ask c s s'
  | solve {s : Session σ τ} : s.solution = none → s.graph.validate = .ok () →
      Ask c s { s with solution := some s.graph.solve, flow := s.flow.rekey s.graph }
  | discharge {s : Session σ τ} (exclusions : List Exclusion) (requests : List Request) :
      Ask c s { s with exclusions, requests }
  /-- The graph is closed, after what fails was reported. -/
  | close {s : Session σ τ} : s.phase = .opened → c = .close →
      (∀ sol, s.solution = some sol → ∀ number ∈ sol.violations,
        s.graph.effects.inclusions[number]? ≠ none → number ∈ s.reported) →
      Ask c s { s with phase := .closed }
  | settle {s : Session σ τ} {sol : Solution} (seeds : List Cell) :
      s.solution = some sol → Ask c s (s.settle sol seeds)
  | read {s : Session σ τ} {sol : Solution} (cell : Cell) :
      s.solution = some sol → Ask c s { s with flow := (s.flow.read (s.view sol) cell).2 }
  | linearize {s : Session σ τ} {sol : Solution} :
      s.phase = .closed → s.solution = some sol → c = .linearize → Ask c s (s.demoteAll sol)

/-- A sequence of asking moves. -/
abbrev Asks (c : Command τ) : Session σ τ → Session σ τ → Prop := ReflTransGen (Ask c)

/-! ## Either of them -/

/-- What a command can do: it builds, or it asks, and then the session is no longer open. -/
def Moves (P : Prop) (c : Command τ) (s s' : Session σ τ) : Prop :=
  Builds P c s s' ∨ Asks c s s' ∧ s'.phase ≠ .opened

/-- What a command can do that puts a question: it is declined because of the phase, or it asks for
the solution and goes on from there. -/
inductive Inquires (c : Command τ) (declined : Prop) (s : Session σ τ) : Session σ τ → Prop
  | declined : declined → Inquires c declined s s
  | asks {s₀ s₁ s' : Session σ τ} {sol : Solution} : s.Mentions s₀ → s₀.solved = .ok (sol, s₁) →
      Asks c s₁ s' → s'.phase ≠ .opened → Inquires c declined s s'

end Session

end HeapQual
