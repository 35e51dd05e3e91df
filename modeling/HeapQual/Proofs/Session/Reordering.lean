import HeapQual.Lattice.Level
import HeapQual.Proofs.Session.Agreeing
import HeapQual.Proofs.Session.Inclusions

/-!
# The order of constraints does not matter

While a session is open, constraints on effects and locations change its graph and nothing else but
the dialogue (`Session.Gains`).  What a constraint is split into, and which root survives a merge,
depends on what was merged before it.  What it asks for does not: the pairs that it merges and the
pieces of its inclusions are given by the expressions, which constraints leave as they are.  So the
graph after a list of constraints is the one that all of them together ask for
(`Session.gains_performAll`), and that is the same for every order of the list.

Hence membership questions get the same answers, and the session is closed with the same count
(`Session.constraint_order_irrelevant`).
-/

namespace HeapQual

variable {σ τ : Type}

/-! ## What constraints ask for -/

namespace Command

/-- Is the command a constraint on effects or locations? -/
def constrains : Command τ → Bool
  | includeEffect .. | equateEffects .. | mergeEffects .. | mergeLocations .. => true
  | _ => false

/-- The pieces of the inclusions that a constraint asks for. -/
def askedPieces (t : Effects) : Command τ → List Inclusion
  | includeEffect position e₁ e₂ => t.pieces position e₁ e₂
  | equateEffects position e₁ e₂ => t.pieces position e₁ e₂ ++ t.pieces position e₂ e₁
  | _ => []

/-- The inclusion names what exists, or is trivial. -/
def Includable (g : Graph τ) (e₁ e₂ : EffectId) : Prop :=
  e₁.isEmpty = false → e₁.index < g.effects.size ∧ e₂.index < g.effects.size

/-- The effect is a variable of the graph. -/
def Mergeable (g : Graph τ) (e : EffectId) : Prop :=
  e.index < g.effects.size ∧ (g.effects.nodeAt e.index).isVariable = true

/-- The constraint names what exists, and merges no effects but variables. -/
def Admissible (g : Graph τ) : Command τ → Prop
  | includeEffect _ e₁ e₂ => Includable g e₁ e₂
  | equateEffects _ e₁ e₂ => Includable g e₁ e₂ ∧ Includable g e₂ e₁
  | mergeEffects e₁ e₂ => Mergeable g e₁ ∧ Mergeable g e₂
  | mergeLocations _ a b => a.index < g.locations.size ∧ b.index < g.locations.size
  | _ => False

variable {g g' : Graph τ} {merged united : List (Nat × Nat)} {asked : List Inclusion}

/-- Constraints make no other constraint admissible, or inadmissible. -/
lemma admissible_iff (h : Graph.Constrained merged united asked g g') (c : Command τ) :
    c.Admissible g' ↔ c.Admissible g := by
  cases c <;>
    simp only [Admissible, Includable, Mergeable, Effects.size, Effects.nodeAt, h.nodes_eq,
      h.size_eq]

/-- What a constraint asks for does not depend on other constraints. -/
lemma askedPieces_eq (h : Graph.Constrained merged united asked g g') (c : Command τ) :
    c.askedPieces g'.effects = c.askedPieces g.effects := by
  cases c <;> simp only [askedPieces, Effects.pieces_congr h.nodes_eq]

end Command

namespace Session

variable {s s' s'' t : Session σ τ} {merged merged' united united' : List (Nat × Nat)}
  {asked asked' : List Inclusion}

/-- The graph of the second session comes of these constraints on the graph of the first, and apart
from the dialogue nothing else differs. -/
def Gains (merged united : List (Nat × Nat)) (asked : List Inclusion) (s s' : Session σ τ) : Prop :=
  ∃ graph talk, s' = { s with graph, flow := { s.flow with talk } } ∧
    Graph.Constrained merged united asked s.graph graph

namespace Gains

lemma refl (hs : s.graph.Sound) : Gains [] [] [] s s := ⟨s.graph, s.talk, rfl, .refl hs⟩

lemma trans (h : Gains merged united asked s s') (h' : Gains merged' united' asked' s' s'') :
    Gains (merged ++ merged') (united ++ united') (asked ++ asked') s s'' := by
  obtain ⟨graph, talk, rfl, hgraph⟩ := h
  obtain ⟨graph', talk', rfl, hgraph'⟩ := h'
  exact ⟨graph', talk', rfl, hgraph.trans hgraph'⟩

variable (h : Gains merged united asked s s')

include h

lemma constrained : Graph.Constrained merged united asked s.graph s'.graph := by
  obtain ⟨graph, talk, rfl, hgraph⟩ := h
  exact hgraph

lemma solution_eq : s'.solution = s.solution := by
  obtain ⟨graph, talk, rfl, -⟩ := h
  rfl

end Gains

/-! ## Single constraints -/

section Step

variable (hs : s.solution = none) (hg : s.graph.Sound) {position : Position}

include hs hg

omit hg in
lemma includeSteps_eq (position : Position) (steps : List Effects.SplitStep) :
    ∃ inclusions talk, steps.foldl (includeStep position) s =
      { s with
        graph := { s.graph with effects := { s.graph.effects with inclusions } },
        flow := { s.flow with talk } } := by
  induction steps generalizing s with
  | nil => exact ⟨s.graph.effects.inclusions, s.talk, rfl⟩
  | cons step steps ih =>
    rw [List.foldl_cons, includeStep]
    cases hrec : step.recorded with
    | false => exact ih (s := s.note (.inclusionAsked step.source step.target)) hs
    | true =>
      rw [if_pos rfl, forget_of_none]
      · exact ih (s := (s.note (.inclusionAsked step.source step.target)).withEffects
          (s.graph.effects.addInclusion ⟨step.source, step.target, position⟩)) hs
      · exact hs

lemma gains_includeEffect [QualifierLattice σ τ] {e₁ e₂ : EffectId}
    (h : s.includeEffect position e₁ e₂ = .ok s') :
    Gains [] [] (s.graph.effects.pieces position e₁ e₂) s s' := by
  obtain ⟨hlt, rfl⟩ := includeEffect_eq_ok h
  have hbuilds : Builds False (.includeEffect position e₁ e₂) s _ := builds_includeEffect hg rfl h
  have hgrows := hbuilds.grows hg
  have hlist := inclusions_includeSteps position (s.graph.effects.split s.graph.classOf e₁ e₂) s
  obtain ⟨inclusions, talk, heq⟩ := includeSteps_eq hs position
    (s.graph.effects.split s.graph.classOf e₁ e₂)
  rw [heq] at hgrows hlist ⊢
  obtain ⟨dropped, hperm, hredundant⟩ := hg.exists_dropped position hlt
  refine ⟨_, talk, rfl, hgrows.toExtends, hgrows.sound, rfl, rfl, rfl,
    .refl hg.locations.classes, .refl hg.effects.classes, dropped, ?_, ?_⟩
  · rw [hlist, List.append_assoc]
    exact hperm.append_left _
  · exact fun inc hinc later hext => hredundant inc hinc later (hgrows.toExtends.trans hext)

lemma gains_equateEffects [QualifierLattice σ τ] {e₁ e₂ : EffectId}
    (h : s.equateEffects position e₁ e₂ = .ok s') :
    Gains [] [] (s.graph.effects.pieces position e₁ e₂ ++ s.graph.effects.pieces position e₂ e₁)
      s s' := by
  obtain ⟨s₁, h₁, h₂⟩ := bind_eq_ok_iff.1 h
  have hfirst := gains_includeEffect hs hg h₁
  have hsecond := gains_includeEffect (hfirst.solution_eq.trans hs) hfirst.constrained.sound h₂
  rw [Effects.pieces_congr hfirst.constrained.nodes_eq] at hsecond
  exact hfirst.trans hsecond

omit hs in
lemma findEffectVariable_eq_ok_iff {e : EffectId} {root : Nat} :
    s.findEffectVariable e = .ok root ↔
      Command.Mergeable s.graph e ∧ s.graph.effects.root e = root := by
  have hvariable : s.graph.effects.isVariable e =
      (s.graph.effects.nodeAt e.index).isVariable := by
    rw [← hg.effects.isVariable_node, Effects.isVariable]
    cases s.graph.effects.node e <;> rfl
  unfold findEffectVariable Command.Mergeable
  rw [hvariable]
  constructor
  · intro h
    obtain ⟨r, hfind, h⟩ := bind_eq_ok_iff.1 h
    obtain ⟨hlt, rfl⟩ := Effects.find_eq_ok_iff.1 hfind
    split at h
    · rename_i hvar
      exact ⟨⟨hlt, hvar⟩, Except.ok.inj h⟩
    · cases h
  · rintro ⟨⟨hlt, hvar⟩, rfl⟩
    refine bind_eq_ok_iff.2 ⟨_, Effects.find_eq_ok_iff.2 ⟨hlt, rfl⟩, ?_⟩
    rw [if_pos hvar]
    rfl

lemma gains_mergeEffects [QualifierLattice σ τ] {e₁ e₂ : EffectId}
    (h : s.mergeEffects e₁ e₂ = .ok s') :
    Gains [] [(e₁.index, e₂.index)] [] s s' := by
  have hgrows := (builds_mergeEffects (P := False) hg h).grows hg
  obtain ⟨r₁, h₁, h⟩ := bind_eq_ok_iff.1 h
  obtain ⟨r₂, h₂, h⟩ := bind_eq_ok_iff.1 h
  obtain ⟨⟨hlt₁, -⟩, rfl⟩ := (findEffectVariable_eq_ok_iff hg).1 h₁
  obtain ⟨⟨hlt₂, -⟩, rfl⟩ := (findEffectVariable_eq_ok_iff hg).1 h₂
  dsimp only at h
  split at h
  · rename_i hsame
    cases h
    refine ⟨s.graph, _, rfl, hgrows.toExtends, hgrows.sound, rfl, rfl, rfl,
      .refl hg.locations.classes, .of_root_eq hg.effects.classes (fun _ => rfl) fun p hp => ?_,
      [], .refl _, fun _ hinc => absurd hinc List.not_mem_nil⟩
    rw [List.mem_singleton.1 hp]
    exact hsame
  · rename_i hne
    have hjoins := Forest.Joins.hang (i := e₁.index) (j := e₂.index) hg.effects.classes
      (hg.effects.root_mem_roots hlt₂) (hg.effects.root_mem_roots hlt₁) (Ne.symm hne)
      (Or.inr ⟨rfl, rfl⟩)
    rw [forget_of_none] at h
    · cases h
      exact ⟨_, _, rfl, hgrows.toExtends, hgrows.sound, rfl, rfl, rfl,
        .refl hg.locations.classes, hjoins, [], .refl _,
        fun _ hinc => absurd hinc List.not_mem_nil⟩
    · exact hs

omit hs hg in
lemma exists_includeEffect (position : Position) {e₁ e₂ : EffectId}
    (h : Command.Includable s.graph e₁ e₂) :
    ∃ s', s.includeEffect position e₁ e₂ = .ok s' :=
  ⟨_, includeEffect_of_lt h⟩

omit hs in
lemma exists_mergeEffects {e₁ e₂ : EffectId} (h₁ : Command.Mergeable s.graph e₁)
    (h₂ : Command.Mergeable s.graph e₂) : ∃ s', s.mergeEffects e₁ e₂ = .ok s' := by
  unfold mergeEffects
  rw [(findEffectVariable_eq_ok_iff hg).2 ⟨h₁, rfl⟩, (findEffectVariable_eq_ok_iff hg).2 ⟨h₂, rfl⟩]
  dsimp only [bind, Except.bind]
  split
  · exact ⟨_, rfl⟩
  · exact ⟨_, rfl⟩

variable [QualifierLattice σ τ]

omit hg in
lemma mergeLocations_eq_ok {a b : LocationId} (h : s.mergeLocations position a b = .ok s') :
    (a.index < s.graph.locations.size ∧ b.index < s.graph.locations.size) ∧
      ∃ talk, s' = { s with
        graph := { s.graph with locations := (s.graph.locations.merge a b).2 },
        flow := { s.flow with talk } } := by
  obtain ⟨hlt, talk, merged, rfl, rfl | rfl⟩ := mergeLocations_cases h
  · exact ⟨hlt, talk, rfl⟩
  · refine ⟨hlt, talk, ?_⟩
    rw [forget_of_none]
    exact hs

lemma gains_mergeLocations {a b : LocationId} (h : s.mergeLocations position a b = .ok s') :
    Gains [(a.index, b.index)] [] [] s s' := by
  have hgrows := (builds_mergeLocations (P := False) hg h).grows hg
  obtain ⟨⟨ha, hb⟩, talk, rfl⟩ := mergeLocations_eq_ok hs h
  refine ⟨_, talk, rfl, hgrows.toExtends, hgrows.sound, rfl, rfl, ?_,
    hg.locations.joins_merge ha hb, .refl hg.effects.classes, [], .refl _,
    fun _ hinc => absurd hinc List.not_mem_nil⟩
  rcases hg.locations.merge ha hb with hmerge | ⟨survivor, child, hmerge, -⟩
  · rw [hmerge]
    rfl
  · rw [hmerge]
    exact Locations.Sound.size_join _ _ _

/-- A constraint that is carried out was admissible, and the graph comes of what it asks for. -/
lemma gains_perform {c : Command τ} (hc : c.constrains = true) {reply : Reply τ}
    (h : s.perform c = .ok (reply, s')) :
    c.Admissible s.graph ∧
      Gains c.mergedLocations c.mergedEffects (c.askedPieces s.graph.effects) s s' := by
  cases c with
  | includeEffect position e₁ e₂ =>
    obtain ⟨s₁, h₁, h⟩ := bind_eq_ok_iff.1 h
    cases h
    exact ⟨(includeEffect_eq_ok h₁).1, gains_includeEffect hs hg h₁⟩
  | equateEffects position e₁ e₂ =>
    obtain ⟨s₂, h₂, h⟩ := bind_eq_ok_iff.1 h
    cases h
    obtain ⟨s₁, hfirst, hsecond⟩ := bind_eq_ok_iff.1 h₂
    have hgraph := (gains_includeEffect hs hg hfirst).constrained
    have hlt := (includeEffect_eq_ok hsecond).1
    rw [hgraph.size_effects_eq] at hlt
    exact ⟨⟨(includeEffect_eq_ok hfirst).1, hlt⟩, gains_equateEffects hs hg h₂⟩
  | mergeEffects e₁ e₂ =>
    obtain ⟨s₁, h₁, h⟩ := bind_eq_ok_iff.1 h
    cases h
    obtain ⟨r₁, hfirst, hrest⟩ := bind_eq_ok_iff.1 h₁
    obtain ⟨r₂, hsecond, -⟩ := bind_eq_ok_iff.1 hrest
    exact ⟨⟨((findEffectVariable_eq_ok_iff hg).1 hfirst).1,
      ((findEffectVariable_eq_ok_iff hg).1 hsecond).1⟩, gains_mergeEffects hs hg h₁⟩
  | mergeLocations position a b =>
    obtain ⟨s₁, h₁, h⟩ := bind_eq_ok_iff.1 h
    cases h
    exact ⟨(mergeLocations_eq_ok hs h₁).1, gains_mergeLocations hs hg h₁⟩
  | _ => cases hc

omit hs hg in
lemma exists_mergeLocations (position : Position) {a b : LocationId}
    (ha : a.index < s.graph.locations.size) (hb : b.index < s.graph.locations.size) :
    ∃ s', s.mergeLocations position a b = .ok s' := by
  unfold mergeLocations
  rw [Locations.find_eq_ok_iff.2 ⟨ha, rfl⟩, Locations.find_eq_ok_iff.2 ⟨hb, rfl⟩]
  dsimp only [bind, Except.bind]
  split
  · exact ⟨_, rfl⟩
  · split
    · exact ⟨_, rfl⟩
    · exact ⟨_, rfl⟩

/-- What is admissible can be carried out. -/
lemma exists_perform {c : Command τ} (h : c.Admissible s.graph) : ∃ p, s.perform c = .ok p := by
  cases c with
  | includeEffect position e₁ e₂ =>
    obtain ⟨s₁, h₁⟩ := exists_includeEffect position h
    exact ⟨_, bind_eq_ok_iff.2 ⟨s₁, h₁, rfl⟩⟩
  | equateEffects position e₁ e₂ =>
    obtain ⟨s₁, h₁⟩ := exists_includeEffect position h.1
    have hsize := (gains_includeEffect hs hg h₁).constrained.size_effects_eq
    have hsecond : Command.Includable s₁.graph e₂ e₁ := by
      unfold Command.Includable
      rw [hsize]
      exact h.2
    obtain ⟨s₂, h₂⟩ := exists_includeEffect position hsecond
    exact ⟨_, bind_eq_ok_iff.2 ⟨s₂, bind_eq_ok_iff.2 ⟨s₁, h₁, h₂⟩, rfl⟩⟩
  | mergeEffects e₁ e₂ =>
    obtain ⟨s₁, h₁⟩ := exists_mergeEffects hg h.1 h.2
    exact ⟨_, bind_eq_ok_iff.2 ⟨s₁, h₁, rfl⟩⟩
  | mergeLocations position a b =>
    obtain ⟨s₁, h₁⟩ := exists_mergeLocations position h.1 h.2
    exact ⟨_, bind_eq_ok_iff.2 ⟨s₁, h₁, rfl⟩⟩
  | _ => exact h.elim

end Step

/-! ## Lists of constraints -/

variable [QualifierLattice σ τ]

/-- Carry out commands one after the other, whatever the lattice makes of it. -/
def performAll (s : Session σ τ) (commands : List (Command τ)) : Except Fault (Session σ τ) :=
  commands.foldlM (fun s c => (s.perform c).map Prod.snd) s

lemma performAll_cons_eq_ok_iff {c : Command τ} {commands : List (Command τ)} :
    s.performAll (c :: commands) = .ok t ↔
      ∃ reply s', s.perform c = .ok (reply, s') ∧ s'.performAll commands = .ok t := by
  unfold performAll
  rw [List.foldlM_cons, bind_eq_ok_iff]
  constructor
  · rintro ⟨s', hfirst, hrest⟩
    cases hperform : s.perform c with
    | error fault =>
      rw [hperform] at hfirst
      cases hfirst
    | ok p =>
      rw [hperform] at hfirst
      cases hfirst
      exact ⟨p.1, p.2, rfl, hrest⟩
  · rintro ⟨reply, s', hfirst, hrest⟩
    exact ⟨s', by rw [hfirst]; rfl, hrest⟩

/-- Constraints that are carried out were admissible from the start, and the graph comes of what
they ask for together. -/
theorem gains_performAll {commands : List (Command τ)} (hs : s.solution = none)
    (hg : s.graph.Sound) (hc : ∀ c ∈ commands, c.constrains = true)
    (h : s.performAll commands = .ok t) :
    (∀ c ∈ commands, c.Admissible s.graph) ∧
      Gains (commands.flatMap Command.mergedLocations) (commands.flatMap Command.mergedEffects)
        (commands.flatMap (Command.askedPieces s.graph.effects)) s t := by
  induction commands generalizing s with
  | nil =>
    cases h
    exact ⟨fun _ hmem => absurd hmem List.not_mem_nil, .refl hg⟩
  | cons c commands ih =>
    obtain ⟨reply, s₁, hfirst, hrest⟩ := performAll_cons_eq_ok_iff.1 h
    obtain ⟨hadmissible, hgains⟩ := gains_perform hs hg (hc c (List.mem_cons_self ..)) hfirst
    have hgraph := hgains.constrained
    obtain ⟨hlater, hmore⟩ := ih (hgains.solution_eq.trans hs) hgraph.sound
      (fun c' hmem => hc c' (List.mem_cons_of_mem _ hmem)) hrest
    rw [funext (Command.askedPieces_eq hgraph)] at hmore
    refine ⟨List.forall_mem_cons.2 ⟨hadmissible, fun c' hmem => ?_⟩, ?_⟩
    · exact (Command.admissible_iff hgraph c').1 (hlater c' hmem)
    · exact hgains.trans hmore

/-- Constraints that are admissible from the start can be carried out one after the other. -/
lemma exists_performAll {commands : List (Command τ)} (hs : s.solution = none)
    (hg : s.graph.Sound) (hc : ∀ c ∈ commands, c.constrains = true)
    (h : ∀ c ∈ commands, c.Admissible s.graph) : ∃ t, s.performAll commands = .ok t := by
  induction commands generalizing s with
  | nil => exact ⟨s, rfl⟩
  | cons c commands ih =>
    obtain ⟨⟨reply, s₁⟩, hfirst⟩ := exists_perform hs hg (h c (List.mem_cons_self ..))
    have hgains := (gains_perform hs hg (hc c (List.mem_cons_self ..)) hfirst).2
    have hgraph := hgains.constrained
    obtain ⟨t, hrest⟩ := ih (hgains.solution_eq.trans hs) hgraph.sound
      (fun c' hmem => hc c' (List.mem_cons_of_mem _ hmem))
      fun c' hmem => (Command.admissible_iff hgraph c').2 (h c' (List.mem_cons_of_mem _ hmem))
    exact ⟨t, performAll_cons_eq_ok_iff.2 ⟨reply, s₁, hfirst, hrest⟩⟩

/-- Constraints that can be carried out while the session is open can be carried out in every other
order.  Then every effect accesses the same locations at the same kinds, and whichever exclusions
wait, closing the session gives the same count, or fails in the same way. -/
theorem constraint_order_irrelevant (h : Reachable s) (hopened : s.phase = .opened)
    {commands commands' : List (Command τ)} (hc : ∀ c ∈ commands, c.constrains = true)
    (hperm : commands.Perm commands') (ht : s.performAll commands = .ok t) :
    ∃ t', s.performAll commands' = .ok t' ∧
      (∀ e a kind, t.graph.solve.touches (t.graph.effects.root e) (t.graph.classOf a) kind =
        t'.graph.solve.touches (t'.graph.effects.root e) (t'.graph.classOf a) kind) ∧
      t.exclusions = s.exclusions ∧ t'.exclusions = s.exclusions ∧
      ∀ exclusions, ({ t with exclusions } : Session σ τ).close.map Prod.fst =
        ({ t' with exclusions } : Session σ τ).close.map Prod.fst := by
  have hg := (ReachableBy.coherent h).sound
  have hs := ReachableBy.fresh h hopened
  have hasked := ((ReachableBy.trusted h).cleared hs.solution_eq).1
  have hc' : ∀ c ∈ commands', c.constrains = true := fun c hmem => hc c (hperm.mem_iff.2 hmem)
  -- Whether a constraint is admissible depends on the graph at the start, so the order does not
  -- matter for that. The graph that comes of them is described by what they ask for, as a multiset.
  obtain ⟨hadmissible, hgains⟩ := gains_performAll hs.solution_eq hg hc ht
  obtain ⟨t', ht'⟩ := exists_performAll hs.solution_eq hg hc' fun c hmem =>
    hadmissible c (hperm.mem_iff.2 hmem)
  have hgains' := (gains_performAll hs.solution_eq hg hc' ht').2
  have hagrees := hgains.constrained.agrees hgains'.constrained (hperm.flatMap_right _)
    (hperm.flatMap_right _) (hperm.flatMap_right _)
  have hfailing := hgains.constrained.length_failing_eq hgains'.constrained hagrees
    (hperm.flatMap_right _)
  obtain ⟨graph, talk, rfl, -⟩ := hgains
  obtain ⟨graph', talk', rfl, -⟩ := hgains'
  refine ⟨_, ht', hagrees.touches_eq, rfl, rfl, fun exclusions => ?_⟩
  have hfresh : ∀ graph talk, ({ s with
      graph, exclusions, flow := { s.flow with talk } } : Session σ τ).Fresh := fun _ _ =>
    ⟨hs.solution_eq, hs.types_eq, hs.settled_eq, hs.sentEdges_eq, hs.sentUpdates_eq,
      hs.reported_eq⟩
  have hcloses : Matches (fun p p' => p.1 = p'.1)
      ({ s with graph, exclusions, flow := { s.flow with talk } } : Session σ τ).close
      ({ s with
        graph := graph', exclusions, flow := { s.flow with talk := talk' } } : Session σ τ).close :=
    matches_close hagrees hfailing (hfresh _ _) (hfresh _ _) hopened hopened hasked hasked rfl rfl
  exact hcloses.map_fst_eq

/-- Accesses to two locations, variables, and an intersection of two of these.  Writes are excluded
from the intersection, and a third variable is to share nothing with the accesses. -/
def tangledScript : List (Command Int) :=
  [.makeLocation "x" 0, .makeLocation "y" 0, .makeLocation "z" 0, .atom .read ⟨0⟩,
    .atom .write ⟨1⟩, .effectVariable "v", .effectVariable "w", .union ⟨1⟩ ⟨2⟩,
    .effectVariable "u", .inter ⟨3⟩ ⟨4⟩, .atom .read ⟨1⟩,
    .exclude ⟨.internal, .everywhere .write ⟨7⟩⟩, .exclude ⟨.internal, .disjoint ⟨5⟩ ⟨6⟩⟩,
    .exclude ⟨.internal, .implies .write ⟨4⟩ .read ⟨6⟩⟩]

/-- The locations are merged, and two of the variables.  The accesses are included in one of these,
which is included in the other, which is to equal the third.  A write is to be included in a read,
and the read of a location in the read of one that it is merged with. -/
def knots : List (Command Int) :=
  [.mergeLocations .internal ⟨0⟩ ⟨1⟩, .mergeLocations .internal ⟨1⟩ ⟨2⟩, .mergeEffects ⟨3⟩ ⟨4⟩,
    .includeEffect .internal ⟨5⟩ ⟨3⟩, .includeEffect .internal ⟨3⟩ ⟨4⟩,
    .equateEffects .internal ⟨4⟩ ⟨6⟩, .includeEffect .internal ⟨2⟩ ⟨1⟩,
    .includeEffect .internal ⟨8⟩ ⟨1⟩]

/-- Backwards, another root survives and two more inclusions are recorded, but the count is the
same. -/
theorem constraint_order_irrelevant_backwards :
    ∃ s t t' : Session Level Int, Reachable s ∧ s.phase = .opened ∧
      s.performAll knots = .ok t ∧ s.performAll knots.reverse = .ok t' ∧
      [t, t'].map (fun t => t.graph.classOf ⟨2⟩) = [0, 1] ∧
      [t, t'].map (fun t => t.graph.effects.inclusions.size) = [5, 7] ∧
      t'.graph.solve.touches (t'.graph.effects.root ⟨7⟩) (t'.graph.classOf ⟨2⟩) .write = true ∧
      t.close.map Prod.fst = .ok (.ok 4) ∧ t'.close.map Prod.fst = .ok (.ok 4) := by
  have hrun : (follow (fun _ _ => True) (start ⟨2, false⟩ Level.mk) tangledScript).any fun s =>
      succeeds (s.performAll knots) fun t => succeeds (s.performAll knots.reverse) fun t' =>
        List.and [s.phase = .opened, [t, t'].map (fun t => t.graph.classOf ⟨2⟩) = [0, 1],
          [t, t'].map (fun t => t.graph.effects.inclusions.size) = [5, 7],
          t.graph.solve.touches (t.graph.effects.root ⟨7⟩) (t.graph.classOf ⟨2⟩) .write = true,
          t.close.map Prod.fst = .ok (.ok 4)] := by
    decide +kernel
  simp only [Option.any_eq_true, succeeds_eq_true, and_decide_cons, List.and_nil, and_true] at hrun
  obtain ⟨s, hstart, t, ht, t', ht', hopened, hclasses, hsizes, htouches, hfour⟩ := hrun
  have h : Reachable s := reachableBy_of_follow hstart
  have hc : ∀ c ∈ knots, c.constrains = true := by decide
  obtain ⟨t₁, ht₁, hanswers, hexclusions, hexclusions', hcloses⟩ :=
    constraint_order_irrelevant h hopened hc (List.reverse_perm knots).symm ht
  obtain rfl : t₁ = t' := Except.ok.inj (ht₁.symm.trans ht')
  have hfour' : t₁.close.map Prod.fst = .ok (.ok 4) := by
    calc
      t₁.close.map Prod.fst =
          ({ t with exclusions := t₁.exclusions } : Session Level Int).close.map Prod.fst :=
        (hcloses t₁.exclusions).symm
      _ = ({ t with exclusions := t.exclusions } : Session Level Int).close.map Prod.fst := by
        rw [hexclusions', ← hexclusions]
      _ = .ok (.ok 4) := hfour
  exact ⟨s, t, t₁, h, hopened, ht, ht₁, hclasses, hsizes,
    (hanswers ⟨7⟩ ⟨2⟩ .write).symm.trans htouches, hfour, hfour'⟩

end Session

end HeapQual
