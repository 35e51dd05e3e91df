import HeapQual.Proofs.Effect.Absorbing
import HeapQual.Proofs.Effect.Expressions
import HeapQual.Proofs.Session.Recipes
import HeapQual.Proofs.Session.Violations

/-!
# Exclusions and intersections

That two effects share no location is checked by looking for accesses that overlap, and the
intersection of two effects has the meets of their accesses.  Both come to the same, because members
are of simple kinds: among these, kinds overlap exactly if they meet (`Kind.overlaps_iff_meet`).  An
access that reads and writes would overlap more than it meets, but it is entered as two.

So the locations that are reported are those of the intersection, at the time of the report
(`Session.disjoint_agrees_with_inter`).  An intersection of effects that are known to be equal is
the first of the two, and then the first must have no variables: what strays into a union is in the
one and not in the other.
-/

namespace HeapQual

namespace Kind

/-- Simple kinds overlap exactly if they have something in common. -/
lemma overlaps_iff_meet {k₁ k₂ : Kind} (h₁ : k₁ ≠ readWrite) (h₂ : k₂ ≠ readWrite) :
    k₂.overlaps k₁ = true ↔ ∃ m, k₁.meet k₂ = some m := by
  cases k₁ <;> cases k₂ <;> simp_all [overlaps, parts, covers, meet, eq_comm]

lemma meet_comm (k₁ k₂ : Kind) : k₁.meet k₂ = k₂.meet k₁ := by
  cases k₁ <;> cases k₂ <;> grind [meet]

end Kind

lemma commonAccesses_comm (m n : Set Access) : commonAccesses m n = commonAccesses n m := by
  have hsubset (m n : Set Access) : commonAccesses m n ⊆ commonAccesses n m := by
    rintro x ⟨k₁, k₂, h₁, h₂, hmeet⟩
    exact ⟨k₂, k₁, h₂, h₁, Kind.meet_comm k₁ k₂ ▸ hmeet⟩
  exact (hsubset m n).antisymm (hsubset n m)

namespace Graph

variable {τ : Type} {g g' : Graph τ} {e e₁ e₂ i : EffectId} {x : Access} {l : Nat}

/-! ## Entering an effect -/

section Entering

variable (hext : g.Extends g') (hg : g.Sound) (hg' : g'.Sound)
  (hroot : ∀ e, g'.effects.root e = g.effects.root e)

include hext hg hroot

/-- An effect that was there before mentions no variable that it did not mention before. -/
lemma Extends.mentionsVariable_of_root_eq {i : Nat} (hi : i < g.effects.size)
    (h : g'.effects.MentionsVariable i) : g.effects.MentionsVariable i := by
  induction h with
  | @var i hvar => exact .var (hext.effect_eq i hi ▸ hvar)
  | @operand i e he _ ih =>
    rw [hext.effect_eq i hi] at he
    rw [hroot] at ih
    exact .operand he (ih (hg.effects.root_lt (hg.effects.operand_lt_size he)))

include hg'

/-- Effects that are entered change nothing for those that were there before, as long as no
inclusion is recorded and nothing is merged. -/
theorem Extends.accessesOf_eq_of_root_eq (hlocations : g'.locations = g.locations)
    (hinclusions : g'.effects.inclusions = g.effects.inclusions)
    (he : e.index < g.effects.size) : g'.accessesOf e = g.accessesOf e := by
  have hclass : g'.classOf = g.classOf := by
    unfold classOf
    rw [hlocations]
  have hold := hg.effects.respects_members hg.classOf_lt
  have hlt {e : EffectId} (he : e.index < g.effects.size) : g.effects.root e < g.effects.size :=
    hg.effects.root_lt he
  have hoperand {i : Nat} {node : EffectNode} (hnode : g.effects.nodeAt i = node) {e : EffectId}
      (he : e ∈ node.operands) : g.effects.root e < g.effects.size :=
    hlt (hg.effects.operand_lt_size (hnode ▸ he))
  -- The members as they were, and whatever one likes for the new effects, are enough.
  have hrespects : g'.effects.Respects g'.classOf fun i =>
      {x | i < g.effects.size → x ∈ g.solve.membersOf i} := by
    refine ⟨fun i kind a hnode k hk hi => ?_, fun i a b hnode => ?_,
      fun i a b hnode l k₁ k₂ k h₁ h₂ hmeet hi => ?_, fun inc hinc hmentions x hx hi => ?_⟩
    · rw [hext.effect_eq i hi] at hnode
      exact hclass ▸ hold.atom i kind a hnode k hk
    · refine ⟨fun x hx hi => ?_, fun x hx hi => ?_⟩
      · rw [hext.effect_eq i hi] at hnode
        rw [hroot] at hx
        exact (hold.union i a b hnode).1 (hx (hoperand hnode (by simp [EffectNode.operands])))
      · rw [hext.effect_eq i hi] at hnode
        rw [hroot] at hx
        exact (hold.union i a b hnode).2 (hx (hoperand hnode (by simp [EffectNode.operands])))
    · rw [hext.effect_eq i hi] at hnode
      rw [hroot] at h₁ h₂
      exact hold.inter i a b hnode l k₁ k₂ k
        (h₁ (hoperand hnode (by simp [EffectNode.operands])))
        (h₂ (hoperand hnode (by simp [EffectNode.operands]))) hmeet
    · rw [hinclusions] at hinc
      rw [hroot] at hmentions hx hi ⊢
      exact hold.inclusion inc hinc (hext.mentionsVariable_of_root_eq hg hroot hi hmentions)
        (hx (hlt (hg.effects.inclusion_lt inc hinc).1))
  refine Ascending.ext fun x => ⟨fun hx => ?_, fun hx => ?_⟩
  · rw [accessesOf, hroot] at hx
    exact hg'.effects.members_subset hg'.classOf_lt hrespects _ hx (hlt he)
  · exact (hext.absorbs hg').carries.mem_of_locations_eq hg hg' hlocations hx

end Entering

/-! ## What is shared -/

/-- The classes of the locations that an effect accesses, whatever the kind, by their roots in
ascending order. -/
def accessedLocations (g : Graph τ) (e : EffectId) : List Nat :=
  g.locations.roots.filter fun l => ∃ x ∈ (g.accessesOf e).toList, x.location = l

/-- What strays into an effect strays into one that mentions a variable. -/
lemma Stray.mentionsVariable (h : g.Stray x e) : g.effects.MentionsVariable (g.effects.root e) := by
  induction h with
  | whole _ hflow => exact hflow.1
  | left hnode _ ih =>
    exact Effects.mentionsVariable_root_iff.2
      (Or.inr ⟨_, by simp [hnode, EffectNode.operands], ih⟩)
  | right hnode _ ih =>
    exact Effects.mentionsVariable_root_iff.2
      (Or.inr ⟨_, by simp [hnode, EffectNode.operands], ih⟩)

lemma violators_eq_accessedLocations
    (h : ∀ l, g.Violates (.disjoint e₁ e₂) l ↔ ∃ x ∈ g.accessesOf i, x.location = l) :
    g.violators (.disjoint e₁ e₂) = g.accessedLocations i := by
  refine List.filter_congr fun l _ => ?_
  rw [decide_eq_decide]
  exact h l

/-- An effect shares all its locations with one that has its members. -/
lemma violators_of_subset (h : ∀ x ∈ g.accessesOf e₁, x ∈ g.accessesOf e₂) :
    g.violators (.disjoint e₁ e₂) = g.accessedLocations e₁ := by
  refine violators_eq_accessedLocations fun l => ?_
  constructor
  · rintro ⟨x, hx, hl, -⟩
    exact ⟨x, hx, hl⟩
  · rintro ⟨x, hx, hl⟩
    exact ⟨x, hx, hl, touched_of_mem (h x hx)⟩

namespace Sound

variable (hg : g.Sound)

include hg

/-- Two effects share the locations that their intersection accesses. -/
lemma violators_of_inter (hnode : g.effects.node i = .inter e₁ e₂) :
    g.violators (.disjoint e₁ e₂) = g.accessedLocations i := by
  refine violators_eq_accessedLocations fun l => ?_
  constructor
  · rintro ⟨x, hx, rfl, y, hy, hlocation, hoverlaps⟩
    obtain ⟨m, hmeet⟩ := (Kind.overlaps_iff_meet (hg.kind_ne_readWrite hx)
      (hg.kind_ne_readWrite hy)).1 hoverlaps
    refine ⟨⟨x.location, m⟩, (hg.mem_inter hnode).2 ⟨x.kind, y.kind, hx, ?_, hmeet⟩, rfl⟩
    rw [← hlocation]
    exact hy
  · rintro ⟨x, hx, rfl⟩
    obtain ⟨k₁, k₂, h₁, h₂, hmeet⟩ := (hg.mem_inter hnode).1 hx
    exact ⟨⟨x.location, k₁⟩, h₁, rfl, ⟨x.location, k₂⟩, h₂, rfl,
      (Kind.overlaps_iff_meet (hg.kind_ne_readWrite h₁) (hg.kind_ne_readWrite h₂)).2 ⟨_, hmeet⟩⟩

end Sound

end Graph

namespace Session

variable {σ τ : Type} {s s' : Session σ τ} {e₁ e₂ i : EffectId}

/-! ## Making intersections -/

lemma locations_recallOrEnter (s : Session σ τ) (recipe : Effects.Recipe) (node : EffectNode)
    (notice : EffectId → Notice τ) :
    (s.recallOrEnter recipe node notice).2.graph.locations = s.graph.locations := by
  have hgraph (s : Session σ τ) (n : Notice τ) : (s.forget.note n).graph = s.graph :=
    graph_forget s
  unfold recallOrEnter enterEffect
  dsimp only
  split
  · rfl
  · dsimp only
    rw [hgraph]
    rfl

/-- An intersection is empty because its first operand is, or is the first operand because it is
known to be the second, or it is recalled or entered. -/
lemma inter_cases (hrecipes : s.recipes.Obeys s.graph.effects.Makes) (hs : s.graph.Sound)
    (h : s.inter e₁ e₂ = .ok (i, s')) :
    (s' = s ∧ (e₁ = .empty ∧ i = .empty ∨ s.knownEqual e₁ e₂ = .ok true ∧ i = e₁)) ∨
    s.knownEqual e₁ e₂ = .ok false ∧ s.graph.effects.Enters (.inter e₁ e₂) i s'.graph.effects ∧
      s'.graph.locations = s.graph.locations := by
  rcases inter_eq_ok h with hsame | ⟨hunknown, rfl, rfl⟩
  · exact Or.inl hsame
  · have hrecipe : (EffectNode.inter e₁ e₂).recipe? = some (.ofInter e₁ e₂) := rfl
    exact Or.inr ⟨hunknown, (enters_recallOrEnter hrecipes hs.effects hrecipe _).1,
      locations_recallOrEnter ..⟩

lemma exists_inter (h₁ : e₁.index < s.graph.effects.size) (h₂ : e₂.index < s.graph.effects.size)
    (hne : e₂ ≠ .empty) : ∃ i s', s.inter e₁ e₂ = .ok (i, s') := by
  unfold inter
  rw [if_neg (by simpa [EffectId.isEmpty] using hne)]
  split
  · exact ⟨_, _, rfl⟩
  · rw [knownEqual_eq_ok_iff.2 ⟨⟨h₁, h₂⟩, rfl⟩]
    dsimp only [bind, Except.bind]
    split
    · exact ⟨_, _, rfl⟩
    · exact ⟨_, _, rfl⟩

variable [QualifierLattice σ τ]

lemma inter_of_exec (h : s.exec (.inter e₁ e₂) = .ok (.effect i, s')) :
    s.inter e₁ e₂ = .ok (i, s') := by
  obtain ⟨⟨i', s₁⟩, hinter, h⟩ := bind_eq_ok_iff.1 (perform_eq_ok_of_exec h)
  cases h
  exact hinter

section Shared

variable {s₁ : Session σ τ} (h : Reachable s)
  (hexec : s.exec (.inter e₁ e₂) = .ok (.effect i, s₁))

include h hexec

/-- What an intersection is from then on: nothing, the first operand, or an intersection of the
two. -/
lemma inter_later (hrun : Runs (fun _ _ => True) s₁ s') :
    e₁ = .empty ∧ i = .empty ∨ s.knownEqual e₁ e₂ = .ok true ∧ i = e₁ ∨
      s.knownEqual e₁ e₂ = .ok false ∧ s'.graph.effects.node i = .inter e₁ e₂ := by
  have hs₁ := (ReachableBy.coherent (h.run (.exec .refl trivial hexec))).sound
  have hgrows := hrun.grows (P := False) hs₁ fun _ _ _ => False.elim
  rcases inter_cases (ReachableBy.recipes_obey h) (ReachableBy.coherent h).sound
    (inter_of_exec hexec) with ⟨-, hempty | hequal⟩ | ⟨hunknown, henters, -⟩
  · exact Or.inl hempty
  · exact Or.inr (Or.inl hequal)
  · refine Or.inr (Or.inr ⟨hunknown, ?_⟩)
    rw [hgrows.toExtends.node_eq hs₁ hgrows.sound henters.lt (by rw [henters.node_eq]; rfl)]
    exact henters.node_eq

/-- If it is no shortcut, an intersection has the operands given for it, from then on. -/
lemma node_of_inter (hne : e₁ ≠ .empty) (hunknown : s.knownEqual e₁ e₂ = .ok false)
    (hrun : Runs (fun _ _ => True) s₁ s') : s'.graph.effects.node i = .inter e₁ e₂ := by
  rcases inter_later h hexec hrun with ⟨hempty, -⟩ | ⟨hequal, -⟩ | ⟨-, hnode⟩
  · exact absurd hempty hne
  · exact absurd (hequal.symm.trans hunknown) (by simp)
  · exact hnode

variable (h₁ : e₁.index < s.graph.effects.size) (h₂ : e₂.index < s.graph.effects.size)
  (hclosed : s.graph.effects.hasVariables e₁ = false)

include h₁ h₂

/-- Making the intersection of two effects does not change what they share. -/
lemma violators_before_inter :
    s.graph.violators (.disjoint e₁ e₂) = s₁.graph.violators (.disjoint e₁ e₂) := by
  have hs := (ReachableBy.coherent h).sound
  have hstep : Runs (fun _ _ => True) s s₁ := .exec .refl trivial hexec
  have hgrows := hstep.grows (P := False) hs fun _ _ _ => False.elim
  rcases inter_cases (ReachableBy.recipes_obey h) hs (inter_of_exec hexec) with
    ⟨rfl, -⟩ | ⟨-, henters, hlocations⟩
  · rfl
  · have hroot (e : EffectId) : s₁.graph.effects.root e = s.graph.effects.root e := by
      rcases henters.grown with heq | heq
      · rw [heq]
      · rw [heq, hs.effects.root_add]
    have hsame {e : EffectId} (he : e.index < s.graph.effects.size) :
        s₁.graph.accessesOf e = s.graph.accessesOf e :=
      hgrows.toExtends.accessesOf_eq_of_root_eq hs hgrows.sound hroot hlocations
        henters.inclusions_eq he
    unfold Graph.violators
    rw [hlocations]
    refine List.filter_congr fun l _ => ?_
    rw [decide_eq_decide]
    simp only [Graph.Violates, Graph.Touched, hsame h₁, hsame h₂]

include hclosed

/-- Two effects share the locations that their intersection accesses, from then on, if the first has
no variables. -/
lemma violators_of_inter (hrun : Runs (fun _ _ => True) s₁ s') :
    s'.graph.violators (.disjoint e₁ e₂) = s'.graph.accessedLocations i := by
  have hs := (ReachableBy.coherent h).sound
  have hstep : Runs (fun _ _ => True) s s₁ := .exec .refl trivial hexec
  have hgrows := (hstep.trans hrun).grows (P := False) hs fun _ _ _ => False.elim
  have hs' := hgrows.sound
  rcases inter_later h hexec hrun with ⟨rfl, rfl⟩ | ⟨hequal, rfl⟩ | ⟨-, hnode⟩
  · refine Graph.violators_of_subset fun x hx => ?_
    exact absurd hx (hs'.not_mem_empty hs'.effects.size_pos hs'.node_empty)
  · obtain ⟨p, hp⟩ := (hs.effects.hasVariables_eq_false_iff h₁).1 hclosed
    have hshows := hgrows.toExtends.shows hs hs' h₁ hp
    refine Graph.violators_of_subset fun x hx => ?_
    rcases Graph.mem_of_knownEqual hgrows.toExtends hs hs' h₁ h₂
      (knownEqual_eq_ok_iff.1 hequal).2 hx with hstray | hx
    · exact absurd hstray.mentionsVariable hshows.not_mentionsVariable
    · exact hx
  · exact hs'.violators_of_inter hnode

end Shared

/-! ## What is reported -/

/-- What is checked after the graph was solved is checked against its solution. -/
lemma checking_of_solved (h : Reachable s) {sol : Solution} {s₁ : Session σ τ} (n : Notice τ)
    (hsolved : (s.note n).solved = .ok (sol, s₁)) :
    sol = s.graph.solve ∧ Checking s.graph s₁ := by
  have hs := ReachableBy.coherent h
  have hcoherent : (s.note n).Coherent :=
    ⟨hs.sound, hs.solution_eq, hs.named, hs.linearities_eq⟩
  have htrusted : (s.note n).Trusted :=
    ⟨(ReachableBy.trusted h).answers, (ReachableBy.trusted h).cleared⟩
  obtain ⟨rfl, hgraph, -, -⟩ := hcoherent.solved_spec hsolved
  exact ⟨rfl, hgraph, htrusted.answers_of_solved hsolved⟩

/-- Past the open phase, an exclusion is reported at once in all classes in which it is violated. -/
lemma errors_of_exclude (h : Reachable s) (hphase : s.phase ≠ .opened) {x : Exclusion}
    (hexclude : s.exclude x = .ok s') :
    ∃ sol s₁, (s.note (.exclusionAdded x)).solved = .ok (sol, s₁) ∧
      s'.errors = s₁.errors ++ s.graph.complaints x := by
  rcases exclude_eq_ok hexclude with ⟨hopened, -⟩ | ⟨-, sol, s₁, count, hsolved, hcheck⟩
  · exact absurd hopened hphase
  · obtain ⟨rfl, hchecking⟩ := checking_of_solved h _ hsolved
    have hfinds := finds_checkExclusion (ReachableBy.coherent h).sound
      (t := (0, s₁)) hchecking hcheck
    exact ⟨_, s₁, hsolved, hfinds.errors_eq⟩

/-- That two effects share no location can be asked for if the first has no variables.  While the
session is open it waits, and otherwise the graph must name nothing that does not exist. -/
lemma exists_exclude (h : Reachable s) (h₁ : e₁.index < s.graph.effects.size)
    (h₂ : e₂.index < s.graph.effects.size) (hclosed : s.graph.effects.hasVariables e₁ = false)
    (position : Position) :
    (s.phase = .opened → ∃ s', s.exclude ⟨position, .disjoint e₁ e₂⟩ = .ok s' ∧
      s'.exclusions = s.exclusions ++ [⟨position, .disjoint e₁ e₂⟩]) ∧
    (s.graph.validate = .ok () → ∃ s', s.exclude ⟨position, .disjoint e₁ e₂⟩ = .ok s') := by
  have hs := ReachableBy.coherent h
  have hfind : s.graph.effects.find e₁ = .ok (s.graph.effects.root e₁) :=
    Effects.find_eq_ok_iff.2 ⟨h₁, rfl⟩
  have hopen (hphase : s.phase = .opened) : ∃ s', s.exclude ⟨position, .disjoint e₁ e₂⟩ = .ok s' ∧
      s'.exclusions = s.exclusions ++ [⟨position, .disjoint e₁ e₂⟩] := by
    have hnote (n : Notice τ) : (s.note n).phase = .opened := hphase
    unfold exclude
    dsimp only
    rw [hfind, hclosed, hnote]
    exact ⟨_, rfl, rfl⟩
  refine ⟨hopen, fun hvalidate => ?_⟩
  -- While the session is open the exclusion waits, and later it is checked at once, which needs a
  -- solution.
  by_cases hphase : s.phase = .opened
  · obtain ⟨s', hs', -⟩ := hopen hphase
    exact ⟨s', hs'⟩
  · have hcoherent : (s.note (.exclusionAdded ⟨position, .disjoint e₁ e₂⟩)).Coherent :=
      ⟨hs.sound, hs.solution_eq, hs.named, hs.linearities_eq⟩
    obtain ⟨s₁, hsolved⟩ := hcoherent.exists_solved hvalidate
    have hgraph : s₁.graph = s.graph := (hcoherent.solved_spec hsolved).2.1
    have hknown : Exclusion.Known s₁.graph ⟨position, .disjoint e₁ e₂⟩ := by
      rw [hgraph]
      exact ⟨by simp [Restriction.locations], by simp [Restriction.effects, h₁, h₂]⟩
    obtain ⟨count, s₂, hcheck⟩ := exists_checkExclusion s.graph.solve hknown 0
    refine ⟨s₂, ?_⟩
    unfold exclude
    refine bind_eq_ok_iff.2 ⟨_, hfind, ?_⟩
    rw [hclosed, if_neg Bool.false_ne_true]
    dsimp only
    split
    · rename_i hopened
      exact absurd hopened hphase
    · exact bind_eq_ok_iff.2 ⟨_, hsolved, bind_eq_ok_iff.2 ⟨_, hcheck, rfl⟩⟩

/-- If two effects must share no location, what is reported of that is one diagnostic for each of
these classes. -/
structure ReportsShared (s : Session σ τ) (position : Position) (e₁ e₂ : EffectId)
    (classes : List Nat) : Prop where
  complaints_eq : ∃ kinds : Nat → Kind, s.graph.complaints ⟨position, .disjoint e₁ e₂⟩ =
    classes.map fun l => ⟨position, .shared (kinds l) l (s.graph.locations.nameOf l)⟩
  waits : s.phase = .opened → ∃ s', s.exclude ⟨position, .disjoint e₁ e₂⟩ = .ok s' ∧
    s'.exclusions = s.exclusions ++ [⟨position, .disjoint e₁ e₂⟩]
  /-- Closing the session reports whatever waits. -/
  close : s.phase = .opened → ∀ failures s', s.close = .ok (.ok failures, s') →
    ∃ settling, s'.errors = s.errors ++ s.graph.failing.map s.graph.refusal ++
        s.exclusions.flatMap s.graph.complaints ++ settling ∧
      ∀ d ∈ settling, d.mark? ≠ none
  possible : s.graph.validate = .ok () → ∃ s', s.exclude ⟨position, .disjoint e₁ e₂⟩ = .ok s'
  /-- It is then reported at once, after what is reported because the graph is solved. -/
  exclude : s.phase ≠ .opened → ∀ s', s.exclude ⟨position, .disjoint e₁ e₂⟩ = .ok s' →
    ∃ sol s₁, (s.note (.exclusionAdded ⟨position, .disjoint e₁ e₂⟩)).solved = .ok (sol, s₁) ∧
      s'.errors = s₁.errors ++ s.graph.complaints ⟨position, .disjoint e₁ e₂⟩

/-- What is reported are the classes in which two effects share a location. -/
lemma reportsShared_violators (h : Reachable s) (h₁ : e₁.index < s.graph.effects.size)
    (h₂ : e₂.index < s.graph.effects.size) (hclosed : s.graph.effects.hasVariables e₁ = false)
    (position : Position) :
    s.ReportsShared position e₁ e₂ (s.graph.violators (.disjoint e₁ e₂)) where
  complaints_eq := ⟨fun l => ((s.graph.firstShared? e₁ e₂ l).map Access.kind).getD .any, rfl⟩
  waits := (exists_exclude h h₁ h₂ hclosed position).1
  close hopened _ _ hclose := (finds_of_close h hopened hclose).2
  possible := (exists_exclude h h₁ h₂ hclosed position).2
  exclude hphase _ := errors_of_exclude h hphase

/-- No member reads and writes at once.  Therefore, if two effects must share no location and the
first has no variables, what is reported are the locations that the intersection of the two accesses
at whatever kind: in the session in which the intersection is made, and in every later one.  Apart
from shortcuts, an intersection has the same members whichever operand comes first. -/
theorem disjoint_agrees_with_inter (h : Reachable s) :
    (∀ i, ∀ x ∈ s.graph.solve.membersOf i, x.kind ≠ .readWrite) ∧
    (∀ e₁ e₂, e₁.index < s.graph.effects.size → e₂.index < s.graph.effects.size →
      s.graph.effects.hasVariables e₁ = false → e₂ ≠ .empty →
      (∃ i s₁, s.inter e₁ e₂ = .ok (i, s₁)) ∧
      ∀ i s₁, s.exec (.inter e₁ e₂) = .ok (.effect i, s₁) → ∀ position,
        s.ReportsShared position e₁ e₂ (s₁.graph.accessedLocations i) ∧
        ∀ s', Runs (fun _ _ => True) s₁ s' →
          s'.ReportsShared position e₁ e₂ (s'.graph.accessedLocations i)) ∧
    ∀ a b, a ≠ .empty → b ≠ .empty → s.knownEqual a b = .ok false →
      (∃ i s₁, s.inter a b = .ok (i, s₁)) ∧ (∃ j s₁, s.inter b a = .ok (j, s₁)) ∧
      ∀ i s₁ s₂ j s₃ s', s.exec (.inter a b) = .ok (.effect i, s₁) →
        Runs (fun _ _ => True) s₁ s₂ → s₂.knownEqual b a = .ok false →
        s₂.exec (.inter b a) = .ok (.effect j, s₃) → Runs (fun _ _ => True) s₃ s' →
        s'.graph.accessesOf i = s'.graph.accessesOf j := by
  have hs := (ReachableBy.coherent h).sound
  refine ⟨fun i x => hs.kind_ne_readWrite_of_mem, fun e₁ e₂ h₁ h₂ hclosed hne =>
    ⟨exists_inter h₁ h₂ hne, fun i s₁ hexec position => ⟨?_, fun s' hrun => ?_⟩⟩,
    fun a b ha hb hunknown => ?_⟩
  · rw [← violators_of_inter h hexec h₁ h₂ hclosed .refl,
      ← violators_before_inter h hexec h₁ h₂]
    exact reportsShared_violators h h₁ h₂ hclosed position
  · have hto : Runs (fun _ _ => True) s s' := (Runs.exec .refl trivial hexec).trans hrun
    have hgrows := hto.grows (P := False) hs fun _ _ _ => False.elim
    rw [← violators_of_inter h hexec h₁ h₂ hclosed hrun]
    refine reportsShared_violators (h.run hto) (h₁.trans_le hgrows.size_effects)
      (h₂.trans_le hgrows.size_effects) ?_ position
    -- The first effect shows an expression, and still does after the run, so it has no variables
    -- then either.
    obtain ⟨p, hp⟩ := (hs.effects.hasVariables_eq_false_iff h₁).1 hclosed
    exact (hgrows.sound.effects.hasVariables_eq_false_iff (h₁.trans_le hgrows.size_effects)).2
      ⟨p, hgrows.toExtends.shows hs hgrows.sound h₁ hp⟩
  · obtain ⟨hlta, hltb⟩ := lt_of_knownEqual_eq_ok hunknown
    refine ⟨exists_inter hlta hltb hb, exists_inter hltb hlta ha,
      fun i s₁ s₂ j s₃ s' hab hrun hunknown' hba hrun' => ?_⟩
    have hs₂ : Reachable s₂ := h.run ((Runs.exec .refl trivial hab).trans hrun)
    have hstep : Runs (fun _ _ => True) s₂ s₃ := .exec .refl trivial hba
    have hs' := (ReachableBy.coherent (hs₂.run (hstep.trans hrun'))).sound
    have hi := node_of_inter h hab ha hunknown (hrun.trans (hstep.trans hrun'))
    have hj := node_of_inter hs₂ hba hb hunknown' hrun'
    refine Ascending.ext fun x => ?_
    rw [hs'.mem_inter hi, hs'.mem_inter hj, commonAccesses_comm]

/-- An effect without variables reads and writes one location, may access a second one in any way
and accesses a third one in a way of its own.  The variable reads the first, allocates the second
and may access the third in any way.  The session is closed. -/
def commonScript : List (Command Int) :=
  [.makeLocation "x" 0, .makeLocation "y" 0, .makeLocation "z" 0, .atom .readWrite ⟨0⟩,
    .atom .any ⟨1⟩, .atom (.custom 3) ⟨2⟩, .union ⟨1⟩ ⟨2⟩, .union ⟨3⟩ ⟨4⟩, .effectVariable "v",
    .atom .read ⟨0⟩, .atom .alloc ⟨1⟩, .atom .any ⟨2⟩, .includeEffect .internal ⟨7⟩ ⟨6⟩,
    .includeEffect .internal ⟨8⟩ ⟨6⟩, .includeEffect .internal ⟨9⟩ ⟨6⟩, .close]

/-- The two effects share the first location and the third one, but not the second, because to
allocate is not to access. -/
theorem disjoint_agrees_with_inter_alloc :
    ∃ s s₁ s₂ s₃ : Session Level Int, Reachable s ∧ s.phase ≠ .opened ∧
      s.graph.effects.hasVariables ⟨5⟩ = false ∧
      s.exec (.inter ⟨5⟩ ⟨6⟩) = .ok (.effect ⟨10⟩, s₁) ∧
      (s₁.graph.accessesOf ⟨10⟩).toList = [⟨0, .read⟩, ⟨2, .custom 3⟩] ∧
      s.ReportsShared .internal ⟨5⟩ ⟨6⟩ [0, 2] ∧
      s.exclude ⟨.internal, .disjoint ⟨5⟩ ⟨6⟩⟩ = .ok s₃ ∧
      s₃.errors.map Diagnostic.message = ["r(`x`) is in both effects but must not be",
        "k3(`z`) is in both effects but must not be"] ∧
      s₁.exec (.inter ⟨6⟩ ⟨5⟩) = .ok (.effect ⟨11⟩, s₂) ∧
      s₂.graph.accessesOf ⟨10⟩ = s₂.graph.accessesOf ⟨11⟩ := by
  have hrun : (follow (fun _ _ => True) (start ⟨2, false⟩ Level.mk) commonScript).any fun s =>
      succeeds (s.exec (.inter ⟨5⟩ ⟨6⟩)) fun p => succeeds (p.2.exec (.inter ⟨6⟩ ⟨5⟩)) fun q =>
        succeeds (s.exclude ⟨.internal, .disjoint ⟨5⟩ ⟨6⟩⟩) fun s₃ => List.and
          [p.1 = .effect ⟨10⟩, q.1 = .effect ⟨11⟩, s.phase ≠ .opened, s.graph.effects.size = 10,
            s.graph.effects.hasVariables ⟨5⟩ = false,
            s.graph.effects.knownEqual s.graph.classOf ⟨5⟩ ⟨6⟩ = false,
            p.2.graph.effects.knownEqual p.2.graph.classOf ⟨6⟩ ⟨5⟩ = false,
            p.2.graph.accessedLocations ⟨10⟩ = [0, 2],
            (p.2.graph.accessesOf ⟨10⟩).toList = [⟨0, .read⟩, ⟨2, .custom 3⟩],
            s₃.errors.map Diagnostic.message = ["r(`x`) is in both effects but must not be",
              "k3(`z`) is in both effects but must not be"]] := by
    decide +kernel
  simp only [Option.any_eq_true, succeeds_eq_true, and_decide_cons, List.and_nil, and_true] at hrun
  obtain ⟨s, hfollow, ⟨_, s₁⟩, hexec, ⟨_, s₂⟩, hexec', s₃, hexclude, rfl, rfl, hphase, hsize,
    hclosed, hunknown, hunknown', hlocations, hmembers, hmessages⟩ := hrun
  have hs : Reachable s := reachableBy_of_follow hfollow
  have hstep : Runs (fun _ _ => True) s s₁ := .exec .refl trivial hexec
  have hgrows := hstep.grows (P := False) (ReachableBy.coherent hs).sound fun _ _ _ => False.elim
  have hlt {e : EffectId} (he : e.index < 10) : e.index < s.graph.effects.size := hsize ▸ he
  obtain ⟨-, hreports, hcomm⟩ := disjoint_agrees_with_inter hs
  obtain ⟨-, hreports⟩ := hreports ⟨5⟩ ⟨6⟩ (hlt (by decide)) (hlt (by decide)) hclosed (by decide)
  obtain ⟨-, -, hcomm⟩ := hcomm ⟨5⟩ ⟨6⟩ (by decide) (by decide)
    (knownEqual_eq_ok_iff.2 ⟨⟨hlt (by decide), hlt (by decide)⟩, hunknown⟩)
  refine ⟨s, s₁, s₂, s₃, hs, hphase, hclosed, hexec, hmembers,
    hlocations ▸ (hreports _ s₁ hexec .internal).1, hexclude, hmessages, hexec',
    hcomm _ s₁ s₁ _ s₂ s₂ hexec .refl ?_ hexec' .refl⟩
  exact knownEqual_eq_ok_iff.2 ⟨⟨(hlt (by decide)).trans_le hgrows.size_effects,
    (hlt (by decide)).trans_le hgrows.size_effects⟩, hunknown'⟩

end Session

end HeapQual
