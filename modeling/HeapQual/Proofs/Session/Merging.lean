import HeapQual.Lattice.Level
import HeapQual.Proofs.Merging
import HeapQual.Proofs.Session.Eliding
import HeapQual.Proofs.Session.LeastDomains
import HeapQual.Proofs.Session.Reordering

/-!
# Merging is equating

Merging two effect variables joins their classes; equating them records two inclusions, or none if
they are of one class already.  Either way the same solution is found: every effect has the same
members, and the same inclusions fail.  The same goes for merging and equating two store variables
(`Session.merging_is_equating`).
-/

namespace HeapQual

/-- The store is a variable of the graph. -/
def Command.MergeableStore {τ : Type} (g : Graph τ) (x : StoreId) : Prop :=
  x.index < g.stores.size ∧ (g.stores.nodeAt x.index).isVariable = true

namespace Session

variable {σ τ : Type} {s s' : Session σ τ} {position : Position}

/-! ## Effects -/

section Effects

variable {a b : EffectId}

lemma exists_mergeEffects_distinct (h : s.graph.Distinct a b) :
    ∃ s', s.mergeEffects a b = .ok s' ∧ s'.graph = s.graph.uniteEffects a b := by
  have hfind {e : EffectId} (he : e.index < s.graph.effects.size)
      (hvar : (s.graph.effects.node e).isVariable = true) :
      s.findEffectVariable e = .ok (s.graph.effects.root e) :=
    (findEffectVariable_eq_ok_iff h.sound).2
      ⟨⟨he, (h.sound.effects.isVariable_node e).symm.trans hvar⟩, rfl⟩
  unfold mergeEffects
  rw [hfind h.left_lt h.left_var, hfind h.right_lt h.right_var]
  exact ⟨_, if_neg h.root_ne, graph_forget _⟩

lemma exists_includeEffect_distinct (position : Position) (h : s.graph.Distinct a b) :
    ∃ s', s.includeEffect position a b = .ok s' ∧
      s'.graph = { s.graph with effects := s.graph.effects.addInclusion ⟨a, b, position⟩ } := by
  rw [includeEffect_of_lt fun _ => ⟨h.left_lt, h.right_lt⟩, h.split_eq]
  exact ⟨_, rfl, graph_forget _⟩

lemma exists_equateEffects_distinct (position : Position) (h : s.graph.Distinct a b) :
    ∃ s', s.equateEffects position a b = .ok s' ∧ s'.graph = s.graph.linkEffects position a b := by
  obtain ⟨s₁, hfirst, hgraph₁⟩ := exists_includeEffect_distinct position h
  have h₁ : s₁.graph.Distinct b a := hgraph₁ ▸ h.addInclusion position
  obtain ⟨s₂, hsecond, hgraph₂⟩ := exists_includeEffect_distinct position h₁
  refine ⟨s₂, bind_eq_ok_iff.2 ⟨s₁, hfirst, hsecond⟩, ?_⟩
  rw [hgraph₂, hgraph₁]
  rfl

/-- Variables of one class are merged and equated already. -/
lemma exists_merge_equate_same (position : Position) (hs : s.graph.Sound)
    (ha : Command.Mergeable s.graph a) (hb : Command.Mergeable s.graph b)
    (hsame : s.graph.effects.root a = s.graph.effects.root b) :
    ∃ merged equated, s.mergeEffects a b = .ok merged ∧
      s.equateEffects position a b = .ok equated ∧
      merged.graph = s.graph ∧ equated.graph = s.graph := by
  have hmerge : s.mergeEffects a b = .ok (s.note (.effectsMerged a b)) := by
    unfold mergeEffects
    rw [(findEffectVariable_eq_ok_iff hs).2 ⟨ha, hsame⟩,
      (findEffectVariable_eq_ok_iff hs).2 ⟨hb, rfl⟩]
    exact if_pos rfl
  have hknown {e f : EffectId} (heq : s.graph.effects.root e = s.graph.effects.root f) :
      s.graph.effects.knownEqual s.graph.classOf e f = true :=
    Bool.or_eq_true_iff.2 (Or.inl (decide_eq_true heq))
  have hfirst : s.includeEffect position a b = .ok (s.note (.inclusionAsked a b)) :=
    includeEffect_of_knownEqual position hs
      (knownEqual_eq_ok_iff.2 ⟨⟨ha.1, hb.1⟩, hknown hsame⟩)
  have hsecond : (s.note (.inclusionAsked a b)).includeEffect position b a =
      .ok ((s.note (.inclusionAsked a b)).note (.inclusionAsked b a)) :=
    includeEffect_of_knownEqual position hs
      (knownEqual_eq_ok_iff.2 ⟨⟨hb.1, ha.1⟩, hknown hsame.symm⟩)
  exact ⟨_, _, hmerge, bind_eq_ok_iff.2 ⟨_, hfirst, hsecond⟩, rfl, rfl⟩

end Effects

/-! ## Stores -/

section Stores

variable {x y : StoreId} {message : String}

lemma findStoreVariable_of_node (hx : x.index < s.graph.stores.size)
    (hvar : (s.graph.stores.node x).isVariable = true) :
    s.findStoreVariable x = .ok (s.graph.stores.root x) :=
  bind_eq_ok_iff.2 ⟨_, Stores.find_eq_ok_iff.2 ⟨hx, rfl⟩, if_pos hvar⟩

lemma sameStore_of_lt (hx : x.index < s.graph.stores.size) (hy : y.index < s.graph.stores.size) :
    s.sameStore x y = .ok (decide (s.graph.stores.root x = s.graph.stores.root y)) :=
  bind_eq_ok_iff.2 ⟨_, Stores.find_eq_ok_iff.2 ⟨hx, rfl⟩,
    bind_eq_ok_iff.2 ⟨_, Stores.find_eq_ok_iff.2 ⟨hy, rfl⟩, rfl⟩⟩

lemma exists_mergeStores_distinct (position : Position) (message : String)
    (h : s.graph.DistinctStores x y) :
    ∃ s', s.mergeStores position message x y = .ok s' ∧ s'.graph = s.graph.uniteStores x y := by
  unfold mergeStores
  rw [findStoreVariable_of_node h.left_lt h.left_var,
    findStoreVariable_of_node h.right_lt h.right_var]
  exact ⟨_, if_neg h.root_ne, graph_forget _⟩

lemma exists_includeStore_distinct (position : Position) (message : String)
    (h : s.graph.DistinctStores x y) :
    ∃ s', s.includeStore position message x y = .ok s' ∧
      s'.graph =
        { s.graph with stores := s.graph.stores.addEdge ⟨x, y, position, message⟩ } := by
  unfold includeStore
  rw [sameStore_of_lt h.left_lt h.right_lt, decide_eq_false h.root_ne]
  exact ⟨_, rfl, graph_forget _⟩

lemma exists_equateStores_distinct (position : Position) (message : String)
    (h : s.graph.DistinctStores x y) :
    ∃ s', s.equateStores position message x y = .ok s' ∧
      s'.graph = s.graph.linkStores position (message ++ " (left to right)")
        (message ++ " (right to left)") x y := by
  obtain ⟨s₁, hfirst, hgraph₁⟩ :=
    exists_includeStore_distinct position (message ++ " (left to right)") h
  have h₁ : s₁.graph.DistinctStores y x := hgraph₁ ▸ h.addEdge position _
  obtain ⟨s₂, hsecond, hgraph₂⟩ :=
    exists_includeStore_distinct position (message ++ " (right to left)") h₁
  refine ⟨s₂, bind_eq_ok_iff.2 ⟨s₁, hfirst, hsecond⟩, ?_⟩
  rw [hgraph₂, hgraph₁]
  rfl

lemma includeStore_of_same (position : Position) (message : String)
    (hx : x.index < s.graph.stores.size) (hy : y.index < s.graph.stores.size)
    (hsame : s.graph.stores.root x = s.graph.stores.root y) :
    s.includeStore position message x y = .ok (s.note (.edgeAsked x y)) := by
  unfold includeStore
  rw [sameStore_of_lt hx hy, decide_eq_true hsame]
  rfl

/-- Store variables of one class are merged and equated already. -/
lemma exists_merge_equate_same_store (position : Position) (merging message : String)
    (hs : s.graph.Sound) (hx : Command.MergeableStore s.graph x)
    (hy : Command.MergeableStore s.graph y)
    (hsame : s.graph.stores.root x = s.graph.stores.root y) :
    ∃ merged equated, s.mergeStores position merging x y = .ok merged ∧
      s.equateStores position message x y = .ok equated ∧
      merged.graph = s.graph ∧ equated.graph = s.graph := by
  have hmerge : s.mergeStores position merging x y =
      .ok (s.note (.storesMerged position merging x y)) := by
    unfold mergeStores
    rw [findStoreVariable_of_node hx.1 ((hs.stores.isVariable_node x).trans hx.2),
      findStoreVariable_of_node hy.1 ((hs.stores.isVariable_node y).trans hy.2)]
    exact if_pos hsame
  have hsecond : (s.note (.edgeAsked x y)).includeStore position _ y x =
      .ok ((s.note (.edgeAsked x y)).note (.edgeAsked y x)) :=
    includeStore_of_same position (message ++ " (right to left)") hy.1 hx.1 hsame.symm
  exact ⟨_, _, hmerge,
    bind_eq_ok_iff.2 ⟨_, includeStore_of_same position _ hx.1 hy.1 hsame, hsecond⟩, rfl, rfl⟩

end Stores

/-! ## Solving -/

/-- The solutions of two graphs give the same members to every effect, and in both of them the same
inclusions fail. -/
structure SameMembers (g g' : Graph τ) (sol sol' : Solution) : Prop where
  members : ∀ e, sol.membersOf (g.effects.root e) = sol'.membersOf (g'.effects.root e)
  violations : sol.violations = sol'.violations
  inclusions : ∀ n ∈ sol.violations, g.effects.inclusions[n]? = g'.effects.inclusions[n]?

/-- Merging and equating two effect variables give graphs with the same members. -/
lemma exists_sameMembers {a b : EffectId} (position : Position) (hs : s.graph.Sound)
    (ha : Command.Mergeable s.graph a) (hb : Command.Mergeable s.graph b) :
    ∃ merged equated, s.mergeEffects a b = .ok merged ∧
      s.equateEffects position a b = .ok equated ∧
      merged.graph.validate = equated.graph.validate ∧
      SameMembers merged.graph equated.graph merged.graph.solve equated.graph.solve := by
  by_cases hsame : s.graph.effects.root a = s.graph.effects.root b
  · obtain ⟨merged, equated, hmerge, hequate, hgraph, hgraph'⟩ :=
      exists_merge_equate_same position hs ha hb hsame
    refine ⟨merged, equated, hmerge, hequate, ?_⟩
    rw [hgraph, hgraph']
    exact ⟨rfl, fun _ => rfl, rfl, fun _ _ => rfl⟩
  · have hdistinct : s.graph.Distinct a b :=
      ⟨hs, ha.1, hb.1, (hs.effects.isVariable_node a).trans ha.2,
        (hs.effects.isVariable_node b).trans hb.2, hsame⟩
    obtain ⟨merged, hmerge, hgraph⟩ := exists_mergeEffects_distinct hdistinct
    obtain ⟨equated, hequate, hgraph'⟩ := exists_equateEffects_distinct position hdistinct
    refine ⟨merged, equated, hmerge, hequate, ?_⟩
    rw [hgraph, hgraph']
    exact ⟨Graph.validate_congr rfl rfl rfl, hdistinct.accessesOf_eq position,
      hdistinct.violations_eq position, fun _ => hdistinct.inclusion_eq_of_violation⟩

/-- Merging and equating two store variables give graphs with the same domains. -/
lemma exists_sameDomains {x y : StoreId} (position : Position) (merging message : String)
    (hs : s.graph.Sound) (hx : Command.MergeableStore s.graph x)
    (hy : Command.MergeableStore s.graph y) :
    ∃ merged equated, s.mergeStores position merging x y = .ok merged ∧
      s.equateStores position message x y = .ok equated ∧
      merged.graph.validate = equated.graph.validate ∧
      (merged.graph.Named → equated.graph.Named →
        ∀ z, merged.graph.solve.domainOf (merged.graph.stores.root z) =
          equated.graph.solve.domainOf (equated.graph.stores.root z)) := by
  by_cases hsame : s.graph.stores.root x = s.graph.stores.root y
  · obtain ⟨merged, equated, hmerge, hequate, hgraph, hgraph'⟩ :=
      exists_merge_equate_same_store position merging message hs hx hy hsame
    refine ⟨merged, equated, hmerge, hequate, ?_⟩
    rw [hgraph, hgraph']
    exact ⟨rfl, fun _ _ _ => rfl⟩
  · have hdistinct : s.graph.DistinctStores x y :=
      ⟨hs, hx.1, hy.1, (hs.stores.isVariable_node x).trans hx.2,
        (hs.stores.isVariable_node y).trans hy.2, hsame⟩
    obtain ⟨merged, hmerge, hgraph⟩ := exists_mergeStores_distinct position merging hdistinct
    obtain ⟨equated, hequate, hgraph'⟩ := exists_equateStores_distinct position message hdistinct
    refine ⟨merged, equated, hmerge, hequate, ?_⟩
    rw [hgraph, hgraph']
    exact ⟨Graph.validate_congr rfl rfl rfl, fun hnamed hnamed' z =>
      Ascending.ext (Set.ext_iff.1 (hdistinct.boundBy_eq hnamed hnamed' z))⟩

variable [QualifierLattice σ τ]

/-- Two graphs that are valid alike have solutions that compare, or neither has one. -/
lemma matches_solved {R : Solution → Solution → Prop} (hs : s.Coherent) (hs' : s'.Coherent)
    (hvalidate : s.graph.validate = s'.graph.validate)
    (hR : s.graph.Named → s'.graph.Named → R s.graph.solve s'.graph.solve) :
    Matches (fun p q => R p.1 q.1) s.solved s'.solved := by
  rcases hs.solved_cases with ⟨f, hf, hsolved⟩ | ⟨hok, s₁, hsolved⟩
  · rcases hs'.solved_cases with ⟨f', hf', hsolved'⟩ | ⟨hok', -⟩
    · have hfault : f = f' := Except.error.inj (hf.symm.trans (hvalidate.trans hf'))
      rw [hsolved, hsolved', hfault]
      exact .error rfl
    · rw [hvalidate, hok'] at hf
      cases hf
  · rcases hs'.solved_cases with ⟨f', hf', -⟩ | ⟨hok', s₂, hsolved'⟩
    · rw [← hvalidate, hok] at hf'
      cases hf'
    · rw [hsolved, hsolved']
      exact .ok (hR (Graph.validate_eq_ok_iff.1 hok) (Graph.validate_eq_ok_iff.1 hok'))

/-- Merging two effect variables comes to the same as equating them: every effect has the same
members, and the same inclusions fail.  Merging two store variables comes to the same as equating
them: every store has the same domain. -/
theorem merging_is_equating (h : Reachable s) (position : Position) (merging message : String) :
    (∀ a b, Command.Mergeable s.graph a → Command.Mergeable s.graph b →
      ∃ merged equated, s.mergeEffects a b = .ok merged ∧
        s.equateEffects position a b = .ok equated ∧
        Matches (fun p q => SameMembers merged.graph equated.graph p.1 q.1)
          merged.solved equated.solved) ∧
    ∀ x y, Command.MergeableStore s.graph x → Command.MergeableStore s.graph y →
      ∃ merged equated, s.mergeStores position merging x y = .ok merged ∧
        s.equateStores position message x y = .ok equated ∧
        Matches (fun p q => ∀ z, p.1.domainOf (merged.graph.stores.root z) =
          q.1.domainOf (equated.graph.stores.root z)) merged.solved equated.solved := by
  have hs := h.coherent.sound
  -- Both ways are moves of the session, so either solution is that of its graph.
  have hcoherent {c : Command τ} {s' : Session σ τ} (hbuilds : Builds False c s s') :
      s'.Coherent :=
    h.coherent.moves (Or.inl hbuilds)
  constructor
  · intro a b ha hb
    obtain ⟨merged, equated, hmerge, hequate, hvalidate, hsame⟩ :=
      exists_sameMembers position hs ha hb
    exact ⟨merged, equated, hmerge, hequate,
      matches_solved (hcoherent (builds_mergeEffects hs hmerge))
        (hcoherent (builds_equateEffects hs hequate)) hvalidate fun _ _ => hsame⟩
  · intro x y hx hy
    obtain ⟨merged, equated, hmerge, hequate, hvalidate, hsame⟩ :=
      exists_sameDomains position merging message hs hx hy
    exact ⟨merged, equated, hmerge, hequate,
      matches_solved (R := fun sol sol' => ∀ z, sol.domainOf (merged.graph.stores.root z) =
          sol'.domainOf (equated.graph.stores.root z))
        (hcoherent (builds_mergeStores hs hmerge))
        (hcoherent (builds_equateStores hs hequate)) hvalidate hsame⟩

/-- A read flows into the first of three effect variables, and the third, which contains the second,
is to be included in another read.  An allocated location flows into the first of three store
variables, and the second flows into the third. -/
def variablesScript : List (Command Int) :=
  [.makeLocation "l" 0, .makeLocation "m" 0, .atom .read ⟨0⟩, .atom .read ⟨1⟩,
    .effectVariable "a", .effectVariable "b", .effectVariable "c",
    .includeEffect .internal ⟨1⟩ ⟨3⟩, .includeEffect .internal ⟨4⟩ ⟨5⟩,
    .includeEffect .internal ⟨5⟩ ⟨2⟩, .storeVariable .internal "base",
    .allocate .internal ⟨0⟩ ⟨0⟩, .storeVariable .internal "x", .storeVariable .internal "y",
    .storeVariable .internal "z", .includeStore .internal "into x" ⟨1⟩ ⟨2⟩,
    .includeStore .internal "into z" ⟨3⟩ ⟨4⟩]

/-- When the first two effect variables are made equal, in either way, the read reaches the third,
and the inclusion of the third in the other read fails.  When the first two store variables are made
equal, in either way, the third binds the location. -/
theorem merging_is_equating_reached :
    ∃ s : Session Level Int, Reachable s ∧
      (∃ merged equated p q, s.mergeEffects ⟨3⟩ ⟨4⟩ = .ok merged ∧
        s.equateEffects .internal ⟨3⟩ ⟨4⟩ = .ok equated ∧
        merged.graph.effects.root ⟨3⟩ = merged.graph.effects.root ⟨4⟩ ∧
        equated.graph.effects.root ⟨3⟩ ≠ equated.graph.effects.root ⟨4⟩ ∧
        merged.solved = .ok p ∧ equated.solved = .ok q ∧
        SameMembers merged.graph equated.graph p.1 q.1 ∧ p.1.violations = [2] ∧
        (p.1.membersOf (merged.graph.effects.root ⟨5⟩)).toList = [⟨0, .read⟩]) ∧
      ∃ merged equated p q, s.mergeStores .internal "merged" ⟨2⟩ ⟨3⟩ = .ok merged ∧
        s.equateStores .internal "equated" ⟨2⟩ ⟨3⟩ = .ok equated ∧
        merged.solved = .ok p ∧ equated.solved = .ok q ∧
        (∀ z, p.1.domainOf (merged.graph.stores.root z) =
          q.1.domainOf (equated.graph.stores.root z)) ∧
        (p.1.domainOf (merged.graph.stores.root ⟨4⟩)).toList = [0] := by
  have hrun : (follow (fun _ _ => True) (start ⟨2, false⟩ Level.mk) variablesScript).any fun s =>
      succeeds (s.mergeEffects ⟨3⟩ ⟨4⟩) fun m =>
        succeeds (s.equateEffects .internal ⟨3⟩ ⟨4⟩) fun e =>
          succeeds m.solved fun p => succeeds e.solved fun _ =>
            succeeds (s.mergeStores .internal "merged" ⟨2⟩ ⟨3⟩) fun m' =>
              succeeds (s.equateStores .internal "equated" ⟨2⟩ ⟨3⟩) fun e' =>
                succeeds m'.solved fun p' => succeeds e'.solved fun _ => List.and
                  [s.graph.effects.size = 6, s.graph.stores.size = 5,
                    (s.graph.effects.nodeAt 3).isVariable = true,
                    (s.graph.effects.nodeAt 4).isVariable = true,
                    (s.graph.stores.nodeAt 2).isVariable = true,
                    (s.graph.stores.nodeAt 3).isVariable = true,
                    m.graph.effects.root ⟨3⟩ = m.graph.effects.root ⟨4⟩,
                    e.graph.effects.root ⟨3⟩ ≠ e.graph.effects.root ⟨4⟩, p.1.violations = [2],
                    (p.1.membersOf (m.graph.effects.root ⟨5⟩)).toList = [⟨0, .read⟩],
                    (p'.1.domainOf (m'.graph.stores.root ⟨4⟩)).toList = [0]] := by
    decide +kernel
  simp only [Option.any_eq_true, succeeds_eq_true, and_decide_cons, List.and_nil, and_true] at hrun
  obtain ⟨s, hfollow, m, hm, e, he, p, hp, q, hq, m', hm', e', he', p', hp', q', hq', hsize, hsize',
    ha, hb, hx, hy, hone, htwo, hviolations, hmembers, hdomain⟩ := hrun
  have hs : Reachable s := reachableBy_of_follow hfollow
  obtain ⟨heffects, hstores⟩ := merging_is_equating hs .internal "merged" "equated"
  refine ⟨s, hs, ⟨m, e, p, q, hm, he, hone, htwo, hp, hq, ?_, hviolations, hmembers⟩, m', e', p',
    q', hm', he', hp', hq', ?_, hdomain⟩
  · obtain ⟨m₁, e₁, hm₁, he₁, hmatches⟩ := heffects ⟨3⟩ ⟨4⟩
      ⟨hsize ▸ (by decide), ha⟩ ⟨hsize ▸ (by decide), hb⟩
    cases hm.symm.trans hm₁
    cases he.symm.trans he₁
    exact hmatches.rel_of_ok hp hq
  · obtain ⟨m₁, e₁, hm₁, he₁, hmatches⟩ := hstores ⟨2⟩ ⟨3⟩
      ⟨hsize' ▸ (by decide), hx⟩ ⟨hsize' ▸ (by decide), hy⟩
    cases hm'.symm.trans hm₁
    cases he'.symm.trans he₁
    exact hmatches.rel_of_ok hp' hq'

end Session

end HeapQual
