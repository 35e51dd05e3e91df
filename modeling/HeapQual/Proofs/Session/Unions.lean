import HeapQual.Lattice.Level
import HeapQual.Proofs.Session.Agreeing
import HeapQual.Proofs.Session.Inclusions
import HeapQual.Proofs.Session.Recipes
import HeapQual.Proofs.Session.Reporting

/-!
# Unions by their parts

Whatever a memo table has forgotten, the union of two effects has the parts of the one and the parts
of the other, and it keeps having them (`Session.union_spans`).  So unions of the same operands are
known to be equal, in whichever order, nesting and multiplicity the operands were united
(`Nesting.Unites.knownEqual`).

An operand is included in the union from the start.  That it is asked for can leave inclusions on
record, but none of them ever fails, and they could be erased without a trace (`Session.Idle`).
-/

namespace HeapQual

namespace Graph

variable {τ : Type} {g g₀ : Graph τ} {first last : Nat} {e₁ e₂ u : EffectId}
  {operands : List EffectId}

/-! ## Spanning -/

/-- The parts of the effect are the parts of these effects. -/
def Spans (g : Graph τ) (operands : List EffectId) (u : EffectId) : Prop :=
  ∀ x, x ∈ g.partsOf u ↔ ∃ e ∈ operands, x ∈ g.partsOf e

/-- The parts of an effect stay the parts of the effects that they are parts of. -/
lemma Spans.extends (h : g₀.Spans operands u) (hext : g₀.Extends g) (hg₀ : g₀.Sound) (hg : g.Sound)
    (hu : u.index < g₀.effects.size) (hlt : ∀ e ∈ operands, e.index < g₀.effects.size) :
    g.Spans operands u := by
  intro x
  rw [hext.partsOf_eq hg₀ hg hu, List.mem_map]
  constructor
  · rintro ⟨y, hy, rfl⟩
    obtain ⟨e, he, hy⟩ := (h y).1 hy
    refine ⟨e, he, ?_⟩
    rw [hext.partsOf_eq hg₀ hg (hlt e he)]
    exact List.mem_map_of_mem hy
  · rintro ⟨e, he, hx⟩
    rw [hext.partsOf_eq hg₀ hg (hlt e he)] at hx
    obtain ⟨y, hy, rfl⟩ := List.mem_map.1 hx
    exact ⟨y, (h y).2 ⟨e, he, hy⟩, rfl⟩

/-- Effects whose parts are those of the same effects are known to be equal. -/
lemma Spans.knownEqual {operands' : List EffectId} {u' : EffectId} (h : g.Spans operands u)
    (h' : g.Spans operands' u') (hsame : ∀ e, e ∈ operands ↔ e ∈ operands') :
    g.effects.knownEqual g.classOf u u' = true := by
  have hiff (x) : x ∈ g.partsOf u ↔ x ∈ g.partsOf u' := by
    rw [h x, h' x]
    exact exists_congr fun e => and_congr_left' (hsame e)
  exact Effects.knownEqual_iff.2 ⟨fun x => (hiff x).1, fun x => (hiff x).2⟩

lemma Sound.spans_unionNode (hg : g.Sound) (hnode : g.effects.node u = Effects.unionNode e₁ e₂) :
    g.Spans [e₁, e₂] u := by
  intro x
  have hparts : g.partsOf u = g.partsOf ⟨min e₁.index e₂.index⟩ ++
      g.partsOf ⟨max e₁.index e₂.index⟩ := hg.effects.leaves_of_union hnode
  rcases le_total e₁.index e₂.index with hle | hle
  · rw [hparts, min_eq_left hle, max_eq_right hle]
    simp
  · rw [hparts, min_eq_right hle, max_eq_left hle]
    simp [or_comm]

/-! ## Erasing inclusions -/

/-- The graph without the inclusions whose numbers are in this range. -/
def eraseInclusions (g : Graph τ) (first last : Nat) : Graph τ :=
  { g with
    effects := { g.effects with
      inclusions := (g.effects.inclusions.toList.take first ++
        g.effects.inclusions.toList.drop last).toArray } }

lemma mem_of_mem_eraseInclusions {inc : Inclusion}
    (h : inc ∈ (g.eraseInclusions first last).effects.inclusions) :
    inc ∈ g.effects.inclusions := by
  rw [eraseInclusions, List.mem_toArray, List.mem_append] at h
  exact Array.mem_toList_iff.1 (h.elim List.mem_of_mem_take List.mem_of_mem_drop)

/-- What is erased has a number in the range. -/
lemma mem_eraseInclusions_or (first last : Nat) {inc : Inclusion}
    (h : inc ∈ g.effects.inclusions) :
    inc ∈ (g.eraseInclusions first last).effects.inclusions ∨
      ∃ number, first ≤ number ∧ number < last ∧
        g.effects.inclusions[number]? = some inc := by
  obtain ⟨number, hget⟩ := Array.mem_iff_getElem?.1 h
  have hlist : g.effects.inclusions.toList[number]? = some inc := by
    rw [Array.getElem?_toList]
    exact hget
  by_cases hfirst : number < first
  · refine Or.inl (List.mem_toArray.2 (List.mem_append_left _ ?_))
    exact List.mem_of_getElem? (List.getElem?_take_of_lt hfirst ▸ hlist)
  · by_cases hlast : number < last
    · exact Or.inr ⟨number, not_lt.1 hfirst, hlast, hget⟩
    · refine Or.inl (List.mem_toArray.2 (List.mem_append_right _ ?_))
      refine List.mem_of_getElem? (i := number - last) ?_
      rw [List.getElem?_drop, Nat.add_sub_cancel' (not_lt.1 hlast)]
      exact hlist

lemma Sound.eraseInclusions (hg : g.Sound) (first last : Nat) :
    (g.eraseInclusions first last).Sound where
  locations := hg.locations
  effects :=
    { classes := hg.effects.classes
      size_classes := hg.effects.size_classes
      head := hg.effects.head
      atom_lt := hg.effects.atom_lt
      operand_lt := hg.effects.operand_lt
      merged := hg.effects.merged
      inclusion_lt := fun inc h => hg.effects.inclusion_lt inc (mem_of_mem_eraseInclusions h)
      target_not_inter := fun inc h =>
        hg.effects.target_not_inter inc (mem_of_mem_eraseInclusions h) }
  stores := hg.stores

/-- Erasing inclusions that came later leaves a graph that the former one has grown into. -/
lemma Extends.eraseInclusions (h : g₀.Extends g) (last : Nat) :
    g₀.Extends (g.eraseInclusions g₀.effects.inclusions.size last) where
  locations := h.locations
  effects := h.effects
  stores := h.stores
  effect_eq := h.effect_eq
  store_eq := h.store_eq
  inclusion_eq number inc hinc := by
    have hlt := (Array.getElem?_eq_some_iff.1 hinc).1
    have hget : g.effects.inclusions.toList[number]? = some inc := by
      rw [Array.getElem?_toList]
      exact h.inclusion_eq number inc hinc
    have hlength : number < (g.effects.inclusions.toList.take
        g₀.effects.inclusions.size).length := by
      rw [List.length_take]
      exact lt_min hlt (List.getElem?_eq_some_iff.1 hget).1
    rw [Graph.eraseInclusions, List.getElem?_toArray, List.getElem?_append_left hlength,
      List.getElem?_take_of_lt hlt]
    exact hget
  edge_eq := h.edge_eq
  size_locations := h.size_locations
  size_effects := h.size_effects
  size_stores := h.size_stores

/-- Erasing inclusions that hold anyway leaves a graph that agrees with the whole one. -/
lemma agrees_eraseInclusions (hg : g.Sound)
    (hidle : ∀ number inc, first ≤ number → number < last →
      g.effects.inclusions[number]? = some inc → (g.eraseInclusions first last).Redundant inc) :
    (g.eraseInclusions first last).Agrees g := by
  have hcoarser : (g.eraseInclusions first last).Coarser g :=
    ⟨fun a => hg.locations.classes.root_root a.index,
      fun e => hg.effects.classes.root_root e.index, fun _ _ => rfl⟩
  have hcoarser' : g.Coarser (g.eraseInclusions first last) :=
    ⟨hcoarser.classOf_root, hcoarser.root_root, fun _ _ => rfl⟩
  have herased := hg.eraseInclusions first last
  refine ⟨herased, hg, ⟨hcoarser, fun inc hinc hmentions x hx => ?_⟩,
    ⟨hcoarser', fun inc hinc hmentions => ?_⟩, rfl, rfl, rfl⟩
  · have hmentions' : g.effects.MentionsVariable (g.effects.root inc.target) :=
      hcoarser.root_root inc.target ▸ hcoarser.mentionsVariable hg hmentions
    exact (hg.effects.respects_members hg.classOf_lt).inclusion inc
      (mem_of_mem_eraseInclusions hinc) hmentions' hx
  · rcases mem_eraseInclusions_or first last hinc with hkept | hdropped
    · have hmentions' := hcoarser'.root_root inc.target ▸
        hcoarser'.mentionsVariable herased hmentions
      exact fun x hx => (herased.effects.respects_members herased.classOf_lt).inclusion inc hkept
        hmentions' hx
    · obtain ⟨number, hfirst, hlast, hget⟩ := hdropped
      exact hidle number inc hfirst hlast hget

lemma Redundant.not_mem_violations (hg : g.Sound) {number : Nat} {inc : Inclusion}
    (h : g.Redundant inc) (hinc : g.effects.inclusions[number]? = some inc) :
    number ∉ g.solve.violations := by
  intro hmem
  obtain ⟨inc', hinc', -, x, hx, hnone⟩ := hg.effects.mem_violations.1 hmem
  cases Option.some.inj (hinc'.symm.trans hinc)
  exact absurd (hnone x (h x hx) rfl) (by simp [Kind.overlaps_self])

end Graph

/-- A way to unite effects, by unions of unions. -/
inductive Nesting where
  | operand (e : EffectId)
  | union (left right : Nesting)

/-- The effects that are united. -/
def Nesting.operands : Nesting → List EffectId
  | operand e => [e]
  | union left right => left.operands ++ right.operands

namespace Session

variable {σ τ : Type} {s s' s₁ s₂ s₃ : Session σ τ} {e e₁ e₂ u : EffectId} {position : Position}

/-! ## Making unions -/

lemma exists_union (h₁ : e₁.index < s.graph.effects.size) (h₂ : e₂.index < s.graph.effects.size) :
    ∃ u s₁, s.union e₁ e₂ = .ok (u, s₁) := by
  unfold union
  split
  · exact ⟨_, _, rfl⟩
  · split
    · exact ⟨_, _, rfl⟩
    · rw [knownEqual_eq_ok_iff.2 ⟨⟨h₁, h₂⟩, rfl⟩]
      dsimp only [bind, Except.bind]
      split
      · exact ⟨_, _, rfl⟩
      · exact ⟨_, _, rfl⟩

/-- The parts of a union are those of its operands, now and whenever the graph has grown. -/
lemma union_spans [QualifierLattice σ τ] (hrecipes : s.recipes.Obeys s.graph.effects.Makes)
    (hs : s.graph.Sound) (h : s.union e₁ e₂ = .ok (u, s₁)) {g : Graph τ}
    (hext : s₁.graph.Extends g) (hg : g.Sound) : g.Spans [e₁, e₂] u := by
  have hempty : g.partsOf .empty = [] := hg.effects.leaves_empty
  have hs₁ := ((builds_union (P := False) hs h).grows hs).sound
  rcases union_cases hrecipes hs h with
    ⟨rfl, ⟨rfl, rfl⟩ | ⟨rfl, rfl⟩ | ⟨hequal, rfl⟩⟩ | ⟨-, henters, -⟩
  · intro x
    simp [hempty]
  · intro x
    simp [hempty]
  · obtain ⟨⟨h₁, h₂⟩, hknown⟩ := knownEqual_eq_ok_iff.1 hequal
    obtain ⟨-, hback⟩ := Effects.knownEqual_iff.1 (hext.knownEqual hs hg h₁ h₂ hknown)
    have hback : ∀ x ∈ g.partsOf e₂, x ∈ g.partsOf u := hback
    intro x
    simpa using hback x
  · refine hg.spans_unionNode ((hext.node_eq hs₁ hg henters.lt ?_).trans henters.node_eq)
    rw [henters.node_eq]
    rfl

lemma lt_of_union (hrecipes : s.recipes.Obeys s.graph.effects.Makes) (hs : s.graph.Sound)
    (h : s.union e₁ e₂ = .ok (u, s₁)) (h₁ : e₁.index < s.graph.effects.size)
    (h₂ : e₂.index < s.graph.effects.size) : u.index < s₁.graph.effects.size := by
  rcases union_cases hrecipes hs h with
    ⟨rfl, ⟨rfl, rfl⟩ | ⟨rfl, rfl⟩ | ⟨-, rfl⟩⟩ | ⟨-, henters, -⟩
  · exact h₂
  · exact h₁
  · exact h₁
  · exact henters.lt

/-! ## Including the operands -/

/-- The inclusions that are recorded because one effect is to be included in another which has its
parts are redundant for good. -/
lemma redundant_of_includeEffect (hs : s.graph.Sound)
    (hparts : s.graph.partsOf e ⊆ s.graph.partsOf u)
    (h : s.includeEffect position e u = .ok s₂) {number : Nat} {inc : Inclusion}
    (hfirst : s.graph.effects.inclusions.size ≤ number)
    (hinc : s₂.graph.effects.inclusions[number]? = some inc) {g : Graph τ}
    (hext : s.graph.Extends g) (hg : g.Sound) : g.Redundant inc := by
  obtain ⟨hlt, rfl⟩ := includeEffect_eq_ok h
  obtain ⟨dropped, hperm, -⟩ := hs.exists_dropped position hlt
  have hpiece : inc ∈ s.graph.effects.pieces position e u := by
    refine hperm.subset (List.mem_append_left _ ?_)
    rw [← Array.getElem?_toList, inclusions_includeSteps,
      List.getElem?_append_right (by simpa using hfirst)] at hinc
    exact List.mem_of_getElem? hinc
  cases hempty : e.isEmpty with
  | true =>
    rw [Effects.pieces, Effects.piecesFrom_of_isEmpty hempty] at hpiece
    exact absurd hpiece List.not_mem_nil
  | false =>
    obtain ⟨he, hu⟩ := hlt hempty
    exact Graph.redundant_of_leaves hext hs hg he he hu hparts hpiece

variable [QualifierLattice σ τ]

/-- The inclusions with numbers in this range do not matter: none of them fails or was reported, and
without them all effects have the same members and the same inclusions fail. -/
structure Idle (s : Session σ τ) (first last : Nat) : Prop where
  not_failing : ∀ number, first ≤ number → number < last → number ∉ s.graph.solve.violations
  not_reported : ∀ number, first ≤ number → number < last → number ∉ denounced s.talk.journal
  accesses_eq : ∀ e, (s.graph.eraseInclusions first last).accessesOf e = s.graph.accessesOf e
  fails_iff : ∀ inc, (s.graph.eraseInclusions first last).Fails inc ↔ s.graph.Fails inc

/-- What is recorded because one effect is to be included in another which has its parts does not
matter from then on. -/
lemma idle_of_includeEffect (h : Reachable s) (hparts : s.graph.partsOf e ⊆ s.graph.partsOf u)
    {reply : Reply τ} (hexec : s.exec (.includeEffect position e u) = .ok (reply, s₂))
    (hrun : Runs (fun _ _ => True) s₂ s₃) :
    s₃.Idle s.graph.effects.inclusions.size s₂.graph.effects.inclusions.size := by
  have hs := h.coherent.sound
  have hstep : Runs (fun _ _ => True) s s₂ := .exec .refl trivial hexec
  have h₂ := h.run hstep
  have hinclude : s.includeEffect position e u = .ok s₂ :=
    of_bind_session (Q := fun s₂ => s.includeEffect position e u = .ok s₂) (fun _ => id)
      (perform_eq_ok_of_exec hexec)
  have hlater {s₁ : Session σ τ} (hrun₁ : Runs (fun _ _ => True) s₂ s₁) :=
    hrun₁.grows (P := False) h₂.coherent.sound fun _ _ _ => False.elim
  have hredundant {s₁ : Session σ τ} (hrun₁ : Runs (fun _ _ => True) s₂ s₁) {number : Nat}
      (hfirst : s.graph.effects.inclusions.size ≤ number)
      (hlast : number < s₂.graph.effects.inclusions.size) :
      ∃ inc, s₁.graph.effects.inclusions[number]? = some inc ∧
        ∀ g, s.graph.Extends g → g.Sound → g.Redundant inc := by
    obtain ⟨inc, hinc⟩ : ∃ inc, s₂.graph.effects.inclusions[number]? = some inc :=
      ⟨_, Array.getElem?_eq_getElem hlast⟩
    exact ⟨inc, (hlater hrun₁).inclusion_eq number inc hinc,
      fun g => redundant_of_includeEffect hs hparts hinclude hfirst hinc⟩
  have hext {s₁ : Session σ τ} (hrun₁ : Runs (fun _ _ => True) s₂ s₁) :=
    ((hstep.trans hrun₁).grows (P := False) hs fun _ _ _ => False.elim).toExtends
  have hholds {s₁ : Session σ τ} (hrun₁ : Runs (fun _ _ => True) s₂ s₁) {number : Nat}
      (hfirst : s.graph.effects.inclusions.size ≤ number)
      (hlast : number < s₂.graph.effects.inclusions.size) :
      number ∉ s₁.graph.solve.violations := by
    obtain ⟨inc, hinc, hholds⟩ := hredundant hrun₁ hfirst hlast
    have hs₁ := (hlater hrun₁).sound
    exact (hholds _ (hext hrun₁) hs₁).not_mem_violations hs₁ hinc
  have hs₃ := (hlater hrun).sound
  have hagrees : (s₃.graph.eraseInclusions s.graph.effects.inclusions.size
      s₂.graph.effects.inclusions.size).Agrees s₃.graph := by
    refine Graph.agrees_eraseInclusions hs₃ fun number inc hfirst hlast hinc => ?_
    obtain ⟨inc', hinc', hholds⟩ := hredundant hrun hfirst hlast
    cases Option.some.inj (hinc'.symm.trans hinc)
    exact hholds _ ((hext hrun).eraseInclusions _) (hs₃.eraseInclusions _ _)
  refine ⟨fun number => hholds hrun, fun number hfirst hlast hreported => ?_,
    fun e => Ascending.ext fun x => ?_, hagrees.fails_iff⟩
  · -- Asking for an inclusion reports nothing, and whatever is reported later fails then.
    rcases exists_failing_of_denounced h₂ hrun hreported with hold | ⟨s₁, hrun₁, -, hfails⟩
    · rw [denounced_of_not_inquiring h.coherent.sound (by exact id) hexec] at hold
      exact absurd (ReachableBy.denounced_lt h hold) (not_lt.2 hfirst)
    · exact hholds hrun₁ hfirst hlast hfails
  · exact ⟨hagrees.absorbs.carries.mem_of_locations_eq hagrees.left hagrees.right rfl,
      hagrees.absorbed.carries.mem_of_locations_eq hagrees.right hagrees.left rfl⟩

end Session

/-! ## Nested unions -/

namespace Nesting

open Session

variable {σ τ : Type} [QualifierLattice σ τ] {s : Session σ τ} {p p' : Nesting} {u u' : EffectId}

/-- The effect was made in this way: by one union after the other, with anything else done in
between. -/
inductive Unites : Nesting → EffectId → Session σ τ → Prop
  | operand {s : Session σ τ} {e : EffectId} :
      Reachable s → e.index < s.graph.effects.size → Unites (.operand e) e s
  | union {s s' : Session σ τ} {left right : Nesting} {e₁ e₂ u : EffectId} :
      Unites left e₁ s → Unites right e₂ s → s.exec (.union e₁ e₂) = .ok (.effect u, s') →
      Unites (.union left right) u s'
  | later {s s' : Session σ τ} {p : Nesting} {u : EffectId} :
      Unites p u s → Runs (fun _ _ => True) s s' → Unites p u s'

/-- The effect and the effects that were united exist, and it has the parts that they have. -/
structure Spanned (p : Nesting) (u : EffectId) (s : Session σ τ) : Prop where
  reachable : Reachable s
  operand_lt : ∀ e ∈ p.operands, e.index < s.graph.effects.size
  lt : u.index < s.graph.effects.size
  spans : s.graph.Spans p.operands u

lemma Spanned.later {s' : Session σ τ} (h : p.Spanned u s) (hrun : Runs (fun _ _ => True) s s') :
    p.Spanned u s' := by
  have hs := h.reachable.coherent.sound
  have hgrows := hrun.grows (P := False) hs fun _ _ _ => False.elim
  exact ⟨h.reachable.run hrun, fun e he => (h.operand_lt e he).trans_le hgrows.size_effects,
    h.lt.trans_le hgrows.size_effects,
    h.spans.extends hgrows.toExtends hs hgrows.sound h.lt h.operand_lt⟩

theorem Unites.spanned (h : p.Unites u s) : p.Spanned u s := by
  induction h with
  | operand hreachable he =>
    exact ⟨hreachable, fun e h => List.mem_singleton.1 h ▸ he, he, fun x => by simp [operands]⟩
  | @union s s' left right e₁ e₂ u _ _ hexec ihl ihr =>
    have hs := ihl.reachable.coherent.sound
    have hrecipes := ReachableBy.recipes_obey ihl.reachable
    have hunion : s.union e₁ e₂ = .ok (u, s') := by
      obtain ⟨⟨u', s₁⟩, hunion, h⟩ := bind_eq_ok_iff.1 (perform_eq_ok_of_exec hexec)
      cases h
      exact hunion
    have hstep : Runs (fun _ _ => True) s s' := .exec .refl trivial hexec
    have hleft := ihl.later hstep
    have hright := ihr.later hstep
    have hs' := hleft.reachable.coherent.sound
    refine ⟨hleft.reachable, fun e he => ?_, lt_of_union hrecipes hs hunion ihl.lt ihr.lt,
      fun x => ?_⟩
    · exact (List.mem_append.1 he).elim (hleft.operand_lt e) (hright.operand_lt e)
    · rw [union_spans hrecipes hs hunion (.refl hs') hs' x]
      simp only [List.mem_cons, List.not_mem_nil, or_false, exists_eq_or_imp, exists_eq_left]
      rw [hleft.spans x, hright.spans x]
      simp only [operands, List.mem_append, or_and_right, exists_or]
  | later _ hrun ih => exact ih.later hrun

theorem Unites.knownEqual (h : p.Unites u s) (h' : p'.Unites u' s)
    (hsame : ∀ e, e ∈ p.operands ↔ e ∈ p'.operands) : s.knownEqual u u' = .ok true :=
  knownEqual_eq_ok_iff.2 ⟨⟨h.spanned.lt, h'.spanned.lt⟩,
    h.spanned.spans.knownEqual h'.spanned.spans hsame⟩

end Nesting

namespace Session

variable {σ τ : Type} [QualifierLattice σ τ] {s : Session σ τ}

/-- Whatever the memo table has forgotten, the union of two effects has the parts of the one and of
the other, from then on.  Each of the two can then be constrained to be included in it, and what is
recorded of that never fails, is never reported and never makes a difference.  Unions of the same
effects are known to be equal, in whichever order, nesting and multiplicity they were united. -/
theorem union_parts_for_good (h : Reachable s) :
    (∀ e₁ e₂, e₁.index < s.graph.effects.size → e₂.index < s.graph.effects.size →
      (∃ u s₁, s.union e₁ e₂ = .ok (u, s₁)) ∧
      ∀ u s₁ s', s.exec (.union e₁ e₂) = .ok (.effect u, s₁) → Runs (fun _ _ => True) s₁ s' →
        (∀ x, x ∈ s'.graph.partsOf u ↔ x ∈ s'.graph.partsOf e₁ ∨ x ∈ s'.graph.partsOf e₂) ∧
        ∀ e ∈ [e₁, e₂], ∀ position, (∃ s₂, s'.includeEffect position e u = .ok s₂) ∧
          ∀ reply s₂ s₃, s'.exec (.includeEffect position e u) = .ok (reply, s₂) →
            Runs (fun _ _ => True) s₂ s₃ →
            s₃.Idle s'.graph.effects.inclusions.size s₂.graph.effects.inclusions.size) ∧
      ∀ (p p' : Nesting) u u', p.Unites u s → p'.Unites u' s →
        (∀ e, e ∈ p.operands ↔ e ∈ p'.operands) → s.knownEqual u u' = .ok true := by
  refine ⟨fun e₁ e₂ h₁ h₂ => ⟨exists_union h₁ h₂, fun u s₁ s' hexec hrun => ?_⟩,
    fun p p' u u' hp hp' hsame => hp.knownEqual hp' hsame⟩
  -- Being united by a nesting survives the run, so everything below is read off in the later
  -- session.
  have hunites : (Nesting.union (.operand e₁) (.operand e₂)).Unites u s' :=
    .later (.union (.operand h h₁) (.operand h h₂) hexec) hrun
  obtain ⟨hs', hlt, hu, hspans⟩ := hunites.spanned
  have hparts : ∀ x, x ∈ s'.graph.partsOf u ↔
      x ∈ s'.graph.partsOf e₁ ∨ x ∈ s'.graph.partsOf e₂ := by
    intro x
    rw [hspans x]
    simp [Nesting.operands]
  refine ⟨hparts, fun e he position => ⟨⟨_, includeEffect_of_lt fun _ => ⟨?_, hu⟩⟩,
    fun reply s₂ s₃ hinclude hlater => ?_⟩⟩
  · exact hlt e (by simpa [Nesting.operands] using he)
  · refine idle_of_includeEffect hs' (fun x hx => (hspans x).2 ⟨e, ?_, hx⟩) hinclude hlater
    simpa [Nesting.operands] using he

/-- Three effect variables. -/
def threeVariablesScript : List (Command Int) :=
  [.effectVariable "a", .effectVariable "b", .effectVariable "c"]

/-- With a memo table of one slot, three variables are united in two ways, and then the first two of
them once more, which gives a new effect.  The two unions of all three are known to be equal, and
what is recorded when the first variable is to be included in the new effect does not matter. -/
theorem union_parts_for_good_forgotten :
    ∃ s s₁ s₂ s₃ : Session Level Int, Reachable s ∧ s.knownEqual ⟨5⟩ ⟨7⟩ = .ok true ∧
      (s.graph.effects.node ⟨4⟩ = .union ⟨1⟩ ⟨2⟩ ∧
        s.exec (.union ⟨1⟩ ⟨2⟩) = .ok (.effect ⟨8⟩, s₁)) ∧
      s₁.exec (.includeEffect .internal ⟨1⟩ ⟨8⟩) = .ok (.done, s₂) ∧
      s₂.graph.effects.inclusions.size = 1 ∧ s₂.exec .close = .ok (.number 0, s₃) ∧
      s₃.Idle 0 1 := by
  have hsame (e : EffectId) :
      e ∈ (Nesting.union (.union (.operand ⟨1⟩) (.operand ⟨2⟩)) (.operand ⟨3⟩)).operands ↔
        e ∈ (Nesting.union (.union (.operand ⟨3⟩) (.operand ⟨2⟩)) (.operand ⟨1⟩)).operands := by
    simp only [Nesting.operands, List.mem_append, List.mem_singleton]
    tauto
  have hrun : (follow (fun _ _ => True) (start ⟨0, false⟩ Level.mk) threeVariablesScript).any
      fun s₀ => succeeds (s₀.exec (.union ⟨1⟩ ⟨2⟩)) fun p₁ =>
      succeeds (p₁.2.exec (.union ⟨4⟩ ⟨3⟩)) fun p₂ =>
        succeeds (p₂.2.exec (.union ⟨3⟩ ⟨2⟩)) fun p₃ => succeeds (p₃.2.exec (.union ⟨6⟩ ⟨1⟩))
          fun p₄ => succeeds (p₄.2.exec (.union ⟨1⟩ ⟨2⟩)) fun p₅ =>
            succeeds (p₅.2.exec (.includeEffect .internal ⟨1⟩ ⟨8⟩)) fun p₆ =>
              succeeds (p₆.2.exec .close) fun p₇ => List.and
                [p₁.1 = .effect ⟨4⟩, p₂.1 = .effect ⟨5⟩, p₃.1 = .effect ⟨6⟩, p₄.1 = .effect ⟨7⟩,
                  p₅.1 = .effect ⟨8⟩, p₆.1 = .done, p₇.1 = .number 0, s₀.graph.effects.size = 4,
                  p₄.2.graph.effects.node ⟨4⟩ = .union ⟨1⟩ ⟨2⟩,
                  p₅.2.graph.effects.inclusions.size = 0,
                  p₆.2.graph.effects.inclusions.size = 1] := by
    decide +kernel
  simp only [Option.any_eq_true, succeeds_eq_true, and_decide_cons, List.and_nil, and_true] at hrun
  obtain ⟨s₀, hfollow, ⟨_, s₁⟩, h₁, ⟨_, s₂⟩, h₂, ⟨_, s₃⟩, h₃, ⟨_, s₄⟩, h₄, ⟨_, s₅⟩, h₅, ⟨_, s₆⟩, h₆,
    ⟨_, s₇⟩, h₇, rfl, rfl, rfl, rfl, rfl, rfl, rfl, hsize, hnode, hnone, hone⟩ := hrun
  have step {s s' : Session Level Int} {c : Command Int} {reply : Reply Int}
      (h : s.exec c = .ok (reply, s')) : Runs (fun _ _ => True) s s' :=
    .exec .refl trivial h
  have hs₀ : Reachable s₀ := reachableBy_of_follow hfollow
  have variable_unites {e : EffectId} (he : e.index < 4) : (Nesting.operand e).Unites e s₀ :=
    .operand hs₀ (hsize ▸ he)
  -- The two ways in which the variables are united, each followed by what was done after it.
  have hleft :
      (Nesting.union (.union (.operand ⟨1⟩) (.operand ⟨2⟩)) (.operand ⟨3⟩)).Unites ⟨5⟩ s₂ :=
    .union (.union (variable_unites (by decide)) (variable_unites (by decide)) h₁)
      (.later (variable_unites (by decide)) (step h₁)) h₂
  have hto₂ : Runs (fun _ _ => True) s₀ s₂ := (step h₁).trans (step h₂)
  have hto₃ : Runs (fun _ _ => True) s₀ s₃ := hto₂.trans (step h₃)
  have hright :
      (Nesting.union (.union (.operand ⟨3⟩) (.operand ⟨2⟩)) (.operand ⟨1⟩)).Unites ⟨7⟩ s₄ :=
    .union (.union (.later (variable_unites (by decide)) hto₂)
      (.later (variable_unites (by decide)) hto₂) h₃)
      (.later (variable_unites (by decide)) hto₃) h₄
  have hs₄ : Reachable s₄ := hright.spanned.reachable
  have hold {e : EffectId} (he : e.index < 4) : e.index < s₄.graph.effects.size :=
    (Nesting.Unites.later (variable_unites he) (hto₃.trans (step h₄))).spanned.lt
  obtain ⟨hunion, hnested⟩ := union_parts_for_good hs₄
  obtain ⟨-, hparts⟩ := hunion ⟨1⟩ ⟨2⟩ (hold (by decide)) (hold (by decide))
  obtain ⟨-, hincludes⟩ := hparts ⟨8⟩ s₅ s₅ h₅ .refl
  obtain ⟨-, hidle⟩ := hincludes ⟨1⟩ (by simp) .internal
  have hidle := hidle .done s₆ s₇ h₆ (step h₇)
  rw [hnone, hone] at hidle
  exact ⟨s₄, s₅, s₆, s₇, hs₄,
    hnested _ _ _ _ (.later hleft ((step h₃).trans (step h₄))) hright hsame,
    ⟨hnode, h₅⟩, h₆, hone, h₇, hidle⟩

end Session

end HeapQual
