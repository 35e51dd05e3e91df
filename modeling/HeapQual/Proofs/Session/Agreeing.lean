import HeapQual.Proofs.Constraints
import HeapQual.Proofs.Session.Growth
import HeapQual.Proofs.Session.Replaying
import HeapQual.Proofs.Session.Violations

/-!
# Graphs that agree are judged alike

Graphs that agree differ in the roots of their classes, so an access stands at different locations
in them; carried from one to the other and back it is the same again
(`Graph.Agrees.relocate_relocate`).  Hence the same questions get the same answers, the same
inclusions fail, and an exclusion is violated in as many classes of the one as of the other
(`Graph.Agrees.length_violators`).

So closing two open sessions whose graphs agree, and in which the same things wait, gives the same
count, or the same fault (`Session.matches_close`).
-/

namespace HeapQual

namespace Graph

variable {τ : Type} {g g' g'' : Graph τ} {e : EffectId} {x : Access} {l : Nat}

namespace Agrees

variable (h : g.Agrees g')

include h

theorem touches_eq (e : EffectId) (a : LocationId) (kind : Kind) :
    g.solve.touches (g.effects.root e) (g.classOf a) kind =
      g'.solve.touches (g'.effects.root e) (g'.classOf a) kind :=
  Bool.eq_iff_iff.2
    ⟨h.absorbs.touches h.left h.right, h.absorbed.touches h.right h.left⟩

lemma touched_relocate (hx : g.Touched e x) : g'.Touched e (g'.relocate x) := by
  obtain ⟨y, hy, hlocation, hoverlaps⟩ := hx
  refine ⟨g'.relocate y, h.absorbs.mem_accessesOf h.left h.right hy, ?_, hoverlaps⟩
  rw [relocate, relocate, hlocation]

/-- A root is again a root when it is looked up in the other graph and then in its own. -/
lemma classOf_classOf (hl : l ∈ g.locations.roots) : g.classOf ⟨g'.classOf ⟨l⟩⟩ = l :=
  (h.absorbed.classOf_root ⟨l⟩).trans ((Forest.Sound.mem_roots l).1 hl).2

lemma relocate_relocate (hx : x.location ∈ g.locations.roots) :
    g.relocate (g'.relocate x) = x := by
  rw [relocate, relocate, h.classOf_classOf hx]

lemma fails_of_fails {inc : Inclusion} (hfails : g.Fails inc) : g'.Fails inc := by
  obtain ⟨hclosed, x, hx, huntouched⟩ := hfails
  have hroot : x.location ∈ g.locations.roots := h.left.mem_roots_of_mem_members hx
  refine ⟨?_, g'.relocate x, h.absorbs.mem_accessesOf h.left h.right hx, fun htouched => ?_⟩
  · rw [h.left.effects.hasVariables_congr h.right.effects h.nodes_eq, hclosed]
  · exact huntouched (h.relocate_relocate hroot ▸ h.symm.touched_relocate htouched)

/-- The same inclusions fail. -/
lemma fails_iff (inc : Inclusion) : g.Fails inc ↔ g'.Fails inc :=
  ⟨h.fails_of_fails, h.symm.fails_of_fails⟩

/-- What is violated in a class is violated in the class that it is in the other graph. -/
lemma violates {r : Restriction} (hviolates : g.Violates r l) :
    g'.Violates r (g'.classOf ⟨l⟩) := by
  cases r with
  | location a kind e =>
    obtain ⟨rfl, htouched⟩ := hviolates
    exact ⟨h.absorbs.classOf_root a, h.touched_relocate htouched⟩
  | disjoint e₁ e₂ =>
    obtain ⟨x, hx, rfl, htouched⟩ := hviolates
    exact ⟨g'.relocate x, h.absorbs.mem_accessesOf h.left h.right hx, rfl,
      h.touched_relocate htouched⟩
  | everywhere kind e => exact h.touched_relocate hviolates
  | implies kind₁ e₁ kind₂ e₂ =>
    exact ⟨h.touched_relocate hviolates.1, h.touched_relocate hviolates.2⟩

lemma length_violators_le (r : Restriction) :
    (g.violators r).length ≤ (g'.violators r).length := by
  have hroots : ∀ l ∈ g.violators r, l ∈ g.locations.roots := fun l hl => (List.mem_filter.1 hl).1
  have hnodup : ((g.violators r).map fun l => g'.classOf ⟨l⟩).Nodup := by
    refine List.Nodup.map_on (fun l hl l' hl' heq => ?_) ((Forest.Sound.nodup_roots _).filter _)
    rw [← h.classOf_classOf (hroots l hl), heq, h.classOf_classOf (hroots l' hl')]
  have hsub : ((g.violators r).map fun l => g'.classOf ⟨l⟩) ⊆ g'.violators r := by
    intro m hm
    obtain ⟨l, hl, rfl⟩ := List.mem_map.1 hm
    have hlt : l < g.locations.size := by
      rw [← h.left.locations.size_classes]
      exact ((Forest.Sound.mem_roots l).1 (hroots l hl)).1
    refine List.mem_filter.2 ⟨h.right.locations.root_mem_roots (h.size_eq ▸ hlt), ?_⟩
    exact decide_eq_true (h.violates (of_decide_eq_true (List.mem_filter.1 hl).2))
  have hle := (List.subperm_of_subset hnodup hsub).length_le
  rwa [List.length_map] at hle

theorem length_violators (r : Restriction) :
    (g.violators r).length = (g'.violators r).length :=
  (h.length_violators_le r).antisymm (h.symm.length_violators_le r)

end Agrees

/-! ## Counting the inclusions that fail -/

lemma Redundant.not_fails {inc : Inclusion} (h : g.Redundant inc) : ¬g.Fails inc := by
  rintro ⟨-, x, hx, huntouched⟩
  exact huntouched (touched_of_mem (h x hx))

lemma length_failing (g : Graph τ) :
    g.failing.length = g.effects.inclusions.toList.countP fun inc => g.Fails inc := by
  conv_rhs => rw [← List.zipIdx_map_fst 0 g.effects.inclusions.toList]
  rw [List.countP_map, List.countP_eq_length_filter]
  rfl

namespace Constrained

variable {merged merged' united united' : List (Nat × Nat)} {asked asked' : List Inclusion}

/-- What is not recorded does not fail, so the pieces that were asked for can be counted. -/
lemma length_failing (h : Constrained merged united asked g g') :
    g'.failing.length =
      (g.effects.inclusions.toList ++ asked).countP fun inc => g'.Fails inc := by
  obtain ⟨dropped, hperm, hredundant⟩ := h.recorded
  have hdropped : dropped.countP (fun inc => decide (g'.Fails inc)) = 0 := by
    refine List.countP_eq_zero.2 fun inc hinc hfails => ?_
    exact (hredundant inc hinc g' (.refl h.sound) h.sound).not_fails (of_decide_eq_true hfails)
  rw [← hperm.countP_eq, List.countP_append, hdropped, Nat.add_zero, Graph.length_failing]

/-- If the same is asked for, as many inclusions fail. -/
lemma length_failing_eq (h : Constrained merged united asked g g')
    (h' : Constrained merged' united' asked' g g'') (hagrees : g'.Agrees g'')
    (hasked : asked.Perm asked') : g'.failing.length = g''.failing.length := by
  rw [h.length_failing, h'.length_failing, (hasked.append_left _).countP_eq]
  exact List.countP_congr fun inc _ => by
    rw [decide_eq_true_iff, decide_eq_true_iff, hagrees.fails_iff]

end Constrained

/-! ## Validation -/

lemma Agrees.find_location (h : g.Agrees g') (a : LocationId) :
    Matches (fun _ _ => True) (g.locations.find a) (g'.locations.find a) := by
  unfold Locations.find
  rw [h.size_eq]
  split
  · exact .ok trivial
  · exact .error rfl

lemma Agrees.find_effect (h : g.Agrees g') (e : EffectId) :
    Matches (fun _ _ => True) (g.effects.find e) (g'.effects.find e) := by
  unfold Effects.find Effects.size
  rw [h.nodes_eq]
  split
  · exact .ok trivial
  · exact .error rfl

/-- The same stores are valid. -/
lemma Agrees.validate_eq (h : g.Agrees g') : g.validate = g'.validate :=
  (validate_congr (congrArg Stores.nodes h.stores_eq) h.size_eq
    (congrArg Array.size h.nodes_eq)).symm

end Graph

namespace Session

variable {σ τ : Type} {g g' : Graph τ} {s s' : Session σ τ} {t t' : Tally σ τ}

/-! ## Checking -/

lemma asks_of_unknown (sol : Solution) {e : EffectId} (he : ¬e.index < s.graph.effects.size)
    (location : Nat) (kind : Kind) : s.asks sol location kind e = .error (.unknownEffect e) := by
  unfold asks Effects.find
  rw [if_neg he]
  rfl

lemma checkLocation_of_unknown (sol : Solution) {e : EffectId}
    (he : ¬e.index < t.2.graph.effects.size) (position : Position) (kind : Kind) (location : Nat) :
    checkLocation sol position kind e t location = .error (.unknownEffect e) := by
  obtain ⟨count, s⟩ := t
  unfold checkLocation
  dsimp only
  rw [asks_of_unknown sol he]
  rfl

lemma exists_checkLocations (sol : Solution) {e : EffectId} {locations : List Nat}
    (h : locations = [] ∨ e.index < t.2.graph.effects.size) (position : Position) (kind : Kind) :
    ∃ t', locations.foldlM (checkLocation sol position kind e) t = .ok t' := by
  rcases h with rfl | he
  · exact ⟨t, rfl⟩
  · obtain ⟨count, s⟩ := t
    obtain ⟨count', s', h⟩ : ∃ count' s',
        locations.foldlM (checkLocation sol position kind e) (count, s) = .ok (count', s') := by
      refine exists_foldlM (g := s.graph) (fun location _ count₁ s₁ hs₁ => ?_) count rfl
      obtain ⟨count₂, s₂, h₂, hs₂⟩ := exists_checkLocation (s := s₁) sol (hs₁ ▸ he) position kind
        count₁ location
      exact ⟨count₂, s₂, h₂, hs₂.trans hs₁⟩
    exact ⟨_, h⟩

lemma checkLocations_of_unknown (sol : Solution) {e : EffectId} {locations : List Nat}
    (h : ¬(locations = [] ∨ e.index < t.2.graph.effects.size)) (position : Position) (kind : Kind) :
    locations.foldlM (checkLocation sol position kind e) t = .error (.unknownEffect e) := by
  rw [not_or] at h
  cases locations with
  | nil => exact absurd rfl h.1
  | cons location locations =>
    rw [List.foldlM_cons, checkLocation_of_unknown sol h.2]
    rfl

lemma exists_checkAllShared (sol : Solution) {e : EffectId} {accesses : List Access}
    (h : accesses = [] ∨ e.index < t.2.graph.effects.size) (position : Position) :
    ∃ t', checkShared sol position e accesses none t = .ok t' := by
  rcases h with rfl | he
  · exact ⟨t, rfl⟩
  · obtain ⟨count, s', h⟩ := exists_checkShared sol he position accesses none t.1
    exact ⟨_, h⟩

lemma checkShared_of_unknown (sol : Solution) {e : EffectId} {accesses : List Access}
    (h : ¬(accesses = [] ∨ e.index < t.2.graph.effects.size)) (position : Position) :
    checkShared sol position e accesses none t = .error (.unknownEffect e) := by
  rw [not_or] at h
  cases accesses with
  | nil => exact absurd rfl h.1
  | cons access accesses =>
    obtain ⟨count, s⟩ := t
    unfold checkShared
    rw [if_neg (by simp), asks_of_unknown sol h.2]
    rfl

/-- Two checks have counted the same so far, each against the solution of its own graph. -/
structure Tied (g g' : Graph τ) (t t' : Tally σ τ) : Prop where
  count_eq : t.1 = t'.1
  left : Checking g t.2
  right : Checking g' t'.2

/-- Checks against graphs that agree fail alike. -/
lemma matches_checkLocations (h : g.Agrees g') (ht : Tied g g' t t') (position : Position)
    (kind : Kind) (e : EffectId) (locations locations' : List Nat)
    (hnil : locations = [] ↔ locations' = []) :
    Matches (fun _ _ => True) (locations.foldlM (checkLocation g.solve position kind e) t)
      (locations'.foldlM (checkLocation g'.solve position kind e) t') := by
  refine .of_iff (exists_checkLocations _ · position kind)
    (checkLocations_of_unknown _ · position kind) (exists_checkLocations _ · position kind)
    (checkLocations_of_unknown _ · position kind) (or_congr hnil ?_)
  rw [ht.left.graph_eq, ht.right.graph_eq, Effects.size, Effects.size, h.nodes_eq]

lemma matches_checkShared (h : g.Agrees g') (ht : Tied g g' t t') (position : Position)
    (e : EffectId) {accesses accesses' : List Access} (hnil : accesses = [] ↔ accesses' = []) :
    Matches (fun _ _ => True) (checkShared g.solve position e accesses none t)
      (checkShared g'.solve position e accesses' none t') := by
  refine .of_iff (exists_checkAllShared _ · position) (checkShared_of_unknown _ · position)
    (exists_checkAllShared _ · position) (checkShared_of_unknown _ · position) (or_congr hnil ?_)
  rw [ht.left.graph_eq, ht.right.graph_eq, Effects.size, Effects.size, h.nodes_eq]

lemma roots_eq_nil_iff (h : g.Agrees g') :
    g.locations.roots = [] ↔ g'.locations.roots = [] := by
  have hsize : ∀ {g : Graph τ}, g.Sound → (g.locations.roots = [] ↔ g.locations.size = 0) := by
    intro g hg
    constructor
    · intro hnil
      by_contra hne
      have hmem : g.locations.root ⟨0⟩ ∈ g.locations.roots :=
        hg.locations.root_mem_roots (Nat.pos_of_ne_zero hne)
      exact List.not_mem_nil (hnil ▸ hmem)
    · intro hzero
      refine List.eq_nil_iff_forall_not_mem.2 fun l hl => ?_
      have hlt := ((Forest.Sound.mem_roots l).1 hl).1
      rw [hg.locations.size_classes, hzero] at hlt
      exact Nat.not_lt_zero _ hlt
  rw [hsize h.left, hsize h.right, h.size_eq]

lemma accesses_eq_nil (h : g.Agrees g') {e : EffectId} (hnil : (g.accessesOf e).toList = []) :
    (g'.accessesOf e).toList = [] := by
  refine List.eq_nil_iff_forall_not_mem.2 fun x hx => ?_
  have hmem : g.relocate x ∈ (g.accessesOf e).toList :=
    h.absorbed.mem_accessesOf h.right h.left hx
  exact List.not_mem_nil (hnil ▸ hmem)

lemma candidates_eq_nil (h : g.Agrees g') {e : EffectId} {kind : Kind}
    (hnil : candidates (g.accessesOf e) kind = []) : candidates (g'.accessesOf e) kind = [] := by
  refine List.eq_nil_iff_forall_not_mem.2 fun l hl => ?_
  have hmem := mem_candidates.2 (h.symm.touched_relocate (mem_candidates.1 hl))
  exact List.not_mem_nil (hnil ▸ hmem)

/-- The check of an exclusion fails in both graphs or in none. -/
lemma matches_outcome (h : g.Agrees g') (ht : Tied g g' t t') (x : Exclusion) :
    Matches (fun _ _ => True) (checkExclusion g.solve t x) (checkExclusion g'.solve t' x) := by
  obtain ⟨position, restriction⟩ := x
  cases restriction with
  | location a kind e =>
    unfold checkExclusion
    dsimp only
    rw [ht.left.graph_eq, ht.right.graph_eq]
    refine (h.find_location a).bind fun l l' _ => ?_
    have hsingle := matches_checkLocations h ht position kind e [l] [l'] (by simp)
    simpa only [List.foldlM_cons, List.foldlM_nil, bind_pure] using hsingle
  | disjoint e₁ e₂ =>
    unfold checkExclusion
    dsimp only
    rw [ht.left.graph_eq, ht.right.graph_eq]
    refine (h.find_effect e₁).and_eq.bind ?_
    rintro _ _ ⟨-, hroot, hroot'⟩
    -- A check can fail only at a location that it looks at, so all that matters is whether there
    -- are any.
    obtain ⟨-, rfl⟩ := Effects.find_eq_ok_iff.1 hroot
    obtain ⟨-, rfl⟩ := Effects.find_eq_ok_iff.1 hroot'
    exact matches_checkShared h ht position e₂ ⟨accesses_eq_nil h, accesses_eq_nil h.symm⟩
  | everywhere kind e =>
    unfold checkExclusion
    dsimp only
    rw [ht.left.graph_eq, ht.right.graph_eq]
    exact matches_checkLocations h ht position kind e _ _ (roots_eq_nil_iff h)
  | implies kind₁ e₁ kind₂ e₂ =>
    unfold checkExclusion
    dsimp only
    rw [ht.left.graph_eq, ht.right.graph_eq]
    refine (h.find_effect e₁).and_eq.bind ?_
    rintro _ _ ⟨-, hroot, hroot'⟩
    obtain ⟨-, rfl⟩ := Effects.find_eq_ok_iff.1 hroot
    obtain ⟨-, rfl⟩ := Effects.find_eq_ok_iff.1 hroot'
    exact matches_checkLocations h ht position kind₂ e₂ _ _
      ⟨candidates_eq_nil h, candidates_eq_nil h.symm⟩

/-- An exclusion counts for as much in the one graph as in the other. -/
lemma matches_checkExclusion (h : g.Agrees g') (ht : Tied g g' t t') (x : Exclusion) :
    Matches (Tied g g') (checkExclusion g.solve t x) (checkExclusion g'.solve t' x) := by
  refine (matches_outcome h ht x).and_eq.imp ?_
  rintro t₁ t₁' ⟨-, hok, hok'⟩
  have hfinds := finds_checkExclusion h.left ht.left hok
  have hfinds' := finds_checkExclusion h.right ht.right hok'
  refine ⟨?_, hfinds.checking, hfinds'.checking⟩
  rw [hfinds.count_eq, hfinds'.count_eq, ht.count_eq, Graph.complaints, Graph.complaints,
    List.length_map, List.length_map, h.length_violators]

/-! ## Closing -/

/-- The check of a fresh session after the inclusions that fail were reported. -/
def firstTally (s : Session σ τ) : Tally σ τ :=
  ({ s.firstSolved with exclusions := [] } : Session σ τ).reportViolations s.graph.solve

lemma Fresh.finds_firstTally (hs : s.Fresh) (hg : s.graph.Sound)
    (hasked : s.questions.slots = []) :
    ∃ s₁, Finds s.graph (s.graph.failing.map s.graph.refusal) (0, s₁) s.firstTally :=
  ⟨_, finds_reportViolations hg ⟨rfl, Cache.obeys_of_slots_eq_nil hasked⟩ hs.reported_eq⟩

variable [QualifierLattice σ τ]

/-- What waits to be settled still waits when the exclusions have been checked. -/
lemma requests_of_checks
    (h : s.exclusions.foldlM (checkExclusion s.graph.solve) s.firstTally = .ok t) :
    t.2.requests = s.requests := by
  obtain ⟨count, s'⟩ := t
  obtain ⟨talk, questions, reported, rfl, -⟩ :=
    (chats_reportViolations _ _).trans (consults_checkExclusions h).chats
  rfl

lemma matches_settleDue (h : s.graph.Agrees s'.graph) (hrequests : s.requests = s'.requests)
    (sol sol' : Solution) :
    Matches (fun _ _ => True) (s.settleDue sol) (s'.settleDue sol') := by
  unfold settleDue
  rw [hrequests]
  refine (Corresponds.mapM (fun r => ?_) s'.requests).bind fun _ _ _ => .ok trivial
  unfold requestedSeeds findCell
  rw [h.stores_eq]
  refine Corresponds.bind (R := fun _ _ => True) ?_ fun _ _ _ => .ok trivial
  refine (Matches.of_eq rfl).bind fun _ _ _ => ?_
  exact (h.find_location r.location).bind fun _ _ _ => .ok trivial

lemma Fresh.close_of_invalid (hs : s.Fresh) (hopened : s.phase = .opened) {fault : Fault}
    (hvalidate : s.graph.validate = .error fault) : s.close = .error fault := by
  have hsolved : s.solved = .error fault := by
    unfold solved
    rw [hs.solution_eq, hvalidate]
    rfl
  unfold close
  rw [hopened, hsolved]
  rfl

lemma Fresh.close_eq_bind (hs : s.Fresh) (hopened : s.phase = .opened)
    (hvalidate : s.graph.validate = .ok ()) :
    s.close = s.exclusions.foldlM (checkExclusion s.graph.solve) s.firstTally >>= fun t =>
      ({ t.2 with phase := .closed } : Session σ τ).settleDue s.graph.solve >>= fun s' =>
        .ok (.ok t.1, s'.note (.exclusionsChecked s.exclusions.length t.1)) := by
  unfold close
  rw [hopened, hs.solved_eq hopened hvalidate]
  rfl

/-- Open sessions whose graphs agree, in which as many inclusions fail, and in which the same things
wait, are closed with the same count or the same fault. -/
theorem matches_close (h : s.graph.Agrees s'.graph)
    (hfailing : s.graph.failing.length = s'.graph.failing.length)
    (hs : s.Fresh) (hs' : s'.Fresh) (hopened : s.phase = .opened) (hopened' : s'.phase = .opened)
    (hasked : s.questions.slots = []) (hasked' : s'.questions.slots = [])
    (hexclusions : s.exclusions = s'.exclusions) (hrequests : s.requests = s'.requests) :
    Matches (fun p p' => p.1 = p'.1) s.close s'.close := by
  cases hvalidate : s.graph.validate with
  | error fault =>
    rw [hs.close_of_invalid hopened hvalidate,
      hs'.close_of_invalid hopened' (h.validate_eq ▸ hvalidate)]
    exact .error rfl
  | ok =>
    obtain ⟨_, hfinds⟩ := hs.finds_firstTally h.left hasked
    obtain ⟨_, hfinds'⟩ := hs'.finds_firstTally h.right hasked'
    -- The tallies begin with the same count, and each exclusion adds the same to both.
    have htied : Tied s.graph s'.graph s.firstTally s'.firstTally := by
      refine ⟨?_, hfinds.checking, hfinds'.checking⟩
      rw [hfinds.count_eq, hfinds'.count_eq, List.length_map, List.length_map, hfailing]
    have hchecks := Corresponds.foldlM_same (fun _ _ x ht => matches_checkExclusion h ht x)
      s.exclusions htied
    rw [hs.close_eq_bind hopened hvalidate,
      hs'.close_eq_bind hopened' (h.validate_eq ▸ hvalidate), ← hexclusions]
    refine hchecks.and_eq.bind ?_
    rintro t t' ⟨ht, hok, hok'⟩
    refine (matches_settleDue ?_ ?_ _ _).bind fun _ _ _ => .ok (congrArg Except.ok ht.count_eq)
    · rw [ht.left.graph_eq, ht.right.graph_eq]
      exact h
    · rw [requests_of_checks hok, requests_of_checks (hexclusions ▸ hok'), hrequests]

end Session

end HeapQual
