import HeapQual.Lattice.Level
import HeapQual.Proofs.Effect.Coverage
import HeapQual.Proofs.Session.Closing
import HeapQual.Proofs.Session.Freshness
import HeapQual.Proofs.Session.Speaking
import Mathlib.Algebra.GroupWithZero.Nat

/-!
# What is found to be violated

The members of the effects of a graph decide which of the recorded inclusions fail
(`Graph.failing`), and in which classes of locations an exclusion is violated (`Graph.Violates`,
`Graph.violators`).  Closing a session counts all of these, and makes one diagnostic for each
(`Session.close_counts_violations`): first the inclusions in the order in which they were recorded,
then the exclusions in the order in which they were made, each with its classes in ascending order.
Only then cells are settled, so diagnostics about stores come last.

An exclusion that two effects share no location is checked access by access.  The accesses to one
location stand together, which is why it is enough to remember the location reported last
(`Session.finds_checkShared`).
-/

namespace HeapQual

/-- Accesses ascend by location. -/
lemma Access.location_le {x y : Access} (h : compare x y = .lt) : x.location ≤ y.location := by
  have hlex : (compareOn location x y).then (compareOn kind x y) = .lt := h
  rcases Ordering.then_eq_lt.1 hlex with hlt | ⟨heq, -⟩
  · exact (Nat.compare_eq_lt.1 hlt).le
  · exact (Nat.compare_eq_eq.1 heq).le

namespace Graph

variable {τ : Type} {g : Graph τ} {e e₁ e₂ : EffectId} {x : Access} {l : Nat}

/-! ## What is violated -/

instance (g : Graph τ) (e : EffectId) (x : Access) : Decidable (g.Touched e x) :=
  decidable_of_iff _ touches_iff_touched

/-- The inclusion is one that is checked, and an access of its source is missing in its target. -/
def Fails (g : Graph τ) (inc : Inclusion) : Prop :=
  g.effects.hasVariables inc.target = false ∧
    ∃ x ∈ (g.accessesOf inc.source).toList, ¬g.Touched inc.target x

instance (g : Graph τ) (inc : Inclusion) : Decidable (g.Fails inc) :=
  inferInstanceAs (Decidable (_ ∧ _))

lemma fails_eq_true_iff {inc : Inclusion} : g.fails inc = true ↔ g.Fails inc := by
  have hwithin : (g.accessesOf inc.source).within (g.accessesOf inc.target) = true ↔
      ∀ x ∈ (g.accessesOf inc.source).toList, g.Touched inc.target x :=
    Members.within_iff.trans (forall₂_congr fun _ _ => touches_iff_touched)
  rw [fails, Fails, Bool.and_eq_true_iff, Bool.not_eq_true', Bool.not_eq_true']
  refine and_congr_right' ?_
  rw [← Bool.not_eq_true, hwithin]
  push Not
  rfl

/-- The inclusions that fail, with their numbers. -/
def failing (g : Graph τ) : List (Inclusion × Nat) :=
  g.effects.inclusions.toList.zipIdx.filter fun (inc, _) => g.Fails inc

/-- The restriction is violated in the class with this root. -/
def Violates (g : Graph τ) : Restriction → Nat → Prop
  | .location a kind e, l => l = g.classOf a ∧ g.Touched e ⟨l, kind⟩
  | .disjoint e₁ e₂, l => ∃ x ∈ (g.accessesOf e₁).toList, x.location = l ∧ g.Touched e₂ x
  | .everywhere kind e, l => g.Touched e ⟨l, kind⟩
  | .implies kind₁ e₁ kind₂ e₂, l => g.Touched e₁ ⟨l, kind₁⟩ ∧ g.Touched e₂ ⟨l, kind₂⟩

instance (g : Graph τ) : (r : Restriction) → (l : Nat) → Decidable (g.Violates r l)
  | .location .., _ => inferInstanceAs (Decidable (_ ∧ _))
  | .disjoint .., _ => inferInstanceAs (Decidable (∃ x ∈ _, _))
  | .everywhere .., _ => inferInstanceAs (Decidable (g.Touched ..))
  | .implies .., _ => inferInstanceAs (Decidable (_ ∧ _))

/-- The classes in which the restriction is violated, by their roots in ascending order. -/
def violators (g : Graph τ) (r : Restriction) : List Nat :=
  g.locations.roots.filter fun l => g.Violates r l

/-! ## What is reported -/

/-- The diagnostic for an inclusion that fails. -/
def refusal (g : Graph τ) : Inclusion × Nat → Diagnostic
  | (inc, number) => ⟨inc.position,
    .notIncluded number (g.effectText inc.source) (g.effectText inc.target)⟩

/-- The first access of one effect to the location that overlaps one of the other. -/
def firstShared? (g : Graph τ) (e₁ e₂ : EffectId) (l : Nat) : Option Access :=
  (g.accessesOf e₁).toList.find? fun x => decide (x.location = l) && decide (g.Touched e₂ x)

/-- The diagnostic for an exclusion that is violated in the class with this root. -/
def complaint (g : Graph τ) (x : Exclusion) (l : Nat) : Diagnostic :=
  let name := g.locations.nameOf l
  ⟨x.position, match x.restriction with
    | .location _ kind _ => .excluded kind l name
    | .disjoint e₁ e₂ => .shared (((g.firstShared? e₁ e₂ l).map Access.kind).getD .any) l name
    | .everywhere kind _ => .excluded kind l name
    | .implies _ _ kind _ => .excluded kind l name⟩

/-- All diagnostics for an exclusion. -/
def complaints (g : Graph τ) (x : Exclusion) : List Diagnostic :=
  (g.violators x.restriction).map (g.complaint x)

/-! ## Listing the violations -/

lemma ext_of_ascending {as bs : List Nat} (has : as.Pairwise (· < ·)) (hbs : bs.Pairwise (· < ·))
    (h : ∀ n, n ∈ as ↔ n ∈ bs) : as = bs :=
  Ascending.eq_of_ascends (has.imp Nat.compare_eq_lt.2) (hbs.imp Nat.compare_eq_lt.2) h

lemma ascending_roots (g : Graph τ) : g.locations.roots.Pairwise (· < ·) :=
  List.pairwise_lt_range.filter _

/-- However they were found, the classes in which a restriction is violated are its violators, if
they were found in ascending order. -/
lemma eq_violators {r : Restriction} {found : List Nat} (hascending : found.Pairwise (· < ·))
    (h : ∀ l, l ∈ found ↔ l ∈ g.locations.roots ∧ g.Violates r l) : found = g.violators r := by
  refine ext_of_ascending hascending (g.ascending_roots.filter _) fun l => ?_
  rw [h, violators, List.mem_filter, decide_eq_true_iff]

lemma of_firstShared? (h : g.firstShared? e₁ e₂ l = some x) :
    x ∈ g.accessesOf e₁ ∧ x.location = l ∧ g.Touched e₂ x := by
  refine ⟨List.mem_of_find?_eq_some h, ?_⟩
  simpa using List.find?_some h

namespace Sound

variable (hg : g.Sound)

include hg

lemma mem_roots_of_touched (h : g.Touched e x) : x.location ∈ g.locations.roots := by
  obtain ⟨y, hy, hlocation, -⟩ := h
  exact hlocation ▸ hg.mem_roots_of_mem_members hy

/-- The inclusions that the solution lists as failing are those that fail. -/
lemma violations_eq_failing : g.solve.violations = g.failing.map Prod.snd := by
  rw [hg.violations_eq, failing]
  refine congrArg (List.map Prod.snd) (List.filter_congr fun numbered _ => ?_)
  rw [Bool.eq_iff_iff, fails_eq_true_iff, decide_eq_true_iff]

end Sound

end Graph

namespace Session

variable {σ τ : Type} {g : Graph τ} {s s' : Session σ τ} {t t' t'' : Tally σ τ}

/-! ## Checking -/

/-- The session is checked against the solution of this graph. -/
structure Checking (g : Graph τ) (s : Session σ τ) : Prop where
  graph_eq : s.graph = g
  answers : s.questions.Obeys g.solve.Answers

/-- A question is answered as the members of the effect say. -/
lemma Checking.asks_eq (hs : Checking g s) {location : Nat} {kind : Kind} {e : EffectId}
    {answer : Bool} (h : s.asks g.solve location kind e = .ok (answer, s')) :
    answer = decide (g.Touched e ⟨location, kind⟩) := by
  have hanswer := asks_answer hs.answers location kind e
  obtain ⟨root, hfind, -⟩ := bind_eq_ok_iff.1 h
  rw [h, hfind] at hanswer
  obtain ⟨-, rfl⟩ := Effects.find_eq_ok_iff.1 hfind
  have heq : answer = g.solve.touches (s.graph.effects.root e) location kind :=
    Except.ok.inj hanswer
  rw [heq, hs.graph_eq, Bool.eq_iff_iff, decide_eq_true_iff]
  exact Graph.touches_iff_touched

/-- A check counted and reported these violations. -/
structure Finds (g : Graph τ) (found : List Diagnostic) (t t' : Tally σ τ) : Prop where
  checking : Checking g t'.2
  count_eq : t'.1 = t.1 + found.length
  errors_eq : t'.2.talk.errors.toList = t.2.talk.errors.toList ++ found

namespace Finds

variable {found found' : List Diagnostic}

lemma nil (ht : Checking g t.2) : Finds g [] t t := ⟨ht, rfl, (List.append_nil _).symm⟩

lemma trans (h : Finds g found t t') (h' : Finds g found' t' t'') :
    Finds g (found ++ found') t t'' := by
  refine ⟨h'.checking, ?_, ?_⟩
  · rw [h'.count_eq, h.count_eq, List.length_append, Nat.add_assoc]
  · rw [h'.errors_eq, h.errors_eq, List.append_assoc]

/-- A violation is counted and reported. -/
lemma report (hs : Checking g s) (count : Nat) (position : Position) (cause : Cause) :
    Finds g [⟨position, cause⟩] (count, s) (count + 1, s.report position cause) := by
  refine ⟨⟨hs.graph_eq, hs.answers⟩, rfl, ?_⟩
  exact Array.toList_push

/-- Several things are checked one after the other. -/
lemma foldlM {α : Type} {f : Tally σ τ → α → Except Fault (Tally σ τ)}
    {violations : α → List Diagnostic} {items : List α}
    (hf : ∀ item ∈ items, ∀ t t' : Tally σ τ, Checking g t.2 → f t item = .ok t' →
      Finds g (violations item) t t')
    (ht : Checking g t.2) (h : items.foldlM f t = .ok t') :
    Finds g (items.flatMap violations) t t' := by
  induction items generalizing t with
  | nil =>
    cases h
    exact .nil ht
  | cons item items ih =>
    obtain ⟨t₁, h₁, h⟩ := bind_eq_ok_iff.1 h
    have hfirst := hf item (List.mem_cons_self ..) t t₁ ht h₁
    exact hfirst.trans (ih (fun i hi => hf i (List.mem_cons_of_mem _ hi)) hfirst.checking h)

end Finds

/-- Asking a question finds nothing. -/
lemma finds_asks (ht : Checking g t.2) {location : Nat} {kind : Kind} {e : EffectId}
    {answer : Bool} (h : t.2.asks g.solve location kind e = .ok (answer, s')) :
    Finds g [] t (t.1, s') := by
  obtain ⟨questions, rfl, hanswers⟩ := asks_eq_ok h
  exact ⟨⟨ht.graph_eq, hanswers ht.answers⟩, rfl, (List.append_nil _).symm⟩

lemma finds_checkLocation {position : Position} {kind : Kind} {e : EffectId} {location : Nat}
    (ht : Checking g t.2) (h : checkLocation g.solve position kind e t location = .ok t') :
    Finds g (([location].filter fun l => g.Touched e ⟨l, kind⟩).map fun l =>
      ⟨position, .excluded kind l (g.locations.nameOf l)⟩) t t' := by
  obtain ⟨⟨found, s₁⟩, hasks, h⟩ := bind_eq_ok_iff.1 h
  have hanswer := ht.asks_eq hasks
  have hasked := finds_asks ht hasks
  dsimp only at h
  split at h
  · rename_i hfound
    cases h
    have htouched := of_decide_eq_true (hanswer.symm.trans hfound)
    have hgraph : s₁.graph = g := hasked.checking.graph_eq
    rw [List.filter_cons_of_pos (by simpa using htouched), hgraph]
    exact hasked.trans (.report hasked.checking _ _ _)
  · rename_i hfound
    cases h
    have huntouched : ¬g.Touched e ⟨location, kind⟩ := by
      rw [hanswer, decide_eq_true_iff] at hfound
      exact hfound
    rw [List.filter_cons_of_neg (by simpa using huntouched)]
    exact hasked

lemma finds_checkLocations {position : Position} {kind : Kind} {e : EffectId}
    {locations : List Nat} (ht : Checking g t.2)
    (h : locations.foldlM (checkLocation g.solve position kind e) t = .ok t') :
    Finds g ((locations.filter fun l => g.Touched e ⟨l, kind⟩).map fun l =>
      ⟨position, .excluded kind l (g.locations.nameOf l)⟩) t t' := by
  have hfinds : Finds g (locations.flatMap fun l =>
      ([l].filter fun l => g.Touched e ⟨l, kind⟩).map fun l =>
        ⟨position, .excluded kind l (g.locations.nameOf l)⟩) t t' :=
    .foldlM (fun _ _ _ _ ht h => finds_checkLocation ht h) ht h
  rwa [← List.map_flatMap, ← List.filter_flatMap, List.flatMap_singleton'] at hfinds

/-- Accesses that share a location with the effect are found in the order in which they are given,
one for each location but the one reported last. -/
lemma finds_checkShared {position : Position} {e : EffectId} {accesses : List Access}
    {last : Option Nat} (ht : Checking g t.2)
    (hascending : accesses.Pairwise fun x y => x.location ≤ y.location)
    (hlast : ∀ l ∈ last, ∀ x ∈ accesses, l ≤ x.location)
    (h : checkShared g.solve position e accesses last t = .ok t') :
    ∃ found : List Access, found.Pairwise (fun x y => x.location < y.location) ∧
      (∀ x, x ∈ found ↔ x.location ∉ last ∧ accesses.find? (fun y =>
        decide (y.location = x.location) && decide (g.Touched e y)) = some x) ∧
      Finds g (found.map fun x =>
        ⟨position, .shared x.kind x.location (g.locations.nameOf x.location)⟩) t t' := by
  induction accesses generalizing last t with
  | nil =>
    cases h
    exact ⟨[], .nil, fun x => by simp, .nil ht⟩
  | cons access accesses ih =>
    obtain ⟨hfirst, hascending⟩ := List.pairwise_cons.1 hascending
    have hrest : ∀ l ∈ last, ∀ x ∈ accesses, l ≤ x.location := fun l hl x hx =>
      hlast l hl x (List.mem_cons_of_mem _ hx)
    unfold checkShared at h
    split at h
    · -- The location was reported already.
      rename_i hreported
      obtain ⟨found, hpairwise, hmem, hfinds⟩ := ih ht hascending hrest h
      refine ⟨found, hpairwise, fun x => ?_, hfinds⟩
      rw [hmem, and_congr_right_iff]
      intro hne
      rw [List.find?_cons_of_neg]
      simp only [Bool.and_eq_true, decide_eq_true_iff, not_and]
      exact fun heq => absurd (heq ▸ hreported) hne
    · rename_i hunreported
      obtain ⟨⟨answer, s₁⟩, hasks, h⟩ := bind_eq_ok_iff.1 h
      have hanswer := ht.asks_eq hasks
      have hasked := finds_asks ht hasks
      have hgraph : s₁.graph = g := hasked.checking.graph_eq
      dsimp only at h
      split at h
      · -- It is reported now, and the accesses to it that follow are skipped.
        rename_i hfound
        have htouched : g.Touched e access := of_decide_eq_true (hanswer.symm.trans hfound)
        have hreport := hasked.trans (Finds.report hasked.checking t.1 position
          (.shared access.kind access.location (s₁.graph.locations.nameOf access.location)))
        rw [hgraph] at hreport h
        obtain ⟨found, hpairwise, hmem, hfinds⟩ := ih hreport.checking hascending
          (fun l hl x hx => by
            cases hl
            exact hfirst x hx) h
        refine ⟨access :: found, ?_, fun x => ?_, hreport.trans hfinds⟩
        · refine List.pairwise_cons.2 ⟨fun x hx => ?_, hpairwise⟩
          obtain ⟨hne, hfind⟩ := (hmem x).1 hx
          refine (hfirst x (List.mem_of_find?_eq_some hfind)).lt_of_ne fun heq => hne ?_
          rw [heq]
          rfl
        · by_cases hlocation : access.location = x.location
          · rw [List.find?_cons_of_pos (by simp [hlocation, htouched]), List.mem_cons, hmem,
              ← hlocation]
            simp only [Option.mem_def, not_true_eq_false, false_and, or_false, Option.some.injEq]
            exact ⟨fun heq => ⟨hunreported, heq.symm⟩, fun heq => heq.2.symm⟩
          · have hnew : ∀ y ∈ accesses, access.location ≠ y.location → y.location ∉ last :=
              fun y hy hne hl => hne ((hfirst y hy).antisymm
                (hlast _ hl access (List.mem_cons_self ..)))
            rw [List.find?_cons_of_neg (by simp [hlocation]), List.mem_cons, hmem]
            constructor
            · rintro (rfl | ⟨-, hfind⟩)
              · exact absurd rfl hlocation
              · exact ⟨hnew x (List.mem_of_find?_eq_some hfind) hlocation, hfind⟩
            · rintro ⟨-, hfind⟩
              exact Or.inr ⟨fun heq => hlocation (Option.some.inj heq), hfind⟩
      · rename_i hfound
        have huntouched : ¬g.Touched e access := by
          rw [hanswer, decide_eq_true_iff] at hfound
          exact hfound
        obtain ⟨found, hpairwise, hmem, hfinds⟩ := ih hasked.checking hascending hrest h
        refine ⟨found, hpairwise, fun x => ?_, hasked.trans hfinds⟩
        rw [hmem, List.find?_cons_of_neg]
        simp [huntouched]

/-- The candidates are the locations that are accessed at the kind. -/
lemma mem_candidates {e : EffectId} {kind : Kind} {l : Nat} :
    l ∈ candidates (g.accessesOf e) kind ↔ g.Touched e ⟨l, kind⟩ := by
  simp only [candidates, Ascending.mem_toList, Ascending.mem_ofList, List.mem_map,
    List.mem_filter, Graph.Touched]
  constructor
  · rintro ⟨x, ⟨hx, hkind⟩, hl⟩
    exact ⟨x, hx, hl, hkind⟩
  · rintro ⟨x, hx, hl, hkind⟩
    exact ⟨x, ⟨hx, hkind⟩, hl⟩

/-- Checking an exclusion finds it violated exactly in the classes in which it is. -/
lemma finds_checkExclusion (hg : g.Sound) {x : Exclusion} (ht : Checking g t.2)
    (h : checkExclusion g.solve t x = .ok t') : Finds g (g.complaints x) t t' := by
  obtain ⟨position, restriction⟩ := x
  have hgraph := ht.graph_eq
  cases restriction with
  | location a kind e =>
    obtain ⟨root, hfind, h⟩ := bind_eq_ok_iff.1 h
    obtain ⟨hlt, rfl⟩ := Locations.find_eq_ok_iff.1 hfind
    rw [hgraph] at h hlt
    have hroots := hg.locations.root_mem_roots hlt
    rw [Graph.complaints, ← Graph.eq_violators ((List.pairwise_singleton ..).filter _)]
    · exact finds_checkLocation ht h
    · intro l
      rw [List.mem_filter, List.mem_singleton, decide_eq_true_iff]
      constructor
      · rintro ⟨rfl, htouched⟩
        exact ⟨hroots, rfl, htouched⟩
      · rintro ⟨-, rfl, htouched⟩
        exact ⟨rfl, htouched⟩
  | disjoint e₁ e₂ =>
    obtain ⟨root, hfind, h⟩ := bind_eq_ok_iff.1 h
    obtain ⟨-, rfl⟩ := Effects.find_eq_ok_iff.1 hfind
    rw [hgraph] at h
    -- Accesses ascend, and of each location only the first shared one is reported.
    obtain ⟨found, hpairwise, hmem, hfinds⟩ := finds_checkShared ht
      ((g.accessesOf e₁).ascends.imp Access.location_le) (fun l hl => absurd hl (by simp)) h
    have hfirst : ∀ x ∈ found, g.firstShared? e₁ e₂ x.location = some x := fun x hx =>
      ((hmem x).1 hx).2
    have hviolators : found.map Access.location = g.violators (.disjoint e₁ e₂) := by
      refine Graph.eq_violators (List.pairwise_map.2 hpairwise) fun l => ?_
      rw [List.mem_map]
      constructor
      · rintro ⟨x, hx, rfl⟩
        obtain ⟨hmem₁, -, htouched⟩ := Graph.of_firstShared? (hfirst x hx)
        exact ⟨hg.mem_roots_of_touched htouched, x, hmem₁, rfl, htouched⟩
      · rintro ⟨-, x, hx, rfl, htouched⟩
        have hsome : (g.firstShared? e₁ e₂ x.location).isSome = true :=
          List.find?_isSome.2 ⟨x, hx, by simp [htouched]⟩
        obtain ⟨y, hy⟩ := Option.isSome_iff_exists.1 hsome
        have hlocation : y.location = x.location := (Graph.of_firstShared? hy).2.1
        exact ⟨y, (hmem y).2 ⟨by simp, hlocation ▸ hy⟩, hlocation⟩
    rw [Graph.complaints, ← hviolators, List.map_map]
    refine (List.map_congr_left fun x hx => ?_) ▸ hfinds
    simp [Graph.complaint, hfirst x hx]
  | everywhere kind e =>
    unfold checkExclusion at h
    dsimp only at h
    rw [hgraph] at h
    exact finds_checkLocations ht h
  | implies kind₁ e₁ kind₂ e₂ =>
    obtain ⟨root, hfind, h⟩ := bind_eq_ok_iff.1 h
    obtain ⟨-, rfl⟩ := Effects.find_eq_ok_iff.1 hfind
    rw [hgraph] at h
    -- Only locations that the first effect accesses need to be looked at.
    have hascending : (candidates (g.accessesOf e₁) kind₁).Pairwise (· < ·) :=
      (Ascending.ascends _).imp Nat.compare_eq_lt.1
    rw [Graph.complaints, ← Graph.eq_violators (hascending.filter _)]
    · exact finds_checkLocations ht h
    · intro l
      rw [List.mem_filter, decide_eq_true_iff, mem_candidates]
      exact ⟨fun h => ⟨hg.mem_roots_of_touched h.1, h⟩, fun h => h.2⟩

/-- Inclusions that were not reported before are reported once each. -/
lemma finds_reportViolation {numbers : List Nat} (hnodup : numbers.Nodup) {count : Nat}
    (hs : Checking g s) (hnew : ∀ number ∈ numbers, number ∉ s.reported) :
    Finds g (numbers.filterMap fun number => g.effects.inclusions[number]?.map fun inc =>
      g.refusal (inc, number)) (count, s) (numbers.foldl reportViolation (count, s)) := by
  induction numbers generalizing count s with
  | nil => exact .nil hs
  | cons number numbers ih =>
    obtain ⟨hfirst, hnodup⟩ := List.nodup_cons.1 hnodup
    have hrest : ∀ n ∈ numbers, n ∉ s.reported := fun n hn => hnew n (List.mem_cons_of_mem _ hn)
    have hunreported := hnew number (List.mem_cons_self ..)
    rw [List.foldl_cons]
    cases hinc : g.effects.inclusions[number]? with
    | none =>
      have hstep : reportViolation (count, s) number = (count, s) := by
        simp only [reportViolation, if_neg hunreported, hs.graph_eq, hinc]
      rw [List.filterMap_cons_none (by simp [hinc]), hstep]
      exact ih hnodup hs hrest
    | some inc =>
      generalize hs₁ : ({ s.report inc.position (.notIncluded number (g.effectText inc.source)
        (g.effectText inc.target)) with reported := number :: s.reported } : Session σ τ) = s₁
      have hstep : reportViolation (count, s) number = (count + 1, s₁) := by
        simp only [reportViolation, if_neg hunreported, hs.graph_eq, hinc, ← hs₁]
      have hreport : Finds g [g.refusal (inc, number)] (count, s) (count + 1, s₁) := by
        rw [← hs₁]
        exact ⟨⟨hs.graph_eq, hs.answers⟩, rfl, Array.toList_push⟩
      rw [List.filterMap_cons_some (b := g.refusal (inc, number)) (by simp [hinc]), hstep]
      refine hreport.trans (ih hnodup hreport.checking fun n hn hmem => ?_)
      rw [← hs₁] at hmem
      rcases List.mem_cons.1 hmem with rfl | hmem
      · exact hfirst hn
      · exact hrest n hn hmem

/-- If no inclusion was reported before, those that fail are reported. -/
lemma finds_reportViolations (hg : g.Sound) (hs : Checking g s) (hreported : s.reported = []) :
    Finds g (g.failing.map g.refusal) (0, s) (s.reportViolations g.solve) := by
  have hfinds : Finds g (g.solve.violations.filterMap fun number =>
      g.effects.inclusions[number]?.map fun inc => g.refusal (inc, number)) (0, s)
      (g.solve.violations.foldl reportViolation (0, s)) :=
    finds_reportViolation ((Effects.pairwise_violations ..).imp Nat.ne_of_lt) hs
      (by simp [hreported])
  rw [hg.violations_eq_failing, List.filterMap_map, ← hg.violations_eq_failing] at hfinds
  have heq : g.failing.filterMap ((fun number => g.effects.inclusions[number]?.map fun inc =>
      g.refusal (inc, number)) ∘ Prod.snd) = g.failing.map g.refusal := by
    rw [← List.filterMap_eq_map]
    refine List.filterMap_congr fun numbered hmem => ?_
    obtain ⟨inc, number⟩ := numbered
    have hget := List.mk_mem_zipIdx_iff_getElem?.1 (List.mem_filter.1 hmem).1
    rw [Array.getElem?_toList] at hget
    simp [hget]
  exact heq ▸ hfinds

/-! ## Closing -/

variable [QualifierLattice σ τ]

/-- When a session is closed, the inclusions that fail are reported first, then the exclusions that
are violated, and then what is said about edges and updates. -/
lemma finds_of_close (h : Reachable s) (hopened : s.phase = .opened) {failures : Nat}
    (hclose : s.close = .ok (.ok failures, s')) :
    failures = (s.graph.failing.map s.graph.refusal ++
        s.exclusions.flatMap s.graph.complaints).length ∧
      ∃ settling, s'.errors = s.errors ++ s.graph.failing.map s.graph.refusal ++
          s.exclusions.flatMap s.graph.complaints ++ settling ∧
        ∀ d ∈ settling, d.mark? ≠ none := by
  have hsound := (ReachableBy.coherent h).sound
  have hfresh := ReachableBy.fresh h hopened
  obtain ⟨sol, s₁, s₂, s₃, count, hsolved, hchecked, hsettled, hcount, rfl⟩ :=
    close_eq_ok hclose hopened
  cases hcount
  -- Nothing is said while the graph is solved for the first time.
  obtain ⟨rfl, rfl⟩ := hfresh.eq_of_solved hopened hsolved
  have hchecking : Checking s.graph ({ s.firstSolved with exclusions := [] } : Session σ τ) :=
    ⟨rfl, Cache.obeys_of_slots_eq_nil ((ReachableBy.trusted h).cleared hfresh.solution_eq).1⟩
  have hinclusions := finds_reportViolations hsound hchecking hfresh.reported_eq
  have hfound := hinclusions.trans (.foldlM (fun x _ _ _ => finds_checkExclusion hsound (x := x))
    hinclusions.checking hchecked)
  obtain ⟨settling, herrors, hsettling⟩ :=
    Dialogue.errors_of_requires (requires_settleDue hsettled)
  refine ⟨hfound.count_eq.trans (Nat.zero_add _), settling, ?_, hsettling⟩
  have hbefore : s₂.errors = s.errors ++ (s.graph.failing.map s.graph.refusal ++
      s.exclusions.flatMap s.graph.complaints) := hfound.errors_eq
  have hafter : s₃.errors = s₂.errors ++ settling := herrors
  rw [List.append_assoc s.errors, ← hbefore]
  exact hafter

/-- Closing a session counts the inclusions that fail and, for every exclusion that was made, the
classes of locations in which it is violated.  It makes one diagnostic for each of these, at the
position of the inclusion or exclusion, and after them those about edges and updates.  A session in
which only what exists was named can always be closed. -/
theorem close_counts_violations (h : Reachable s) (hopened : s.phase = .opened) :
    (Disciplined s → ∃ failures s', s.close = .ok (.ok failures, s')) ∧
      ∀ failures s', s.close = .ok (.ok failures, s') →
        failures = s.graph.failing.length +
          (s.exclusions.map fun x => (s.graph.violators x.restriction).length).sum ∧
        ∃ settling, s'.talk.errors.toList = s.talk.errors.toList ++
            s.graph.failing.map s.graph.refusal ++ s.exclusions.flatMap s.graph.complaints ++
            settling ∧
          ∀ d ∈ settling, d.mark? ≠ none := by
  refine ⟨fun hdisciplined => exists_close hdisciplined hopened, fun failures s' hclose => ?_⟩
  obtain ⟨hcount, settling, herrors, hsettling⟩ := finds_of_close h hopened hclose
  refine ⟨?_, settling, herrors, hsettling⟩
  rw [hcount, List.length_append, List.length_map, List.length_flatMap]
  simp only [Graph.complaints, List.length_map]

/-- An effect reads and writes one location, which has two names, and may access another one in any
way.  It is included in a variable, whose accesses are excluded in all four ways. -/
def strictScript : List (Command Int) :=
  [.makeLocation "x" 0, .makeLocation "y" 0, .makeLocation "z" 0, .mergeLocations .internal ⟨0⟩ ⟨1⟩,
    .atom .read ⟨0⟩, .atom .write ⟨1⟩, .union ⟨1⟩ ⟨2⟩, .atom .any ⟨2⟩, .union ⟨3⟩ ⟨4⟩,
    .effectVariable "v", .includeEffect .internal ⟨5⟩ ⟨6⟩, .includeEffect .internal ⟨4⟩ ⟨1⟩,
    .exclude ⟨.internal, .location ⟨1⟩ .write ⟨6⟩⟩, .exclude ⟨.internal, .disjoint ⟨5⟩ ⟨6⟩⟩,
    .exclude ⟨.internal, .everywhere .read ⟨6⟩⟩,
    .exclude ⟨.internal, .implies .write ⟨5⟩ .read ⟨6⟩⟩,
    .exclude ⟨.internal, .location ⟨0⟩ .alloc ⟨6⟩⟩,
    .storeVariable .internal "base", .update .internal "write" ⟨0⟩ ⟨0⟩ 5 true,
    .storeVariable .internal "r", .includeStore .internal "in" ⟨1⟩ ⟨2⟩]

/-- Both kinds of access to the location with two names make one diagnostic.  The update that does
not fit is reported after all of them, and is not counted. -/
theorem close_counts_violations_strict :
    ∃ (s s' : Session Level Int) (failures : Nat), Disciplined s ∧ s.phase = .opened ∧
      s.close = .ok (.ok failures, s') ∧ failures = 8 ∧
      ∃ settling : List Diagnostic, s'.talk.errors.toList.map Diagnostic.message =
          ["effect \x7bz\x7d is not included in r(x)", "wr(`x`) is in the effect but must not be",
            "r(`x`) is in both effects but must not be",
            "any(`z`) is in both effects but must not be",
            "r(`x`) is in the effect but must not be", "r(`z`) is in the effect but must not be",
            "r(`x`) is in the effect but must not be", "r(`z`) is in the effect but must not be"] ++
          settling.map Diagnostic.message ∧
        ∀ d ∈ settling, d.mark? ≠ none := by
  have hrun : (follow (fun s c => c.Known s.graph) (start ⟨2, false⟩ Level.mk) strictScript).any
      fun s => List.and
        [s.phase = .opened, s.graph.failing.length = 1,
          (s.exclusions.map fun x => s.graph.violators x.restriction) =
            [[0], [0, 2], [0, 2], [0, 2], []],
          (s.talk.errors.toList ++ s.graph.failing.map s.graph.refusal ++
              s.exclusions.flatMap s.graph.complaints).map Diagnostic.message =
            ["effect \x7bz\x7d is not included in r(x)", "wr(`x`) is in the effect but must not be",
              "r(`x`) is in both effects but must not be",
              "any(`z`) is in both effects but must not be",
              "r(`x`) is in the effect but must not be", "r(`z`) is in the effect but must not be",
              "r(`x`) is in the effect but must not be",
              "r(`z`) is in the effect but must not be"]] := by
    decide +kernel
  simp only [Option.any_eq_true, and_decide_cons, List.and_nil, and_true] at hrun
  obtain ⟨s, hs, hopened, hfailing, hviolators, hmessages⟩ := hrun
  have hdisciplined : Disciplined s := reachableBy_of_follow hs
  obtain ⟨hcloses, hcounts⟩ := close_counts_violations hdisciplined.reachable hopened
  obtain ⟨failures, s', hclose⟩ := hcloses hdisciplined
  obtain ⟨hfailures, settling, herrors, hsettling⟩ := hcounts failures s' hclose
  refine ⟨s, s', failures, hdisciplined, hopened, hclose, ?_, settling, ?_, hsettling⟩
  · have hlengths := congrArg (fun found => (found.map List.length).sum) hviolators
    rw [List.map_map] at hlengths
    rw [hfailures, hfailing]
    exact congrArg (1 + ·) hlengths
  · rw [herrors, List.map_append, hmessages]

end Session

end HeapQual
