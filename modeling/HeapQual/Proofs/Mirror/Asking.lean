import HeapQual.Proofs.Mirror.Solving

/-!
# Asking sessions that mirror each other

Sessions that mirror each other answer every question alike, if effects are told apart in the one
as in the other, and still mirror each other afterwards.  A membership question is answered from the
solution, whether or not the answer is remembered (`Session.MirrorsSolved.membership`), so it does
not matter which answers were lost from the memo table.

There is one exception.  When a session is linearized, the updates that are demoted are settled one
after the other, and which cells were settled before decides in which order the lattice is told
what they demand.  So here the same cells have to be settled (`Session.Mirrors.linearize`).

Exclusions are checked alike by any sessions that give the same answers about related effects
(`Session.ChecksAlike`), and sessions that mirror each other do.
-/

namespace HeapQual

namespace Session

variable {σ τ : Type} [QualifierLattice σ τ] {R : EffectId → EffectId → Prop}
  {sol sol' : Solution} {s s' t t' : Session σ τ} {e e' : EffectId}

/-- The answers are the same, and the sessions mirror each other with their solutions. -/
def SameAnswerSolved {α : Type} (R : EffectId → EffectId → Prop) (sol sol' : Solution)
    (p p' : α × Session σ τ) : Prop :=
  p.1 = p'.1 ∧ MirrorsSolved R sol sol' p.2 p'.2

omit [QualifierLattice σ τ] in
lemma Mirrors.findCell_eq (h : s.Mirrors R s') (x : StoreId) (a : LocationId) :
    s.findCell x a = s'.findCell x a := by
  unfold findCell
  rw [h.find_store, h.find_location]

/-! ## Exclusions and cells of related sessions -/

/-- What it takes for related sessions to check exclusions alike: they have the same locations, give
the same answers about related effects, and stay related when it is reported that an exclusion
fails. -/
structure ChecksAlike (F : Fault → Fault → Prop) (Q : EffectId → EffectId → Prop)
    (sol sol' : Solution) (R : Session σ τ → Session σ τ → Prop) : Prop where
  refl : ∀ fault, F fault fault
  locations_eq : ∀ {s s'}, R s s' → s.graph.locations = s'.graph.locations
  members : ∀ {s s' e e'}, R s s' → Q e e' →
    Corresponds F (fun root root' => sol.membersOf root = sol'.membersOf root')
      (s.graph.effects.find e) (s'.graph.effects.find e')
  asks : ∀ {s s' e e'}, R s s' → Q e e' → ∀ location kind, Corresponds F (Along R)
    (s.asks sol location kind e) (s'.asks sol' location kind e')
  report : ∀ {s s'}, R s s' → ∀ position (cause : Cause), cause.mark? = none → cause.Discreet →
    R (s.report position cause) (s'.report position cause)

namespace ChecksAlike

omit [QualifierLattice σ τ]

variable {F : Fault → Fault → Prop} {Q : EffectId → EffectId → Prop}
  {S : Session σ τ → Session σ τ → Prop} (h : ChecksAlike F Q sol sol' S)

include h

lemma checkLocation (hs : S s s') (position : Position) (kind : Kind) (he : Q e e')
    (count location : Nat) :
    Corresponds F (Along S) (checkLocation sol position kind e (count, s) location)
      (Session.checkLocation sol' position kind e' (count, s') location) := by
  refine (h.asks hs he location kind).bind ?_
  rintro ⟨found, t⟩ ⟨_, t'⟩ ⟨rfl, ht⟩
  dsimp only
  rw [h.locations_eq ht]
  split
  · exact .ok ⟨rfl, h.report ht _ _ rfl rfl⟩
  · exact .ok ⟨rfl, ht⟩

lemma checkLocations (hs : S s s') (position : Position) (kind : Kind) (he : Q e e') (count : Nat)
    (locations : List Nat) :
    Corresponds F (Along S)
      (locations.foldlM (Session.checkLocation sol position kind e) (count, s))
      (locations.foldlM (Session.checkLocation sol' position kind e') (count, s')) := by
  refine Corresponds.foldlM_same ?_ locations ⟨rfl, hs⟩
  rintro ⟨count, t⟩ ⟨_, t'⟩ location ⟨rfl, ht⟩
  exact h.checkLocation ht position kind he count location

lemma checkShared (hs : S s s') (position : Position) (he : Q e e') (accesses : List Access)
    (last : Option Nat) (count : Nat) :
    Corresponds F (Along S) (checkShared sol position e accesses last (count, s))
      (Session.checkShared sol' position e' accesses last (count, s')) := by
  induction accesses generalizing last count s s' with
  | nil => exact .ok ⟨rfl, hs⟩
  | cons access accesses ih =>
    unfold Session.checkShared
    split
    · exact ih hs last count
    · refine (h.asks hs he access.location access.kind).bind ?_
      rintro ⟨found, t⟩ ⟨_, t'⟩ ⟨rfl, ht⟩
      dsimp only
      rw [h.locations_eq ht]
      split
      · have hreport := h.report ht position (.shared access.kind access.location
          (t'.graph.locations.nameOf access.location)) rfl rfl
        exact ih hreport _ _
      · exact ih ht last count

lemma checkExclusion (hs : S s s') {x x' : Exclusion} (hx : x.Mirrors Q x') (count : Nat) :
    Corresponds F (Along S) (checkExclusion sol (count, s) x)
      (Session.checkExclusion sol' (count, s') x') := by
  obtain ⟨position, restriction⟩ := x
  obtain ⟨_, restriction'⟩ := x'
  obtain ⟨rfl, hrestriction⟩ := hx
  have hlocations := h.locations_eq hs
  unfold Session.checkExclusion
  cases hrestriction with
  | location a kind he =>
    refine (Corresponds.of_eq h.refl (congrArg (·.find a) hlocations)).bind ?_
    rintro root _ rfl
    exact h.checkLocation hs position kind he count root
  | disjoint h₁ h₂ =>
    refine (h.members hs h₁).bind fun root root' hmembers => ?_
    rw [hmembers]
    exact h.checkShared hs position h₂ _ none count
  | everywhere kind he =>
    dsimp only
    rw [hlocations]
    exact h.checkLocations hs position kind he count _
  | implies kind₁ kind₂ h₁ h₂ =>
    refine (h.members hs h₁).bind fun root root' hmembers => ?_
    rw [hmembers]
    exact h.checkLocations hs position kind₂ h₂ count _

lemma checkExclusions (hs : S s s') {exclusions exclusions' : List Exclusion}
    (hx : List.Forall₂ (Exclusion.Mirrors Q) exclusions exclusions') (count : Nat) :
    Corresponds F (Along S) (exclusions.foldlM (Session.checkExclusion sol) (count, s))
      (exclusions'.foldlM (Session.checkExclusion sol') (count, s')) := by
  refine Corresponds.foldlM (Q := Exclusion.Mirrors Q) ?_ hx ⟨rfl, hs⟩
  rintro ⟨count, t⟩ ⟨_, t'⟩ x x' ⟨rfl, ht⟩ hx
  exact h.checkExclusion ht hx count

end ChecksAlike

/-- The cells of a store are printed alike in sessions that read cells alike and agree in how they
show a type. -/
lemma corresponds_printCellsAt {F : Fault → Fault → Prop} {S : Session σ τ → Session σ τ → Prop}
    {style : CellStyle} (hF : ∀ fault, F fault fault)
    (hread : ∀ {s s'}, S s s' → ∀ c, Along S (s.readCell sol c) (s'.readCell sol' c))
    (hpieces : ∀ {s s'}, S s s' → s.cellPieces style = s'.cellPieces style)
    (store : Nat) (locations : List Nat) (out : Output) (h : S s s') :
    Corresponds F (Along S) (printCellsAt sol style store locations out s)
      (printCellsAt sol' style store locations out s') := by
  induction locations generalizing out s s' with
  | nil => exact .ok ⟨rfl, h⟩
  | cons location locations ih =>
    unfold printCellsAt
    split
    · exact .ok ⟨rfl, h⟩
    · have hread := hread h ⟨store, location⟩
      generalize s.readCell sol ⟨store, location⟩ = p at hread ⊢
      generalize s'.readCell sol' ⟨store, location⟩ = p' at hread ⊢
      obtain ⟨type, t⟩ := p
      obtain ⟨_, t'⟩ := p'
      obtain ⟨rfl, ht⟩ := hread
      cases type with
      | none => exact ih out ht
      | some type =>
        dsimp only
        rw [hpieces ht]
        refine (Corresponds.of_eq hF rfl).bind ?_
        rintro written _ rfl
        exact ih written ht

/-! ## Membership questions -/

omit [QualifierLattice σ τ] in
/-- A question is answered by the solution. -/
lemma Invariants.asks_eq (hs : s.Invariants) (hsol : s.solution = some sol)
    (he : e.index < s.graph.effects.size) (location : Nat) (kind : Kind) :
    ∃ questions, s.asks sol location kind e =
      .ok (sol.touches (s.graph.effects.root e) location kind, { s with questions }) := by
  obtain ⟨answer, t, heq⟩ := exists_asks sol he location kind
  obtain ⟨questions, rfl, -⟩ := asks_eq_ok heq
  have hanswer := asks_answer (hs.trusted.answers sol hsol) location kind e
  rw [heq, Effects.find, if_pos he] at hanswer
  refine ⟨questions, ?_⟩
  rw [heq, show answer = _ from Except.ok.inj hanswer]

namespace MirrorsSolved

lemma membership (h : MirrorsSolved R sol sol' s s') (he : R e e') (location : Nat) (kind : Kind) :
    Concurs (SameAnswerSolved R sol sol') (s.asks sol location kind e)
      (s'.asks sol' location kind e') := by
  obtain ⟨questions, heq⟩ := h.left.asks_eq h.left_solution
    (h.mirrors.effects.left_lt e e' he) location kind
  obtain ⟨questions', heq'⟩ := h.right.asks_eq h.right_solution
    (h.mirrors.effects.right_lt e e' he) location kind
  have hanswer := h.mirrors.graph.touches_eq h.distinguishes h.left.coherent.sound
    h.right.coherent.sound he location kind
  rw [← h.left_eq, ← h.right_eq] at hanswer
  rw [heq, heq']
  refine .ok ⟨hanswer, h.asks .summary (asks_consult h.left_solution (consults_asks heq))
    (asks_consult h.right_solution (consults_asks heq')) (h.mirrors.sameUpToForgetting ?_ ?_)⟩
  · exact ⟨s.solution, questions, s.flow, rfl, .refl _, fun _ h => h⟩
  · exact ⟨s'.solution, questions', s'.flow, rfl, .refl _, fun _ h => h⟩

lemma report (h : MirrorsSolved R sol sol' s s') (position : Position) (cause : Cause)
    (hmark : cause.mark? = none) (hcause : cause.Discreet) :
    MirrorsSolved R sol sol' (s.report position cause) (s'.report position cause) :=
  h.asks .summary (asks_consult h.left_solution (consults_report sol s position hmark hcause))
    (asks_consult h.right_solution (consults_report sol' s' position hmark hcause))
    (h.mirrors.withTalk (h.mirrors.flow.talk.report position rfl))

/-! ## Exclusions -/

omit [QualifierLattice σ τ] in
lemma find_members (h : MirrorsSolved R sol sol' s s') (he : R e e') :
    Concurs (fun root root' => sol.membersOf root = sol'.membersOf root')
      (s.graph.effects.find e) (s'.graph.effects.find e') := by
  obtain ⟨hfind, hfind'⟩ := h.mirrors.find_effect he
  rw [hfind, hfind', h.left_eq, h.right_eq]
  exact .ok (h.mirrors.graph.accessesOf_eq h.distinguishes h.left.coherent.sound
    h.right.coherent.sound he)

lemma checksAlike : ChecksAlike (fun _ _ => True) R sol sol'
    (MirrorsSolved R sol sol' : Session σ τ → Session σ τ → Prop) where
  refl _ := trivial
  locations_eq h := h.mirrors.locations_eq
  members h he := h.find_members he
  asks h he := h.membership he
  report h := h.report

/-! ## Cells -/

omit [QualifierLattice σ τ] in
lemma domainOf_eq (h : MirrorsSolved R sol sol' s s') : sol.domainOf = sol'.domainOf := by
  unfold Solution.domainOf
  rw [show sol.domains = sol'.domains from h.view.domains_eq]

omit [QualifierLattice σ τ] in
lemma seedsOf_eq (h : MirrorsSolved R sol sol' s s') : s.seedsOf sol = s'.seedsOf sol' := by
  funext direction c
  unfold seedsOf
  rw [h.view.reach_eq]

/-! ## Closing -/

lemma note (h : MirrorsSolved R sol sol' s s') (n n' : Notice τ) :
    MirrorsSolved R sol sol' (s.note n) (s'.note n') :=
  h.asks .summary (asks_note s n) (asks_note s' n') (h.mirrors.note n n')

lemma discharge (h : MirrorsSolved R sol sol' s s') {exclusions exclusions' : List Exclusion}
    (hx : List.Forall₂ (Exclusion.Mirrors R) exclusions exclusions')
    {requests requests' : List Request} (hrequests : requests = requests') :
    MirrorsSolved R sol sol' { s with exclusions, requests }
      { s' with exclusions := exclusions', requests := requests' } :=
  h.asks .summary (.single (.discharge exclusions requests))
    (.single (.discharge exclusions' requests'))
    { h.mirrors with
      exclusions := hx
      requests_eq := hrequests
      left := ⟨h.mirrors.left.recipe, h.mirrors.left.reported_lt, h.mirrors.left.told⟩
      right := ⟨h.mirrors.right.recipe, h.mirrors.right.reported_lt, h.mirrors.right.told⟩ }

lemma reportViolations (h : MirrorsSolved R sol sol' s s') :
    SameAnswerSolved R sol sol' (s.reportViolations sol) (s'.reportViolations sol') := by
  obtain ⟨hcount, hreported⟩ := h.mirrors.reportViolations h.left.coherent.sound
    h.right.coherent.sound h.distinguishes
  rw [← h.left_eq, ← h.right_eq] at hcount hreported
  exact ⟨hcount, h.asks .summary (asks_reportViolations h.left_solution)
    (asks_reportViolations h.right_solution) hreported⟩

omit [QualifierLattice σ τ] in
lemma told_reportViolations (h : MirrorsSolved R sol sol' s s') :
    (∀ n ∈ sol.violations, n ∈ (s.reportViolations sol).2.reported) ∧
      ∀ n ∈ sol'.violations, n ∈ (s'.reportViolations sol').2.reported := by
  rw [h.left_eq, h.right_eq]
  exact ⟨fun _ hn => mem_reported_of_violation h.left.coherent.sound hn,
    fun _ hn => mem_reported_of_violation h.right.coherent.sound hn⟩

/-- The sessions are closed once all that fails was reported. -/
lemma close (h : MirrorsSolved R sol sol' s s') (hphase : s.phase = .opened)
    (htold : ∀ n ∈ sol.violations, n ∈ s.reported)
    (htold' : ∀ n ∈ sol'.violations, n ∈ s'.reported) :
    MirrorsSolved R sol sol' { s with phase := .closed } { s' with phase := .closed } := by
  have hclose : Ask .close s { s with phase := .closed } := by
    refine .close hphase rfl fun sol₁ hsol n hn _ => htold n ?_
    rwa [Option.some.inj (h.left_solution.symm.trans hsol)]
  have hclose' : Ask .close s' { s' with phase := .closed } := by
    refine .close (h.mirrors.phase_eq.symm.trans hphase) rfl fun sol₁ hsol n hn _ => htold' n ?_
    rwa [Option.some.inj (h.right_solution.symm.trans hsol)]
  refine h.asks .close (.single hclose) (.single hclose')
    { h.mirrors with
      phase_eq := rfl
      left := ⟨h.mirrors.left.recipe, h.mirrors.left.reported_lt, fun sol₁ hsol _ => ?_⟩
      right := ⟨h.mirrors.right.recipe, h.mirrors.right.reported_lt, fun sol₁ hsol _ => ?_⟩ }
  · rwa [← Option.some.inj (h.left_solution.symm.trans hsol)]
  · rwa [← Option.some.inj (h.right_solution.symm.trans hsol)]

omit [QualifierLattice σ τ] in
lemma standingSeeds_eq (h : MirrorsSolved R sol sol' s s') :
    s.standingSeeds sol = s'.standingSeeds sol' := by
  unfold standingSeeds
  rw [h.domainOf_eq, h.mirrors.markedOnly_eq, h.mirrors.locations_eq,
    show sol.domains = sol'.domains from h.view.domains_eq]

omit [QualifierLattice σ τ] in
lemma requestedSeeds_eq (h : MirrorsSolved R sol sol' s s') :
    s.requestedSeeds sol = s'.requestedSeeds sol' := by
  funext r
  unfold requestedSeeds
  rw [h.mirrors.findCell_eq, h.seedsOf_eq]

lemma settleDue (h : MirrorsSolved R sol sol' s s') :
    Concurs (MirrorsSolved R sol sol') (s.settleDue sol) (s'.settleDue sol') := by
  unfold Session.settleDue
  rw [h.requestedSeeds_eq, h.mirrors.requests_eq, h.standingSeeds_eq]
  refine (Concurs.of_eq rfl).bind ?_
  rintro requested _ rfl
  exact .ok (((h.discharge h.mirrors.exclusions rfl).settle _).note _ _)

lemma cellPieces_eq (h : MirrorsSolved R sol sol' s s') (style : CellStyle) :
    s.cellPieces style = s'.cellPieces style := by
  funext location type
  unfold cellPieces typeText
  rw [h.mirrors.locations_eq, show s.lattice = s'.lattice from h.mirrors.flow.talk.lattice_eq]

end MirrorsSolved

/-- Remember an exclusion while the session is open, and check it otherwise. -/
def accept (s : Session σ τ) (x : Exclusion) : Except Fault (Session σ τ) :=
  match s.phase with
  | .opened => .ok { s with exclusions := s.exclusions ++ [x] }
  | _ => s.solved >>= fun p => checkExclusion p.1 (0, p.2) x >>= fun q => pure q.2

lemma accept_of_opened (hphase : s.phase = .opened) (x : Exclusion) :
    s.accept x = .ok { s with exclusions := s.exclusions ++ [x] } := by
  unfold accept
  rw [hphase]

lemma accept_of_ne_opened (hphase : s.phase ≠ .opened) (x : Exclusion) :
    s.accept x = s.solved >>= fun p => checkExclusion p.1 (0, p.2) x >>= fun q => pure q.2 := by
  unfold accept
  split
  · exact absurd ‹_› hphase
  · rfl

/-! ## Demoting -/

omit [QualifierLattice σ τ] in
lemma Mirrors.updateSites_eq (h : s.Mirrors R s') : updateSites s.graph = updateSites s'.graph := by
  unfold updateSites
  rw [h.stores.classes_eq, h.stores.root_eq, h.classOf_eq]
  refine List.filterMap_congr fun i _ => ?_
  have hnode := h.stores.node i
  generalize s.graph.stores.nodeAt i = n at hnode
  generalize s'.graph.stores.nodeAt i = n' at hnode
  cases hnode <;> rfl

omit [QualifierLattice σ τ] in
lemma MirrorsSolved.solveSupplies_eq (h : MirrorsSolved R sol sol' s s') :
    s.graph.solveSupplies sol = s'.graph.solveSupplies sol' := by
  rw [h.left_eq, h.right_eq]
  exact h.mirrors.graph.solveSupplies_eq h.distinguishes h.left.coherent.sound
    h.right.coherent.sound

/-- An update is demoted alike, if the same cells are settled. -/
lemma Mirrors.demote (h : s.Mirrors R s') (hview : View.Mirrors R (s.view sol) (s'.view sol'))
    (hv : (s.view sol).Faithful) (hsame : ∀ c, c ∈ s.flow.settled ↔ c ∈ s'.flow.settled)
    (site : UpdateSite) :
    (demote sol s site).Mirrors R (demote sol' s' site) ∧
      ∀ c, c ∈ (Session.demote sol s site).flow.settled ↔
        c ∈ (Session.demote sol' s' site).flow.settled := by
  have hnoted := h.note (.updateDemoted (s.graph.locations.nameOf site.location) ⟨site.store⟩)
    (.updateDemoted (s'.graph.locations.nameOf site.location) ⟨site.store⟩)
  have hsent := hnoted.flow.sendUpdate (s.view sol) site.store
  have hsettled := hview.settle_of_same hv hsent (by
    rw [Flow.settled_sendUpdate, Flow.settled_sendUpdate]
    exact hsame) [⟨site.base, site.location⟩]
  rw [hview.sendUpdate_eq (s'.note _).flow] at hsettled
  exact ⟨hnoted.withFlow hsettled.1, hsettled.2⟩

lemma Mirrors.foldl_demote (h : s.Mirrors R s') (hview : View.Mirrors R (s.view sol) (s'.view sol'))
    (hv : (s.view sol).Faithful) (hsame : ∀ c, c ∈ s.flow.settled ↔ c ∈ s'.flow.settled)
    (sites : List UpdateSite) :
    (sites.foldl (Session.demote sol) s).Mirrors R (sites.foldl (Session.demote sol') s') := by
  induction sites generalizing s s' with
  | nil => exact h
  | cons site sites ih =>
    obtain ⟨hdemoted, hsettled⟩ := h.demote hview hv hsame site
    exact ih hdemoted hview hv hsettled

/-- Linearities are found, and updates demoted alike, if the same cells are settled. -/
lemma MirrorsSolved.demoteAll (h : MirrorsSolved R sol sol' s s') (hphase : s.phase ≠ .opened)
    (hsame : ∀ c, c ∈ s.flow.settled ↔ c ∈ s'.flow.settled) :
    (s.demoteAll sol).Mirrors R (s'.demoteAll sol') := by
  unfold Session.demoteAll
  dsimp only
  rw [← h.mirrors.updateSites_eq, ← h.solveSupplies_eq]
  generalize tabulate (s.graph.solveSupplies sol).values (updateSites s.graph) = linearities
  have hphase' : s'.phase ≠ .opened := h.mirrors.phase_eq ▸ hphase
  have hm : ({ s with linearities, phase := .linearized } : Session σ τ).Mirrors R
      { s' with linearities, phase := .linearized } :=
    { h.mirrors with
      phase_eq := rfl
      linearities_eq := rfl
      left := ⟨h.mirrors.left.recipe, h.mirrors.left.reported_lt,
        fun sol hsol _ => h.mirrors.left.told sol hsol hphase⟩
      right := ⟨h.mirrors.right.recipe, h.mirrors.right.reported_lt,
        fun sol hsol _ => h.mirrors.right.told sol hsol hphase'⟩ }
  have hview := h.mirrors.graph.view h.distinguishes h.left.coherent.sound h.right.coherent.sound
    linearities.demoted
  rw [← h.left_eq, ← h.right_eq] at hview
  exact hm.foldl_demote hview ⟨h.left.coherent.sound, h.left.layered, h.left_eq⟩ hsame _

omit [QualifierLattice σ τ] in
lemma sameUpToForgetting_foldl_note (notices : List (Notice τ)) (s : Session σ τ) :
    s.SameUpToForgetting (notices.foldl note s) := by
  induction notices generalizing s with
  | nil => exact .refl s
  | cons n notices ih => exact ((SameUpToForgetting.refl s).note n).trans (ih (s.note n))

/-- Linearizing writes notices, and then demotes updates. -/
lemma linearize_of_closed (hphase : s.phase = .closed) (hsolved : s.solved = .ok (sol, t)) :
    ∃ notices : List (Notice τ),
      s.linearize = .ok (.ok (), (notices.foldl note t).demoteAll sol) := by
  let found := t.graph.solveSupplies sol
  let sites := updateSites t.graph
  let notices : List (Notice τ) := sites.map (fun site =>
    .linearityFound site.store site.location (linearityOf found.values site)) ++
      [.linearitiesFound sites.length found.steps]
  have hgraph : (notices.foldl note t).graph = t.graph :=
    (mentions_foldl_note id notices t).graph_eq
  have hnoted : (sites.foldl (fun s site => s.note
      (.linearityFound site.store site.location (linearityOf found.values site))) t).note
        (.linearitiesFound sites.length found.steps) = notices.foldl note t := by
    rw [List.foldl_append, List.foldl_map]
    rfl
  have hall {u : Session σ τ} (hu : u.graph = t.graph) :
      (sites.filter (isDemoted found.values)).foldl (demote sol)
        { u with linearities := tabulate found.values sites, phase := .linearized } =
      u.demoteAll sol := by
    unfold demoteAll
    rw [hu]
  refine ⟨notices, ?_⟩
  unfold linearize
  rw [hphase]
  refine bind_eq_ok_iff.2 ⟨_, hsolved, congrArg Except.ok (Prod.ext rfl ?_)⟩
  rw [← hall hgraph, ← hnoted]

section Pairs

variable (h : s.Mirrors R s') (hs : s.Invariants) (hs' : s'.Invariants)
  (hd : s.graph.effects.Distinguishes R s'.graph.effects) (hclash : s.flow.NoClash s.graph)

include h hs hs' hd hclash

lemma Mirrors.isAccessed (a : LocationId) (he : R e e') :
    Concurs (SameAnswer R) (s.isAccessed a e) (s'.isAccessed a e') := by
  unfold Session.isAccessed refuseOpen
  rw [← h.phase_eq]
  split
  · exact .ok ⟨rfl, h⟩
  · refine (h.solved hs hs' hd hclash).bind ?_
    rintro ⟨sol, t⟩ ⟨sol', t'⟩ ht
    refine (Concurs.of_eq (ht.mirrors.find_location a)).bind ?_
    rintro root _ rfl
    refine (ht.membership he root .any).bind ?_
    rintro ⟨answer, u⟩ ⟨_, u'⟩ ⟨rfl, hu⟩
    exact .ok ⟨rfl, hu.mirrors⟩

lemma Mirrors.accept {x x' : Exclusion} (hx : x.Mirrors R x') :
    Concurs (Mirrors R) (s.accept x) (s'.accept x') := by
  by_cases hphase : s.phase = .opened
  · rw [accept_of_opened hphase, accept_of_opened (h.phase_eq.symm.trans hphase)]
    exact .ok { h with
      exclusions := List.rel_append h.exclusions (.cons hx .nil)
      left := ⟨h.left.recipe, h.left.reported_lt, h.left.told⟩
      right := ⟨h.right.recipe, h.right.reported_lt, h.right.told⟩ }
  · rw [accept_of_ne_opened hphase, accept_of_ne_opened (h.phase_eq ▸ hphase)]
    refine (h.solved hs hs' hd hclash).bind ?_
    rintro ⟨sol, t⟩ ⟨sol', t'⟩ ht
    refine (MirrorsSolved.checksAlike.checkExclusion ht hx 0).bind ?_
    rintro ⟨count, u⟩ ⟨_, u'⟩ ⟨-, hu⟩
    exact .ok hu.mirrors

lemma Mirrors.exclude {x x' : Exclusion} (hx : x.Mirrors R x') :
    Concurs (Mirrors R) (s.exclude x) (s'.exclude x') := by
  have haccept := (h.note (.exclusionAdded x) (.exclusionAdded x')).accept
    (hs.asks (asks_note (c := .summary) s _)) (hs'.asks (asks_note (c := .summary) s' _)) hd
    hclash hx
  obtain ⟨position, restriction⟩ := x
  obtain ⟨position', restriction'⟩ := x'
  have hrestriction : restriction.Mirrors R restriction' := hx.restriction
  cases hrestriction with
  | location a kind he => exact haccept
  | everywhere kind he => exact haccept
  | implies kind₁ kind₂ h₁ h₂ => exact haccept
  | @disjoint e₁ e₁' e₂ e₂' h₁ h₂ =>
    obtain ⟨hfind, hfind'⟩ := h.find_effect h₁
    have hvariables : s.graph.effects.hasVariables e₁ = s'.graph.effects.hasVariables e₁' :=
      h.effects.hasVariables_eq hs.coherent.sound.effects hs'.coherent.sound.effects h₁
    unfold Session.exclude
    dsimp only
    rw [hfind, hfind']
    refine Corresponds.bind (R := fun _ _ => True) (.ok trivial) fun _ _ _ => ?_
    rw [hvariables]
    split
    · exact .error trivial
    · exact haccept

/-! ## Cells -/

lemma Mirrors.domain (x : StoreId) : Concurs (SameAnswer R) (s.domain x) (s'.domain x) := by
  unfold Session.domain refuseOpen
  rw [← h.phase_eq]
  split
  · exact .ok ⟨rfl, h⟩
  · refine (h.solved hs hs' hd hclash).bind ?_
    rintro ⟨sol, t⟩ ⟨sol', t'⟩ ht
    refine (Concurs.of_eq (ht.mirrors.find_store x)).bind ?_
    rintro root _ rfl
    refine .ok ⟨?_, ht.mirrors⟩
    rw [ht.domainOf_eq]

lemma Mirrors.typeAt (x : StoreId) (a : LocationId) :
    Concurs (SameAnswer R) (s.typeAt x a) (s'.typeAt x a) := by
  unfold Session.typeAt refuseUnlinearized
  rw [← h.phase_eq]
  split
  · exact .ok ⟨rfl, h⟩
  · refine (h.solved hs hs' hd hclash).bind ?_
    rintro ⟨sol, t⟩ ⟨sol', t'⟩ ht
    refine (Concurs.of_eq (ht.mirrors.findCell_eq x a)).bind ?_
    rintro c _ rfl
    obtain ⟨htype, hread⟩ := ht.readCell c
    exact .ok ⟨congrArg Except.ok htype, hread.mirrors⟩

lemma Mirrors.printCells (style : CellStyle) (x : StoreId) (limit : Option Nat) :
    Concurs (SameAnswer R) (s.printCells style x limit) (s'.printCells style x limit) := by
  unfold Session.printCells refuseOpen
  rw [← h.phase_eq]
  split
  · exact .ok ⟨rfl, h⟩
  · refine (h.solved hs hs' hd hclash).bind ?_
    rintro ⟨sol, t⟩ ⟨sol', t'⟩ ht
    refine (Concurs.of_eq (ht.mirrors.find_store x)).bind ?_
    rintro root _ rfl
    have hprinted := corresponds_printCellsAt (F := fun _ _ => True) (fun _ => trivial)
      (fun h => h.readCell) (fun h => h.cellPieces_eq style) root (sol.domainOf root).toList
      (Output.start limit) ht
    rw [show sol'.domainOf root = sol.domainOf root by rw [ht.domainOf_eq]]
    refine hprinted.bind ?_
    rintro ⟨out, u⟩ ⟨_, u'⟩ ⟨rfl, hu⟩
    exact .ok ⟨rfl, hu.mirrors⟩

lemma Mirrors.propagate (direction : Direction) (x : StoreId) (a : LocationId) :
    Concurs (Mirrors R) (s.propagate direction x a) (s'.propagate direction x a) := by
  have hnoted := h.note (.propagationAsked x a direction) (.propagationAsked x a direction)
  by_cases hphase : s.phase = .opened
  · rw [propagate_of_opened hphase, propagate_of_opened (h.phase_eq.symm.trans hphase)]
    exact .ok { hnoted with
      requests_eq := congrArg (· ++ [⟨x, a, direction⟩]) h.requests_eq
      left := ⟨h.left.recipe, h.left.reported_lt, h.left.told⟩
      right := ⟨h.right.recipe, h.right.reported_lt, h.right.told⟩ }
  · rw [propagate_of_ne_opened hphase, propagate_of_ne_opened (h.phase_eq ▸ hphase)]
    refine (hnoted.solved (hs.asks (asks_note (c := .summary) s _))
      (hs'.asks (asks_note (c := .summary) s' _)) hd hclash).bind ?_
    rintro ⟨sol, t⟩ ⟨sol', t'⟩ ht
    refine (Concurs.of_eq (ht.mirrors.findCell_eq x a)).bind ?_
    rintro c _ rfl
    dsimp only
    rw [ht.seedsOf_eq]
    exact .ok (ht.settle _).mirrors

/-! ## Closing -/

lemma Mirrors.close : Concurs (SameAnswer R) s.close s'.close := by
  unfold Session.close
  rw [← h.phase_eq]
  split
  · rename_i hphase
    refine (h.solved hs hs' hd hclash).and_eq.bind ?_
    rintro ⟨sol, t⟩ ⟨sol', t'⟩ ⟨ht, hsolved, hsolved'⟩
    have hopened : t.phase = .opened := (solved_eq_ok hsolved).2.2.trans hphase
    -- The exclusions are taken from the sessions before what fails is reported, and checked after
    -- it.
    have hdischarged := ht.discharge .nil ht.mirrors.requests_eq
    have htold := hdischarged.told_reportViolations
    have hreported := hdischarged.reportViolations
    have hopened' :=
      (chats_reportViolations ({ t with exclusions := [] } : Session σ τ) sol).phase_eq
    dsimp only at htold hreported hopened' ⊢
    generalize ({ t with exclusions := [] } : Session σ τ).reportViolations sol = p at *
    generalize ({ t' with exclusions := [] } : Session σ τ).reportViolations sol' = p' at *
    obtain ⟨count, u⟩ := p
    obtain ⟨_, u'⟩ := p'
    obtain ⟨rfl, hu⟩ := hreported
    have hchecks := MirrorsSolved.checksAlike.checkExclusions hu ht.mirrors.exclusions count
    refine hchecks.and_eq.bind ?_
    rintro ⟨failures, w⟩ ⟨_, w'⟩ ⟨⟨rfl, hw⟩, hchecked, hchecked'⟩
    have hconsults := consults_checkExclusions hchecked
    have hconsults' := consults_checkExclusions hchecked'
    have hclosed := hw.close (hconsults.chats.phase_eq.trans (hopened'.trans hopened))
      (fun n hn => hconsults.reported_eq ▸ htold.1 n hn)
      (fun n hn => hconsults'.reported_eq ▸ htold.2 n hn)
    refine hclosed.settleDue.bind fun v v' hv => ?_
    exact .ok ⟨rfl, hv.mirrors.note _ _⟩
  · exact .ok ⟨rfl, h⟩

/-! ## Linearities -/

/-- Linearizing has the same effect, if the same cells are settled. -/
lemma Mirrors.linearize (hsame : ∀ c, c ∈ s.flow.settled ↔ c ∈ s'.flow.settled) :
    Concurs (SameAnswer R) s.linearize s'.linearize := by
  by_cases hphase : s.phase = .closed
  · obtain ⟨sol, sol', t, t', hsolved, hsolved', ht⟩ := h.exists_solved hs hs' hd hclash
    obtain ⟨notices, heq⟩ := linearize_of_closed hphase hsolved
    obtain ⟨notices', heq'⟩ := linearize_of_closed (h.phase_eq.symm.trans hphase) hsolved'
    have hmentions := mentions_foldl_note id notices t
    have hmentions' := mentions_foldl_note id notices' t'
    have hchats := (hmentions.consults sol).chats
    have hchats' := (hmentions'.consults sol').chats
    have hnoted := ht.asks .summary hmentions.asks hmentions'.asks
      (ht.mirrors.sameUpToForgetting (sameUpToForgetting_foldl_note notices t)
        (sameUpToForgetting_foldl_note notices' t'))
    -- The notices that come first change nothing that is settled.
    rw [heq, heq']
    refine .ok ⟨rfl, hnoted.demoteAll ?_ fun c => ?_⟩
    · rw [hchats.phase_eq, (solved_eq_ok hsolved).2.2, hphase]
      simp
    · rw [hchats.settled_eq, hchats'.settled_eq, settled_of_solved hsolved,
        settled_of_solved hsolved']
      exact hsame c
  · unfold Session.linearize
    rw [← h.phase_eq]
    split
    · exact .ok ⟨rfl, h⟩
    · exact .ok ⟨rfl, h⟩
    · contradiction

end Pairs

omit [QualifierLattice σ τ] in
lemma Mirrors.linearityAt (h : s.Mirrors R s') (x : StoreId) (a : LocationId) :
    Concurs (SameAnswer R) (s.linearityAt x a) (s'.linearityAt x a) := by
  unfold Session.linearityAt refuseUnlinearized
  rw [← h.phase_eq, ← h.linearities_eq, ← h.locations_eq]
  split
  · exact .ok ⟨rfl, h⟩
  · refine (Concurs.of_eq (h.find_store x)).bind ?_
    rintro root _ rfl
    split
    · exact .ok ⟨rfl, h⟩
    · refine (Concurs.of_eq rfl).bind ?_
      rintro location _ rfl
      exact .ok ⟨rfl, h⟩

end Session

end HeapQual
