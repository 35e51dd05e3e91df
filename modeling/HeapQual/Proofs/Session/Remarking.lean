import HeapQual.Proofs.Marks
import HeapQual.Proofs.Mirror.Asking
import HeapQual.Proofs.Session.Freshness

/-!
# Marks of effects do not show

A question about a marked effect is answered from what is remembered of earlier questions, any other
question from the solution.  What is remembered is always what the solution says, so nobody can tell
whether an effect is marked.

Two sessions that differ in marks and in remembered questions only (`Session.Remarks`) give the same
replies to every command, have the same dialogue with the lattice, and end by the same fault
(`Session.Remarks.exec`).  A mark leaves a session that differs in nothing else.  So a caller hears
the same from a list of acts whichever marks are among them (`Session.memo_exact`).
-/

namespace HeapQual

namespace Session

variable {σ τ : Type} {s s' s'' : Session σ τ}

/-- The session with other marks on its effects, and with other questions remembered. -/
def remark (s : Session σ τ) (marked : Array Bool) (questions : Cache TripleKey Bool) :
    Session σ τ :=
  { s with graph := s.graph.remark marked, questions }

/-- The sessions differ in marks and in remembered questions only. -/
def Remarks (s s' : Session σ τ) : Prop := ∃ marked questions, s' = s.remark marked questions

lemma remarks_of_markEffect {e : EffectId} (h : s.markEffect e = .ok s') : s.Remarks s' := by
  obtain ⟨root, -, h⟩ := bind_eq_ok_iff.1 h
  cases h
  exact ⟨_, _, rfl⟩

namespace Remarks

lemma refl (s : Session σ τ) : s.Remarks s := ⟨_, _, rfl⟩

lemma symm (h : s.Remarks s') : s'.Remarks s := by
  obtain ⟨marked, questions, rfl⟩ := h
  exact ⟨_, _, rfl⟩

lemma trans (h : s.Remarks s') (h' : s'.Remarks s'') : s.Remarks s'' := by
  obtain ⟨marked, questions, rfl⟩ := h
  obtain ⟨marked', questions', rfl⟩ := h'
  exact ⟨_, _, rfl⟩

variable (h : s.Remarks s')

include h

lemma talk_eq : s'.talk = s.talk := by
  obtain ⟨marked, questions, rfl⟩ := h
  rfl

lemma phase_eq : s'.phase = s.phase := by
  obtain ⟨marked, questions, rfl⟩ := h
  rfl

lemma findCell_eq (x : StoreId) (a : LocationId) : s.findCell x a = s'.findCell x a := by
  obtain ⟨marked, questions, rfl⟩ := h
  rfl

lemma withTalk (talk : Dialogue σ τ) : (s.withTalk talk).Remarks (s'.withTalk talk) := by
  obtain ⟨marked, questions, rfl⟩ := h
  exact ⟨_, _, rfl⟩

lemma note (n : Notice τ) : (s.note n).Remarks (s'.note n) := by
  unfold Session.note
  rw [h.talk_eq]
  exact h.withTalk _

lemma foldl_note {α : Type} (notice : α → Notice τ) (items : List α) :
    (items.foldl (fun s item => s.note (notice item)) s).Remarks
      (items.foldl (fun s item => s.note (notice item)) s') := by
  induction items generalizing s s' with
  | nil => exact h
  | cons item items ih => exact ih (h.note _)

lemma report (position : Position) (cause : Cause) :
    (s.report position cause).Remarks (s'.report position cause) := by
  unfold Session.report
  rw [h.talk_eq]
  exact h.withTalk _

lemma withLattice (change : σ → σ) :
    (s.withLattice (change s.lattice)).Remarks (s'.withLattice (change s'.lattice)) := by
  unfold Session.withLattice Session.lattice
  rw [h.talk_eq]
  exact h.withTalk _

lemma forget : s.forget.Remarks s'.forget := by
  obtain ⟨marked, questions, rfl⟩ := h
  have hsolution : (s.remark marked questions).solution = s.solution := rfl
  unfold Session.forget
  rw [hsolution]
  cases s.solution with
  | none => exact ⟨_, _, rfl⟩
  | some sol => exact ⟨_, _, rfl⟩

lemma withLocations (locations : Locations τ) :
    ({ s with graph := { s.graph with locations } } : Session σ τ).Remarks
      { s' with graph := { s'.graph with locations } } := by
  obtain ⟨marked, questions, rfl⟩ := h
  exact ⟨_, _, rfl⟩

lemma withEffects {t t' : Effects} (ht : ∃ marked, t' = t.remark marked) :
    (s.withEffects t).Remarks (s'.withEffects t') := by
  obtain ⟨marked, questions, rfl⟩ := h
  obtain ⟨marked', rfl⟩ := ht
  exact ⟨_, _, rfl⟩

lemma effects_eq : ∃ marked, s'.graph.effects = s.graph.effects.remark marked := by
  obtain ⟨marked, questions, rfl⟩ := h
  exact ⟨_, rfl⟩

lemma withStores (stores : Stores τ) : (s.withStores stores).Remarks (s'.withStores stores) := by
  obtain ⟨marked, questions, rfl⟩ := h
  exact ⟨_, _, rfl⟩

/-- A look at anything but marks shows the same, and changes nothing. -/
lemma look {α : Type} {x x' : Except Fault α} (hx : x = x') (f : α → Reply τ) :
    Matches (Along Remarks) (x >>= fun a => pure (f a, s)) (x' >>= fun a => pure (f a, s')) :=
  (Matches.of_eq hx).bind fun _ _ heq => .ok ⟨congrArg f heq, h⟩

/-! ## Effects -/

lemma enterEffect (node : EffectNode) :
    Along Remarks (s.enterEffect node) (s'.enterEffect node) := by
  obtain ⟨marked, heffects⟩ := h.effects_eq
  unfold Session.enterEffect
  rw [heffects]
  exact ⟨rfl, (h.withEffects ⟨_, rfl⟩).forget⟩

lemma recallOrEnter (recipe : Effects.Recipe) (node : EffectNode)
    (notice : EffectId → Notice τ) :
    Along Remarks (s.recallOrEnter recipe node notice) (s'.recallOrEnter recipe node notice) := by
  have hrecipes : s'.recipes = s.recipes := by
    obtain ⟨marked, questions, rfl⟩ := h
    rfl
  have hwith (recipes : Cache Effects.Recipe EffectId) :
      ({ s with recipes } : Session σ τ).Remarks { s' with recipes } := by
    obtain ⟨marked, questions, rfl⟩ := h
    exact ⟨_, _, rfl⟩
  unfold Session.recallOrEnter
  rw [hrecipes]
  generalize s.recipes.get? recipe = found
  obtain ⟨held, recipes⟩ := found
  cases held with
  | some e => exact ⟨rfl, hwith recipes⟩
  | none =>
    obtain ⟨he, hentered⟩ := (hwith recipes).enterEffect node
    dsimp only
    rw [← he]
    obtain ⟨marked, questions, heq⟩ := hentered.note (notice _)
    rw [heq]
    exact ⟨rfl, _, _, rfl⟩

lemma atom (kind : Kind) (a : LocationId) :
    Matches (Along Remarks) (s.atom kind a) (s'.atom kind a) := by
  have hfind : s.graph.locations.find a = s'.graph.locations.find a := by
    obtain ⟨marked, questions, rfl⟩ := h
    rfl
  exact (Matches.of_eq hfind).bind fun _ _ _ => .ok (h.recallOrEnter ..)

lemma effectVariable (name : String) :
    Along Remarks (s.effectVariable name) (s'.effectVariable name) := by
  obtain ⟨he, hentered⟩ := h.enterEffect (.var name)
  refine ⟨he, ?_⟩
  unfold Session.effectVariable
  dsimp only
  rw [← he]
  exact hentered.note _

lemma freshEffect : Along Remarks s.freshEffect s'.freshEffect := by
  obtain ⟨marked, heffects⟩ := h.effects_eq
  unfold Session.freshEffect
  rw [heffects]
  exact (h.withEffects ⟨_, rfl⟩).effectVariable _

lemma knownEqual_eq (e₁ e₂ : EffectId) : s.knownEqual e₁ e₂ = s'.knownEqual e₁ e₂ := by
  obtain ⟨marked, questions, rfl⟩ := h
  have hequal : (s.remark marked questions).graph.effects.knownEqual
      (s.remark marked questions).graph.classOf e₁ e₂ =
        s.graph.effects.knownEqual s.graph.classOf e₁ e₂ := Effects.knownEqual_remark ..
  unfold Session.knownEqual
  rw [hequal]
  rfl

/-- An operator is not made of effects that are known to be equal. -/
lemma unlessEqual (e₁ e₂ : EffectId) (recipe : Effects.Recipe) (node : EffectNode)
    (notice : EffectId → Notice τ) :
    Matches (Along Remarks)
      (do
        if ← s.knownEqual e₁ e₂ then return (e₁, s)
        else return s.recallOrEnter recipe node notice)
      (do
        if ← s'.knownEqual e₁ e₂ then return (e₁, s')
        else return s'.recallOrEnter recipe node notice) := by
  refine (Matches.of_eq (h.knownEqual_eq e₁ e₂)).bind ?_
  rintro same _ rfl
  split
  · exact .ok ⟨rfl, h⟩
  · exact .ok (h.recallOrEnter ..)

lemma union (e₁ e₂ : EffectId) :
    Matches (Along Remarks) (s.union e₁ e₂) (s'.union e₁ e₂) := by
  unfold Session.union
  split
  · exact .ok ⟨rfl, h⟩
  · split
    · exact .ok ⟨rfl, h⟩
    · exact h.unlessEqual ..

lemma inter (e₁ e₂ : EffectId) :
    Matches (Along Remarks) (s.inter e₁ e₂) (s'.inter e₁ e₂) := by
  unfold Session.inter
  split
  · exact .error rfl
  · split
    · exact .ok ⟨rfl, h⟩
    · exact h.unlessEqual ..

lemma includeStep (position : Position) (step : Effects.SplitStep) :
    (Session.includeStep position s step).Remarks (Session.includeStep position s' step) := by
  have hnote := h.note (.inclusionAsked step.source step.target)
  obtain ⟨marked, heffects⟩ := hnote.effects_eq
  unfold Session.includeStep
  dsimp only
  split
  · rw [heffects]
    exact (hnote.withEffects ⟨_, rfl⟩).forget
  · exact hnote

omit h in
lemma includeSteps (position : Position) (steps : List Effects.SplitStep) (h : s.Remarks s') :
    (steps.foldl (Session.includeStep position) s).Remarks
      (steps.foldl (Session.includeStep position) s') := by
  induction steps generalizing s s' with
  | nil => exact h
  | cons step steps ih => exact ih (h.includeStep position step)

lemma includeEffect (position : Position) (e₁ e₂ : EffectId) :
    Matches Remarks (s.includeEffect position e₁ e₂) (s'.includeEffect position e₁ e₂) := by
  have hsplit : s'.graph.effects.split s'.graph.classOf e₁ e₂ =
      s.graph.effects.split s.graph.classOf e₁ e₂ := by
    obtain ⟨marked, questions, rfl⟩ := h
    exact Effects.split_remark ..
  have hfind (e : EffectId) : s.graph.effects.find e = s'.graph.effects.find e := by
    obtain ⟨marked, questions, rfl⟩ := h
    rfl
  have hsteps := includeSteps position (s.graph.effects.split s.graph.classOf e₁ e₂) h
  unfold Session.includeEffect
  rw [hsplit]
  dsimp only
  split
  · exact .ok hsteps
  · refine (Matches.of_eq (hfind e₁)).bind fun _ _ _ => ?_
    exact (Matches.of_eq (hfind e₂)).bind fun _ _ _ => .ok hsteps

lemma equateEffects (position : Position) (e₁ e₂ : EffectId) :
    Matches Remarks (s.equateEffects position e₁ e₂) (s'.equateEffects position e₁ e₂) :=
  (h.includeEffect position e₁ e₂).bind fun _ _ h' => h'.includeEffect position e₂ e₁

lemma mergeEffects (e₁ e₂ : EffectId) :
    Matches Remarks (s.mergeEffects e₁ e₂) (s'.mergeEffects e₁ e₂) := by
  have hfind (e : EffectId) : s.findEffectVariable e = s'.findEffectVariable e := by
    obtain ⟨marked, questions, rfl⟩ := h
    rfl
  refine (Matches.of_eq (hfind e₁)).bind ?_
  rintro r₁ _ rfl
  refine (Matches.of_eq (hfind e₂)).bind ?_
  rintro r₂ _ rfl
  have hnote := h.note (.effectsMerged e₁ e₂)
  obtain ⟨marked, heffects⟩ := hnote.effects_eq
  dsimp only
  split
  · exact .ok hnote
  · rw [heffects]
    exact .ok (hnote.withEffects ⟨_, rfl⟩).forget

/-! ## Stores -/

lemma stores_eq : s'.graph.stores = s.graph.stores := by
  obtain ⟨marked, questions, rfl⟩ := h
  rfl

lemma enterStore (node : StoreNode τ) :
    Along Remarks (s.enterStore node) (s'.enterStore node) := by
  unfold Session.enterStore
  rw [h.stores_eq]
  exact ⟨rfl, (h.withStores _).forget⟩

/-- A store is entered, and the log says so. -/
lemma enterStore_note (node : StoreNode τ) (notice : StoreId → Notice τ) :
    Along Remarks
      ((s.enterStore node).1, (s.enterStore node).2.note (notice (s.enterStore node).1))
      ((s'.enterStore node).1, (s'.enterStore node).2.note (notice (s'.enterStore node).1)) := by
  obtain ⟨hx, hentered⟩ := h.enterStore node
  refine ⟨hx, ?_⟩
  dsimp only
  rw [← hx]
  exact hentered.note _

lemma sameStore_eq (x y : StoreId) : s.sameStore x y = s'.sameStore x y := by
  unfold Session.sameStore
  rw [h.stores_eq]

lemma includeStore (position : Position) (message : String) (left right : StoreId) :
    Matches Remarks (s.includeStore position message left right)
      (s'.includeStore position message left right) := by
  refine (Matches.of_eq (h.sameStore_eq left right)).bind ?_
  rintro same _ rfl
  have hnote := h.note (.edgeAsked left right)
  dsimp only
  split
  · exact .ok hnote
  · rw [hnote.stores_eq]
    exact .ok (hnote.withStores _).forget

lemma equateStores (position : Position) (message : String) (x y : StoreId) :
    Matches Remarks (s.equateStores position message x y)
      (s'.equateStores position message x y) :=
  (h.includeStore ..).bind fun _ _ h' => h'.includeStore ..

lemma storeVariable (position : Position) (name : String) :
    Along Remarks (s.storeVariable position name) (s'.storeVariable position name) :=
  h.enterStore_note (.var name) (.storeVariableMade position name)

lemma joinStores (position : Position) (message : String) (x y : StoreId) :
    Matches (Along Remarks) (s.joinStores position message x y)
      (s'.joinStores position message x y) :=
  corresponds_joinStores (fun _ => rfl) (h.storeVariable position "lub")
    (fun h => h.includeStore position message) fun h => h.sameStore_eq x y

lemma mergeStores (position : Position) (message : String) (x y : StoreId) :
    Matches Remarks (s.mergeStores position message x y)
      (s'.mergeStores position message x y) := by
  have hfind (x : StoreId) : s.findStoreVariable x = s'.findStoreVariable x := by
    unfold Session.findStoreVariable
    rw [h.stores_eq]
  refine (Matches.of_eq (hfind x)).bind ?_
  rintro rx _ rfl
  refine (Matches.of_eq (hfind y)).bind ?_
  rintro ry _ rfl
  have hnote := h.note (.storesMerged position message x y)
  dsimp only
  split
  · exact .ok hnote
  · rw [hnote.stores_eq]
    exact .ok (hnote.withStores _).forget

/-! ## Locations and allocation -/

lemma locations_eq : s'.graph.locations = s.graph.locations := by
  obtain ⟨marked, questions, rfl⟩ := h
  rfl

lemma makeLocation (name : String) (holds : τ) :
    Along Remarks (s.makeLocation name holds) (s'.makeLocation name holds) := by
  unfold Session.makeLocation
  rw [h.locations_eq]
  exact ⟨rfl, (h.withLocations _).note _⟩

lemma markLocation (a : LocationId) :
    Matches Remarks (s.markLocation a) (s'.markLocation a) := by
  unfold Session.markLocation
  rw [h.locations_eq]
  refine (Matches.of_eq rfl).bind ?_
  rintro root _ rfl
  exact .ok (h.withLocations _)

variable [QualifierLattice σ τ]

lemma equateHeld (position : Position) (a b : LocationId) (l r : τ) :
    (s.equateHeld position a b l r).Remarks (s'.equateHeld position a b l r) := by
  obtain ⟨marked, questions, rfl⟩ := h
  have htalk : (s.remark marked questions).talk = s.talk := rfl
  unfold Session.equateHeld
  rw [htalk]
  dsimp only
  split
  · exact ⟨_, _, rfl⟩
  · exact ⟨_, _, rfl⟩

lemma mergeLocations (position : Position) (a b : LocationId) :
    Matches Remarks (s.mergeLocations position a b) (s'.mergeLocations position a b) := by
  have hnote := h.note (.locationsMerged a b)
  unfold Session.mergeLocations
  rw [h.locations_eq]
  refine (Matches.of_eq rfl).bind fun _ _ _ => ?_
  refine (Matches.of_eq rfl).bind fun _ _ _ => ?_
  dsimp only
  rw [hnote.locations_eq]
  generalize (s.note (.locationsMerged a b)).graph.locations.merge a b = result
  obtain ⟨merged, locations⟩ := result
  have hmerged := hnote.withLocations locations
  dsimp only
  split
  · exact .ok hmerged
  · split
    · exact .ok (hmerged.equateHeld ..).forget
    · exact .ok hmerged.forget

lemma allocate (position : Position) (base : StoreId) (a : LocationId) :
    Matches (Along Remarks) (s.allocate position base a) (s'.allocate position base a) := by
  unfold Session.allocate
  rw [h.locations_eq, h.talk_eq]
  refine (Matches.of_eq rfl).bind ?_
  rintro record _ rfl
  exact .ok ((h.withTalk (s.talk.fresh record.holds).2).enterStore_note
    (.allocate base a (s.talk.fresh record.holds).1) (.allocationMade position base a))

lemma allocateAll (position : Position) (base : StoreId) (e : EffectId) :
    Matches (Along Remarks) (s.allocateAll position base e) (s'.allocateAll position base e) := by
  have hfind : s.graph.effects.find e = s'.graph.effects.find e := by
    obtain ⟨marked, questions, rfl⟩ := h
    rfl
  have hatoms : s'.graph.effects.atoms e = s.graph.effects.atoms e := by
    obtain ⟨marked, questions, rfl⟩ := h
    exact Effects.atoms_remark ..
  have hclassOf : s'.graph.classOf = s.graph.classOf := by
    obtain ⟨marked, questions, rfl⟩ := h
    rfl
  unfold Session.allocateAll
  rw [hatoms, hclassOf]
  refine (Matches.of_eq hfind).bind fun _ _ _ => ?_
  split
  · exact .error rfl
  · refine Corresponds.foldlM_same (R := Along Remarks) ?_ _ ⟨rfl, h⟩
    rintro ⟨y, t⟩ ⟨_, t'⟩ a ⟨rfl, ht⟩
    exact ht.allocate position y a

/-! ## Solving and settling -/

omit [QualifierLattice σ τ] in
lemma reportViolation (count number : Nat) :
    Along Remarks (Session.reportViolation (count, s) number)
      (Session.reportViolation (count, s') number) := by
  obtain ⟨marked, questions, rfl⟩ := h
  have htext (e : EffectId) : (s.remark marked questions).graph.effectText e =
      s.graph.effectText e := Graph.effectText_remark ..
  have hreported : (s.remark marked questions).reported = s.reported := rfl
  have hinclusions : (s.remark marked questions).graph.effects.inclusions =
      s.graph.effects.inclusions := rfl
  unfold Session.reportViolation
  simp only [hreported, hinclusions, htext]
  split
  · exact ⟨rfl, _, _, rfl⟩
  · split
    · exact ⟨rfl, _, _, rfl⟩
    · exact ⟨rfl, _, _, rfl⟩

omit [QualifierLattice σ τ] in
lemma reportViolations (sol : Solution) :
    Along Remarks (s.reportViolations sol) (s'.reportViolations sol) := by
  have hfold : ∀ (numbers : List Nat) (p p' : Nat × Session σ τ), Along Remarks p p' →
      Along Remarks (numbers.foldl Session.reportViolation p)
        (numbers.foldl Session.reportViolation p') := by
    intro numbers
    induction numbers with
    | nil => exact fun _ _ hp => hp
    | cons number numbers ih =>
      rintro ⟨count, t⟩ ⟨_, t'⟩ ⟨rfl, ht⟩
      exact ih _ _ (ht.reportViolation count number)
  exact hfold sol.violations (0, s) (0, s') ⟨rfl, h⟩

lemma solved : Matches (Along Remarks) s.solved s'.solved := by
  obtain ⟨marked, questions, rfl⟩ := h
  have hsolution : (s.remark marked questions).solution = s.solution := rfl
  have hvalidate : s.graph.validate = (s.remark marked questions).graph.validate := rfl
  unfold Session.solved
  rw [hsolution]
  cases s.solution with
  | some sol => exact .ok ⟨rfl, _, _, rfl⟩
  | none =>
    refine (Matches.of_eq hvalidate).bind fun _ _ _ => ?_
    -- What is solved, noted and keyed anew is the same, so the marks are all that differs.
    let solved : Session σ τ := { s.noteSolution s.graph.solve with solution := some s.graph.solve }
    let keyed : Session σ τ := { solved with flow := solved.flow.rekey solved.graph }
    have hkeyed : keyed.Remarks (keyed.remark marked questions) := ⟨_, _, rfl⟩
    change Matches (Along Remarks)
      (.ok (s.graph.solve, if s.phase = .opened then keyed
        else (keyed.reportViolations s.graph.solve).2))
      (.ok (s.graph.solve, if s.phase = .opened then keyed.remark marked questions
        else ((keyed.remark marked questions).reportViolations s.graph.solve).2))
    split
    · exact .ok ⟨rfl, hkeyed⟩
    · exact .ok ⟨rfl, (hkeyed.reportViolations _).2⟩

lemma settle (sol : Solution) (seeds : List Cell) :
    (s.settle sol seeds).Remarks (s'.settle sol seeds) := by
  obtain ⟨marked, questions, rfl⟩ := h
  have hsettle := (View.mirrors_remark s.graph marked sol s.linearities.demoted).settle_eq s.flow
    seeds
  refine ⟨marked, questions, ?_⟩
  exact congrArg (fun flow => ({ s.remark marked questions with flow } : Session σ τ)) hsettle

lemma readCell (sol : Solution) (c : Cell) :
    Along Remarks (s.readCell sol c) (s'.readCell sol c) := by
  obtain ⟨marked, questions, heq⟩ := h.settle sol [c]
  have hread := (View.mirrors_remark (s.settle sol [c]).graph marked sol
    (s.settle sol [c]).linearities.demoted).read_eq (s.settle sol [c]).flow c
  unfold Session.readCell
  rw [heq]
  have hsame : ((s.settle sol [c]).remark marked questions).flow.read
      (((s.settle sol [c]).remark marked questions).view sol) c =
        (s.settle sol [c]).flow.read ((s.settle sol [c]).view sol) c := hread
  dsimp only
  rw [hsame]
  exact ⟨rfl, _, _, rfl⟩

lemma settleDue (sol : Solution) : Matches Remarks (s.settleDue sol) (s'.settleDue sol) := by
  have hseeds : s.requests.mapM (s.requestedSeeds sol) =
      s'.requests.mapM (s'.requestedSeeds sol) := by
    obtain ⟨marked, questions, rfl⟩ := h
    rfl
  have hstanding : s'.standingSeeds sol = s.standingSeeds sol := by
    obtain ⟨marked, questions, rfl⟩ := h
    rfl
  have hrequests : ({ s with requests := [] } : Session σ τ).Remarks
      { s' with requests := [] } := by
    obtain ⟨marked, questions, rfl⟩ := h
    exact ⟨_, _, rfl⟩
  refine (Matches.of_eq hseeds).bind ?_
  rintro requested _ rfl
  rw [hstanding]
  have hsettled := hrequests.settle sol (s.standingSeeds sol ++ requested.flatten)
  have hcount : (({ s' with requests := [] } : Session σ τ).settle sol
      (s.standingSeeds sol ++ requested.flatten)).flow = (({ s with requests := [] } :
        Session σ τ).settle sol (s.standingSeeds sol ++ requested.flatten)).flow := by
    obtain ⟨marked, questions, heq⟩ := hsettled
    rw [heq]
    rfl
  dsimp only
  rw [hcount]
  exact .ok (hsettled.note _)

lemma demote (sol : Solution) (site : UpdateSite) :
    (Session.demote sol s site).Remarks (Session.demote sol s' site) := by
  obtain ⟨marked, questions, rfl⟩ := h
  let noted := s.note (.updateDemoted (s.graph.locations.nameOf site.location) ⟨site.store⟩)
  have hsend := (View.mirrors_remark s.graph marked sol s.linearities.demoted).sendUpdate_eq
    noted.flow site.store
  have hsent : ({ noted with flow := noted.flow.sendUpdate (noted.view sol) site.store } :
      Session σ τ).Remarks { noted.remark marked questions with
        flow := noted.flow.sendUpdate ((noted.remark marked questions).view sol) site.store } := by
    refine ⟨marked, questions, ?_⟩
    exact congrArg (fun flow => ({ noted.remark marked questions with flow } : Session σ τ)) hsend
  exact hsent.settle sol _

end Remarks

/-! ## Membership questions -/

/-- The sessions differ in marks and in remembered questions only, and both remember only what the
solution says. -/
structure Recalls (sol : Solution) (s s' : Session σ τ) : Prop where
  remarks : s.Remarks s'
  left : s.questions.Obeys sol.Answers
  right : s'.questions.Obeys sol.Answers

/-- A question is answered by the solution and changes at most what is remembered. -/
lemma asks_eq_map {sol : Solution} (hs : s.questions.Obeys sol.Answers) (location : Nat)
    (kind : Kind) (e : EffectId) :
    ∃ questions : Cache TripleKey Bool, questions.Obeys sol.Answers ∧
      s.asks sol location kind e = (s.graph.effects.find e).map fun root =>
        (sol.touches root location kind, { s with questions }) := by
  unfold asks
  cases s.graph.effects.find e with
  | error f => exact ⟨s.questions, hs, rfl⟩
  | ok root =>
    simp only [bind, Except.bind]
    split
    · split
      · rename_i answer hget
        rw [Cache.fst_get?] at hget
        refine ⟨_, hs.get? ⟨location, kind.rank, root⟩, ?_⟩
        rw [hs.rel_of_peek? hget kind rfl]
        rfl
      · exact ⟨_, (hs.get? _).insert (sol.answers_touches location root kind), rfl⟩
    · exact ⟨s.questions, hs, rfl⟩

namespace Recalls

variable {sol : Solution} (h : Recalls sol s s')

include h

lemma report (position : Position) (cause : Cause) :
    Recalls sol (s.report position cause) (s'.report position cause) :=
  ⟨h.remarks.report position cause, h.left, h.right⟩

/-- Whether the effect is marked, and what was asked before, does not matter to the answer. -/
lemma asks (location : Nat) (kind : Kind) (e : EffectId) :
    Matches (Along (Recalls sol)) (s.asks sol location kind e) (s'.asks sol location kind e) := by
  obtain ⟨questions, hquestions, heq⟩ := asks_eq_map h.left location kind e
  obtain ⟨questions', hquestions', heq'⟩ := asks_eq_map h.right location kind e
  rw [heq, heq']
  obtain ⟨⟨marked, held, rfl⟩, -, -⟩ := h
  have hfind : (s.remark marked held).graph.effects.find e = s.graph.effects.find e := rfl
  rw [hfind]
  cases s.graph.effects.find e with
  | error f => exact .error rfl
  | ok root => exact .ok ⟨rfl, ⟨_, _, rfl⟩, hquestions, hquestions'⟩

omit h in
lemma checksAlike : ChecksAlike Eq Eq sol sol
    (Recalls sol : Session σ τ → Session σ τ → Prop) where
  refl _ := rfl
  locations_eq h := h.remarks.locations_eq.symm
  members := by
    rintro s s' e _ h rfl
    obtain ⟨marked, heffects⟩ := h.remarks.effects_eq
    have hfind : s.graph.effects.find e = s'.graph.effects.find e := by
      rw [heffects]
      rfl
    exact (Matches.of_eq hfind).imp fun _ _ => congrArg sol.membersOf
  asks := by
    rintro s s' e _ h rfl location kind
    exact h.asks location kind e
  report h position cause _ _ := h.report position cause

end Recalls

/-! ## Commands that ask -/

section Asking

variable [QualifierLattice σ τ] (h : s.Remarks s') (hs : s.Trusted) (hs' : s'.Trusted)

include h

lemma Remarks.domain (x : StoreId) : Matches (Along Remarks) (s.domain x) (s'.domain x) := by
  unfold Session.domain refuseOpen
  rw [h.phase_eq]
  split
  · exact .ok ⟨rfl, h⟩
  · refine h.solved.bind ?_
    rintro ⟨sol, t⟩ ⟨_, t'⟩ ⟨rfl, ht⟩
    dsimp only
    rw [ht.stores_eq]
    refine (Matches.of_eq rfl).bind ?_
    rintro root _ rfl
    exact .ok ⟨rfl, ht⟩

lemma Remarks.typeAt (x : StoreId) (a : LocationId) :
    Matches (Along Remarks) (s.typeAt x a) (s'.typeAt x a) := by
  unfold Session.typeAt refuseUnlinearized
  rw [h.phase_eq]
  split
  · exact .ok ⟨rfl, h⟩
  · refine h.solved.bind ?_
    rintro ⟨sol, t⟩ ⟨_, t'⟩ ⟨rfl, ht⟩
    refine (Matches.of_eq (ht.findCell_eq x a)).bind ?_
    rintro c _ rfl
    obtain ⟨htype, hread⟩ := ht.readCell sol c
    exact .ok ⟨congrArg Except.ok htype, hread⟩

lemma Remarks.printCells (style : CellStyle) (x : StoreId) (limit : Option Nat) :
    Matches (Along Remarks) (s.printCells style x limit) (s'.printCells style x limit) := by
  unfold Session.printCells refuseOpen
  rw [h.phase_eq]
  split
  · exact .ok ⟨rfl, h⟩
  · refine h.solved.bind ?_
    rintro ⟨sol, t⟩ ⟨_, t'⟩ ⟨rfl, ht⟩
    dsimp only
    rw [ht.stores_eq]
    refine (Matches.of_eq rfl).bind ?_
    rintro root _ rfl
    have hpieces {t t' : Session σ τ} (ht : t.Remarks t') :
        t.cellPieces style = t'.cellPieces style := by
      obtain ⟨marked, questions, rfl⟩ := ht
      rfl
    refine (corresponds_printCellsAt (fun _ => rfl) (fun h => h.readCell sol) hpieces root _
      (Output.start limit) ht).bind ?_
    rintro ⟨out, u⟩ ⟨_, u'⟩ ⟨rfl, hu⟩
    exact .ok ⟨rfl, hu⟩

lemma Remarks.propagate (direction : Direction) (x : StoreId) (a : LocationId) :
    Matches Remarks (s.propagate direction x a) (s'.propagate direction x a) := by
  by_cases hphase : s.phase = .opened
  · rw [propagate_of_opened hphase, propagate_of_opened (h.phase_eq.trans hphase)]
    obtain ⟨marked, questions, rfl⟩ := h
    exact .ok ⟨_, _, rfl⟩
  · rw [propagate_of_ne_opened hphase, propagate_of_ne_opened (h.phase_eq.symm ▸ hphase)]
    refine (h.note (.propagationAsked x a direction)).solved.bind ?_
    rintro ⟨sol, t⟩ ⟨_, t'⟩ ⟨rfl, ht⟩
    refine (Matches.of_eq (ht.findCell_eq x a)).bind ?_
    rintro c _ rfl
    have hseeds : t'.seedsOf sol direction c = t.seedsOf sol direction c := by
      obtain ⟨marked, questions, rfl⟩ := ht
      rfl
    dsimp only
    rw [hseeds]
    exact .ok (ht.settle sol _)

lemma Remarks.foldl_demote (sol : Solution) (sites : List UpdateSite) :
    (sites.foldl (Session.demote sol) s).Remarks (sites.foldl (Session.demote sol) s') := by
  induction sites generalizing s s' with
  | nil => exact h
  | cons site sites ih => exact ih (h.demote sol site)

lemma Remarks.linearize : Matches (Along Remarks) s.linearize s'.linearize := by
  unfold Session.linearize
  rw [h.phase_eq]
  split
  · exact .ok ⟨rfl, h⟩
  · exact .ok ⟨rfl, h⟩
  · refine h.solved.bind ?_
    rintro ⟨sol, t⟩ ⟨_, t'⟩ ⟨rfl, ht⟩
    have hsupplies : t'.graph.solveSupplies sol = t.graph.solveSupplies sol := by
      obtain ⟨marked, questions, rfl⟩ := ht
      rfl
    have hsites : updateSites t'.graph = updateSites t.graph := by
      obtain ⟨marked, questions, rfl⟩ := ht
      rfl
    dsimp only
    rw [hsupplies, hsites]
    have hnoted := (ht.foldl_note (fun site : UpdateSite => .linearityFound site.store
      site.location (linearityOf (t.graph.solveSupplies sol).values site))
        (updateSites t.graph)).note
      (.linearitiesFound (updateSites t.graph).length (t.graph.solveSupplies sol).steps)
    obtain ⟨marked, questions, heq⟩ := hnoted
    rw [heq]
    exact .ok ⟨rfl, Remarks.foldl_demote ⟨marked, questions, rfl⟩ sol _⟩

include hs hs'

/-- What both sessions remember is what the solution says. -/
lemma Remarks.solved_recalls :
    Matches (fun p p' => p.1 = p'.1 ∧ Recalls p.1 p.2 p'.2) s.solved s'.solved := by
  refine h.solved.and_eq.imp ?_
  rintro ⟨sol, t⟩ ⟨_, t'⟩ ⟨⟨rfl, ht⟩, hsolved, hsolved'⟩
  exact ⟨rfl, ht, hs.answers_of_solved hsolved, hs'.answers_of_solved hsolved'⟩

lemma Remarks.isAccessed (a : LocationId) (e : EffectId) :
    Matches (Along Remarks) (s.isAccessed a e) (s'.isAccessed a e) := by
  unfold Session.isAccessed refuseOpen
  rw [h.phase_eq]
  split
  · exact .ok ⟨rfl, h⟩
  · refine (h.solved_recalls hs hs').bind ?_
    rintro ⟨sol, t⟩ ⟨_, t'⟩ ⟨rfl, ht⟩
    dsimp only
    rw [ht.remarks.locations_eq]
    refine (Matches.of_eq rfl).bind ?_
    rintro root _ rfl
    refine (ht.asks root .any e).bind ?_
    rintro ⟨answer, u⟩ ⟨_, u'⟩ ⟨rfl, hu⟩
    exact .ok ⟨rfl, hu.remarks⟩

lemma Remarks.accept (x : Exclusion) : Matches Remarks (s.accept x) (s'.accept x) := by
  by_cases hphase : s.phase = .opened
  · rw [accept_of_opened hphase, accept_of_opened (h.phase_eq.trans hphase)]
    obtain ⟨marked, questions, rfl⟩ := h
    exact .ok ⟨_, _, rfl⟩
  · rw [accept_of_ne_opened hphase, accept_of_ne_opened (h.phase_eq.symm ▸ hphase)]
    refine (h.solved_recalls hs hs').bind ?_
    rintro ⟨sol, t⟩ ⟨_, t'⟩ ⟨rfl, ht⟩
    refine (Recalls.checksAlike.checkExclusion ht (.refl (fun _ => rfl) x) 0).bind ?_
    rintro ⟨count, u⟩ ⟨_, u'⟩ ⟨rfl, hu⟩
    exact .ok hu.remarks

lemma Remarks.exclude (x : Exclusion) : Matches Remarks (s.exclude x) (s'.exclude x) := by
  have haccept := Remarks.accept (h.note (.exclusionAdded x))
    (hs.asks (asks_note (c := .summary) s _)) (hs'.asks (asks_note (c := .summary) s' _)) x
  obtain ⟨position, restriction⟩ := x
  cases restriction with
  | location a kind e => exact haccept
  | everywhere kind e => exact haccept
  | implies kind₁ e₁ kind₂ e₂ => exact haccept
  | disjoint e₁ e₂ =>
    obtain ⟨marked, heffects⟩ := h.effects_eq
    have hfind : s.graph.effects.find e₁ = s'.graph.effects.find e₁ := by
      rw [heffects]
      rfl
    unfold Session.exclude
    dsimp only
    refine (Matches.of_eq hfind).bind fun _ _ _ => ?_
    rw [heffects, Effects.hasVariables_remark]
    split
    · exact .error rfl
    · exact haccept

lemma Remarks.close : Matches (Along Remarks) s.close s'.close := by
  unfold Session.close
  rw [h.phase_eq]
  split
  · refine (h.solved_recalls hs hs').bind ?_
    rintro ⟨sol, t⟩ ⟨_, t'⟩ ⟨rfl, ht⟩
    have hexclusions : t'.exclusions = t.exclusions := by
      obtain ⟨⟨marked, questions, rfl⟩, -, -⟩ := ht
      rfl
    have hdischarged : ({ t with exclusions := [] } : Session σ τ).Remarks
        { t' with exclusions := [] } := by
      obtain ⟨⟨marked, questions, rfl⟩, -, -⟩ := ht
      exact ⟨_, _, rfl⟩
    have hreported := hdischarged.reportViolations sol
    have hleft := questions_reportViolations ({ t with exclusions := [] } : Session σ τ) sol
    have hright := questions_reportViolations ({ t' with exclusions := [] } : Session σ τ) sol
    dsimp only at hleft hright ⊢
    rw [hexclusions]
    generalize ({ t with exclusions := [] } : Session σ τ).reportViolations sol = p at *
    generalize ({ t' with exclusions := [] } : Session σ τ).reportViolations sol = p' at *
    obtain ⟨count, u⟩ := p
    obtain ⟨_, u'⟩ := p'
    obtain ⟨rfl, hu⟩ := hreported
    -- Reporting does not ask questions, so what is remembered is still right when the exclusions
    -- are checked.
    have hrecalls : Recalls sol u u' := ⟨hu, hleft.symm ▸ ht.left, hright.symm ▸ ht.right⟩
    refine (Recalls.checksAlike.checkExclusions hrecalls
      (List.forall₂_same.2 fun x _ => .refl (fun _ => rfl) x) count).bind ?_
    rintro ⟨failures, w⟩ ⟨_, w'⟩ ⟨rfl, hw⟩
    have hclosed : ({ w with phase := .closed } : Session σ τ).Remarks
        { w' with phase := .closed } := by
      obtain ⟨⟨marked, questions, rfl⟩, -, -⟩ := hw
      exact ⟨_, _, rfl⟩
    refine (hclosed.settleDue sol).bind fun v v' hv => ?_
    exact .ok ⟨rfl, hv.note _⟩
  · exact .ok ⟨rfl, h⟩

end Asking

lemma Remarks.linearityAt (h : s.Remarks s') (x : StoreId) (a : LocationId) :
    Matches (Along Remarks) (s.linearityAt x a) (s'.linearityAt x a) := by
  obtain ⟨marked, questions, rfl⟩ := h
  have hremarks : s.Remarks (s.remark marked questions) := ⟨_, _, rfl⟩
  have hrefuse : (s.remark marked questions).refuseUnlinearized = s.refuseUnlinearized := rfl
  have hfind : s.graph.stores.find x = (s.remark marked questions).graph.stores.find x := rfl
  have hlookup (root : Nat) : (s.remark marked questions).linearities.byUpdate.lookup root =
      s.linearities.byUpdate.lookup root := rfl
  have hlocation : s.graph.locations.find a =
      (s.remark marked questions).graph.locations.find a := rfl
  unfold Session.linearityAt
  rw [hrefuse]
  split
  · exact .ok ⟨rfl, hremarks⟩
  · refine (Matches.of_eq hfind).bind ?_
    rintro root _ rfl
    rw [hlookup]
    split
    · exact .ok ⟨rfl, hremarks⟩
    · refine (Matches.of_eq hlocation).bind ?_
      rintro location _ rfl
      exact .ok ⟨rfl, hremarks⟩

end Session

end HeapQual
