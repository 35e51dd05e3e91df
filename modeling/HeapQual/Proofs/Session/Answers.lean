import HeapQual.Proofs.Lookup
import HeapQual.Proofs.Session.Cone

/-!
# What the answers about types mean

The types that a disciplined session gives out are the meaning of its stores: as long as the graph
does not change, all answers fit into one lookup that satisfies the equations of the store operators
(`Session.typeAt_denotes_stores`).

The type of a variable's cell is made when it is first needed, so answers must be compared along a
run.  A type that was made is kept under the root of its cell, and the table of types is keyed by
present roots whenever the graph is solved (`Session.Disciplined.keyed`); so it is found again as
long as nothing is merged (`Session.DisciplinedRun.retains`).
-/

namespace HeapQual

namespace Session

variable {σ τ : Type} {command : Command τ} {s s' : Session σ τ}

/-! ## The table of types is keyed by roots -/

/-- When the graph is solved, the types of cells are keyed by its roots. -/
def Keyed (s : Session σ τ) : Prop := s.solution ≠ none → s.flow.Keyed s.graph

variable [QualifierLattice σ τ]

lemma Keyed.build {P : Prop} (hs : s.Keyed) (h : Build P command s s') : s'.Keyed := by
  cases h with
  | tweak _ htweaks =>
    intro hne
    refine ⟨fun entry hentry => ?_, (hs hne).2⟩
    rw [Cell.reroot_of_tweaks htweaks]
    exact (hs hne).1 entry hentry
  | grow => exact fun hne => absurd (solution_forget _) hne
  | _ => exact hs

lemma keyed_foldl_demote {sol : Solution} (sites : List UpdateSite) {s : Session σ τ}
    (hv : (s.view sol).Faithful) (hs : s.flow.Keyed s.graph) :
    (sites.foldl (demote sol) s).flow.Keyed s.graph := by
  induction sites generalizing s with
  | nil => exact hs
  | cons site sites ih =>
    -- Demoting changes neither the graph nor the list of demoted updates, so the view stays.
    refine ih (s := demote sol s site) hv ?_
    have hsent := Flow.Keyed.sendUpdate hv (f := (s.note (.updateDemoted
      (s.graph.locations.nameOf site.location) ⟨site.store⟩)).flow) hs site.store
    exact hsent.settle hv [⟨site.base, site.location⟩]

/-- Asking keeps the table keyed by roots. -/
lemma Ask.keyed (h : Ask command s s') (hs : s.Coherent) (hlayered : s.graph.Layered)
    (hkeyed : s.flow.Keyed s.graph) : s'.flow.Keyed s'.graph := by
  have hv : ∀ sol, s.solution = some sol → (s.view sol).Faithful := fun sol hsol =>
    ⟨hs.sound, hlayered, hs.solution_eq sol hsol⟩
  cases h with
  | chat hchat =>
    obtain ⟨talk, questions, reported, rfl, -⟩ := hchat
    exact hkeyed
  | solve => exact Flow.keyed_rekey hs.sound _
  | discharge => exact hkeyed
  | close => exact hkeyed
  | settle seeds hsol => exact Flow.Keyed.settle (hv _ hsol) hkeyed seeds
  | read c hsol => exact Flow.Keyed.read (hv _ hsol) hkeyed c
  | @linearize sol hphase hsol hcommand =>
    have hgraph := (Ask.linearize hphase hsol hcommand).graph_eq
    rw [hgraph]
    refine keyed_foldl_demote _ (s := { s with
      linearities := tabulate (s.graph.solveSupplies sol).values (updateSites s.graph)
      phase := .linearized }) ?_ hkeyed
    exact ⟨hs.sound, hlayered, hs.solution_eq sol hsol⟩

/-- Asking loses no type from a table that is keyed by roots. -/
lemma Ask.keeps (h : Ask command s s') (hs : s.Coherent) (hlayered : s.graph.Layered)
    (hkeyed : s.flow.Keyed s.graph) : s.flow.Keeps s'.flow := by
  rcases h.solves_or_advances hs hlayered with ⟨-, rfl⟩ | ⟨new, hadvances⟩
  · exact hkeyed.keeps_rekey
  · exact hadvances.settles.sends.keeps

lemma Keyed.ask (hs : s.Keyed) (hcoherent : s.Coherent) (hlayered : s.graph.Layered)
    (h : Ask command s s') : s'.Keyed := by
  intro hne
  rcases h.solves_or_advances hcoherent hlayered with ⟨-, rfl⟩ | ⟨new, hadvances⟩
  · exact Flow.keyed_rekey hcoherent.sound _
  · rw [hadvances.solution_eq] at hne
    exact h.keyed hcoherent hlayered (hs hne)

theorem Disciplined.keyed (h : Disciplined s) : s.Keyed := by
  obtain ⟨config, lattice, orders, hrun⟩ := h
  have hstart : Disciplined (Session.start config lattice orders : Session σ τ) := ⟨_, _, _, .refl⟩
  refine DisciplinedRun.induction (motive := Keyed) hstart (fun h => absurd rfl h) ?_
    (fun _ _ h => h) hrun
  intro command s₁ s₂ h₁ _ hmoves
  exact hmoves.preserves (motive := Keyed) (fun _ _ _ hbuild hs => hs.build hbuild)
    (fun _ _ hcoherent hlayered hask hs => hs.ask hcoherent hlayered hask) h₁.coherent h₁.layered

/-! ## Types are found again -/

/-- The graph has only grown since, and if nothing was merged, no type was lost. -/
def Retains (s t : Session σ τ) : Prop :=
  s.graph.Extends t.graph ∧ ((∀ c : Cell, c.reroot t.graph = c.reroot s.graph) →
    s.flow.Keeps t.flow ∧ t.flow.Keyed t.graph)

omit [QualifierLattice σ τ] in
/-- What leaves the table of types alone. -/
lemma Retains.of_types_eq {t t' : Session σ τ} (h : Retains s t) (ht : t.graph.Sound)
    (hext : t.graph.Extends t'.graph) (htypes : t'.flow.types = t.flow.types) : Retains s t' := by
  refine ⟨h.1.trans hext, fun hroots => ?_⟩
  have hbetween := Cell.reroot_eq_of_between h.1 hext ht hroots
  obtain ⟨hkeeps, hkeyed⟩ := h.2 hbetween
  constructor
  · intro c type hc
    rw [htypes]
    exact hkeeps c type hc
  · refine ⟨fun entry hentry => ?_, htypes ▸ hkeyed.2⟩
    rw [htypes] at hentry
    rw [hroots, ← hbetween]
    exact hkeyed.1 entry hentry

lemma Retains.build {P : Prop} {t t' : Session σ τ} (h : Retains s t) (ht : t.graph.Sound)
    (hbuild : Build P command t t') : Retains s t' := by
  have hext := (Builds.grows (.single hbuild) ht).toExtends
  exact h.of_types_eq ht hext hbuild.says_locations.1

lemma Retains.ask {t t' : Session σ τ} (h : Retains s t) (ht : t.Coherent)
    (hlayered : t.graph.Layered) (hask : Ask command t t') : Retains s t' := by
  have hgraph := hask.graph_eq
  refine ⟨hgraph ▸ h.1, fun hroots => ?_⟩
  rw [hgraph] at hroots
  obtain ⟨hkeeps, hkeyed⟩ := h.2 hroots
  exact ⟨hkeeps.trans (hask.keeps ht hlayered hkeyed), hask.keyed ht hlayered hkeyed⟩

theorem DisciplinedRun.retains (h : DisciplinedRun s s') (hs : Disciplined s)
    (hsolved : s.solution ≠ none) : Retains s s' := by
  have hstart : Retains s s :=
    ⟨.refl hs.coherent.sound, fun _ => ⟨.refl _, hs.keyed hsolved⟩⟩
  refine DisciplinedRun.induction (motive := Retains s) hs hstart ?_ (fun _ _ h => h) h
  intro command s₁ s₂ h₁ _ hmoves
  exact hmoves.preserves (motive := Retains s)
    (fun _ _ ht hbuild h => h.build ht.sound hbuild)
    (fun _ _ ht hlayered hask h => h.ask ht hlayered hask) h₁.coherent h₁.layered

lemma Retains.asks {t t' : Session σ τ} (h : Retains s t) (ht : t.Coherent)
    (hlayered : t.graph.Layered) (hasks : Asks command t t') : Retains s t' := by
  exact hasks.preserves (motive := Retains s)
    (fun _ _ ht hlayered hask h => h.ask ht hlayered hask) ht hlayered h

/-! ## Answers -/

/-- The type that would be read of a location in a store. -/
def lookup (s : Session σ τ) (x : StoreId) (a : LocationId) : Option τ :=
  s.flow.lookup (s.view s.graph.solve) x a

/-- The type that is given out is found in the table from then on. -/
lemma typeAt_spec (hs : Disciplined s) {x : StoreId} {a : LocationId} {q : Option τ}
    (h : s.typeAt x a = .ok (.ok q, s')) :
    s'.graph = s.graph ∧ s'.solution ≠ none ∧ q = s'.lookup x a ∧
      ∀ type, q = some type → s'.flow.held (s'.view s'.graph.solve)
        ⟨s'.graph.stores.root x, s'.graph.classOf a⟩ = some type := by
  unfold typeAt at h
  split at h
  · cases h
  · obtain ⟨⟨sol, s₁⟩, hsolved, h⟩ := bind_eq_ok_iff.1 h
    obtain ⟨c, hcell, h⟩ := bind_eq_ok_iff.1 h
    obtain ⟨-, -, rfl⟩ := findCell_eq_ok hcell
    obtain ⟨rfl, hgraph, -, -⟩ := hs.coherent.solved_spec hsolved
    obtain ⟨-, hsol, -⟩ := solved_eq_ok hsolved
    dsimp only at h
    rw [← hgraph] at h
    generalize hc : (⟨s₁.graph.stores.root x, s₁.graph.classOf a⟩ : Cell) = c at h
    -- Reading happens against the view of the session after the cell was settled.
    have hv : (s₁.view s₁.graph.solve).Faithful := hs.faithful hgraph
    have hheld := Flow.held_read (s₁.view s₁.graph.solve)
      (s₁.flow.settle (s₁.view s₁.graph.solve) [c]) c
    have hsome := Flow.isSome_read hv (c := c) (s₁.flow.settle (s₁.view s₁.graph.solve) [c])
    injection h with h
    injection h with hq hs'
    injection hq with hq
    have hq : ((s₁.flow.settle (s₁.view s₁.graph.solve) [c]).read
      (s₁.view s₁.graph.solve) c).1 = q := hq
    rw [hq] at hheld hsome
    rw [← hs']
    have hfound : ∀ type, q = some type →
        ((s₁.flow.settle (s₁.view s₁.graph.solve) [c]).read
          (s₁.view s₁.graph.solve) c).2.held (s₁.view s₁.graph.solve) c = some type :=
      fun type htype => hheld.trans htype
    refine ⟨hgraph, ?_, ?_, ?_⟩
    · show s₁.solution ≠ none
      simp [hsol]
    · show q = (((s₁.flow.settle (s₁.view s₁.graph.solve) [c]).read
        (s₁.view s₁.graph.solve) c).2.read (s₁.view s₁.graph.solve)
          ⟨s₁.graph.stores.root x, s₁.graph.classOf a⟩).1
      rw [hc]
      cases hq : q with
      | some type => exact (Flow.read_of_held (hfound type hq)).symm
      | none =>
        rw [hq] at hsome
        rw [Flow.read, View.binding_of_not_isBound hsome.symm]
    · show ∀ type, q = some type → ((s₁.flow.settle (s₁.view s₁.graph.solve) [c]).read
        (s₁.view s₁.graph.solve) c).2.held (s₁.view s₁.graph.solve)
          ⟨s₁.graph.stores.root x, s₁.graph.classOf a⟩ = some type
      rw [hc]
      exact hfound

/-- An answer stays the answer, as long as the graph is the same. -/
lemma Retains.lookup_eq {t : Session σ τ} (h : Retains s t) (hs : Disciplined s)
    (htweaks : s.graph.Tweaks t.graph) (ht : (t.view t.graph.solve).Faithful) {x : StoreId}
    {a : LocationId} {q : Option τ} (hq : q = s.lookup x a)
    (hheld : ∀ type, q = some type → s.flow.held (s.view s.graph.solve)
      ⟨s.graph.stores.root x, s.graph.classOf a⟩ = some type) : q = t.lookup x a := by
  have hsolve : t.graph.solve = s.graph.solve :=
    htweaks.solve_eq hs.coherent.sound hs.layered.named
  cases hcase : q with
  | some type =>
    obtain ⟨hkeeps, -⟩ := h.2 fun c => Cell.reroot_of_tweaks htweaks c
    have hfound := hkeeps.held_eq (hheld type hcase)
    have hthere : t.flow.held (t.view t.graph.solve)
        ⟨t.graph.stores.root x, t.graph.classOf a⟩ = some type := by
      rw [← hfound, hsolve, htweaks.stores_eq, htweaks.classOf_eq]
      unfold Flow.held
      rw [view, view, View.binding_of_tweaks htweaks]
    exact (Flow.read_of_held hthere).symm
  | none =>
    have hv : (s.view s.graph.solve).Faithful := hs.faithful rfl
    -- No answer was given because nothing was bound, and nothing more is bound now.
    have hunbound : s.graph.classOf a ∉ s.graph.boundBy (s.graph.stores.root x) := by
      intro hbound
      have hsome := (hv.lookup_isSome_iff s.flow x a).2 hbound
      have hnone : s.flow.lookup (s.view s.graph.solve) x a = none := hq.symm.trans hcase
      rw [hnone] at hsome
      cases hsome
    refine (ht.lookup_eq_none t.flow ?_).symm
    show t.graph.classOf a ∉ t.graph.boundBy (t.graph.stores.root x)
    rw [htweaks.classOf_eq, htweaks.stores_eq, Graph.boundBy, hsolve]
    exact hunbound

/-- A linearized disciplined session answers every question about a type. -/
lemma exists_typeAt (hs : Disciplined s) (hphase : s.phase = .linearized) {x : StoreId}
    {a : LocationId} (hx : x.index < s.graph.stores.size) (ha : a.index < s.graph.locations.size) :
    ∃ q s', s.typeAt x a = .ok (.ok q, s') := by
  obtain ⟨s₁, hsolved⟩ := hs.coherent.exists_solved hs.layered.validate_eq_ok
  obtain ⟨-, hgraph, -, -⟩ := hs.coherent.solved_spec hsolved
  have hcell : s₁.findCell x a = .ok ⟨s₁.graph.stores.root x, s₁.graph.classOf a⟩ := by
    rw [← hgraph] at hx ha
    exact bind_eq_ok_iff.2 ⟨_, Stores.find_eq_ok_iff.2 ⟨hx, rfl⟩,
      bind_eq_ok_iff.2 ⟨_, Locations.find_eq_ok_iff.2 ⟨ha, rfl⟩, rfl⟩⟩
  unfold typeAt
  rw [show s.refuseUnlinearized = none by simp [refuseUnlinearized, hphase]]
  exact ⟨_, _, bind_eq_ok_iff.2 ⟨_, hsolved, bind_eq_ok_iff.2 ⟨_, hcell, rfl⟩⟩⟩

/-- A closed disciplined session lists the locations that a store binds. -/
lemma exists_domain (hs : Disciplined s) (hphase : s.phase ≠ .opened) {x : StoreId}
    (hx : x.index < s.graph.stores.size) :
    ∃ list s', s.domain x = .ok (.ok list, s') ∧
      ∀ i, ⟨i⟩ ∈ list ↔ i ∈ s.graph.boundBy (s.graph.stores.root x) := by
  obtain ⟨s₁, hsolved⟩ := hs.coherent.exists_solved hs.layered.validate_eq_ok
  obtain ⟨-, hgraph, -, -⟩ := hs.coherent.solved_spec hsolved
  have hroot : s₁.graph.stores.find x = .ok (s.graph.stores.root x) := by
    rw [hgraph]
    exact Stores.find_eq_ok_iff.2 ⟨hx, rfl⟩
  unfold domain
  rw [refuseOpen_eq_none_iff.2 hphase]
  refine ⟨_, _, bind_eq_ok_iff.2 ⟨_, hsolved, bind_eq_ok_iff.2 ⟨_, hroot, rfl⟩⟩, fun i => ?_⟩
  rw [List.mem_map]
  constructor
  · rintro ⟨j, hj, heq⟩
    cases heq
    exact Ascending.mem_toList.1 hj
  · intro hi
    exact ⟨i, Ascending.mem_toList.2 hi, rfl⟩

/-! ## Printing meets no unbound cell -/

/-- As `printCellsAt`, where something else may be done about locations that turn out to be unbound
than to pass over them. -/
def printCellsAtOr (unbound : Nat → Output → Session σ τ → Except Fault (Output × Session σ τ))
    (sol : Solution) (style : CellStyle) (store : Nat) :
    List Nat → Output → Session σ τ → Except Fault (Output × Session σ τ)
  | [], out, s => .ok (out, s)
  | location :: rest, out, s =>
    if out.full then .ok (out, s)
    else
      match s.readCell sol ⟨store, location⟩ with
      | (none, s) => do
        let (out, s) ← unbound location out s
        printCellsAtOr unbound sol style store rest out s
      | (some type, s) => do
        let out ← out.writeAll (s.cellPieces style location type)
        printCellsAtOr unbound sol style store rest out s

/-- As `printCells`, where something else may be done about unbound locations. -/
def printCellsOr (unbound : Nat → Output → Session σ τ → Except Fault (Output × Session σ τ))
    (s : Session σ τ) (style : CellStyle) (x : StoreId) (limit : Option Nat) :
    Except Fault (Answer σ τ Output) :=
  match s.refuseOpen with
  | some r => .ok (.error r, s)
  | none => do
    let (sol, s) ← s.solved
    let root ← s.graph.stores.find x
    let (out, s) ←
      printCellsAtOr unbound sol style root (sol.domainOf root).toList (Output.start limit) s
    return (.ok out, s)

/-- Every location that is printed is bound, so it does not matter what is done about others. -/
lemma printCellsAtOr_eq {sol : Solution} (hs : s.Coherent) (hlayered : s.graph.Layered)
    (hsol : s.solution = some sol)
    (unbound : Nat → Output → Session σ τ → Except Fault (Output × Session σ τ))
    (style : CellStyle) (store : Nat) (locations : List Nat)
    (hbound : ∀ a ∈ locations, a ∈ s.graph.boundBy store) (out : Output) :
    printCellsAtOr unbound sol style store locations out s =
      printCellsAt sol style store locations out s := by
  induction locations generalizing out s with
  | nil => rfl
  | cons location locations ih =>
    have hv : (s.view sol).Faithful := ⟨hs.sound, hlayered, hs.solution_eq sol hsol⟩
    obtain ⟨hasks, hsol'⟩ := asks_readCell (c := .summary) hsol ⟨store, location⟩
    have hgraph := hasks.graph_eq
    -- A bound location has a cell, so the way out for unbound ones is not taken.
    have hsome : (s.readCell sol ⟨store, location⟩).1.isSome = true := by
      have hread := Flow.isSome_read hv (c := ⟨store, location⟩)
        (s.flow.settle (s.view sol) [⟨store, location⟩])
      refine hread.trans (hv.isBound_iff.2 ?_)
      exact hbound location (List.mem_cons_self ..)
    have hcoherent := hs.asks hasks
    unfold printCellsAtOr printCellsAt
    generalize s.readCell sol ⟨store, location⟩ = cell at hsome hgraph hcoherent hsol' hasks
    obtain ⟨type, s₁⟩ := cell
    obtain ⟨type, rfl⟩ := Option.isSome_iff_exists.1 hsome
    have hrest := fun out => ih hcoherent (hgraph.symm ▸ hlayered) hsol'
      (fun a ha => hgraph.symm ▸ hbound a (List.mem_cons_of_mem _ ha)) out
    simp only [hrest]

/-- In a disciplined session printing meets no unbound cell. -/
lemma printCellsOr_eq (hs : Disciplined s)
    (unbound : Nat → Output → Session σ τ → Except Fault (Output × Session σ τ))
    (style : CellStyle) (x : StoreId) (limit : Option Nat) :
    s.printCellsOr unbound style x limit = s.printCells style x limit := by
  unfold printCellsOr printCells
  cases s.refuseOpen with
  | some r => rfl
  | none =>
    dsimp only
    obtain ⟨s₁, hsolved⟩ := hs.coherent.exists_solved hs.layered.validate_eq_ok
    obtain ⟨-, hgraph, -, hcoherent⟩ := hs.coherent.solved_spec hsolved
    obtain ⟨-, hsol, -⟩ := solved_eq_ok hsolved
    rw [hsolved]
    simp only [bind, Except.bind]
    cases s₁.graph.stores.find x with
    | error fault => rfl
    | ok root =>
      dsimp only
      rw [printCellsAtOr_eq hcoherent (hgraph.symm ▸ hs.layered) hsol unbound style root _ ?_]
      intro a ha
      rw [hgraph]
      exact Ascending.mem_toList.1 ha

/-! ## What answers mean -/

/-- In every linearized disciplined session, however much the graph has grown since, there is one
lookup that is the meaning of the stores, and all answers about types that were given for the
present graph agree with it.  Every question about a type is answered, with a type if and only if
the location is listed in the domain of the store.  Restricting twice to one effect is restricting
once, and printing the cells of a store never meets an unbound one. -/
theorem typeAt_denotes_stores (h : Disciplined s) (hphase : s.phase = .linearized) :
    ∃ L : StoreId → LocationId → Option τ, s.graph.Denotes L ∧
      (∀ s₀ s₁ x a q, Disciplined s₀ → (Command.typeAt x a).Known s₀.graph →
        s₀.exec (.typeAt x a) = .ok (.type? q, s₁) → DisciplinedRun s₁ s →
        s₁.graph.Tweaks s.graph → q = L x a) ∧
      (∀ x a, x.index < s.graph.stores.size → a.index < s.graph.locations.size →
        ∃ q s₁ list s₂, s.typeAt x a = .ok (.ok q, s₁) ∧ s.domain x = .ok (.ok list, s₂) ∧
          (q.isSome = true ↔ ⟨s.graph.classOf a⟩ ∈ list) ∧ q.isSome = (L x a).isSome) ∧
      (∀ x y base e a, s.graph.stores.node x = .restrict base e →
        s.graph.stores.node y = .restrict x e → L y a = L x a) ∧
      ∀ unbound style x limit,
        s.printCellsOr unbound style x limit = s.printCells style x limit := by
  have hs := h.coherent
  -- The meaning is read off the session that has solved the present graph.
  obtain ⟨s₂, hsolved⟩ := hs.exists_solved h.layered.validate_eq_ok
  obtain ⟨-, hgraph₂, -, -⟩ := hs.solved_spec hsolved
  have hv : (s₂.view s₂.graph.solve).Faithful := h.faithful hgraph₂
  have hdenotes : s.graph.Denotes s₂.lookup := hgraph₂ ▸ hv.denotes s₂.flow
  refine ⟨s₂.lookup, hdenotes, ?_, ?_, fun x y base e a hx hy => hdenotes.restrict_restrict hx hy a,
    fun unbound => printCellsOr_eq h unbound⟩
  · intro s₀ s₁ x a q h₀ hknown hexec hrun htweaks
    obtain ⟨⟨answer, s₁'⟩, hanswer, heq⟩ := bind_eq_ok_iff.1 (perform_eq_ok_of_exec hexec)
    cases answer with
    | error refusal => cases heq
    | ok q' =>
    cases heq
    have h₁ : Disciplined s₁ := h₀.run (.exec .refl hknown hexec)
    obtain ⟨-, hsol₁, hq, hheld⟩ := typeAt_spec h₀ hanswer
    obtain ⟨hasks, -⟩ := asks_solved (c := .typeAt x a) hsolved
    -- The types held when the answer was given are still held, so the look-up now ends at the same
    -- type.
    have hretains := (hrun.retains h₁ hsol₁).asks hs h.layered hasks
    exact hretains.lookup_eq h₁ (hgraph₂ ▸ htweaks) hv hq hheld
  · intro x a hx ha
    obtain ⟨q, s₁, hanswer⟩ := exists_typeAt h hphase hx ha
    obtain ⟨list, s₃, hlist, hmem⟩ := exists_domain h (by simp [hphase]) hx
    obtain ⟨hgraph₁, -, hq, -⟩ := typeAt_spec h hanswer
    have hv₁ : (s₁.view s₁.graph.solve).Faithful := h.faithful hgraph₁
    have hsome : q.isSome = true ↔ s.graph.classOf a ∈ s.graph.boundBy (s.graph.stores.root x) := by
      rw [hq, ← hgraph₁]
      exact hv₁.lookup_isSome_iff s₁.flow x a
    refine ⟨q, s₁, list, s₃, hanswer, hlist, hsome.trans (hmem _).symm, ?_⟩
    rw [Bool.eq_iff_iff, hsome, hdenotes.isSome_iff]

/-- A graph that grows after it was linearized: a variable is restricted and updated, and then
merged with another. -/
def regrownScript : List (Command Int) :=
  [.makeLocation "x" 0, .makeLocation "y" 0, .atom .read ⟨0⟩, .storeVariable .internal "base",
    .allocate .internal ⟨0⟩ ⟨0⟩, .storeVariable .internal "v", .includeStore .internal "in" ⟨1⟩ ⟨2⟩,
    .close, .linearize, .restrict .internal ⟨2⟩ ⟨1⟩, .update .internal "write" ⟨3⟩ ⟨1⟩ 1 false,
    .storeVariable .internal "w", .mergeStores .internal "same" ⟨5⟩ ⟨2⟩]

/-- The type of the merged variable is the one that was given out at the update of its
restriction. -/
theorem typeAt_denotes_stores_regrown :
    ∃ (s : Session Taint Int) (L : StoreId → LocationId → Option Int),
      Disciplined s ∧ s.phase = .linearized ∧ s.graph.Denotes L ∧
      L ⟨4⟩ ⟨0⟩ = some 3 ∧ L ⟨2⟩ ⟨0⟩ = some 3 ∧ L ⟨5⟩ ⟨0⟩ = some 3 := by
  have hrun : (follow (fun s c => c.Known s.graph)
      (start ⟨2, false⟩ ((Taint.empty.declare "x").2.constant .tainted).2) regrownScript).any
        fun s₀ => succeeds (s₀.exec (.typeAt ⟨4⟩ ⟨0⟩)) fun p₁ =>
          succeeds (p₁.2.exec (.typeAt ⟨2⟩ ⟨0⟩)) fun p => List.and
            [p₁.1 = .type? (some 3), p.1 = .type? (some 3),
              (Command.typeAt ⟨4⟩ ⟨0⟩ : Command Int).Known s₀.graph,
              (Command.typeAt ⟨2⟩ ⟨0⟩ : Command Int).Known p₁.2.graph, p.2.phase = .linearized,
              p.2.graph.stores.root ⟨2⟩ = 5, p.2.graph.stores.root ⟨5⟩ = 5] := by
    decide +kernel
  simp only [Option.any_eq_true, succeeds_eq_true, and_decide_cons, List.and_nil, and_true] at hrun
  obtain ⟨s₀, hfollow, ⟨_, s₁⟩, hexec₁, ⟨_, s⟩, hexec₂, rfl, rfl, hknown₁, hknown₂, hphase, hroot₂,
    hroot₅⟩ := hrun
  have h₀ : Disciplined s₀ := reachableBy_of_follow hfollow
  have hstep : DisciplinedRun s₁ s := .exec .refl hknown₂ hexec₂
  have h₁ : Disciplined s₁ := h₀.run (.exec .refl hknown₁ hexec₁)
  have h : Disciplined s := h₁.run hstep
  have hgraph : s.graph = s₁.graph := by
    obtain ⟨⟨answer, s'⟩, hanswer, heq⟩ := bind_eq_ok_iff.1 (perform_eq_ok_of_exec hexec₂)
    cases answer with
    | error refusal => cases heq
    | ok q =>
    cases heq
    exact (typeAt_spec h₁ hanswer).1
  have hsame : ∀ t : Session Taint Int, s.graph = t.graph → t.graph.Tweaks s.graph := by
    intro t ht
    rw [ht]
    exact .refl _
  obtain ⟨L, hdenotes, hanswers, -⟩ := typeAt_denotes_stores h hphase
  have hfour := hanswers s₀ s₁ ⟨4⟩ ⟨0⟩ (some 3) h₀ hknown₁ hexec₁ hstep (hsame s₁ hgraph)
  have htwo := hanswers s₁ s ⟨2⟩ ⟨0⟩ (some 3) h₁ hknown₂ hexec₂ .refl (hsame s rfl)
  refine ⟨s, L, h, hphase, hdenotes, hfour.symm, htwo.symm, ?_⟩
  rw [htwo]
  exact hdenotes.congr ⟨5⟩ ⟨2⟩ ⟨0⟩ ⟨0⟩ (hroot₅.trans hroot₂.symm) rfl

end Session

end HeapQual
