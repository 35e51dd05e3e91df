import HeapQual.Session.Closing

/-!
# Linearities in a session

Linearizing finds, for every update, which allocations reach its base.  A strong update of a
location that is not linear there is demoted: its old contents flow into it as if it were weak,
and the cell it updates is settled.

The linearities are those of the graph at that time; they do not follow later growth.
-/

namespace HeapQual

namespace Session

variable {σ τ : Type}

/-- An update, and what linearizing needs to know of it. -/
structure UpdateSite where
  store : Nat
  base : Nat
  location : Nat
  strong : Bool

/-- The updates of a graph, in ascending order. -/
def updateSites (g : Graph τ) : List UpdateSite :=
  g.stores.classes.roots.filterMap fun i =>
    match g.stores.nodeAt i with
    | .update base a _ strong _ _ => some ⟨i, g.stores.root base, g.classOf a, strong⟩
    | _ => none

/-- What reaches the base of an update. -/
def suppliesAt (values : Array Supplies) (site : UpdateSite) : Supplies :=
  values[site.base]?.getD #[]

/-- The linearity of an update's own location at its base. -/
def linearityOf (values : Array Supplies) (site : UpdateSite) : Linearity :=
  Linearities.read (suppliesAt values site) site.location

/-- Must the update be demoted? -/
def isDemoted (values : Array Supplies) (site : UpdateSite) : Bool :=
  site.strong && decide (linearityOf values site = .omega)

/-- The table of linearities. -/
def tabulate (values : Array Supplies) (sites : List UpdateSite) : Linearities where
  byUpdate := sites.map fun site => (site.store, suppliesAt values site)
  demoted := (sites.filter (isDemoted values)).map UpdateSite.store

/-- The linearity of a location at the base of an update. -/
def linearityAt (s : Session σ τ) (x : StoreId) (a : LocationId) :
    Except Fault (Answer σ τ Linearity) :=
  match s.refuseUnlinearized with
  | some r => .ok (.error r, s)
  | none => do
    let root ← s.graph.stores.find x
    match s.linearities.byUpdate.lookup root with
    | none => return (.error (.notAnUpdate x), s)
    | some supplies =>
      let location ← s.graph.locations.find a
      return (.ok (Linearities.read supplies location), s)

variable [QualifierLattice σ τ]

/-- Make a strong update weak: let its old contents flow into it, and settle them. -/
def demote (sol : Solution) (s : Session σ τ) (site : UpdateSite) : Session σ τ :=
  let s := s.note (.updateDemoted (s.graph.locations.nameOf site.location) ⟨site.store⟩)
  let s := { s with flow := s.flow.sendUpdate (s.view sol) site.store }
  s.settle sol [⟨site.base, site.location⟩]

/-- Find the linearities at all updates, and demote the strong updates that need it. -/
def linearize (s : Session σ τ) : Except Fault (Answer σ τ Unit) :=
  match s.phase with
  | .opened => .ok (.error .graphOpen, s)
  | .linearized => .ok (.error .alreadyLinearized, s)
  | .closed => do
    let (sol, s) ← s.solved
    let found := s.graph.solveSupplies sol
    let sites := updateSites s.graph
    let s := sites.foldl (fun s site =>
      s.note (.linearityFound site.store site.location (linearityOf found.values site))) s
    let s := s.note (.linearitiesFound sites.length found.steps)
    let s : Session σ τ :=
      { s with linearities := tabulate found.values sites, phase := .linearized }
    let s := (sites.filter (isDemoted found.values)).foldl (demote sol) s
    return (.ok (), s)

end Session

end HeapQual
