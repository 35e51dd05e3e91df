import HeapQual.Session.Exclusions

/-!
# Closing a session

Closing solves the graph, reports the failing inclusions, checks the remembered exclusions, and
settles cells: all cells, or those of marked locations only, and those that were asked for.
-/

namespace HeapQual

namespace Session

variable {σ τ : Type}

/-- The cells settled without being asked for. -/
def standingSeeds (s : Session σ τ) (sol : Solution) : List Cell :=
  (List.range sol.domains.size).flatMap fun store =>
    ((sol.domainOf store).toList.filter fun a =>
      !s.config.markedOnly || s.graph.locations.isMarked a).map fun a => ⟨store, a⟩

/-- The cell that a store and a location name. -/
def findCell (s : Session σ τ) (x : StoreId) (a : LocationId) : Except Fault Cell := do
  let store ← s.graph.stores.find x
  let location ← s.graph.locations.find a
  return ⟨store, location⟩

/-- The cells from which to settle in a direction. -/
def seedsOf (s : Session σ τ) (sol : Solution) (direction : Direction) (c : Cell) : List Cell :=
  match direction with
  | .backward => [c]
  | .forward => (s.view sol).reach c

/-- The cells that a request asks for. -/
def requestedSeeds (s : Session σ τ) (sol : Solution) (r : Request) :
    Except Fault (List Cell) := do
  let c ← s.findCell r.store r.location
  return s.seedsOf sol r.direction c

variable [QualifierLattice σ τ]

/-- Settle cells and all that they are computed from. -/
def settle (s : Session σ τ) (sol : Solution) (seeds : List Cell) : Session σ τ :=
  { s with flow := s.flow.settle (s.view sol) seeds }

/-- Settle the cells due when the graph is closed. -/
def settleDue (s : Session σ τ) (sol : Solution) : Except Fault (Session σ τ) := do
  let requested ← s.requests.mapM (s.requestedSeeds sol)
  let seeds := s.standingSeeds sol ++ requested.flatten
  let s := { s with requests := [] }.settle sol seeds
  return s.note (.cellsSettled seeds.length s.flow.settled.length)

/-- Close the graph.  The answer counts the failing inclusions and the violated exclusions. -/
def close (s : Session σ τ) : Except Fault (Answer σ τ Nat) :=
  match s.phase with
  | .opened => do
    let (sol, s) ← s.solved
    let exclusions := s.exclusions
    let tally := { s with exclusions := [] }.reportViolations sol
    let (failures, s) ← exclusions.foldlM (checkExclusion sol) tally
    let s ← { s with phase := .closed }.settleDue sol
    return (.ok failures, s.note (.exclusionsChecked exclusions.length failures))
  | _ => .ok (.error .alreadyClosed, s)

/-- Settle a cell together with those it flows into, or those it is computed from.  While the
session is open the request is remembered. -/
def propagate (s : Session σ τ) (direction : Direction) (x : StoreId) (a : LocationId) :
    Except Fault (Session σ τ) :=
  let s := s.note (.propagationAsked x a direction)
  match s.phase with
  | .opened => .ok { s with requests := s.requests ++ [⟨x, a, direction⟩] }
  | _ => do
    let (sol, s) ← s.solved
    let c ← s.findCell x a
    return s.settle sol (s.seedsOf sol direction c)

end Session

end HeapQual
