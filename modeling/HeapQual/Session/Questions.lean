import HeapQual.Session.Closing

/-!
# Questions to a closed session

What a store binds, at which type, and how its cells print.  A cell is settled before its type
is given out, so that the lattice knows everything the graph says about it.
-/

namespace HeapQual

namespace Session

variable {σ τ : Type} [QualifierLattice σ τ]

/-- The locations that a store binds, in ascending order. -/
def domain (s : Session σ τ) (x : StoreId) : Except Fault (Answer σ τ (List LocationId)) :=
  match s.refuseOpen with
  | some r => .ok (.error r, s)
  | none => do
    let (sol, s) ← s.solved
    let root ← s.graph.stores.find x
    return (.ok ((sol.domainOf root).toList.map LocationId.mk), s)

/-- Settle a cell and give out its type, if the cell is bound. -/
def readCell (s : Session σ τ) (sol : Solution) (c : Cell) : Option τ × Session σ τ :=
  let s := s.settle sol [c]
  let (type, flow) := s.flow.read (s.view sol) c
  (type, { s with flow })

/-- The type of a location in a store, if the store binds the location. -/
def typeAt (s : Session σ τ) (x : StoreId) (a : LocationId) :
    Except Fault (Answer σ τ (Option τ)) :=
  match s.refuseUnlinearized with
  | some r => .ok (.error r, s)
  | none => do
    let (sol, s) ← s.solved
    let c ← s.findCell x a
    let (type, s) := s.readCell sol c
    return (.ok type, s)

/-! ## Printing cells -/

/-- How the cells of a store are printed. -/
structure CellStyle where
  /-- Are handles of locations shown? -/
  handles : Bool
  /-- Are the present values of types shown instead of the types? -/
  values : Bool

/-- A type as it is printed in a cell. -/
def typeText (s : Session σ τ) (style : CellStyle) (type : τ) : Except Fault String :=
  if style.values then QualifierLattice.valueText s.lattice type
  else .ok (QualifierLattice.describe σ type)

/-- The line of one cell, in pieces. -/
def cellPieces (s : Session σ τ) (style : CellStyle) (location : Nat) (type : τ) :
    List (Except Fault String) :=
  [.ok (s.graph.locations.nameOf location)] ++
    (if style.handles then [.ok (" (" ++ (LocationId.mk location).label ++ ")")] else []) ++
    [.ok ": ", s.typeText style type, .ok "\n"]

/-- Print the cells of a store at the given locations, each settled before it is printed, until
the output is full. -/
def printCellsAt (sol : Solution) (style : CellStyle) (store : Nat) :
    List Nat → Output → Session σ τ → Except Fault (Output × Session σ τ)
  | [], out, s => .ok (out, s)
  | location :: rest, out, s =>
    if out.full then .ok (out, s)
    else
      match s.readCell sol ⟨store, location⟩ with
      | (none, s) => printCellsAt sol style store rest out s
      | (some type, s) => do
        let out ← out.writeAll (s.cellPieces style location type)
        printCellsAt sol style store rest out s

/-- Print the cells of a store, one per line.  The answer is what the output accepted. -/
def printCells (s : Session σ τ) (style : CellStyle) (x : StoreId) (limit : Option Nat) :
    Except Fault (Answer σ τ Output) :=
  match s.refuseOpen with
  | some r => .ok (.error r, s)
  | none => do
    let (sol, s) ← s.solved
    let root ← s.graph.stores.find x
    let (out, s) ←
      printCellsAt sol style root (sol.domainOf root).toList (Output.start limit) s
    return (.ok out, s)

end Session

end HeapQual
