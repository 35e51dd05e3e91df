import HeapQual.Cell
import HeapQual.Journal
import HeapQual.Walk

/-!
# Settling cells

A cell is *settled* by telling the lattice everything that the graph says about it: for each
subset edge into its store, the type on the left is at most the type on the right, and for an
update that keeps old contents, the old type is at most the new one.  Then the cells that it is
computed from are settled in turn.

Each edge and location is sent to the lattice at most once in a session, and each update at
most once, however often the cells are settled again after the graph has grown.

`Flow.settle` visits the cells in the order of a depth-first walk.  What is sent while visiting
a cell does not influence the walk, so the visits are computed first and acted on afterwards.

The table of types has no order of its own.  Whenever it is keyed anew it is enumerated in an order
that nobody controls, and of two types that meet in one cell the earlier one stays.  A flow is
given these orders in advance (`Flow.orders`), one for each time.
-/

namespace HeapQual

/-- What the session knows about cells, and its dialogue with the lattice. -/
structure Flow (σ τ : Type) where
  /-- The types of cells of store variables, the earliest first. -/
  types : List (Cell × τ)
  /-- The cells settled against the present solution. -/
  settled : List Cell
  /-- The edges and locations that were sent to the lattice. -/
  sentEdges : List (Nat × Nat)
  sentUpdates : List Nat
  /-- The orders in which the table of types will be enumerated when it is keyed anew. -/
  orders : List (List Nat)
  talk : Dialogue σ τ

/-- A list in the order that the picks describe: each pick says how far an item is moved back among
the items after it.  Items without a pick stay where they are. -/
def arrange {α : Type} : (picks : List Nat) → List α → List α
  | pick :: picks, item :: items =>
    let rest := arrange picks items
    rest.take pick ++ item :: rest.drop pick
  | _, items => items

namespace Flow

variable {σ τ : Type}

/-- Nothing is known about any cell. -/
def start (lattice : σ) (orders : List (List Nat) := []) : Flow σ τ :=
  ⟨[], [], [], [], orders, Dialogue.start lattice⟩

/-- The types of cells in the order in which they are enumerated next. -/
def enumeration (f : Flow σ τ) : List (Cell × τ) := arrange (f.orders.headD []) f.types

variable [QualifierLattice σ τ]

/-! ## Reading a cell -/

/-- The type of a variable's cell.  It is made, like the type that the location holds, when it
is asked for the first time. -/
def ownType (v : View τ) (f : Flow σ τ) (c : Cell) : Option τ × Flow σ τ :=
  match f.types.lookup c with
  | some type => (some type, f)
  | none =>
    match v.graph.locations.record? c.location with
    | none => (none, f)
    | some r =>
      let (type, talk) := f.talk.fresh r.holds
      (some type, { f with types := f.types ++ [(c, type)], talk })

/-- The type of a cell, if the cell is bound. -/
def read (v : View τ) (f : Flow σ τ) (c : Cell) : Option τ × Flow σ τ :=
  match v.binding c with
  | none => (none, f)
  | some (.value type) => (some type, f)
  | some (.owned cell) => f.ownType v cell

/-! ## Sending constraints -/

/-- Send what an edge into a cell's store says about the cell, unless it was sent before. -/
def sendEdge (v : View τ) (c : Cell) (f : Flow σ τ) (numbered : FlowEdge × Nat) : Flow σ τ :=
  let (edge, number) := numbered
  let left := v.storeRoot edge.left
  if !v.binds left c.location || decide ((number, c.location) ∈ f.sentEdges) then f
  else
    let f := { f with sentEdges := (number, c.location) :: f.sentEdges }
    let (l, f) := f.read v ⟨left, c.location⟩
    let (r, f) := f.read v c
    match l, r with
    | some l, some r =>
      { f with
        talk := f.talk.require (.edge number c.location) edge.position
          (.flow number c.location edge.message) l r }
    | _, _ => f

/-- Send that the old contents flow into an update, unless it was sent before. -/
def sendUpdate (v : View τ) (f : Flow σ τ) (store : Nat) : Flow σ τ :=
  if store ∈ f.sentUpdates then f
  else
    let f := { f with sentUpdates := store :: f.sentUpdates }
    match v.graph.stores.nodeAt store with
    | .update base a type _ position message =>
      let location := v.graph.classOf a
      let (old, f) := f.read v ⟨v.storeRoot base, location⟩
      match old with
      | some old =>
        { f with
          talk := (f.talk.note (.weakUpdate ⟨store⟩ old type)).require (.update store location)
            position (.update store message) old type }
      | none => f
    | _ => f

/-- Send what the graph says about one cell. -/
def visit (v : View τ) (f : Flow σ τ) (c : Cell) : Flow σ τ :=
  let f := (v.graph.stores.edgesInto c.store).foldl (sendEdge v c) f
  if (v.weakBase? c).isSome then f.sendUpdate v c.store else f

/-- The cells newly settled from the given ones, in the order of their visits. -/
def visits (v : View τ) (settled seeds : List Cell) : List Cell :=
  Walk.visit v.sources (v.graph.stores.size * v.graph.locations.size)
    (seeds.filter v.isBound) settled

/-- Settle cells and all that they are computed from. -/
def settle (v : View τ) (f : Flow σ τ) (seeds : List Cell) : Flow σ τ :=
  let cells := visits v f.settled seeds
  cells.foldl (visit v) { f with settled := cells.reverse ++ f.settled }

/-! ## Merged cells -/

/-- A table of types being keyed anew. -/
structure Rekeyed (τ : Type) where
  /-- The types by present roots. -/
  types : List (Cell × τ)
  /-- The pairs of types that met in one cell: the one that stays, and the other. -/
  clashes : List (τ × τ)

/-- Key one entry anew. -/
def rekeyEntry {τ : Type} (g : Graph τ) (r : Rekeyed τ) (entry : Cell × τ) : Rekeyed τ :=
  let key : Cell := ⟨g.stores.classes.root entry.1.store, g.locations.classes.root entry.1.location⟩
  match r.types.lookup key with
  | some kept => { r with clashes := r.clashes ++ [(kept, entry.2)] }
  | none => { r with types := r.types ++ [(key, entry.2)] }

/-- Equate two types that met in one cell. -/
def equateClash (talk : Dialogue σ τ) (clash : τ × τ) : Dialogue σ τ :=
  let (holds, talk) := talk.equate .cells clash.1 clash.2
  if holds then talk else talk.report .internal .incompatibleCells

/-- Key the types of cells by the present roots.  Cells that became one are equated. -/
def rekey (g : Graph τ) (f : Flow σ τ) : Flow σ τ :=
  let r := f.enumeration.foldl (rekeyEntry g) ⟨[], []⟩
  { f with
    types := r.types
    orders := f.orders.tail
    talk := r.clashes.foldl equateClash f.talk }

end Flow

/-- The cells that a cell flows into, itself included. -/
def View.reach {τ : Type} (v : View τ) (c : Cell) : List Cell :=
  (Walk.visit (v.targets c.location) v.graph.stores.size [c.store] []).map
    fun s => ⟨s, c.location⟩

end HeapQual
