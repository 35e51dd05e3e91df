import HeapQual.Session

/-!
# Stores in a session

Making stores and constraining them.  Operators may name stores, effects and locations that do
not exist yet, with one exception: an allocation asks the lattice for a type like the one that
the location holds, so its location must exist.
-/

namespace HeapQual

namespace Session

variable {σ τ : Type}

/-- Replace the table of stores. -/
def withStores (s : Session σ τ) (stores : Stores τ) : Session σ τ :=
  { s with graph := { s.graph with stores } }

/-- Enter a store into the graph. -/
def enterStore (s : Session σ τ) (node : StoreNode τ) : StoreId × Session σ τ :=
  let (x, stores) := s.graph.stores.add node
  (x, (s.withStores stores).forget)

/-- A new store variable. -/
def storeVariable (s : Session σ τ) (position : Position) (name : String) :
    StoreId × Session σ τ :=
  let (x, s) := s.enterStore (.var name)
  (x, s.note (.storeVariableMade position name x))

/-- A store restricted to the locations that an effect mentions. -/
def restrict (s : Session σ τ) (position : Position) (base : StoreId) (e : EffectId) :
    StoreId × Session σ τ :=
  let (x, s) := s.enterStore (.restrict base e)
  (x, s.note (.restrictionMade position base e x))

/-- One store on the locations that an effect mentions, another on all others. -/
def overlay (s : Session σ τ) (position : Position) (inside outside : StoreId) (e : EffectId) :
    StoreId × Session σ τ :=
  let (x, s) := s.enterStore (.overlay inside outside e)
  (x, s.note (.overlayMade position inside outside e x))

/-- A store after a location was updated to a type. -/
def update (s : Session σ τ) (position : Position) (message : String) (base : StoreId)
    (a : LocationId) (type : τ) (strong : Bool) : StoreId × Session σ τ :=
  let (x, s) := s.enterStore (.update base a type strong position message)
  (x, s.note (.updateMade position base a strong x))

/-- Are two stores the same? -/
def sameStore (s : Session σ τ) (x y : StoreId) : Except Fault Bool := do
  let rx ← s.graph.stores.find x
  let ry ← s.graph.stores.find y
  return decide (rx = ry)

/-- Constrain the first store to flow into the second. -/
def includeStore (s : Session σ τ) (position : Position) (message : String)
    (left right : StoreId) : Except Fault (Session σ τ) := do
  let same ← s.sameStore left right
  let s := s.note (.edgeAsked left right)
  if same then return s
  else return (s.withStores (s.graph.stores.addEdge ⟨left, right, position, message⟩)).forget

/-- Constrain two stores to be equal, by edges both ways. -/
def equateStores (s : Session σ τ) (position : Position) (message : String) (x y : StoreId) :
    Except Fault (Session σ τ) := do
  let s ← s.includeStore position (message ++ " (left to right)") x y
  s.includeStore position (message ++ " (right to left)") y x

/-- A new store variable into which both stores flow. -/
def joinStores (s : Session σ τ) (position : Position) (message : String) (x y : StoreId) :
    Except Fault (StoreId × Session σ τ) := do
  let (z, s) := s.storeVariable position "lub"
  let s ← s.includeStore position message x z
  if ← s.sameStore x y then return (z, s)
  else
    let s ← s.includeStore position message y z
    return (z, s)

/-- The root of a store variable. -/
def findStoreVariable (s : Session σ τ) (x : StoreId) : Except Fault Nat := do
  let root ← s.graph.stores.find x
  if (s.graph.stores.nodeAt root).isVariable then return root else throw .mergedStoreOperator

/-- Merge two store variables for good. -/
def mergeStores (s : Session σ τ) (position : Position) (message : String) (x y : StoreId) :
    Except Fault (Session σ τ) := do
  let rx ← s.findStoreVariable x
  let ry ← s.findStoreVariable y
  let s := s.note (.storesMerged position message x y)
  if rx = ry then return s
  else return (s.withStores (s.graph.stores.join rx ry)).forget

/-! ## Allocation -/

variable [QualifierLattice σ τ]

/-- A store after a location was allocated. -/
def allocate (s : Session σ τ) (position : Position) (base : StoreId) (a : LocationId) :
    Except Fault (StoreId × Session σ τ) := do
  let record ← s.graph.locations.read a
  let (fresh, talk) := s.talk.fresh record.holds
  let (x, s) := (s.withTalk talk).enterStore (.allocate base a fresh)
  return (x, s.note (.allocationMade position base a x))

/-- The locations of a list without those whose class occurs before. -/
def distinct (classOf : LocationId → Nat) : List LocationId → List LocationId
  | [] => []
  | a :: rest => a :: (distinct classOf rest).filter fun b => decide (classOf b ≠ classOf a)

/-- A store after every location of an effect was allocated.  The effect must be a union of
atoms; its locations are allocated from right to left, each class once. -/
def allocateAll (s : Session σ τ) (position : Position) (base : StoreId) (e : EffectId) :
    Except Fault (StoreId × Session σ τ) := do
  let _ ← s.graph.effects.find e
  match s.graph.effects.atoms e with
  | .error part => throw (.notAllocatable part)
  | .ok locations =>
    (distinct s.graph.classOf locations.reverse).foldlM
      (fun (x, s) a => s.allocate position x a) (base, s)

end Session

end HeapQual
