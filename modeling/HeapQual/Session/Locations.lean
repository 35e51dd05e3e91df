import HeapQual.Session

/-!
# Locations in a session

Making, marking, merging and comparing locations.  A merge equates the types that the two
classes hold.
-/

namespace HeapQual

namespace Session

variable {σ τ : Type}

/-- Make a location that holds values of the given type. -/
def makeLocation (s : Session σ τ) (name : String) (holds : τ) : LocationId × Session σ τ :=
  let (a, locations) := s.graph.locations.add name holds
  (a, { s with graph := { s.graph with locations } }.note (.locationMade name a))

/-- Are two locations the same? -/
def sameLocation (s : Session σ τ) (a b : LocationId) : Except Fault Bool := do
  let ra ← s.graph.locations.find a
  let rb ← s.graph.locations.find b
  return decide (ra = rb)

/-- Mark a location as one whose cells are settled when the graph is closed. -/
def markLocation (s : Session σ τ) (a : LocationId) : Except Fault (Session σ τ) := do
  let root ← s.graph.locations.find a
  return { s with graph := { s.graph with locations := s.graph.locations.mark root } }

variable [QualifierLattice σ τ]

/-- Equate the types held by two merged classes, reporting a failure under the names that the
locations have now. -/
def equateHeld (s : Session σ τ) (position : Position) (a b : LocationId) (l r : τ) :
    Session σ τ :=
  let (holds, talk) := s.talk.equate .locations l r
  let s := s.withTalk talk
  if holds then s
  else
    s.report position (.incompatibleLocations (s.graph.locationName a) (s.graph.locationName b))

/-- Merge two locations for good. -/
def mergeLocations (s : Session σ τ) (position : Position) (a b : LocationId) :
    Except Fault (Session σ τ) := do
  let _ ← s.graph.locations.find a
  let _ ← s.graph.locations.find b
  let s := s.note (.locationsMerged a b)
  let (merged, locations) := s.graph.locations.merge a b
  let s := { s with graph := { s.graph with locations } }
  match merged with
  | none => return s
  | some (survivor, child) =>
    match locations.held? survivor, locations.held? child with
    | some l, some r => return (s.equateHeld position a b l r).forget
    | _, _ => return s.forget

end Session

end HeapQual
