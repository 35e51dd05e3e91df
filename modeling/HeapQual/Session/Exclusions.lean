import HeapQual.Session

/-!
# Checking exclusions

Exclusions made while the session is open are remembered; later ones are checked at once.  An
exclusion is violated at a location when the effect provably accesses the location, and each
violation is one diagnostic at the position of the exclusion.

A membership question about a marked effect goes through the memo table, any other straight to
the solution.
-/

namespace HeapQual

namespace Session

variable {σ τ : Type}

/-! ## Membership questions -/

/-- Does the effect access the location with this root at this kind? -/
def asks (s : Session σ τ) (sol : Solution) (location : Nat) (kind : Kind) (e : EffectId) :
    Except Fault (Bool × Session σ τ) := do
  let root ← s.graph.effects.find e
  if s.graph.effects.isMarked root then
    let key : TripleKey := ⟨location, kind.rank, root⟩
    let (held, questions) := s.questions.get? key
    match held with
    | some answer => return (answer, { s with questions })
    | none =>
      let answer := sol.touches root location kind
      return (answer, { s with questions := questions.insert key answer })
  else return (sol.touches root location kind, s)

/-! ## One exclusion -/

/-- A check in progress: the violations so far, and the session. -/
abbrev Tally (σ τ : Type) : Type := Nat × Session σ τ

/-- Count and report a violation if the effect accesses the location. -/
def checkLocation (sol : Solution) (position : Position) (kind : Kind) (e : EffectId)
    (tally : Tally σ τ) (location : Nat) : Except Fault (Tally σ τ) := do
  let (count, s) := tally
  let (found, s) ← s.asks sol location kind e
  if found then
    return (count + 1, s.report position
      (.excluded kind location (s.graph.locations.nameOf location)))
  else return (count, s)

/-- Count and report the locations that one of the given accesses shares with the effect, each
once.  `last` is the location reported last; the accesses come in ascending order. -/
def checkShared (sol : Solution) (position : Position) (e : EffectId) :
    List Access → (last : Option Nat) → Tally σ τ → Except Fault (Tally σ τ)
  | [], _, tally => .ok tally
  | access :: rest, last, (count, s) =>
    if last = some access.location then checkShared sol position e rest last (count, s)
    else do
      let (found, s) ← s.asks sol access.location access.kind e
      if found then
        checkShared sol position e rest (some access.location)
          (count + 1, s.report position (.shared access.kind access.location
            (s.graph.locations.nameOf access.location)))
      else checkShared sol position e rest last (count, s)

/-- The locations at which members may be of this kind, in ascending order. -/
def candidates (members : Members) (kind : Kind) : List Nat :=
  (Ascending.ofList
    ((members.toList.filter fun a => a.kind.overlaps kind).map Access.location)).toList

/-- Check one exclusion, reporting every violation, and count them. -/
def checkExclusion (sol : Solution) (tally : Tally σ τ) (x : Exclusion) :
    Except Fault (Tally σ τ) :=
  let s := tally.2
  match x.restriction with
  | .location a kind e => do
    let root ← s.graph.locations.find a
    checkLocation sol x.position kind e tally root
  | .disjoint e₁ e₂ => do
    let root ← s.graph.effects.find e₁
    checkShared sol x.position e₂ (sol.membersOf root).toList none tally
  | .everywhere kind e =>
    s.graph.locations.roots.foldlM (checkLocation sol x.position kind e) tally
  | .implies kind₁ e₁ kind₂ e₂ => do
    let root ← s.graph.effects.find e₁
    (candidates (sol.membersOf root) kind₁).foldlM
      (checkLocation sol x.position kind₂ e₂) tally

/-! ## The calls -/

variable [QualifierLattice σ τ]

/-- Exclude accesses: remember the exclusion while the session is open, check it otherwise. -/
def exclude (s : Session σ τ) (x : Exclusion) : Except Fault (Session σ τ) := do
  match x.restriction with
  | .disjoint e₁ _ =>
    let _ ← s.graph.effects.find e₁
    if s.graph.effects.hasVariables e₁ then throw .openExclusion
  | _ => pure ()
  let s := s.note (.exclusionAdded x)
  match s.phase with
  | .opened => return { s with exclusions := s.exclusions ++ [x] }
  | _ =>
    let (sol, s) ← s.solved
    let (_, s) ← checkExclusion sol (0, s) x
    return s

/-- Is the location provably accessed by the effect, at any kind but allocation? -/
def isAccessed (s : Session σ τ) (a : LocationId) (e : EffectId) :
    Except Fault (Answer σ τ Bool) :=
  match s.refuseOpen with
  | some r => .ok (.error r, s)
  | none => do
    let (sol, s) ← s.solved
    let root ← s.graph.locations.find a
    let (answer, s) ← s.asks sol root .any e
    return (.ok answer, s)

end Session

end HeapQual
