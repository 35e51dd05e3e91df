import HeapQual.Allocation
import HeapQual.Cache
import HeapQual.Flow
import HeapQual.Text.Graph

/-!
# Sessions

A session owns everything the engine knows about one program: the constraint graph, the
exclusions and requests that wait for the graph to be closed, the types of cells, and the
dialogue with the lattice.  It goes through three phases.

* While it is *open*, locations, effects, stores and constraints are entered.
* It is *closed* by checking the exclusions and settling cells.
* It is *linearized* by finding the linearities at its updates; only then are types and
  linearities given out.

The graph may grow in every phase.  Its solution is computed when it is needed, and held until
the graph grows (`Session.forget`); together with it go the memoised membership questions and
the record of settled cells, which are about that solution.  Whenever a solution is computed
anew (`Session.solved`), the types of merged cells are equated, and past the open phase the
newly failing inclusions are reported.
-/

namespace HeapQual

/-- How a session is run. -/
structure Config where
  /-- The memo tables have `2 ^ cacheBits` slots. -/
  cacheBits : Nat
  /-- Are only the cells of marked locations settled when the graph is closed? -/
  markedOnly : Bool
  deriving DecidableEq

namespace Config

/-- Memo tables of `2 ^ 14` slots, and all cells are settled. -/
def standard : Config := ⟨14, false⟩

/-- The configuration with memo tables of `2 ^ bits` slots, if that is not too many. -/
def withCacheBits (c : Config) (bits : Nat) : Except Fault Config :=
  if bits ≤ Cache.maxBits then .ok { c with cacheBits := bits } else .error .configTooLarge

/-- The configuration with the choice whether only marked locations are settled early. -/
def withMarkedOnly (c : Config) (choice : Bool) : Config :=
  { c with markedOnly := choice }

end Config

/-- The phases of a session. -/
inductive Phase where
  | opened
  /-- The exclusions have been checked. -/
  | closed
  | linearized
  deriving DecidableEq

/-- The name of a phase. -/
def Phase.text : Phase → String
  | opened => "Open"
  | closed => "Closed"
  | linearized => "Linearized"

/-- A request to settle cells, made before the graph was closed. -/
structure Request where
  store : StoreId
  location : LocationId
  direction : Direction
  deriving DecidableEq

/-- A session over a lattice with states `σ` and qualified types `τ`. -/
structure Session (σ τ : Type) where
  config : Config
  phase : Phase
  graph : Graph τ
  /-- The solution of the graph, unless the graph has grown since it was solved. -/
  solution : Option Solution
  /-- The atoms, unions and intersections made, by what they were made from. -/
  recipes : Cache Effects.Recipe EffectId
  /-- The membership questions answered from the present solution. -/
  questions : Cache TripleKey Bool
  /-- The exclusions that wait for the graph to be closed, the earliest first. -/
  exclusions : List Exclusion
  requests : List Request
  /-- The failing inclusions that were reported. -/
  reported : List Nat
  /-- The linearities at updates, as they were when the session was linearized. -/
  linearities : Linearities
  flow : Flow σ τ

namespace Session

variable {σ τ : Type}

/-- A new session.  The orders are those in which the table of types will be enumerated. -/
def start (config : Config) (lattice : σ) (orders : List (List Nat) := []) : Session σ τ where
  config := config
  phase := .opened
  graph := Graph.start
  solution := none
  recipes := Cache.empty config.cacheBits
  questions := Cache.empty config.cacheBits
  exclusions := []
  requests := []
  reported := []
  linearities := Linearities.empty
  flow := Flow.start lattice orders

/-- The dialogue with the lattice. -/
def talk (s : Session σ τ) : Dialogue σ τ := s.flow.talk

/-- Go on with a dialogue. -/
def withTalk (s : Session σ τ) (talk : Dialogue σ τ) : Session σ τ :=
  { s with flow := { s.flow with talk } }

/-- The state of the lattice. -/
def lattice (s : Session σ τ) : σ := s.talk.lattice

/-- Go on with a lattice in which the caller has made types of its own. -/
def withLattice (s : Session σ τ) (lattice : σ) : Session σ τ :=
  s.withTalk { s.talk with lattice }

/-- Write a notice to the log. -/
def note (s : Session σ τ) (n : Notice τ) : Session σ τ := s.withTalk (s.talk.note n)

/-- Make a diagnostic. -/
def report (s : Session σ τ) (position : Position) (cause : Cause) : Session σ τ :=
  s.withTalk (s.talk.report position cause)

/-! ## Diagnostics -/

/-- The diagnostics not yet taken away, the earliest first. -/
def errors (s : Session σ τ) : List Diagnostic := s.talk.errors.toList

/-- Take the diagnostics away. -/
def takeErrors (s : Session σ τ) : List Diagnostic × Session σ τ :=
  (s.errors, s.withTalk { s.talk with errors := #[] })

/-- Tell this receiver of diagnostics from now on. -/
def setReceiver (s : Session σ τ) (receiver : String) : Session σ τ :=
  s.withTalk { s.talk with receiver := some receiver }

/-- A one-line summary of the session. -/
def summary (s : Session σ τ) : String :=
  s!"Analysis \x7b phase: {s.phase.text}, alocs: {s.graph.locations.size}, " ++
    s!"effects: {s.graph.effects.size}, stores: {s.graph.stores.size}, " ++
    s!"errors: {s.talk.errors.size} \x7d"

/-! ## The solution -/

/-- Forget the solution, and what was derived from it, because the graph has grown. -/
def forget (s : Session σ τ) : Session σ τ :=
  match s.solution with
  | none => s
  | some _ =>
    let s := s.note .solutionDropped
    { s with
      solution := none
      questions := s.questions.clear
      flow := { s.flow with settled := [] } }

/-- What cells are read against, given a solution. -/
def view (s : Session σ τ) (sol : Solution) : View τ := ⟨s.graph, sol, s.linearities.demoted⟩

/-- Report one failing inclusion, unless it was reported before. -/
def reportViolation (counted : Nat × Session σ τ) (number : Nat) : Nat × Session σ τ :=
  let (count, s) := counted
  if number ∈ s.reported then (count, s)
  else
    match s.graph.effects.inclusions[number]? with
    | none => (count, s)
    | some i =>
      let cause := .notIncluded number (s.graph.effectText i.source) (s.graph.effectText i.target)
      (count + 1, { s.report i.position cause with reported := number :: s.reported })

/-- Report the failing inclusions that were not reported before, and count them. -/
def reportViolations (s : Session σ τ) (sol : Solution) : Nat × Session σ τ :=
  sol.violations.foldl reportViolation (0, s)

/-- Log what it took to solve the graph. -/
def noteSolution (s : Session σ τ) (sol : Solution) : Session σ τ :=
  let effects := s.graph.effects
  let stores := s.graph.stores
  ((s.note (.membersSolved effects.size effects.inclusions.size sol.effectSteps
    sol.violations.length)).note (.domainsSettled sol.storeSteps)).note
    (.domainsSolved stores.size stores.edges.size sol.storeSteps)

/-- The solution of the present graph. -/
def solved [QualifierLattice σ τ] (s : Session σ τ) : Except Fault (Solution × Session σ τ) :=
  match s.solution with
  | some sol => .ok (sol, s)
  | none => do
    s.graph.validate
    let sol := s.graph.solve
    let s : Session σ τ := { s.noteSolution sol with solution := some sol }
    let s : Session σ τ := { s with flow := s.flow.rekey s.graph }
    return (sol, if s.phase = .opened then s else (s.reportViolations sol).2)

/-! ## Phases -/

/-- Why a question that needs a closed graph is refused. -/
def refuseOpen (s : Session σ τ) : Option Refusal :=
  match s.phase with
  | .opened => some .graphOpen
  | .closed => none
  | .linearized => none

/-- Why a question that needs linearities is refused. -/
def refuseUnlinearized (s : Session σ τ) : Option Refusal :=
  match s.phase with
  | .opened => some .graphOpen
  | .closed => some .linearitiesPending
  | .linearized => none

end Session

/-- What a call that may be declined comes to: a result or a refusal, and the session after
it. -/
abbrev Answer (σ τ α : Type) : Type := Except Refusal α × Session σ τ

end HeapQual
