import HeapQual.Diagnostic
import HeapQual.Exclusion
import HeapQual.Lattice
import HeapQual.Linearity

/-!
# The journal

Everything a session tells the outside is an event: a question put to the qualifier lattice and
its answer, a diagnostic, or a notice for the log.  The journal is the list of all events of a
session, so "the lattice has been told" is a statement about the journal.

An inequality put to the lattice is recorded together with the reason for it: the edge and
location along which a type flows, the update that keeps old contents, or a merge.

`Dialogue` joins the journal to the state of the lattice.  Its operations are the only ones that
change the lattice, and each leaves its event.
-/

namespace HeapQual

/-- Which way an explicit request to settle cells goes. -/
inductive Direction where
  /-- To the cells that the given cell flows into. -/
  | forward
  /-- To the cells that the given cell is computed from. -/
  | backward
  deriving DecidableEq

/-- The name of a direction in the log. -/
def Direction.text : Direction → String
  | forward => "Forward"
  | backward => "Backward"

/-! ## Notices -/

/-- How important a notice is. -/
inductive Severity where
  | debug
  | info
  | warn
  deriving DecidableEq

/-- The name of a severity. -/
def Severity.text : Severity → String
  | debug => "debug"
  | info => "info"
  | warn => "warn"

/-- Severities by number, the more severe the greater. -/
def Severity.rank : Severity → Nat
  | debug => 0
  | info => 1
  | warn => 2

/-- A notice for the log, over qualified types `τ`. -/
inductive Notice (τ : Type) where
  | locationMade (name : String) (a : LocationId)
  | locationsMerged (a b : LocationId)
  | solutionDropped
  | atomMade (kind : Kind) (a : LocationId) (e : EffectId)
  | effectVariableMade (name : String) (e : EffectId)
  | unionMade (e₁ e₂ e : EffectId)
  | interMade (e₁ e₂ e : EffectId)
  | inclusionAsked (e₁ e₂ : EffectId)
  | effectsMerged (e₁ e₂ : EffectId)
  | storeVariableMade (position : Position) (name : String) (s : StoreId)
  | restrictionMade (position : Position) (base : StoreId) (e : EffectId) (s : StoreId)
  | allocationMade (position : Position) (base : StoreId) (a : LocationId) (s : StoreId)
  | overlayMade (position : Position) (inside outside : StoreId) (e : EffectId) (s : StoreId)
  | updateMade (position : Position) (base : StoreId) (a : LocationId) (strong : Bool) (s : StoreId)
  | edgeAsked (left right : StoreId)
  | storesMerged (position : Position) (message : String) (s₁ s₂ : StoreId)
  | propagationAsked (s : StoreId) (a : LocationId) (direction : Direction)
  | exclusionAdded (x : Exclusion)
  | comparing (l r : τ)
  | weakUpdate (s : StoreId) (l r : τ)
  | membersSolved (nodes edges steps violations : Nat)
  | domainsSettled (steps : Nat)
  | domainsSolved (nodes edges steps : Nat)
  | cellsSettled (seeds cells : Nat)
  | exclusionsChecked (count violations : Nat)
  | linearityFound (store location : Nat) (linearity : Linearity)
  | linearitiesFound (updates steps : Nat)
  /-- A strong update of the location with this name turned out to be weak. -/
  | updateDemoted (name : String) (s : StoreId)

namespace Notice

variable {τ : Type}

/-- How important a notice is. -/
def severity : Notice τ → Severity
  | membersSolved .. => .info
  | domainsSolved .. => .info
  | cellsSettled .. => .info
  | exclusionsChecked .. => .info
  | linearitiesFound .. => .info
  | updateDemoted .. => .warn
  | _ => .debug

/-- The text of a notice; `describe` writes a qualified type. -/
def text (describe : τ → String) : Notice τ → String
  | locationMade name a => s!"make_aloc(name = {name}) -> {a.label}"
  | locationsMerged a b => s!"unify_aloc({a.label}, {b.label})"
  | solutionDropped => "graph changed after solving, dropping closure"
  | atomMade kind a e => s!"mk_atom({kind.name}, {a.label}) -> {e.label}"
  | effectVariableMade name e => s!"effect_var({name}) -> {e.label}"
  | unionMade e₁ e₂ e => s!"effect_union({e₁.label}, {e₂.label}) -> {e.label}"
  | interMade e₁ e₂ e => s!"effect_inter({e₁.label}, {e₂.label}) -> {e.label}"
  | inclusionAsked e₁ e₂ => s!"mkleq_effect({e₁.label} <= {e₂.label})"
  | effectsMerged e₁ e₂ => s!"unify_effect({e₁.label}, {e₂.label})"
  | storeVariableMade p name s => s!"make_store_var({p.render}, {name}) -> {s.label}"
  | restrictionMade p base e s =>
    s!"make_store_filter({p.render}, {base.label}, {e.label}) -> {s.label}"
  | allocationMade p base a s =>
    s!"make_store_ref({p.render}, {base.label}, {a.label}) -> {s.label}"
  | overlayMade p inside outside e s =>
    s!"make_store_ow({p.render}, {inside.label}, {outside.label}, {e.label}) -> {s.label}"
  | updateMade p base a strong s =>
    s!"make_store_assign({p.render}, {base.label}, {a.label}, strong = {strong}) -> {s.label}"
  | edgeAsked left right => s!"mkleq_store({left.label} <= {right.label})"
  | storesMerged p message s₁ s₂ =>
    s!"unify_store({s₁.label}, {s₂.label}) at {p.render}: {message}"
  | propagationAsked s a direction =>
    s!"propagate_store_cell({s.label}, {a.label}, {direction.text})"
  | exclusionAdded x => s!"add_nin({x.record})"
  | comparing l r => s!"qual_leq({describe l} <= {describe r})"
  | weakUpdate s l r => s!"weak update at {s.label}: {describe l} <= {describe r}"
  | membersSolved nodes edges steps violations =>
    s!"solved {nodes} effect nodes, {edges} edges in {steps} steps " ++
      s!"({violations} closed-target violations)"
  | domainsSettled steps => s!"store domains settled after {steps} steps"
  | domainsSolved nodes edges steps =>
    s!"solved {nodes} store nodes, {edges} edges in {steps} steps"
  | cellsSettled seeds cells =>
    s!"closed store cells from {seeds} seeds ({cells} cells closed)"
  | exclusionsChecked count violations =>
    s!"checked {count} negative constraints: {violations} violations"
  | linearityFound store location linearity =>
    s!"lin(s@{store}, a@{location}) = {linearity.text}"
  | linearitiesFound updates steps =>
    s!"computed linearities of {updates} assign stores in {steps} steps"
  | updateDemoted name s =>
    s!"strong update of `{name}` at {s.label} demoted to weak: location is not linear"

end Notice

/-! ## Events -/

/-- Why an inequality is put to the lattice. -/
inductive Reason where
  /-- Types flow along the edge with this number at the location with this root. -/
  | edge (number location : Nat)
  /-- The update at this position keeps the old contents of the location with this root. -/
  | update (store location : Nat)
  | locations
  /-- Two cells became one. -/
  | cells
  deriving DecidableEq

/-- Something that a session tells the outside. -/
inductive Event (τ : Type) where
  /-- The lattice was asked for a type like the first one and made the second. -/
  | made (like type : τ)
  /-- The lattice was told that `l ≤ r`, and answered whether that can be satisfied. -/
  | told (reason : Reason) (l r : τ) (holds : Bool)
  /-- A diagnostic was made, and given to the receiver installed at the time. -/
  | reported (receiver : Option String) (d : Diagnostic)
  | noted (n : Notice τ)

/-! ## The dialogue with the lattice -/

/-- The state of the lattice, and what was said so far. -/
structure Dialogue (σ τ : Type) where
  lattice : σ
  /-- All events, the latest first. -/
  journal : List (Event τ)
  /-- The diagnostics not yet taken away, the earliest first. -/
  errors : Array Diagnostic
  /-- Who is told of diagnostics as they are made. -/
  receiver : Option String

namespace Dialogue

variable {σ τ : Type}

/-- A dialogue in which nothing was said. -/
def start (lattice : σ) : Dialogue σ τ := ⟨lattice, [], #[], none⟩

/-- Write an event into the journal. -/
def record (d : Dialogue σ τ) (event : Event τ) : Dialogue σ τ :=
  { d with journal := event :: d.journal }

/-- Write a notice to the log. -/
def note (d : Dialogue σ τ) (n : Notice τ) : Dialogue σ τ := d.record (.noted n)

/-- Make a diagnostic. -/
def report (d : Dialogue σ τ) (position : Position) (cause : Cause) : Dialogue σ τ :=
  { d.record (.reported d.receiver ⟨position, cause⟩) with
    errors := d.errors.push ⟨position, cause⟩ }

section Lattice

variable [QualifierLattice σ τ]

/-- Ask the lattice for a type like the given one. -/
def fresh (d : Dialogue σ τ) (like : τ) : τ × Dialogue σ τ :=
  let (type, lattice) := QualifierLattice.fresh d.lattice like
  (type, { d.record (.made like type) with lattice })

/-- Tell the lattice that `l ≤ r`; can that be satisfied? -/
def tell (d : Dialogue σ τ) (reason : Reason) (l r : τ) : Bool × Dialogue σ τ :=
  let (holds, lattice) := QualifierLattice.leq d.lattice l r
  (holds, { d.record (.told reason l r holds) with lattice })

/-- Tell the lattice that two types are equal; can that be satisfied? -/
def equate (d : Dialogue σ τ) (reason : Reason) (l r : τ) : Bool × Dialogue σ τ :=
  let (forth, d) := d.tell reason l r
  let (back, d) := d.tell reason r l
  (forth && back, d)

/-- Tell the lattice that `l ≤ r`, and make a diagnostic if that cannot be satisfied. -/
def require (d : Dialogue σ τ) (reason : Reason) (position : Position) (cause : Cause) (l r : τ) :
    Dialogue σ τ :=
  let (holds, d) := (d.note (.comparing l r)).tell reason l r
  if holds then d else d.report position cause

end Lattice

end Dialogue

end HeapQual
