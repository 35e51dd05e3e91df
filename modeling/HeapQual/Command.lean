import HeapQual.Session.Effects
import HeapQual.Session.Linearities
import HeapQual.Session.Locations
import HeapQual.Session.Questions
import HeapQual.Session.Stores
import HeapQual.Text.Dot

/-!
# Commands

Everything that can be asked of a session, as data.  `Session.exec` carries out one command, and
gives the reply and the session after it.  A fault has no session after it.

A command that puts a question to the lattice which the lattice cannot answer is a fault too.
Within one command all handles are looked up before the lattice is asked anything, so the fault
of the lattice is the first one.
-/

namespace HeapQual

/-- What can be asked of a session over qualified types `τ`. -/
inductive Command (τ : Type) where
  | makeLocation (name : String) (holds : τ)
  | locationName (a : LocationId)
  /-- A number that tells the classes of locations apart. -/
  | locationClass (a : LocationId)
  | heldType (a : LocationId)
  | isMarked (a : LocationId)
  | markLocation (a : LocationId)
  | sameLocation (a b : LocationId)
  | mergeLocations (position : Position) (a b : LocationId)
  | emptyEffect
  | atom (kind : Kind) (a : LocationId)
  | effectVariable (name : String)
  /-- Make an effect variable with a made-up name. -/
  | freshEffect
  | union (e₁ e₂ : EffectId)
  | inter (e₁ e₂ : EffectId)
  | locationOfAtom (e : EffectId)
  /-- Memoise membership questions about an effect. -/
  | markEffect (e : EffectId)
  /-- Are two effects certainly equal? -/
  | knownEqual (e₁ e₂ : EffectId)
  | includeEffect (position : Position) (e₁ e₂ : EffectId)
  | equateEffects (position : Position) (e₁ e₂ : EffectId)
  | mergeEffects (e₁ e₂ : EffectId)
  | exclude (x : Exclusion)
  | isAccessed (a : LocationId) (e : EffectId)
  | close
  | storeVariable (position : Position) (name : String)
  | restrict (position : Position) (base : StoreId) (e : EffectId)
  | allocate (position : Position) (base : StoreId) (a : LocationId)
  | allocateAll (position : Position) (base : StoreId) (e : EffectId)
  | overlay (position : Position) (inside outside : StoreId) (e : EffectId)
  | update (position : Position) (message : String) (base : StoreId) (a : LocationId) (type : τ)
      (strong : Bool)
  /-- Make a variable into which two stores flow. -/
  | joinStores (position : Position) (message : String) (x y : StoreId)
  | sameStore (x y : StoreId)
  | includeStore (position : Position) (message : String) (left right : StoreId)
  | equateStores (position : Position) (message : String) (x y : StoreId)
  | mergeStores (position : Position) (message : String) (x y : StoreId)
  /-- Settle a cell and those on one side of it. -/
  | propagate (direction : Direction) (x : StoreId) (a : LocationId)
  | domain (x : StoreId)
  | typeAt (x : StoreId) (a : LocationId)
  | linearize
  /-- The linearity of a location at the base of an update. -/
  | linearityAt (x : StoreId) (a : LocationId)
  | printLocation (a : LocationId) (limit : Option Nat)
  | printEffect (e : EffectId) (limit : Option Nat)
  /-- Print the operator of a store, with names. -/
  | printStore (x : StoreId) (limit : Option Nat)
  /-- Print the operator of a store, with handles. -/
  | printStoreRaw (x : StoreId) (limit : Option Nat)
  | printCells (style : Session.CellStyle) (x : StoreId) (limit : Option Nat)
  | draw (style : Dot.Style) (roots : List StoreId)
  | phase
  | config
  | summary
  | errors
  | errorCount
  | takeErrors
  | setReceiver (receiver : String)

/-- What a command comes to. -/
inductive Reply (τ : Type) where
  | done
  | location (a : LocationId)
  | location? (a : Option LocationId)
  | locations (list : List LocationId)
  | effect (e : EffectId)
  | store (x : StoreId)
  | flag (answer : Bool)
  | number (n : Nat)
  | type (q : τ)
  | type? (q : Option τ)
  | text (t : String)
  | linearity (l : Linearity)
  | config (c : Config)
  | diagnostics (list : List Diagnostic)
  /-- The command was declined after the output, if it has one, accepted this text. -/
  | refused (r : Refusal) (accepted : String)

namespace Reply

variable {τ : Type}

/-- The reply that an output gives. -/
def ofOutput (o : Output) : Reply τ := if o.full then .refused .outputFull o.text else .text o.text

/-- The reply that a result or a refusal gives. -/
def ofExcept {α : Type} (reply : α → Reply τ) : Except Refusal α → Reply τ
  | .ok a => reply a
  | .error r => .refused r ""

end Reply

namespace Session

variable {σ τ : Type}

/-- Print pieces into an output. -/
def printed (pieces : List (Except Fault String)) (limit : Option Nat) : Except Fault (Reply τ) :=
  ((Output.start limit).writeAll pieces).map Reply.ofOutput

variable [QualifierLattice σ τ]

/-- Carry out a command, whatever the lattice makes of it. -/
def perform (s : Session σ τ) : Command τ → Except Fault (Reply τ × Session σ τ)
  | .makeLocation name holds =>
    let (a, s) := s.makeLocation name holds
    return (.location a, s)
  | .locationName a => do
    let r ← s.graph.locations.read a
    return (.text r.name, s)
  | .locationClass a => do
    let root ← s.graph.locations.find a
    return (.number root, s)
  | .heldType a => do
    let r ← s.graph.locations.read a
    return (.type r.holds, s)
  | .isMarked a => do
    let r ← s.graph.locations.read a
    return (.flag r.marked, s)
  | .markLocation a => do
    let s ← s.markLocation a
    return (.done, s)
  | .sameLocation a b => do
    let same ← s.sameLocation a b
    return (.flag same, s)
  | .mergeLocations position a b => do
    let s ← s.mergeLocations position a b
    return (.done, s)
  | .emptyEffect => return (.effect .empty, s)
  | .atom kind a => do
    let (e, s) ← s.atom kind a
    return (.effect e, s)
  | .effectVariable name =>
    let (e, s) := s.effectVariable name
    return (.effect e, s)
  | .freshEffect =>
    let (e, s) := s.freshEffect
    return (.effect e, s)
  | .union e₁ e₂ => do
    let (e, s) ← s.union e₁ e₂
    return (.effect e, s)
  | .inter e₁ e₂ => do
    let (e, s) ← s.inter e₁ e₂
    return (.effect e, s)
  | .locationOfAtom e => do
    let a ← s.locationOfAtom e
    return (.location? a, s)
  | .markEffect e => do
    let s ← s.markEffect e
    return (.done, s)
  | .knownEqual e₁ e₂ => do
    let equal ← s.knownEqual e₁ e₂
    return (.flag equal, s)
  | .includeEffect position e₁ e₂ => do
    let s ← s.includeEffect position e₁ e₂
    return (.done, s)
  | .equateEffects position e₁ e₂ => do
    let s ← s.equateEffects position e₁ e₂
    return (.done, s)
  | .mergeEffects e₁ e₂ => do
    let s ← s.mergeEffects e₁ e₂
    return (.done, s)
  | .exclude x => do
    let s ← s.exclude x
    return (.done, s)
  | .isAccessed a e => do
    let (answer, s) ← s.isAccessed a e
    return (.ofExcept .flag answer, s)
  | .close => do
    let (answer, s) ← s.close
    return (.ofExcept .number answer, s)
  | .storeVariable position name =>
    let (x, s) := s.storeVariable position name
    return (.store x, s)
  | .restrict position base e =>
    let (x, s) := s.restrict position base e
    return (.store x, s)
  | .allocate position base a => do
    let (x, s) ← s.allocate position base a
    return (.store x, s)
  | .allocateAll position base e => do
    let (x, s) ← s.allocateAll position base e
    return (.store x, s)
  | .overlay position inside outside e =>
    let (x, s) := s.overlay position inside outside e
    return (.store x, s)
  | .update position message base a type strong =>
    let (x, s) := s.update position message base a type strong
    return (.store x, s)
  | .joinStores position message x y => do
    let (z, s) ← s.joinStores position message x y
    return (.store z, s)
  | .sameStore x y => do
    let same ← s.sameStore x y
    return (.flag same, s)
  | .includeStore position message left right => do
    let s ← s.includeStore position message left right
    return (.done, s)
  | .equateStores position message x y => do
    let s ← s.equateStores position message x y
    return (.done, s)
  | .mergeStores position message x y => do
    let s ← s.mergeStores position message x y
    return (.done, s)
  | .propagate direction x a => do
    let s ← s.propagate direction x a
    return (.done, s)
  | .domain x => do
    let (answer, s) ← s.domain x
    return (.ofExcept .locations answer, s)
  | .typeAt x a => do
    let (answer, s) ← s.typeAt x a
    return (.ofExcept .type? answer, s)
  | .linearize => do
    let (answer, s) ← s.linearize
    return (.ofExcept (fun _ => .done) answer, s)
  | .linearityAt x a => do
    let (answer, s) ← s.linearityAt x a
    return (.ofExcept .linearity answer, s)
  | .printLocation a limit => do
    let reply ← printed [s.graph.printLocation a] limit
    return (reply, s)
  | .printEffect e limit => do
    let reply ← printed [s.graph.printEffect e] limit
    return (reply, s)
  | .printStore x limit => do
    let reply ← printed (s.graph.printStore x) limit
    return (reply, s)
  | .printStoreRaw x limit => do
    let reply ← printed (s.graph.printStoreRaw x) limit
    return (reply, s)
  | .printCells style x limit => do
    let (answer, s) ← s.printCells style x limit
    return (.ofExcept .ofOutput answer, s)
  | .draw style roots => do
    let picture ← Dot.render s.graph style roots
    return (.text picture, s)
  | .phase => return (.text s.phase.text, s)
  | .config => return (.config s.config, s)
  | .summary => return (.text s.summary, s)
  | .errors => return (.diagnostics s.errors, s)
  | .errorCount => return (.number s.errors.length, s)
  | .takeErrors =>
    let (list, s) := s.takeErrors
    return (.diagnostics list, s)
  | .setReceiver receiver => return (.done, s.setReceiver receiver)

/-- Carry out a command. -/
def exec (s : Session σ τ) (c : Command τ) : Except Fault (Reply τ × Session σ τ) := do
  let (reply, s) ← s.perform c
  match QualifierLattice.fault? s.lattice with
  | some f => throw f
  | none => return (reply, s)

end Session

end HeapQual
