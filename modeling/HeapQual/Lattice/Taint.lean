import HeapQual.Lattice

/-!
# The taint lattice

Qualified types are variables that range over `untainted < tainted`.  Every variable has a lower
and an upper bound; a constant is a variable whose two bounds agree.  An inequality `l ≤ r` is
kept as an edge from `l` to `r`, and lower bounds are pushed forward along the edges.  It fails
when a push raises some variable above its upper bound, so a conflict is reported once, by the
inequality that completes it.

Variables are named by integers, read as positions modulo `2 ^ 64`.
-/

namespace HeapQual

/-- The two values. -/
inductive TaintValue where
  | untainted
  | tainted
  deriving DecidableEq, Inhabited

namespace TaintValue

/-- The strict order `untainted < tainted`. -/
def below : TaintValue → TaintValue → Bool
  | untainted, tainted => true
  | _, _ => false

/-- A value as it is printed. -/
def text : TaintValue → String
  | untainted => "untainted"
  | tainted => "tainted"

/-- The name of the constant with this value. -/
def constantName : TaintValue → String
  | untainted => "Untainted"
  | tainted => "Tainted"

end TaintValue

/-- A variable of the taint lattice. -/
structure TaintVariable where
  name : String
  /-- The least value that the inequalities force. -/
  lower : TaintValue
  /-- The greatest value allowed. -/
  upper : TaintValue
  /-- The variables that must be at least as tainted, in order of arrival. -/
  successors : List Nat
  deriving Inhabited

/-- A state of the taint lattice. -/
structure Taint where
  vars : Array TaintVariable
  /-- The first question about a variable that does not exist. -/
  fault : Option Fault

namespace Taint

/-- The lattice without variables. -/
def empty : Taint := ⟨#[], none⟩

/-- The position that an integer names. -/
def position (q : Int) : Nat := (q % Int.pow 2 64).toNat

/-- Add a variable; its name is its position. -/
def add (t : Taint) (name : String) (lower upper : TaintValue) : Int × Taint :=
  (t.vars.size, { t with vars := t.vars.push ⟨name, lower, upper, []⟩ })

/-- Make a variable that may take either value. -/
def declare (t : Taint) (name : String) : Int × Taint := t.add name .untainted .tainted

/-- Make a constant. -/
def constant (t : Taint) (value : TaintValue) : Int × Taint :=
  t.add value.constantName value value

/-- The variable that an integer names. -/
def read (t : Taint) (q : Int) : Except Fault TaintVariable :=
  match t.vars[position q]? with
  | some v => .ok v
  | none => .error (.unknownQualifier t.vars.size (position q))

/-- The value that the inequalities force on a variable. -/
def value (t : Taint) (q : Int) : Except Fault TaintValue := (t.read q).map TaintVariable.lower

/-- The lattice with a question it could not answer; only the first is remembered. -/
def fail (t : Taint) (f : Fault) : Taint := { t with fault := some (t.fault.getD f) }

/-! ## Inequalities -/

/-- A push of lower bounds in progress. -/
structure Push where
  vars : Array TaintVariable
  /-- Is every lower bound raised so far within its upper bound? -/
  holds : Bool
  /-- The variables raised, whose successors are still to be looked at. -/
  stack : List Nat

/-- Raise the lower bound of variable `j` to `value`, if it is below. -/
def Push.raise (value : TaintValue) (p : Push) (j : Nat) : Push :=
  match p.vars[j]? with
  | none => p
  | some v =>
    if v.lower.below value then
      { vars := p.vars.setIfInBounds j { v with lower := value }
        holds := p.holds && !v.upper.below value
        stack := j :: p.stack }
    else p

/-- Push lower bounds forward from the stack, visiting at most `fuel` variables.  A variable is
raised at most once, so one visit more than there are variables is enough. -/
def Push.run : (fuel : Nat) → Push → Push
  | 0, p => p
  | fuel + 1, p =>
    match p.stack with
    | [] => p
    | i :: rest =>
      let v := p.vars[i]?.getD default
      Push.run fuel (v.successors.foldl (Push.raise v.lower) { p with stack := rest })

/-- Take note of an inequality and push lower bounds along it. -/
def leq (t : Taint) (l r : Int) : Bool × Taint :=
  match t.read l, t.read r with
  | .error f, _ => (false, t.fail f)
  | _, .error f => (false, t.fail f)
  | .ok v, .ok _ =>
    let i := position l
    let linked := t.vars.setIfInBounds i { v with successors := v.successors ++ [position r] }
    let pushed := Push.run (linked.size + 1) ⟨linked, true, [i]⟩
    (pushed.holds, { t with vars := pushed.vars })

/-- A fresh variable, named after the given one. -/
def fresh (t : Taint) (like : Int) : Int × Taint :=
  match t.read like with
  | .ok v => t.declare (v.name ++ "'")
  | .error f => (0, t.fail f)

instance : QualifierLattice Taint Int where
  fresh := Taint.fresh
  leq := Taint.leq
  fault? := Taint.fault
  describe q := s!"q{q}"
  valueText t q := (t.value q).map TaintValue.text

end Taint

end HeapQual
