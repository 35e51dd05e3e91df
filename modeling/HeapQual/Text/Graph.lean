import HeapQual.Graph
import HeapQual.Text.Output

/-!
# Printed effects and stores

Effects are printed as expressions with the names of their locations and variables.  Stores are
printed one operator at a time, their operands by name or handle, either readably or with raw
handles only.

An effect that exists prints without fail.  A store expression may name what does not exist, so
it prints in pieces.
-/

namespace HeapQual

namespace Graph

variable {τ : Type}

/-- The name of a location's class. -/
def locationName (g : Graph τ) (a : LocationId) : String := g.locations.nameOf (g.classOf a)

/-- An effect as an expression, to at most this depth. -/
def effectTextFrom (g : Graph τ) : (fuel : Nat) → EffectId → String
  | 0, _ => ""
  | fuel + 1, e =>
    match g.effects.node e with
    | .empty => "\x7b\x7d"
    | .atom .any a => "\x7b" ++ g.locationName a ++ "\x7d"
    | .atom kind a => kind.name ++ "(" ++ g.locationName a ++ ")"
    | .var name => name
    | .union a b => "(" ++ g.effectTextFrom fuel a ++ " ∪ " ++ g.effectTextFrom fuel b ++ ")"
    | .inter a b => "(" ++ g.effectTextFrom fuel a ++ " ∩ " ++ g.effectTextFrom fuel b ++ ")"

/-- An effect as an expression. -/
def effectText (g : Graph τ) (e : EffectId) : String := g.effectTextFrom g.effects.size e

/-- An effect as an expression, if it exists. -/
def printEffect (g : Graph τ) (e : EffectId) : Except Fault String := do
  let _ ← g.effects.find e
  return g.effectText e

/-- The name of a location, if it exists. -/
def printLocation (g : Graph τ) (a : LocationId) : Except Fault String :=
  (g.locations.find a).map g.locations.nameOf

/-- The short name of a store: a variable's name, or the handle of its class. -/
def storeName (g : Graph τ) (s : StoreId) : Except Fault String := do
  let root ← g.stores.find s
  match g.stores.nodeAt root with
  | .var name => return name
  | _ => return (StoreId.mk root).label

/-- The operator at a store's root, with its operands named, in pieces. -/
def storePieces (g : Graph τ) (root : Nat) : List (Except Fault String) :=
  match g.stores.nodeAt root with
  | .var name => [pure name]
  | .restrict base e => [(g.storeName base).map (· ++ "|"), g.printEffect e]
  | .allocate base a _ =>
    [do
      let location ← g.printLocation a
      let store ← g.storeName base
      return "ref(" ++ location ++ ", " ++ store ++ ")"]
  | .overlay inside outside e =>
    [do
      let first ← g.storeName inside
      let second ← g.storeName outside
      return "ow(" ++ first ++ ", " ++ second ++ ", ",
    g.printEffect e,
    pure ")"]
  | .update base a _ strong _ _ =>
    [do
      let store ← g.storeName base
      let location ← g.printLocation a
      return "assign" ++ (if strong then "!" else "") ++ "(" ++ store ++ ", " ++ location ++ ")"]

/-- The operator of a store, with its operands named, in pieces. -/
def printStore (g : Graph τ) (s : StoreId) : List (Except Fault String) :=
  match g.stores.find s with
  | .ok root => g.storePieces root
  | .error f => [.error f]

/-- The handle of a store's class. -/
def rootLabel (g : Graph τ) (s : StoreId) : Except Fault String :=
  (g.stores.find s).map fun root => (StoreId.mk root).label

/-- The operator of a store with raw handles only, in pieces. -/
def printStoreRaw (g : Graph τ) (s : StoreId) : List (Except Fault String) :=
  match g.stores.find s with
  | .error f => [.error f]
  | .ok root =>
    [pure ((StoreId.mk root).label ++ " = "),
    match g.stores.nodeAt root with
    | .var _ => pure "var"
    | .restrict base e => do
      let store ← g.rootLabel base
      return "filter(" ++ store ++ ", " ++ e.label ++ ")"
    | .allocate base a _ => do
      let store ← g.rootLabel base
      return "ref(" ++ a.label ++ ", " ++ store ++ ")"
    | .overlay inside outside e => do
      let first ← g.rootLabel inside
      let second ← g.rootLabel outside
      return "ow(" ++ first ++ ", " ++ second ++ ", " ++ e.label ++ ")"
    | .update base a _ strong _ _ => do
      let store ← g.rootLabel base
      return "assign(" ++ store ++ ", " ++ a.label ++ ", strong = " ++
        (if strong then "true" else "false") ++ ")"]

end Graph

end HeapQual
