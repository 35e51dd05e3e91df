import HeapQual.Session

/-!
# Effects in a session

Atoms, unions and intersections are memoised, so that making the same effect again usually gives
the same handle.  The memo table may forget: then the same effect gets a second handle, which
`Session.knownEqual` still recognises.
-/

namespace HeapQual

namespace Session

variable {σ τ : Type}

/-- Replace the table of effects. -/
def withEffects (s : Session σ τ) (effects : Effects) : Session σ τ :=
  { s with graph := { s.graph with effects } }

/-- Enter an effect into the graph. -/
def enterEffect (s : Session σ τ) (node : EffectNode) : EffectId × Session σ τ :=
  let (e, effects) := s.graph.effects.add node
  (e, (s.withEffects effects).forget)

/-- The effect made by a recipe: the remembered one, or a new entry. -/
def recallOrEnter (s : Session σ τ) (recipe : Effects.Recipe) (node : EffectNode)
    (notice : EffectId → Notice τ) : EffectId × Session σ τ :=
  let (held, recipes) := s.recipes.get? recipe
  let s := { s with recipes }
  match held with
  | some e => (e, s)
  | none =>
    let (e, s) := s.enterEffect node
    let s := s.note (notice e)
    (e, { s with recipes := s.recipes.insert recipe e })

/-- The effect of accessing one location. -/
def atom (s : Session σ τ) (kind : Kind) (a : LocationId) :
    Except Fault (EffectId × Session σ τ) := do
  let _ ← s.graph.locations.find a
  return s.recallOrEnter (Effects.Recipe.ofAtom kind a) (.atom kind a) (.atomMade kind a)

/-- A new effect variable. -/
def effectVariable (s : Session σ τ) (name : String) : EffectId × Session σ τ :=
  let (e, s) := s.enterEffect (.var name)
  (e, s.note (.effectVariableMade name e))

/-- A new effect variable with a made-up name. -/
def freshEffect (s : Session σ τ) : EffectId × Session σ τ :=
  let (name, effects) := s.graph.effects.freshName
  (s.withEffects effects).effectVariable name

/-- Are two effects certainly equal?  The answer `false` leaves it open. -/
def knownEqual (s : Session σ τ) (e₁ e₂ : EffectId) : Except Fault Bool := do
  let _ ← s.graph.effects.find e₁
  let _ ← s.graph.effects.find e₂
  return s.graph.effects.knownEqual s.graph.classOf e₁ e₂

/-- The union of two effects. -/
def union (s : Session σ τ) (e₁ e₂ : EffectId) : Except Fault (EffectId × Session σ τ) :=
  if e₁.isEmpty then .ok (e₂, s)
  else if e₂.isEmpty then .ok (e₁, s)
  else do
    if ← s.knownEqual e₁ e₂ then return (e₁, s)
    else
      return s.recallOrEnter (Effects.Recipe.ofUnion e₁ e₂) (Effects.unionNode e₁ e₂)
        (.unionMade e₁ e₂)

/-- The intersection of two effects, the second of which must not be the empty one. -/
def inter (s : Session σ τ) (e₁ e₂ : EffectId) : Except Fault (EffectId × Session σ τ) :=
  if e₂.isEmpty then .error .emptyIntersection
  else if e₁.isEmpty then .ok (.empty, s)
  else do
    if ← s.knownEqual e₁ e₂ then return (e₁, s)
    else
      return s.recallOrEnter (Effects.Recipe.ofInter e₁ e₂) (.inter e₁ e₂) (.interMade e₁ e₂)

/-- The location of an atom, as it was given. -/
def locationOfAtom (s : Session σ τ) (e : EffectId) : Except Fault (Option LocationId) := do
  let root ← s.graph.effects.find e
  match s.graph.effects.nodeAt root with
  | .atom _ a => return some a
  | _ => return none

/-- Mark an effect as one whose membership questions are memoised. -/
def markEffect (s : Session σ τ) (e : EffectId) : Except Fault (Session σ τ) := do
  let root ← s.graph.effects.find e
  return s.withEffects (s.graph.effects.mark root)

/-! ## Constraints -/

/-- Take one step of a split inclusion: log it, and record it if it stands as it is. -/
def includeStep (position : Position) (s : Session σ τ) (step : Effects.SplitStep) :
    Session σ τ :=
  let s := s.note (.inclusionAsked step.source step.target)
  if step.recorded then
    (s.withEffects
      (s.graph.effects.addInclusion ⟨step.source, step.target, position⟩)).forget
  else s

/-- Constrain the first effect to be included in the second. -/
def includeEffect (s : Session σ τ) (position : Position) (e₁ e₂ : EffectId) :
    Except Fault (Session σ τ) := do
  unless e₁.isEmpty do
    let _ ← s.graph.effects.find e₁
    let _ ← s.graph.effects.find e₂
  return (s.graph.effects.split s.graph.classOf e₁ e₂).foldl (includeStep position) s

/-- Constrain two effects to be equal. -/
def equateEffects (s : Session σ τ) (position : Position) (e₁ e₂ : EffectId) :
    Except Fault (Session σ τ) := do
  let s ← s.includeEffect position e₁ e₂
  s.includeEffect position e₂ e₁

/-- The root of an effect variable. -/
def findEffectVariable (s : Session σ τ) (e : EffectId) : Except Fault Nat := do
  let root ← s.graph.effects.find e
  if s.graph.effects.isVariable e then return root else throw .mergedEffectOperator

/-- Merge two effect variables for good. -/
def mergeEffects (s : Session σ τ) (e₁ e₂ : EffectId) : Except Fault (Session σ τ) := do
  let r₁ ← s.findEffectVariable e₁
  let r₂ ← s.findEffectVariable e₂
  let s := s.note (.effectsMerged e₁ e₂)
  if r₁ = r₂ then return s
  else return (s.withEffects (s.graph.effects.join r₁ r₂)).forget

end Session

end HeapQual
