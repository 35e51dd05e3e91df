import HeapQual.Text.Graph

/-!
# The store graph as a picture

The store graph can be written in the DOT language, in which a layout program draws it.
Variables and operators get shapes of their own.  An operator points to its operands, and the
right side of a subset edge points to the left side.

The picture shows the stores that the given ones depend on, or all stores if none is given.
Labels are quoted, with quotes and backslashes escaped by a backslash.
-/

namespace HeapQual

namespace Dot

/-- How the picture is drawn. -/
structure Style where
  variableShape : String
  operatorShape : String
  /-- The line from the right side of a subset edge to the left side. -/
  edgeLine : String
  operandLine : String
  labelled : Bool

/-- Ellipses and boxes, solid and dashed lines, no labels on edges. -/
def Style.plain : Style := ⟨"ellipse", "box", "solid", "dashed", false⟩

/-- A plain style, but with labels on edges. -/
def Style.labelling : Style := { plain with labelled := true }

/-- A text with quotes and backslashes escaped. -/
def escapeChars : List Char → List Char
  | [] => []
  | c :: cs => if c = '"' || c = '\\' then '\\' :: c :: escapeChars cs else c :: escapeChars cs

/-- A label with quotes and backslashes escaped. -/
def escape (label : String) : String := String.ofList (escapeChars label.toList)

variable {τ : Type}

/-! ## Which stores are drawn -/

/-- The stores that the class with this root is computed from. -/
def dependencies (t : Stores τ) (root : Nat) : List StoreId :=
  (t.nodeAt root).operands ++ (t.edgesInto root).map fun (edge, _) => edge.left

/-- Visit the stores on the stack and all that they depend on, looking at no more than `fuel`
entries of the stack.  The last store pushed is looked at first. -/
def ancestorsFrom (t : Stores τ) : (fuel : Nat) → (stack : List StoreId) → (seen : List Nat) →
    Except Fault (List Nat)
  | 0, _, seen => .ok seen
  | _ + 1, [], seen => .ok seen
  | fuel + 1, s :: rest, seen => do
    let root ← t.find s
    if root ∈ seen then ancestorsFrom t fuel rest seen
    else ancestorsFrom t fuel ((dependencies t root).reverse ++ rest) (root :: seen)

/-- How many stores can be pushed before every store has been visited. -/
def pushes (t : Stores τ) (roots : List StoreId) : Nat :=
  roots.length + 2 * t.size + t.edges.size

/-- The roots of the stores to be drawn, in ascending order. -/
def drawn (t : Stores τ) (roots : List StoreId) : Except Fault (List Nat) :=
  if roots.isEmpty then .ok t.classes.roots
  else do
    let seen ← ancestorsFrom t (pushes t roots + 1) roots.reverse []
    return (List.range t.size).filter fun i => decide (i ∈ seen)

/-! ## The lines of the picture -/

/-- One line of the picture. -/
inductive Line where
  | node (store : Nat) (shape label : String)
  | operand (operator operand : Nat) (style : String)
  /-- A line from the right side of a subset edge to the left side, perhaps with a label. -/
  | edge (right left : Nat) (style : String) (label : Option String)
  deriving DecidableEq

/-- A label as an attribute. -/
def labelText (label : String) : String := "label=\"" ++ escape label ++ "\""

/-- A line as it is written. -/
def Line.text : Line → String
  | node i shape label => s!"{i} [shape={shape}, " ++ labelText label ++ "];\n"
  | operand i j style => s!"{i} -> {j} [style={style}];\n"
  | edge right left style none => s!"{right} -> {left} [style={style}];\n"
  | edge right left style (some label) =>
    s!"{right} -> {left} [style={style}, " ++ labelText label ++ "];\n"

/-- A text from pieces, all of which must exist. -/
def joined (pieces : List (Except Fault String)) : Except Fault String := do
  let texts ← pieces.mapM id
  return String.join texts

/-- The line that declares a store. -/
def nodeLine (g : Graph τ) (style : Style) (i : Nat) : Except Fault Line := do
  let label ← joined (g.storePieces i)
  let shape :=
    if (g.stores.nodeAt i).isVariable then style.variableShape else style.operatorShape
  return .node i shape label

/-- The lines from an operator to its operands. -/
def operandLines (g : Graph τ) (style : Style) (i : Nat) : Except Fault (List Line) :=
  (g.stores.nodeAt i).operands.mapM fun s => do
    let operand ← g.stores.find s
    return .operand i operand style.operandLine

/-- The line of a subset edge. -/
def edgeLine (g : Graph τ) (style : Style) (edge : FlowEdge) : Line :=
  .edge (g.stores.root edge.right) (g.stores.root edge.left) style.edgeLine
    (if style.labelled then some edge.message else none)

/-- The lines of the picture: the stores, their operands, and the subset edges into them. -/
def lines (g : Graph τ) (style : Style) (roots : List StoreId) : Except Fault (List Line) := do
  let nodes ← drawn g.stores roots
  let declarations ← nodes.mapM (nodeLine g style)
  let operands ← nodes.mapM (operandLines g style)
  let edges := g.stores.edges.toList.filter fun edge =>
    decide (g.stores.root edge.right ∈ nodes)
  return declarations ++ operands.flatten ++ edges.map (edgeLine g style)

/-- The picture of the stores that the given ones depend on. -/
def render (g : Graph τ) (style : Style) (roots : List StoreId) : Except Fault String := do
  let lines ← lines g style roots
  return "digraph \x7b\nrankdir=BT;\n" ++ String.join (lines.map Line.text) ++ "\x7d\n"

end Dot

end HeapQual
