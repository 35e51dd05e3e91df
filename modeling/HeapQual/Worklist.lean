/-!
# Solving equations by a worklist

Three questions about the constraint graph are answered in the same way: which accesses an
effect contains, which locations a store binds, and which allocations reach a store.  Each
gives every node a value that depends on the values of other nodes, and asks for the least
values that satisfy all dependencies.

`Equations.solve` computes them.  It keeps a first-in first-out queue of nodes whose value may
be out of date, without repetitions.  A step takes the first node, revises its value from the
present values, and, if that changed it, queues the nodes that depend on it.  The number of
steps is part of the answer.

The run stops when the queue is empty.  Its fuel, `Equations.bound`, allows every value to
change `height` times and every change to queue all nodes, so it is not exhausted as long as
`height` bounds the strictly growing sequences of values of one node.
-/

namespace HeapQual

/-- A system of equations between the nodes `0 .. start.size - 1`. -/
structure Equations (α : Type) where
  start : Array α
  nodes : List Nat
  /-- The value of a node, given the present values of all nodes. -/
  revise : Array α → Nat → α
  /-- The nodes whose value may change when this node's value has. -/
  dependents : Nat → List Nat
  /-- How often the value of one node can grow. -/
  height : Nat

/-- A worklist run between two steps. -/
structure Worklist (α : Type) where
  values : Array α
  /-- The nodes to be revised, first come first served. -/
  queue : List Nat
  steps : Nat

namespace Worklist

/-- Queue a node, unless it is queued already. -/
def enqueue (queue : List Nat) (i : Nat) : List Nat :=
  if i ∈ queue then queue else queue ++ [i]

/-- Queue several nodes in turn. -/
def enqueueAll (queue : List Nat) (nodes : List Nat) : List Nat := nodes.foldl enqueue queue

/-- Revise the first node in the queue. -/
def step {α : Type} [DecidableEq α] (eqs : Equations α) (w : Worklist α) : Worklist α :=
  match w.queue with
  | [] => w
  | i :: rest =>
    let value := eqs.revise w.values i
    if w.values[i]? = some value then { w with queue := rest, steps := w.steps + 1 }
    else
      { values := w.values.setIfInBounds i value
        queue := enqueueAll rest (eqs.dependents i)
        steps := w.steps + 1 }

/-- Take steps until the queue is empty, at most `fuel` many. -/
def run {α : Type} [DecidableEq α] (eqs : Equations α) : (fuel : Nat) → Worklist α → Worklist α
  | 0, w => w
  | fuel + 1, w => if w.queue.isEmpty then w else run eqs fuel (step eqs w)

end Worklist

namespace Equations

variable {α : Type}

/-- A bound on the number of steps: every value can change `height` times, and every change
can queue every node. -/
def bound (eqs : Equations α) : Nat :=
  eqs.nodes.length + eqs.start.size * eqs.height * eqs.start.size

/-- The run before its first step: every node is queued. -/
def initial (eqs : Equations α) : Worklist α := ⟨eqs.start, eqs.nodes, 0⟩

/-- The values that satisfy all equations, and the steps it took to find them. -/
def solve [DecidableEq α] (eqs : Equations α) : Worklist α :=
  Worklist.run eqs (eqs.bound + 1) eqs.initial

end Equations

end HeapQual
