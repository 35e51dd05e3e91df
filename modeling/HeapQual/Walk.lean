/-!
# Walks

A depth-first walk over a graph that is given by the successors of each node.  The nodes still
to be visited form a stack, of which the last node pushed comes first, and a node seen before is
skipped.  The answer lists the nodes newly visited, in the order of their visits.

Every round visits a new node, so as much fuel as there are nodes lets the walk finish.
-/

namespace HeapQual

namespace Walk

variable {α : Type} [DecidableEq α]

/-- Visit what is reachable from the stack and not seen before, at most `fuel` nodes. -/
def visitFrom (next : α → List α) : (fuel : Nat) → (stack seen : List α) → List α
  | 0, _, _ => []
  | fuel + 1, stack, seen =>
    match stack.dropWhile fun x => decide (x ∈ seen) with
    | [] => []
    | x :: rest => x :: visitFrom next fuel ((next x).reverse ++ rest) (x :: seen)

/-- Visit what is reachable from the seeds, the last seed first, and not seen before. -/
def visit (next : α → List α) (fuel : Nat) (seeds seen : List α) : List α :=
  visitFrom next fuel seeds.reverse seen

end Walk

end HeapQual
