import HeapQual.Handle

/-!
# What can go wrong with a call

Two things are told apart.  A *fault* is a breach of contract by the caller, such as a handle
that was never given out; it ends the session.  A *refusal* is a call made in the wrong phase,
on the wrong sort of store, or into an output that is full; the session goes on.

Both are recorded by their cause.  The wording is in `Fault.message` and `Refusal.message`.
Errors in the analysed program are neither: they are diagnostics, and belong to the answer.
-/

namespace HeapQual

/-- A breach of contract, which ends the session. -/
inductive Fault where
  | unknownLocation (a : LocationId)
  | unknownEffect (e : EffectId)
  | unknownStore (s : StoreId)
  | mergedEffectOperator
  | mergedStoreOperator
  | emptyIntersection
  /-- The effect that must be avoided contains a variable. -/
  | openExclusion
  /-- Allocation was asked for an effect with this part, which is no single location. -/
  | notAllocatable (e : EffectId)
  | cacheTooLarge
  | configTooLarge
  /-- A qualifier variable beyond the `count` existing ones was named. -/
  | unknownQualifier (count index : Nat)
  deriving DecidableEq

/-- The text of a fault. -/
def Fault.message : Fault → String
  | unknownLocation a => s!"Unknown abstract location {a.index}"
  | unknownEffect e => s!"Unknown effect {e.label}"
  | unknownStore s => s!"Unknown store {s.label}"
  | mergedEffectOperator => "Only effect variables can be unified"
  | mergedStoreOperator => "Only store variables can be unified"
  | emptyIntersection => "The second operand of an effect intersection must not be empty"
  | openExclusion =>
    "The left side of a negative effect constraint must not contain variables"
  | notAllocatable e =>
    s!"make_store_ref_effect needs a union of single-location effects, got {e.label}"
  | cacheTooLarge => "Bits should be in the range 0..=31"
  | configTooLarge => "Cache bits should be in the range 0..=31"
  | unknownQualifier count index =>
    s!"index out of bounds: the len is {count} but the index is {index}"

/-- A call that was declined; the session goes on. -/
inductive Refusal where
  | graphOpen
  | linearitiesPending
  | alreadyClosed
  | alreadyLinearized
  | notAnUpdate (s : StoreId)
  | outputFull
  deriving DecidableEq

/-- The text of a refusal. -/
def Refusal.message : Refusal → String
  | graphOpen => "constraint graph is still open, call `check_nin` first"
  | linearitiesPending => "linearities have not been computed, call `compute_lins` first"
  | alreadyClosed => "negative constraints have already been checked"
  | alreadyLinearized => "linearities have already been computed"
  | notAnUpdate s => s!"{s.label} is not an assign store"
  | outputFull => "formatting failed"

end HeapQual
