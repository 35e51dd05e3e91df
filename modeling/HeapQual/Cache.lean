import HeapQual.Fault

/-!
# A direct-mapped memo table

A memo table has `2 ^ bits` slots.  A key belongs in the slot its hash gives modulo that
number, and an insertion overwrites whatever the slot held, so the table is *lossy*: it forgets
entries but never confuses them, because a look-up compares the whole key.  Only the occupied
slots are stored, as an association list by slot number with at most one entry per slot.

The table counts the look-ups that found their key and those that did not.
-/

namespace HeapQual

/-- A memo table from `κ` to `υ`. -/
structure Cache (κ υ : Type) where
  /-- The table has `2 ^ bits` slots. -/
  bits : Nat
  /-- The occupied slots: slot number, key, value. -/
  slots : List (Nat × κ × υ)
  hits : Nat
  misses : Nat

namespace Cache

variable {κ υ : Type}

/-- A table may have at most `2 ^ maxBits` slots. -/
def maxBits : Nat := 31

/-- The empty table with `2 ^ bits` slots. -/
def empty (bits : Nat) : Cache κ υ := ⟨bits, [], 0, 0⟩

/-- The empty table with `2 ^ bits` slots, if that is not too many. -/
def make (bits : Nat) : Except Fault (Cache κ υ) :=
  if bits ≤ maxBits then .ok (empty bits) else .error .cacheTooLarge

/-- The slot in which a key belongs. -/
def slotOf [Hashable κ] (c : Cache κ υ) (key : κ) : Nat :=
  (hash key).toNat % Nat.pow 2 c.bits

/-- What a slot holds. -/
def entry? (c : Cache κ υ) (slot : Nat) : Option (κ × υ) := c.slots.lookup slot

/-- The value remembered for a key, without counting the look-up. -/
def peek? [Hashable κ] [DecidableEq κ] (c : Cache κ υ) (key : κ) : Option υ :=
  match c.entry? (c.slotOf key) with
  | some (held, value) => if held = key then some value else none
  | none => none

/-- The value remembered for a key, and the table with the look-up counted. -/
def get? [Hashable κ] [DecidableEq κ] (c : Cache κ υ) (key : κ) : Option υ × Cache κ υ :=
  match c.peek? key with
  | some value => (some value, { c with hits := c.hits + 1 })
  | none => (none, { c with misses := c.misses + 1 })

/-- Remember a value, forgetting what else was in the slot. -/
def insert [Hashable κ] (c : Cache κ υ) (key : κ) (value : υ) : Cache κ υ :=
  let slot := c.slotOf key
  { c with slots := (slot, key, value) :: c.slots.filter fun held => held.1 != slot }

/-- Forget every entry.  The counters stay. -/
def clear (c : Cache κ υ) : Cache κ υ := { c with slots := [] }

theorem slotOf_lt [Hashable κ] (c : Cache κ υ) (key : κ) : c.slotOf key < Nat.pow 2 c.bits :=
  Nat.mod_lt _ (Nat.two_pow_pos c.bits)

end Cache

end HeapQual
