/-!
# Access kinds

A piece of code touches a location at some *kind*: it reads it, writes it, does both,
allocates it, or performs an access of a user-defined kind.  `Kind.any` stands for an access
about which nothing more is known.

Two relations between kinds are used later.  `Kind.overlaps` decides whether an access of one
kind may be an access of the other, and is what a membership question asks.  `Kind.meet` gives
the accesses that are of both kinds, and is what an intersection of effects keeps.  Allocation
stands apart from all the others: it overlaps nothing but itself.

Kinds are numbered by `Kind.rank`, which is injective, and ordered by that number.
-/

namespace HeapQual

/-- How a location is accessed. -/
inductive Kind where
  /-- An access of unknown kind. -/
  | any
  | readWrite
  | read
  | write
  /-- An allocation, which is no access to the contents. -/
  | alloc
  /-- An access of the user-defined kind with this tag. -/
  | custom (tag : Nat)
  deriving DecidableEq, Inhabited

namespace Kind

/-- The number of a kind: the built-in kinds come first, in a fixed order. -/
def rank : Kind → Nat
  | any => 0
  | readWrite => 1
  | read => 2
  | write => 3
  | alloc => 4
  | custom tag => 5 + tag

theorem rank_inj {k q : Kind} : k.rank = q.rank ↔ k = q := by
  constructor
  · intro h
    cases k <;> cases q <;> simp_all [rank] <;> omega
  · intro h
    rw [h]

instance : Ord Kind := ⟨compareOn rank⟩

instance : Std.TransOrd Kind := inferInstanceAs (Std.TransCmp (compareOn rank))

instance : Std.LawfulEqOrd Kind where
  compare_self := by
    intro k
    exact Nat.compare_eq_eq.2 rfl
  eq_of_compare := by
    intro k q h
    exact rank_inj.1 (Nat.compare_eq_eq.1 h)

/-- The given kinds in ascending order, repetitions kept. -/
def sort (kinds : List Kind) : List Kind :=
  kinds.mergeSort fun k q => decide (k.rank ≤ q.rank)

/-! ## Relations between kinds -/

/-- Does an access of the first kind answer a question about the second?  An allocation
answers only for allocations, an unknown access for everything else, and a read-write access
for each of its halves. -/
def covers : Kind → Kind → Bool
  | alloc, q => decide (q = alloc)
  | _, alloc => false
  | any, _ => true
  | _, any => true
  | readWrite, read => true
  | readWrite, write => true
  | k, q => decide (k = q)

/-- The simple kinds a kind consists of: a read-write access is a read and a write. -/
def parts : Kind → List Kind
  | readWrite => [read, write]
  | k => [k]

/-- May an access of one kind be an access of the other? -/
def overlaps (k q : Kind) : Bool :=
  k.parts.any fun a => q.parts.any fun b => a.covers b

/-- The accesses that are of both kinds, if there are any. -/
def meet : Kind → Kind → Option Kind
  | alloc, alloc => some alloc
  | alloc, _ => none
  | _, alloc => none
  | any, k => some k
  | k, any => some k
  | readWrite, read => some read
  | readWrite, write => some write
  | read, readWrite => some read
  | write, readWrite => some write
  | k, q => if k = q then some k else none

/-! ## Names -/

/-- The short name of a kind, as effects are printed. -/
def name : Kind → String
  | any => "any"
  | readWrite => "rwr"
  | read => "r"
  | write => "wr"
  | alloc => "alloc"
  | custom tag => s!"k{tag}"

/-- The kind with this short name.  A user-defined kind is `k` followed by its tag. -/
def ofName? (text : String) : Option Kind :=
  match text with
  | "any" => some any
  | "rwr" => some readWrite
  | "r" => some read
  | "wr" => some write
  | "alloc" => some alloc
  | _ =>
    match text.toList with
    | 'k' :: digits => (String.ofList digits).toNat?.map custom
    | _ => none

/-- The long name of a kind, as records of constraints are logged. -/
def longName : Kind → String
  | any => "Any"
  | readWrite => "Rwr"
  | read => "R"
  | write => "Wr"
  | alloc => "Alloc"
  | custom tag => s!"Custom({tag})"

end Kind

end HeapQual
