import HeapQual.PairHash
import HeapQual.Proofs.Cache
import Mathlib.Algebra.GroupWithZero.Nat
import Mathlib.Data.List.Basic
import Mathlib.Data.List.Nodup

/-!
# What a memo table has seen

A memo table is used by looking keys up, inserting values and clearing it.  What a slot holds is
known from the past alone: it is the last insertion into the slot, unless the table was cleared
since (`Cache.LastInto`).  The table and its past agree at the start, and every use keeps them in
agreement (`Cache.Accords.step`, `Cache.Accords.run`).
-/

namespace HeapQual

namespace Cache

/-- One use of a memo table. -/
inductive Use (κ υ : Type) where
  | get (key : κ)
  | insert (key : κ) (value : υ)
  | clear
  deriving DecidableEq

variable {κ υ : Type}

/-- Is this a look-up? -/
def Use.isGet : Use κ υ → Bool
  | get _ => true
  | _ => false

variable [Hashable κ]

/-- In a table with `2 ^ bits` slots, this use changes what the slot holds: it inserts a key that
belongs there, or it clears the table. -/
def Use.Overwrites (bits slot : Nat) : Use κ υ → Prop
  | get _ => False
  | insert key _ => (hash key).toNat % 2 ^ bits = slot
  | clear => True

/-- The last insertion into a slot of a table with `2 ^ bits` slots since it was last cleared was
this one. -/
def LastInto (bits : Nat) (uses : List (Use κ υ)) (slot : Nat) (key : κ) (value : υ) : Prop :=
  (hash key).toNat % 2 ^ bits = slot ∧
    ∃ before after, uses = before ++ .insert key value :: after ∧
      ∀ use ∈ after, ¬ use.Overwrites bits slot

variable {bits slot : Nat} {uses : List (Use κ υ)} {key : κ} {value : υ}

/-- A list with one more item is cut at an item before the last one, or at the last one. -/
lemma concat_eq_append_cons_iff {α : Type} {l before after : List α} {x y : α} :
    l ++ [x] = before ++ y :: after ↔ (after = [] ∧ before = l ∧ y = x) ∨
      ∃ rest, after = rest ++ [x] ∧ l = before ++ y :: rest := by
  constructor
  · intro h
    rcases List.eq_nil_or_concat' after with rfl | ⟨rest, z, rfl⟩
    · obtain ⟨rfl, hlast⟩ := List.append_inj' h rfl
      exact Or.inl ⟨rfl, rfl, (List.singleton_inj.1 hlast).symm⟩
    · rw [← List.cons_append, ← List.append_assoc] at h
      obtain ⟨rfl, hlast⟩ := List.append_inj' h rfl
      obtain rfl := List.singleton_inj.1 hlast
      exact Or.inr ⟨rest, rfl, rfl⟩
  · rintro (⟨rfl, rfl, rfl⟩ | ⟨rest, rfl, rfl⟩)
    · rfl
    · rw [List.append_assoc, List.cons_append]

/-- A use that comes last is the last insertion into a slot, or it leaves the slot as it is. -/
lemma lastInto_concat {use : Use κ υ} : LastInto bits (uses ++ [use]) slot key value ↔
    (use = .insert key value ∧ (hash key).toNat % 2 ^ bits = slot) ∨
      (¬ use.Overwrites bits slot ∧ LastInto bits uses slot key value) := by
  simp only [LastInto, concat_eq_append_cons_iff]
  constructor
  · rintro ⟨hslot, before, after, (⟨rfl, rfl, rfl⟩ | ⟨rest, rfl, rfl⟩), hafter⟩
    · exact Or.inl ⟨rfl, hslot⟩
    · obtain ⟨hrest, huse⟩ := List.forall_mem_append.1 hafter
      exact Or.inr ⟨huse use (List.mem_singleton_self use), hslot, before, rest, rfl, hrest⟩
  · rintro (⟨rfl, hslot⟩ | ⟨huse, hslot, before, rest, rfl, hrest⟩)
    · exact ⟨hslot, uses, [], Or.inl ⟨rfl, rfl, rfl⟩, fun _ h => absurd h List.not_mem_nil⟩
    · exact ⟨hslot, before, rest ++ [use], Or.inr ⟨rest, rfl, rfl⟩,
        List.forall_mem_append.2 ⟨hrest, List.forall_mem_singleton.2 huse⟩⟩

/-! ## Looking into a slot -/

variable {c : Cache κ υ}

/-- Dropping the entries of one slot leaves the other slots as they are. -/
lemma lookup_filter_ne {α : Type} (l : List (Nat × α)) {i j : Nat} (h : i ≠ j) :
    (l.filter fun x => x.1 != j).lookup i = l.lookup i := by
  induction l with
  | nil => rfl
  | cons x l ih =>
    by_cases hx : x.1 = j
    · have hi : (i == x.1) = false := beq_eq_false_iff_ne.2 (hx ▸ h)
      rw [List.filter_cons_of_neg (by simpa using hx), ih, List.lookup_cons, hi]
    · rw [List.filter_cons_of_pos (by simpa using hx), List.lookup_cons, List.lookup_cons, ih]

lemma entry?_insert (c : Cache κ υ) (key : κ) (value : υ) (slot : Nat) :
    entry? (c.insert key value) slot =
      if c.slotOf key = slot then some (key, value) else c.entry? slot := by
  unfold entry? insert
  by_cases h : c.slotOf key = slot
  · rw [if_pos h, h, List.lookup_cons_self]
  · have hbeq : (slot == c.slotOf key) = false := beq_eq_false_iff_ne.2 (Ne.symm h)
    rw [if_neg h, List.lookup_cons, hbeq]
    exact lookup_filter_ne c.slots (Ne.symm h)

/-- The lowest bits of a key's hash are the number of its slot. -/
lemma slotOf_eq_and (hbits : c.bits ≤ 31) (key : κ) :
    c.slotOf key = (hash key &&& (2 ^ c.bits - 1).toUInt64).toNat := by
  have hmask : 2 ^ c.bits - 1 < 2 ^ 64 :=
    Nat.lt_of_le_of_lt (Nat.sub_le ..) (Nat.pow_lt_pow_right (by decide) (by omega))
  rw [UInt64.toNat_and, Nat.toUInt64_eq, UInt64.toNat_ofNat_of_lt' hmask,
    Nat.and_two_pow_sub_one_eq_mod]
  rfl

/-! ## The run of a table -/

variable [DecidableEq κ]

/-- The answer to a use, if it has one, and the table after it. -/
def step (c : Cache κ υ) : Use κ υ → Option υ × Cache κ υ
  | .get key => c.get? key
  | .insert key value => (none, c.insert key value)
  | .clear => (none, c.clear)

/-- The uses with their answers, and the table after them. -/
def run (c : Cache κ υ) : List (Use κ υ) → List (Use κ υ × Option υ) × Cache κ υ
  | [] => ([], c)
  | use :: uses =>
    let (answer, next) := c.step use
    let (transcript, last) := next.run uses
    ((use, answer) :: transcript, last)

lemma bits_step (c : Cache κ υ) (use : Use κ υ) : (c.step use).2.bits = c.bits := by
  cases use with
  | get key => exact congrArg (·.2.bits) (get?_eq c key)
  | insert key value => rfl
  | clear => rfl

lemma fst_step_get (c : Cache κ υ) (key : κ) : (c.step (.get key)).1 = c.peek? key :=
  fst_get? c key

/-- A slot holds what is inserted into it, and keeps what is not overwritten. -/
lemma entry?_step_eq_some_iff {use : Use κ υ} : entry? (c.step use).2 slot = some (key, value) ↔
    (use = .insert key value ∧ (hash key).toNat % 2 ^ c.bits = slot) ∨
      (¬ use.Overwrites c.bits slot ∧ c.entry? slot = some (key, value)) := by
  cases use with
  | get key' =>
    have hslots : entry? (c.step (.get key')).2 slot = c.entry? slot :=
      congrArg (List.lookup slot) (slots_get? c key')
    simp [hslots, Use.Overwrites]
  | insert key' value' =>
    have hentry : entry? (c.step (.insert key' value')).2 slot =
        if (hash key').toNat % 2 ^ c.bits = slot then some (key', value') else c.entry? slot :=
      entry?_insert c key' value' slot
    rw [hentry]
    by_cases h : (hash key').toNat % 2 ^ c.bits = slot
    · rw [if_pos h]
      simp only [Use.Overwrites, h, not_true_eq_false, false_and, or_false, Option.some.injEq,
        Prod.mk.injEq, Use.insert.injEq]
      exact ⟨fun heq => ⟨heq, heq.1 ▸ h⟩, And.left⟩
    · rw [if_neg h]
      simp only [Use.Overwrites, h, not_false_eq_true, true_and, Use.insert.injEq]
      -- The entry went to another slot, so it cannot be the one found here.
      refine ⟨Or.inr, fun hor => hor.resolve_left ?_⟩
      rintro ⟨⟨rfl, -⟩, hslot⟩
      exact h hslot
  | clear =>
    have hnone : entry? (c.step .clear).2 slot = none := rfl
    simp [hnone, Use.Overwrites]

/-- Slots stay distinct and in range. -/
lemma slots_step (use : Use κ υ) (hnodup : (c.slots.map Prod.fst).Nodup)
    (hlt : ∀ entry ∈ c.slots, entry.1 < 2 ^ c.bits) :
    ((c.step use).2.slots.map Prod.fst).Nodup ∧
      ∀ entry ∈ (c.step use).2.slots, entry.1 < 2 ^ c.bits := by
  cases use with
  | get key =>
    have hslots : (c.step (.get key)).2.slots = c.slots := slots_get? c key
    rw [hslots]
    exact ⟨hnodup, hlt⟩
  | insert key value =>
    have hslots : (c.step (.insert key value)).2.slots =
        (c.slotOf key, key, value) :: c.slots.filter fun held => held.1 != c.slotOf key := rfl
    rw [hslots, List.map_cons, List.nodup_cons, List.forall_mem_cons]
    refine ⟨⟨fun hmem => ?_, ?_⟩, c.slotOf_lt key, fun entry hentry => ?_⟩
    · obtain ⟨entry, hentry, heq⟩ := List.mem_map.1 hmem
      exact absurd heq (by simpa using (List.mem_filter.1 hentry).2)
    · exact hnodup.sublist (List.filter_sublist.map _)
    · exact hlt entry (List.mem_filter.1 hentry).1
  | clear => exact ⟨List.nodup_nil, fun entry hentry => absurd hentry List.not_mem_nil⟩

/-- A look-up counts as a hit or as a miss by its answer, and nothing else is counted. -/
lemma counters_step (c : Cache κ υ) (use : Use κ υ) :
    (c.step use).2.hits = c.hits + (if use.isGet && (c.step use).1.isSome then 1 else 0) ∧
      (c.step use).2.hits + (c.step use).2.misses =
        c.hits + c.misses + (if use.isGet then 1 else 0) := by
  cases use with
  | get key =>
    rw [step, get?_eq]
    cases c.peek? key with
    | none => exact ⟨rfl, rfl⟩
    | some value => exact ⟨rfl, Nat.add_right_comm ..⟩
  | insert key value => exact ⟨rfl, rfl⟩
  | clear => exact ⟨rfl, rfl⟩

/-- A table with `2 ^ bits` slots agrees with its past, a list of uses and answers. -/
structure Accords (bits : Nat) (past : List (Use κ υ × Option υ)) (c : Cache κ υ) : Prop where
  bits_eq : c.bits = bits
  entry?_eq_some_iff : ∀ slot key value, c.entry? slot = some (key, value) ↔
    LastInto bits (past.map Prod.fst) slot key value
  nodup : (c.slots.map Prod.fst).Nodup
  slot_lt : ∀ entry ∈ c.slots, entry.1 < 2 ^ bits
  /-- A look-up was answered from the last insertion into the key's slot. -/
  answer_eq_some_iff : ∀ before key answer after, past = before ++ (.get key, answer) :: after →
    ∀ value, answer = some value ↔
      LastInto bits (before.map Prod.fst) ((hash key).toNat % 2 ^ bits) key value
  hits_eq : c.hits = past.countP fun x => x.1.isGet && x.2.isSome
  hits_add_misses : c.hits + c.misses = past.countP fun x => x.1.isGet

namespace Accords

variable {past : List (Use κ υ × Option υ)}

omit [DecidableEq κ] in
lemma empty (bits : Nat) : Accords bits [] (empty bits : Cache κ υ) where
  bits_eq := rfl
  entry?_eq_some_iff slot key value := by
    refine iff_of_false (fun h => by cases h) ?_
    rintro ⟨-, before, after, huses, -⟩
    exact List.append_ne_nil_of_right_ne_nil before (List.cons_ne_nil _ _) huses.symm
  nodup := List.nodup_nil
  slot_lt _ h := absurd h List.not_mem_nil
  answer_eq_some_iff before key answer after h :=
    absurd h.symm (List.append_ne_nil_of_right_ne_nil before (List.cons_ne_nil _ _))
  hits_eq := rfl
  hits_add_misses := rfl

/-- A look-up is answered from the last insertion into the key's slot. -/
lemma peek?_eq_some_iff (h : Accords bits past c) : c.peek? key = some value ↔
    LastInto bits (past.map Prod.fst) ((hash key).toNat % 2 ^ bits) key value := by
  rw [Cache.peek?_eq_some_iff, h.entry?_eq_some_iff, slotOf, h.bits_eq]
  rfl

omit [DecidableEq κ] in
lemma slotOf_eq (h : Accords bits past c) (hbits : bits ≤ 31) (key : κ) :
    c.slotOf key = (hash key &&& (2 ^ bits - 1).toUInt64).toNat ∧ c.slotOf key < 2 ^ bits := by
  obtain rfl := h.bits_eq
  exact ⟨slotOf_eq_and hbits key, slotOf_lt c key⟩

theorem step (h : Accords bits past c) (use : Use κ υ) :
    Accords bits (past ++ [(use, (c.step use).1)]) (c.step use).2 := by
  obtain rfl := h.bits_eq
  obtain ⟨hnodup, hlt⟩ := slots_step use h.nodup h.slot_lt
  obtain ⟨hhits, hsum⟩ := counters_step c use
  refine ⟨bits_step c use, fun slot key value => ?_, hnodup, hlt, ?_, ?_, ?_⟩
  · rw [List.map_append, List.map_singleton, lastInto_concat, ← h.entry?_eq_some_iff]
    exact entry?_step_eq_some_iff
  · intro before key answer after hpast value
    -- The look-up is the new use, or it was answered before.
    rcases concat_eq_append_cons_iff.1 hpast with ⟨-, rfl, hlast⟩ | ⟨rest, -, rfl⟩
    · obtain ⟨rfl, rfl⟩ := Prod.mk.inj hlast
      rw [fst_step_get]
      exact h.peek?_eq_some_iff
    · exact h.answer_eq_some_iff before key answer rest rfl value
  · rw [hhits, h.hits_eq, List.countP_append, List.countP_singleton]
  · rw [hsum, h.hits_add_misses, List.countP_append, List.countP_singleton]

theorem run (h : Accords bits past c) (uses : List (Use κ υ)) :
    Accords bits (past ++ (c.run uses).1) (c.run uses).2 := by
  induction uses generalizing past c with
  | nil => exact (List.append_nil past).symm ▸ h
  | cons use uses ih =>
    have hrest := ih (h.step use)
    rwa [List.append_assoc] at hrest

end Accords

lemma map_fst_run (c : Cache κ υ) (uses : List (Use κ υ)) :
    (c.run uses).1.map Prod.fst = uses := by
  induction uses generalizing c with
  | nil => rfl
  | cons use uses ih => exact congrArg (use :: ·) (ih _)

/-- A memo table with at most `2 ^ 31` slots is used in any way.  Each look-up gives a value exactly
if the last insertion into the key's slot since the table was last cleared was that of the key with
this value.  Keys and entries belong in slots that exist.  Every look-up is counted once, as a hit
if it gave a value, and clearing the table leaves the counters alone. -/
theorem lookups_give_last_insertion (hbits : bits ≤ 31) (uses : List (Use κ υ)) :
    ∃ (c last : Cache κ υ) (transcript : List (Use κ υ × Option υ)),
      make bits = .ok c ∧ c.run uses = (transcript, last) ∧ transcript.map Prod.fst = uses ∧
      (∀ before key answer after, transcript = before ++ (.get key, answer) :: after →
        ∀ value, answer = some value ↔
          LastInto bits (before.map Prod.fst) ((hash key).toNat % 2 ^ bits) key value) ∧
      (∀ key, last.slotOf key = (hash key &&& (2 ^ bits - 1).toUInt64).toNat ∧
        last.slotOf key < 2 ^ bits) ∧
      (last.slots.map Prod.fst).Nodup ∧ (∀ entry ∈ last.slots, entry.1 < 2 ^ bits) ∧
      last.hits + last.misses = uses.countP Use.isGet ∧
      last.hits = transcript.countP (fun x => x.1.isGet && x.2.isSome) ∧
      last.clear.hits = last.hits ∧ last.clear.misses = last.misses := by
  have h : Accords bits (((empty bits : Cache κ υ).run uses).1)
      ((empty bits : Cache κ υ).run uses).2 := (Accords.empty bits).run uses
  have huses := map_fst_run (empty bits : Cache κ υ) uses
  have hgets : (((empty bits : Cache κ υ).run uses).1.countP fun x => x.1.isGet) =
      uses.countP Use.isGet := by
    conv_rhs => rw [← huses, List.countP_map]
    rfl
  exact ⟨empty bits, _, _, if_pos hbits, rfl, huses, h.answer_eq_some_iff, h.slotOf_eq hbits,
    h.nodup, h.slot_lt, h.hits_add_misses.trans hgets, h.hits_eq, rfl, rfl⟩

/-- A key whose hash wraps, a key with the same hash, and one that belongs in another slot. -/
def collidingUses : List (Use TripleKey Nat) :=
  [.insert ⟨4294967295, 4294967295, 5⟩ 1, .get ⟨4294967295, 4294967295, 5⟩, .get ⟨0, 1, 2⟩,
    .insert ⟨0, 1, 2⟩ 2, .get ⟨4294967295, 4294967295, 5⟩, .insert ⟨0, 0, 0⟩ 3, .get ⟨0, 1, 2⟩,
    .clear, .get ⟨0, 1, 2⟩]

/-- What is answered to them. -/
def collidingAnswers : List (Option Nat) :=
  [none, some 1, none, none, none, none, some 2, none, none]

/-- The second key evicts the first one, the third one evicts nothing, and in the end the table is
empty. -/
theorem lookups_give_last_insertion_colliding :
    3 ≤ 31 ∧ ∃ (c last : Cache TripleKey Nat) (transcript : List (Use TripleKey Nat × Option Nat)),
      make 3 = .ok c ∧ c.run collidingUses = (transcript, last) ∧
      transcript.map Prod.snd = collidingAnswers ∧
      LastInto 3 (collidingUses.take 6) 5 ⟨0, 1, 2⟩ 2 ∧
      (∀ value, ¬ LastInto 3 (collidingUses.take 4) 5 ⟨4294967295, 4294967295, 5⟩ value) ∧
      last.hits + last.misses = 5 ∧ last.hits = 2 := by
  obtain ⟨c, last, transcript, hmake, hrun, -, hanswers, -, -, -, hsum, hhits, -⟩ :=
    lookups_give_last_insertion (by decide : 3 ≤ 31) collidingUses
  obtain rfl : empty 3 = c := Except.ok.inj hmake
  have htranscript : ((empty 3 : Cache TripleKey Nat).run collidingUses).1 =
      collidingUses.zip collidingAnswers := by
    decide +kernel
  rw [hrun] at htranscript
  subst htranscript
  have hfirst : (hash (⟨4294967295, 4294967295, 5⟩ : TripleKey)).toNat % 2 ^ 3 = 5 := by
    decide +kernel
  have hsecond : (hash (⟨0, 1, 2⟩ : TripleKey)).toNat % 2 ^ 3 = 5 := by decide +kernel
  have hfound := hanswers ((collidingUses.zip collidingAnswers).take 6) ⟨0, 1, 2⟩ (some 2)
    ((collidingUses.zip collidingAnswers).drop 7) rfl 2
  have hmissed := hanswers ((collidingUses.zip collidingAnswers).take 4)
    ⟨4294967295, 4294967295, 5⟩ none ((collidingUses.zip collidingAnswers).drop 5) rfl
  rw [hsecond] at hfound
  rw [hfirst] at hmissed
  refine ⟨by decide, _, last, _, hmake, hrun, rfl, hfound.1 rfl, fun value hlast => ?_, hsum, hhits⟩
  exact absurd ((hmissed value).2 hlast) (Option.some_ne_none value).symm

end Cache

end HeapQual
