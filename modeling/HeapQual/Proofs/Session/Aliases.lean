import HeapQual.Proofs.Calls
import HeapQual.Proofs.Session.Classes
import HeapQual.Proofs.Session.Tainting

/-!
# Aliases share what they hold

Locations that were merged answer for one another.  What the table of locations says about a class
is compared with what was done to its members (`Locations.Follows`): each location was given a type
when it was made, some were marked, and merges have equated types.  Making, marking and merging
locations are the only commands that touch the table, and each does to it what it does to the
history.

So the types that two aliases were given are joined by a chain of types that merges have equated,
aliases are found to hold one type, and a location is marked if and only if some location that is
in its class by now was ever marked (`Session.aliased_of_carries`).  A merge equates two types once
if it joins two classes, and does not call the lattice otherwise.
-/

namespace HeapQual

open Relation (EqvGen)

variable {σ τ : Type}

/-! ## What the table says -/

namespace Locations

variable {t : Locations τ}

lemma held?_of_lt {i : Nat} (h : i < t.size) : ∃ q, t.held? i = some q :=
  ⟨_, by rw [held?, record?, Array.getElem?_eq_getElem h, Option.map_some]⟩

lemma lt_of_held? {i : Nat} {q : τ} (h : t.held? i = some q) : i < t.size := by
  by_contra hi
  rw [held?, record?, Array.getElem?_eq_none (not_lt.1 hi)] at h
  cases h

lemma held?_add (t : Locations τ) (name : String) (holds : τ) (i : Nat) :
    (t.add name holds).2.held? i = if i = t.size then some holds else t.held? i := by
  unfold held? record? add
  rw [Array.getElem?_push]
  unfold size
  split <;> rfl

lemma held?_mark (t : Locations τ) (root i : Nat) : (t.mark root).held? i = t.held? i := by
  unfold held? record? mark
  rw [Array.getElem?_modify]
  split
  · rw [Option.map_map]
    rfl
  · rfl

lemma isMarked_add (t : Locations τ) (name : String) (holds : τ) (i : Nat) :
    (t.add name holds).2.isMarked i = t.isMarked i := by
  unfold isMarked record? add
  rw [Array.getElem?_push]
  split
  · rename_i hi
    rw [hi, Array.getElem?_eq_none le_rfl]
    rfl
  · rfl

lemma isMarked_mark {root : Nat} (h : root < t.size) (i : Nat) :
    (t.mark root).isMarked i = (t.isMarked i || decide (i = root)) := by
  unfold isMarked record? mark
  rw [Array.getElem?_modify]
  by_cases hi : root = i
  · subst hi
    rw [if_pos rfl, Array.getElem?_eq_getElem h]
    simp
  · rw [if_neg hi]
    simp [Ne.symm hi]

lemma isMarked_join {survivor : Nat} (h : survivor < t.size) (child i : Nat) :
    (t.join survivor child).isMarked i =
      (t.isMarked i || decide (i = survivor) && t.isMarked child) := by
  unfold join
  generalize t.isMarked child = passed
  unfold isMarked record?
  rw [Array.getElem?_modify]
  by_cases hi : survivor = i
  · subst hi
    rw [if_pos rfl, Array.getElem?_eq_getElem h]
    simp
  · rw [if_neg hi]
    simp [Ne.symm hi]

section Joining

variable (ht : t.Sound) {survivor child : Nat} (hs : survivor ∈ t.classes.roots)
  (hc : child ∈ t.classes.roots) (hne : child ≠ survivor)

include ht hs hc hne

lemma root_join (i : Nat) : (t.join survivor child).classes.root i =
    if t.classes.root i = child then survivor else t.classes.root i :=
  ht.classes.root_hang hc hs hne i

/-- The members of the joined class are those of both classes. -/
lemma root_join_eq_survivor_iff (i : Nat) : (t.join survivor child).classes.root i = survivor ↔
    t.classes.root i = survivor ∨ t.classes.root i = child := by
  rw [root_join ht hs hc hne]
  split <;> simp_all

/-- Other classes keep their members. -/
lemma root_join_eq_root_iff {i : Nat}
    (hi : ¬(t.classes.root i = survivor ∨ t.classes.root i = child)) (j : Nat) :
    (t.join survivor child).classes.root j = t.classes.root i ↔
      t.classes.root j = t.classes.root i := by
  obtain ⟨hsurvivor, hchild⟩ := not_or.1 hi
  rw [root_join ht hs hc hne]
  split
  · rename_i hj
    rw [hj]
    exact iff_of_false (Ne.symm hsurvivor) (Ne.symm hchild)
  · rfl

end Joining

/-- The locations were given these types, these of them were marked, and from the type of each a
chain of linked types leads to the type of its class. -/
structure Follows (types : List τ) (marked : List Nat) (linked : τ → τ → Prop)
    (t : Locations τ) : Prop where
  size_eq : t.size = types.length
  held_eq : ∀ i, t.held? i = types[i]?
  marked_lt : ∀ i ∈ marked, i < t.size
  isMarked_iff : ∀ i < t.size, t.isMarked (t.classes.root i) = true ↔
    ∃ j ∈ marked, t.classes.root j = t.classes.root i
  chained : ∀ i p q, t.held? i = some p → t.held? (t.classes.root i) = some q → EqvGen linked p q

namespace Follows

variable {types : List τ} {marked : List Nat} {linked linked' : τ → τ → Prop}

lemma empty (linked : τ → τ → Prop) : Follows [] [] linked (Locations.empty : Locations τ) where
  size_eq := rfl
  held_eq _ := rfl
  marked_lt _ h := absurd h List.not_mem_nil
  isMarked_iff i hi := absurd hi (Nat.not_lt_zero i)
  chained _ _ _ h := by cases h

/-- More types may be linked. -/
lemma mono (h : Follows types marked linked t) (hsub : ∀ p q, linked p q → linked' p q) :
    Follows types marked linked' t :=
  { h with chained := fun i p q hp hq => (h.chained i p q hp hq).mono hsub }

/-- The history of a table is that of every table that agrees with it in classes, types and
marks. -/
lemma congr {t' : Locations τ} (h : Follows types marked linked t) (hsize : t'.size = t.size)
    (hroot : ∀ i, t'.classes.root i = t.classes.root i) (hheld : ∀ i, t'.held? i = t.held? i)
    (hmarked : ∀ i, t'.isMarked i = t.isMarked i) : Follows types marked linked t' where
  size_eq := hsize.trans h.size_eq
  held_eq i := (hheld i).trans (h.held_eq i)
  marked_lt i hi := (h.marked_lt i hi).trans_eq hsize.symm
  isMarked_iff i hi := by
    simp only [hroot, hmarked]
    exact h.isMarked_iff i (hi.trans_eq hsize)
  chained i p q hp hq := by
    rw [hheld] at hp
    rw [hheld, hroot] at hq
    exact h.chained i p q hp hq

lemma add (h : Follows types marked linked t) (ht : t.Sound) (name : String) (holds : τ) :
    Follows (types ++ [holds]) marked linked (t.add name holds).2 := by
  have hroot : ∀ i, (t.add name holds).2.classes.root i = t.classes.root i :=
    ht.classes.root_add
  have hself : t.classes.root t.size = t.size :=
    Forest.Sound.root_of_size_le ht.size_classes.le
  have hlt : ∀ i < t.size, t.classes.root i < t.size := fun i hi => ht.root_lt (a := ⟨i⟩) hi
  refine ⟨?_, fun i => ?_, fun i hi => ?_, fun i hi => ?_, fun i p q hp hq => ?_⟩
  · rw [Sound.size_add, h.size_eq, List.length_append, List.length_singleton]
  · rw [held?_add, h.held_eq, h.size_eq]
    by_cases hi : i = types.length
    · rw [if_pos hi, hi, List.getElem?_concat_length]
    · rw [if_neg hi]
      rcases lt_or_gt_of_ne hi with hi | hi
      · rw [List.getElem?_append_left hi]
      · rw [List.getElem?_eq_none hi.le, List.getElem?_eq_none]
        rwa [List.length_append, List.length_singleton]
  · rw [Sound.size_add]
    exact (h.marked_lt i hi).trans (Nat.lt_succ_self _)
  · simp only [hroot, isMarked_add]
    rw [Sound.size_add] at hi
    rcases Nat.lt_succ_iff_lt_or_eq.1 hi with hi | rfl
    · exact h.isMarked_iff i hi
    · -- The new location is alone in its class and bears no mark.
      rw [hself]
      refine iff_of_false ?_ ?_
      · simp [isMarked, record?, size]
      · rintro ⟨j, hj, heq⟩
        exact (hlt j (h.marked_lt j hj)).ne heq
  · rw [held?_add] at hp hq
    rw [hroot] at hq
    by_cases hi : i = t.size
    · rw [hi, hself, if_pos rfl] at hq
      rw [if_pos hi] at hp
      cases hp
      cases hq
      exact .refl _
    · rw [if_neg hi] at hp
      rw [if_neg (hlt i (lt_of_held? hp)).ne] at hq
      exact h.chained i p q hp hq

lemma mark (h : Follows types marked linked t) (ht : t.Sound) {i : Nat} (hi : i < t.size) :
    Follows types (marked ++ [i]) linked (t.mark (t.classes.root i)) where
  size_eq := (Sound.size_mark t _).trans h.size_eq
  held_eq j := (held?_mark t _ j).trans (h.held_eq j)
  marked_lt j hj := by
    rw [Sound.size_mark]
    rcases List.mem_append.1 hj with hj | hj
    · exact h.marked_lt j hj
    · rwa [List.mem_singleton.1 hj]
  isMarked_iff j hj := by
    rw [Sound.size_mark] at hj
    have hclasses : (t.mark (t.classes.root i)).classes = t.classes := rfl
    have hlt : t.classes.root i < t.size := ht.root_lt (a := ⟨i⟩) hi
    rw [isMarked_mark hlt, hclasses, Bool.or_eq_true, decide_eq_true_iff,
      h.isMarked_iff j hj]
    constructor
    · rintro (⟨k, hk, heq⟩ | heq)
      · exact ⟨k, List.mem_append_left _ hk, heq⟩
      · exact ⟨i, List.mem_append_right _ (List.mem_singleton_self i), heq.symm⟩
    · rintro ⟨k, hk, heq⟩
      rcases List.mem_append.1 hk with hk | hk
      · exact Or.inl ⟨k, hk, heq⟩
      · rw [List.mem_singleton.1 hk] at heq
        exact Or.inr heq.symm
  chained j p q hp hq := by
    rw [held?_mark] at hp hq
    exact h.chained j p q hp hq

lemma join (h : Follows types marked linked t) (ht : t.Sound) {survivor child : Nat}
    (hs : survivor ∈ t.classes.roots) (hc : child ∈ t.classes.roots) (hne : child ≠ survivor)
    (hlink : ∀ p q, t.held? survivor = some p → t.held? child = some q → EqvGen linked p q) :
    Follows types marked linked (t.join survivor child) := by
  obtain ⟨hslt, hsroot⟩ := (Forest.Sound.mem_roots _).1 hs
  obtain ⟨hclt, hcroot⟩ := (Forest.Sound.mem_roots _).1 hc
  rw [ht.size_classes] at hslt hclt
  refine ⟨(Sound.size_join t _ _).trans h.size_eq,
    fun i => (held?_join t _ _ i).trans (h.held_eq i), fun i hi => ?_, fun i hi => ?_,
    fun i p q hp hq => ?_⟩
  · rw [Sound.size_join]
    exact h.marked_lt i hi
  · rw [Sound.size_join] at hi
    have hsurvivor := h.isMarked_iff survivor hslt
    have hchild := h.isMarked_iff child hclt
    rw [hsroot] at hsurvivor
    rw [hcroot] at hchild
    -- A mark of either class is a mark of the joined one, and other classes keep theirs.
    have hmarked := isMarked_join hslt child
    by_cases hjoined : t.classes.root i = survivor ∨ t.classes.root i = child
    · have hmem := root_join_eq_survivor_iff ht hs hc hne
      simp only [(hmem i).2 hjoined, hmarked, hmem, decide_true, Bool.true_and, Bool.or_eq_true,
        hsurvivor, hchild, and_or_left, exists_or]
    · have hmem := root_join_eq_root_iff ht hs hc hne hjoined
      simp only [(hmem i).2 rfl, hmarked, hmem, (not_or.1 hjoined).1, decide_false,
        Bool.false_and, Bool.or_false]
      exact h.isMarked_iff i hi
  · rw [held?_join] at hp hq
    rw [root_join ht hs hc hne] at hq
    split at hq
    · rename_i hi
      obtain ⟨r, hr⟩ := held?_of_lt hclt
      exact (h.chained i p r hp (hi ▸ hr)).trans _ _ _ ((hlink q r hq hr).symm _ _)
    · exact h.chained i p q hp hq

end Follows

end Locations

/-! ## What merges equate -/

/-- Because two locations were merged, the lattice was told both ways that these types are
equal. -/
def Bonds (events : List (Event τ)) (l r : τ) : Prop :=
  ∃ later earlier forth back, calls events =
    later ++ .told .locations r l back :: .told .locations l r forth :: earlier

lemma Bonds.append {events : List (Event τ)} {l r : τ} (h : Bonds events l r)
    (more : List (Event τ)) : Bonds (more ++ events) l r := by
  obtain ⟨later, earlier, forth, back, heq⟩ := h
  refine ⟨calls more ++ later, earlier, forth, back, ?_⟩
  rw [List.append_assoc, ← heq]
  exact List.filter_append ..

lemma Dialogue.Calls.bonds {d d' : Dialogue σ τ} {l r : τ} {forth back : Bool}
    (h : d.Calls [.told .locations r l back, .told .locations l r forth] d') :
    Bonds d'.journal l r :=
  ⟨[], calls d.journal, forth, back, h.calls_eq⟩

namespace Session

variable {s s' : Session σ τ} {position : Position}

section

variable [QualifierLattice σ τ]

lemma calls_equateHeld (s : Session σ τ) (position : Position) (a b : LocationId) (l r : τ) :
    ∃ forth back, s.talk.Calls [.told .locations r l back, .told .locations l r forth]
      (s.equateHeld position a b l r).talk := by
  obtain ⟨forth, back, hequate⟩ := Dialogue.calls_equate s.talk .locations l r
  refine ⟨forth, back, ?_⟩
  unfold equateHeld
  dsimp only
  split
  · exact hequate
  · exact hequate.trans (Dialogue.calls_report _ position _)

/-- Merging two locations of one class shortens paths, and does not call the lattice. -/
lemma mergeLocations_of_same (hs : s.graph.Sound) {a b : LocationId}
    (hsame : s.graph.locations.root a = s.graph.locations.root b)
    (h : s.mergeLocations position a b = .ok s') :
    s'.graph.locations = s.graph.locations.shorten a b ∧ s.talk.Calls [] s'.talk := by
  obtain ⟨_, -, h⟩ := bind_eq_ok_iff.1 h
  obtain ⟨_, -, h⟩ := bind_eq_ok_iff.1 h
  have hgraph : (s.note (.locationsMerged a b)).graph = s.graph := rfl
  simp only [hgraph] at h
  rcases hs.locations.merge_roots a b with ⟨-, hmerge⟩ | ⟨hne, -⟩
  · rw [hmerge] at h
    cases h
    exact ⟨rfl, Dialogue.calls_note ..⟩
  · exact absurd hsame hne

/-- Merging two classes joins their roots, and equates the types that they hold. -/
lemma mergeLocations_of_ne (hs : s.graph.Sound) {a b : LocationId}
    (hne : s.graph.locations.root a ≠ s.graph.locations.root b)
    (h : s.mergeLocations position a b = .ok s') :
    ∃ survivor child l r forth back,
      (survivor = s.graph.locations.root a ∧ child = s.graph.locations.root b ∨
        survivor = s.graph.locations.root b ∧ child = s.graph.locations.root a) ∧
      s'.graph.locations = (s.graph.locations.shorten a b).join survivor child ∧
      s.graph.locations.held? survivor = some l ∧ s.graph.locations.held? child = some r ∧
      s.talk.Calls [.told .locations r l back, .told .locations l r forth] s'.talk := by
  obtain ⟨_, ha, h⟩ := bind_eq_ok_iff.1 h
  obtain ⟨_, hb, h⟩ := bind_eq_ok_iff.1 h
  have hra := hs.locations.root_lt (Locations.find_eq_ok_iff.1 ha).1
  have hrb := hs.locations.root_lt (Locations.find_eq_ok_iff.1 hb).1
  have hgraph : (s.note (.locationsMerged a b)).graph = s.graph := rfl
  simp only [hgraph] at h
  rcases hs.locations.merge_roots a b with ⟨hsame, -⟩ | ⟨-, survivor, child, hmerge, hroots⟩
  · exact absurd hsame hne
  rw [hmerge] at h
  -- The types are looked up in the joined table, where every root still holds its own.
  let joined := (s.graph.locations.shorten a b).join survivor child
  have hheld : ∀ root, joined.held? root = s.graph.locations.held? root :=
    Locations.held?_join (s.graph.locations.shorten a b) survivor child
  obtain ⟨hsurvivor, hchild⟩ :
      survivor < s.graph.locations.size ∧ child < s.graph.locations.size := by
    rcases hroots with ⟨rfl, rfl⟩ | ⟨rfl, rfl⟩
    · exact ⟨hra, hrb⟩
    · exact ⟨hrb, hra⟩
  obtain ⟨l, hl⟩ := Locations.held?_of_lt hsurvivor
  obtain ⟨r, hr⟩ := Locations.held?_of_lt hchild
  dsimp only at h
  rw [show ((s.graph.locations.shorten a b).join survivor child).held? survivor = some l
    from (hheld survivor).trans hl,
    show ((s.graph.locations.shorten a b).join survivor child).held? child = some r
    from (hheld child).trans hr] at h
  cases h
  obtain ⟨forth, back, hcalls⟩ := calls_equateHeld
    { s.note (.locationsMerged a b) with graph := { s.graph with locations := joined } }
    position a b l r
  obtain ⟨talk, htalk, -⟩ := equateHeld_eq
    { s.note (.locationsMerged a b) with graph := { s.graph with locations := joined } }
    position a b l r
  refine ⟨survivor, child, l, r, forth, back, hroots, ?_, hl, hr, ?_⟩
  · rw [graph_forget, htalk]
    rfl
  · exact ((Dialogue.calls_note _ _).trans hcalls).trans (calls_forget _)

end

end Session

/-! ## The history of a session -/

/-- The types that a command gives to new locations. -/
def Command.givenTypes : Command τ → List τ
  | makeLocation _ holds => [holds]
  | _ => []

/-- The locations that a command marks. -/
def Command.markedLocations : Command τ → List Nat
  | markLocation a => [a.index]
  | _ => []

lemma Command.mem_markedLocations {commands : List (Command τ)} {i : Nat} :
    i ∈ commands.flatMap markedLocations ↔ .markLocation ⟨i⟩ ∈ commands := by
  rw [List.mem_flatMap]
  constructor
  · rintro ⟨c, hc, hi⟩
    cases c with
    | markLocation a =>
      rw [List.mem_singleton.1 hi]
      exact hc
    | _ => cases hi
  · intro h
    exact ⟨_, h, List.mem_singleton_self i⟩

namespace Session

variable {s s' : Session σ τ} {position : Position} [QualifierLattice σ τ]

/-- The table of locations tells the history of these types and marks, and of the types that merges
have equated. -/
abbrev Recounts (types : List τ) (marked : List Nat) (s : Session σ τ) : Prop :=
  s.graph.locations.Follows types marked (Bonds s.talk.journal)

variable {types : List τ} {marked : List Nat}

lemma Recounts.mergeLocations (h : s.Recounts types marked) (hs : s.graph.Sound)
    {a b : LocationId} (hmerge : s.mergeLocations position a b = .ok s') :
    s'.Recounts types marked := by
  obtain ⟨⟨ha, hb⟩, -⟩ := mergeLocations_cases hmerge
  obtain ⟨hshort, hroot⟩ := hs.locations.shorten a b
  have hshorten : (s.graph.locations.shorten a b).Follows types marked (Bonds s.talk.journal) :=
    h.congr rfl hroot (fun _ => rfl) fun _ => rfl
  have hmem (x : LocationId) (hx : x.index < s.graph.locations.size) :
      s.graph.locations.root x ∈ (s.graph.locations.shorten a b).classes.roots := by
    rw [Locations.root, ← hroot]
    exact hshort.root_mem_roots hx
  by_cases hsame : s.graph.locations.root a = s.graph.locations.root b
  · obtain ⟨hlocations, events, hjournal, -⟩ := mergeLocations_of_same hs hsame hmerge
    rw [Recounts, hlocations, hjournal]
    exact hshorten.mono fun _ _ hbonds => hbonds.append events
  · obtain ⟨survivor, child, l, r, forth, back, hroots, hlocations, hl, hr, hcalls⟩ :=
      mergeLocations_of_ne hs hsame hmerge
    have hbond := hcalls.bonds
    obtain ⟨events, hjournal, -⟩ := hcalls
    have hlater : (s.graph.locations.shorten a b).Follows types marked
        (Bonds s'.talk.journal) := by
      rw [hjournal]
      exact hshorten.mono fun _ _ hbonds => hbonds.append events
    rw [Recounts, hlocations]
    -- The types that the two roots hold were just equated, so one more link joins the chains of the
    -- two classes.
    have hlink (p q : τ) (hp : s.graph.locations.held? survivor = some p)
        (hq : s.graph.locations.held? child = some q) : EqvGen (Bonds s'.talk.journal) p q := by
      rw [hl] at hp
      rw [hr] at hq
      cases hp
      cases hq
      exact .rel _ _ hbond
    rcases hroots with ⟨rfl, rfl⟩ | ⟨rfl, rfl⟩
    · exact hlater.join hshort (hmem a ha) (hmem b hb) (Ne.symm hsame) hlink
    · exact hlater.join hshort (hmem b hb) (hmem a ha) hsame hlink

/-- A command adds to the history the type that it gives and the location that it marks. -/
lemma Recounts.exec (h : s.Recounts types marked) (hs : s.graph.Sound) {c : Command τ}
    {reply : Reply τ} (hexec : s.exec c = .ok (reply, s')) :
    s'.Recounts (types ++ c.givenTypes) (marked ++ c.markedLocations) := by
  -- Commands that do not concern locations only add to the journal.
  cases hrelocates : c.relocates with
  | false =>
    have hnone : c.givenTypes = [] ∧ c.markedLocations = [] := by
      cases c with
      | makeLocation | markLocation => cases hrelocates
      | _ => exact ⟨rfl, rfl⟩
    obtain ⟨new, ⟨events, hjournal, -⟩, -⟩ := (exec_speaks hs hexec).toSays
    have hedits := exec_edits (P := False) hs False.elim hexec
    rw [hnone.1, hnone.2, List.append_nil, List.append_nil, Recounts,
      (hedits.appends hrelocates).locations_eq, hjournal]
    exact h.mono fun _ _ hbonds => hbonds.append events
  | true =>
    have hperform := perform_eq_ok_of_exec hexec
    cases c with
    | makeLocation name holds =>
      cases hperform
      simp only [Command.markedLocations, List.append_nil]
      exact (h.add hs.locations name holds).mono fun _ _ hbonds => hbonds.append [_]
    | markLocation a =>
      obtain ⟨s₁, hmark, hreply⟩ := bind_eq_ok_iff.1 hperform
      cases hreply
      obtain ⟨root, hfind, hmark⟩ := bind_eq_ok_iff.1 hmark
      cases hmark
      obtain ⟨hlt, rfl⟩ := Locations.find_eq_ok_iff.1 hfind
      simp only [Command.givenTypes, List.append_nil]
      exact h.mark hs.locations hlt
    | mergeLocations position a b =>
      obtain ⟨s₁, hmerge, hreply⟩ := bind_eq_ok_iff.1 hperform
      cases hreply
      simp only [Command.givenTypes, Command.markedLocations, List.append_nil]
      exact h.mergeLocations hs hmerge
    | _ => cases hrelocates

theorem Recounts.carries (h : s.Recounts types marked) (hs : s.graph.Sound)
    {commands : List (Command τ)} (hcarries : Carries commands s s') :
    s'.Recounts (types ++ commands.flatMap Command.givenTypes)
      (marked ++ commands.flatMap Command.markedLocations) := by
  induction commands generalizing s types marked with
  | nil =>
    obtain ⟨lattice, rfl⟩ := hcarries
    rw [List.flatMap_nil, List.flatMap_nil, List.append_nil, List.append_nil]
    exact h
  | cons c commands ih =>
    obtain ⟨lattice, reply, s₁, hexec, hcarries⟩ := hcarries
    have hlattice : (s.withLattice lattice).Recounts types marked := h
    have hstep : Runs (fun _ _ => True) (s.withLattice lattice) s₁ := .exec .refl trivial hexec
    have hsound := (hstep.grows (P := False) hs fun _ _ _ => False.elim).sound
    have hrest := ih (hlattice.exec hs hexec) hsound hcarries
    rwa [List.append_assoc, List.append_assoc, ← List.flatMap_cons, ← List.flatMap_cons] at hrest

/-! ## What aliases share -/

section

omit [QualifierLattice σ τ]

lemma sameLocation_eq_ok_iff {a b : LocationId} {same : Bool} :
    s.sameLocation a b = .ok same ↔
      (a.index < s.graph.locations.size ∧ b.index < s.graph.locations.size) ∧
        (same = true ↔ s.graph.locations.root a = s.graph.locations.root b) := by
  constructor
  · intro h
    obtain ⟨_, hfind, h⟩ := bind_eq_ok_iff.1 h
    obtain ⟨_, hfind', h⟩ := bind_eq_ok_iff.1 h
    obtain ⟨ha, rfl⟩ := Locations.find_eq_ok_iff.1 hfind
    obtain ⟨hb, rfl⟩ := Locations.find_eq_ok_iff.1 hfind'
    cases h
    exact ⟨⟨ha, hb⟩, decide_eq_true_iff⟩
  · rintro ⟨⟨ha, hb⟩, hsame⟩
    rw [sameLocation_of_lt ha hb, Except.ok.injEq, Bool.eq_iff_iff, hsame, decide_eq_true_iff]

end

omit [QualifierLattice σ τ] in
/-- A location that exists has the record of its root. -/
lemma read_of_lt (hs : s.graph.Sound) {a : LocationId} (ha : a.index < s.graph.locations.size) :
    ∃ record, s.graph.locations.read a = .ok record ∧
      s.graph.locations.record? (s.graph.locations.root a) = some record := by
  have hrecord : ∃ record,
      s.graph.locations.record? (s.graph.locations.root a) = some record :=
    ⟨_, Array.getElem?_eq_getElem (hs.locations.root_lt ha)⟩
  obtain ⟨record, hrecord⟩ := hrecord
  refine ⟨record, bind_eq_ok_iff.2 ⟨_, Locations.find_eq_ok_iff.2 ⟨ha, rfl⟩, ?_⟩, hrecord⟩
  rw [hrecord]

lemma heldType_of_lt (hs : s.graph.Sound) {a : LocationId}
    (ha : a.index < s.graph.locations.size) :
    ∃ q, s.perform (.heldType a) = .ok (.type q, s) ∧
      s.graph.locations.held? (s.graph.locations.root a) = some q := by
  obtain ⟨record, hread, hrecord⟩ := read_of_lt hs ha
  refine ⟨record.holds, bind_eq_ok_iff.2 ⟨record, hread, rfl⟩, ?_⟩
  rw [Locations.held?, hrecord, Option.map_some]

lemma isMarked_of_lt (hs : s.graph.Sound) {a : LocationId}
    (ha : a.index < s.graph.locations.size) :
    s.perform (.isMarked a) =
      .ok (.flag (s.graph.locations.isMarked (s.graph.locations.root a)), s) := by
  obtain ⟨record, hread, hrecord⟩ := read_of_lt hs ha
  refine bind_eq_ok_iff.2 ⟨record, hread, ?_⟩
  rw [Locations.isMarked, hrecord, Option.map_some, Option.getD_some]
  rfl

omit [QualifierLattice σ τ] in
/-- The types that two locations of one class were given are both joined to the type of the
class. -/
lemma Recounts.chained_of_root_eq (h : s.Recounts types marked) (hs : s.graph.Sound)
    {a b : LocationId} {p q : τ} (hp : types[a.index]? = some p) (hq : types[b.index]? = some q)
    (hroot : s.graph.locations.root a = s.graph.locations.root b) :
    EqvGen (Bonds s.talk.journal) p q := by
  rw [← h.held_eq] at hp hq
  have ha : a.index < s.graph.locations.size := Locations.lt_of_held? hp
  obtain ⟨r, hr⟩ := Locations.held?_of_lt (hs.locations.root_lt ha)
  have hleft : EqvGen (Bonds s.talk.journal) p r := h.chained a.index p r hp hr
  have hright : EqvGen (Bonds s.talk.journal) q r :=
    h.chained b.index q r hq (hr ▸ congrArg _ hroot.symm)
  exact hleft.trans _ _ _ (hright.symm _ _)

/-- Aliases share the types that they were given, as far as merges have equated them, and what was
marked.  Merging locations equates two types once, or not at all. -/
structure Aliased (commands : List (Command τ)) (s : Session σ τ) : Prop where
  size_eq : s.graph.locations.size = (commands.flatMap Command.givenTypes).length
  /-- The types that aliases were given are joined by a chain of types that merges have equated. -/
  chained : ∀ (a b : LocationId) (p q : τ),
    (commands.flatMap Command.givenTypes)[a.index]? = some p →
    (commands.flatMap Command.givenTypes)[b.index]? = some q →
    s.sameLocation a b = .ok true → EqvGen (Bonds s.talk.journal) p q
  /-- Aliases are found to hold one type, which one of them was given. -/
  heldType : ∀ a b : LocationId, s.sameLocation a b = .ok true → ∃ (c : LocationId) (q : τ),
    s.perform (.heldType a) = .ok (.type q, s) ∧ s.perform (.heldType b) = .ok (.type q, s) ∧
    s.sameLocation a c = .ok true ∧ (commands.flatMap Command.givenTypes)[c.index]? = some q
  /-- A location is found to be marked if it or an alias of it was ever marked. -/
  isMarked : ∀ a : LocationId, a.index < s.graph.locations.size → ∃ answer,
    s.perform (.isMarked a) = .ok (.flag answer, s) ∧
    (answer = true ↔ ∃ b, .markLocation b ∈ commands ∧ s.sameLocation a b = .ok true)
  merge_same : ∀ (position : Position) (a b : LocationId), s.sameLocation a b = .ok true →
    ∃ s', s.perform (.mergeLocations position a b) = .ok (.done, s') ∧ s.talk.Calls [] s'.talk
  /-- Merging two classes equates the types that they are found to hold, and does nothing else to
  the lattice. -/
  merge_distinct : ∀ (position : Position) (a b : LocationId), s.sameLocation a b = .ok false →
    ∃ s' l r forth back, s.perform (.mergeLocations position a b) = .ok (.done, s') ∧
      s.talk.Calls [.told .locations r l back, .told .locations l r forth] s'.talk ∧
      (s.perform (.heldType a) = .ok (.type l, s) ∧ s.perform (.heldType b) = .ok (.type r, s) ∨
        s.perform (.heldType a) = .ok (.type r, s) ∧ s.perform (.heldType b) = .ok (.type l, s))

/-- In every session, aliases share what they hold and what was marked. -/
theorem aliased_of_carries {config : Config} {lattice : σ} {orders : List (List Nat)}
    {commands : List (Command τ)} {s : Session σ τ}
    (h : Carries commands (start config lattice orders) s) : s.Aliased commands := by
  have hs : s.graph.Sound := (ReachableBy.coherent ⟨config, lattice, orders, h.runs⟩).sound
  have hstart : (start config lattice orders).Recounts ([] : List τ) [] := Locations.Follows.empty _
  -- The table recounts the script: which types were given and which locations were marked.
  have hrecounts : s.Recounts (commands.flatMap Command.givenTypes)
      (commands.flatMap Command.markedLocations) := hstart.carries Graph.Sound.start h
  have hheld (a : LocationId) (ha : a.index < s.graph.locations.size) {q : τ}
      (hq : s.graph.locations.held? (s.graph.locations.root a) = some q) :
      s.perform (.heldType a) = .ok (.type q, s) := by
    obtain ⟨q', hperform, hq'⟩ := heldType_of_lt hs ha
    rw [hq] at hq'
    cases hq'
    exact hperform
  refine ⟨hrecounts.size_eq, fun a b p q hp hq hsame => ?_, fun a b hsame => ?_, fun a ha => ?_,
    fun position a b hsame => ?_, fun position a b hsame => ?_⟩
  · exact hrecounts.chained_of_root_eq hs hp hq ((sameLocation_eq_ok_iff.1 hsame).2.1 rfl)
  · obtain ⟨⟨ha, hb⟩, hroot⟩ := sameLocation_eq_ok_iff.1 hsame
    obtain ⟨q, hperform, hq⟩ := heldType_of_lt hs ha
    refine ⟨⟨s.graph.locations.root a⟩, q, hperform, hheld b hb (hroot.1 rfl ▸ hq), ?_, ?_⟩
    · refine sameLocation_eq_ok_iff.2 ⟨⟨ha, hs.locations.root_lt ha⟩, iff_of_true rfl ?_⟩
      exact (hs.locations.classes.root_root a.index).symm
    · rw [← hrecounts.held_eq]
      exact hq
  · refine ⟨_, isMarked_of_lt hs ha, (hrecounts.isMarked_iff a.index ha).trans ⟨?_, ?_⟩⟩
    · rintro ⟨j, hj, hroot⟩
      exact ⟨⟨j⟩, Command.mem_markedLocations.1 hj, sameLocation_eq_ok_iff.2
        ⟨⟨ha, hrecounts.marked_lt j hj⟩, iff_of_true rfl hroot.symm⟩⟩
    · rintro ⟨b, hb, hsame⟩
      refine ⟨b.index, Command.mem_markedLocations.2 hb, ?_⟩
      exact ((sameLocation_eq_ok_iff.1 hsame).2.1 rfl).symm
  · obtain ⟨⟨ha, hb⟩, hroot⟩ := sameLocation_eq_ok_iff.1 hsame
    obtain ⟨s', hmerge⟩ := exists_mergeLocations position ha hb
    exact ⟨s', bind_eq_ok_iff.2 ⟨s', hmerge, rfl⟩,
      (mergeLocations_of_same hs (hroot.1 rfl) hmerge).2⟩
  · obtain ⟨⟨ha, hb⟩, hroot⟩ := sameLocation_eq_ok_iff.1 hsame
    have hne : s.graph.locations.root a ≠ s.graph.locations.root b := fun heq =>
      Bool.false_ne_true (hroot.2 heq)
    obtain ⟨s', hmerge⟩ := exists_mergeLocations position ha hb
    obtain ⟨survivor, child, l, r, forth, back, hroots, -, hl, hr, hcalls⟩ :=
      mergeLocations_of_ne hs hne hmerge
    refine ⟨s', l, r, forth, back, bind_eq_ok_iff.2 ⟨s', hmerge, rfl⟩, hcalls, ?_⟩
    -- Either root may survive, and the types are equated from the survivor's side.
    rcases hroots with ⟨rfl, rfl⟩ | ⟨rfl, rfl⟩
    · exact Or.inl ⟨hheld a ha hl, hheld b hb hr⟩
    · exact Or.inr ⟨hheld a ha hr, hheld b hb hl⟩

/-- Two pairs of locations are merged, and then the pairs, after one location of the first pair was
marked.  Two of the four are merged once more.  A fifth location is marked and a sixth is not. -/
def aliasScript : List (Command Int) :=
  [.makeLocation "a" 10, .makeLocation "b" 20, .makeLocation "c" 30, .makeLocation "d" 40,
    .makeLocation "e" 50, .makeLocation "f" 60, .markLocation ⟨1⟩,
    .mergeLocations .internal ⟨0⟩ ⟨1⟩, .mergeLocations .internal ⟨2⟩ ⟨3⟩,
    .mergeLocations .internal ⟨3⟩ ⟨1⟩, .markLocation ⟨4⟩, .mergeLocations .internal ⟨0⟩ ⟨2⟩]

/-- The types of the first and the fourth location are joined, though they were not equated with
each other.  The mark has passed from the second location to the fourth, and only merging the first
location with one of another class equates types again. -/
theorem aliased_of_carries_merged :
    ∃ s : Session Level Int, Carries aliasScript (start ⟨2, false⟩ Level.mk) s ∧
      s.Aliased aliasScript ∧ s.sameLocation ⟨0⟩ ⟨3⟩ = .ok true ∧
      (tellings s.talk.journal).length = 6 ∧ EqvGen (Bonds s.talk.journal) 10 40 ∧
      s.perform (.heldType ⟨3⟩) = .ok (.type 30, s) ∧
      s.perform (.isMarked ⟨3⟩) = .ok (.flag true, s) ∧
      s.perform (.isMarked ⟨5⟩) = .ok (.flag false, s) ∧
      ∃ s' l r forth back, s.perform (.mergeLocations .internal ⟨0⟩ ⟨5⟩) = .ok (.done, s') ∧
        s.talk.Calls [.told .locations r l back, .told .locations l r forth] s'.talk := by
  have hrun : (follow (fun _ _ => True) (start ⟨2, false⟩ Level.mk) aliasScript).any fun s =>
      List.and [s.sameLocation ⟨0⟩ ⟨3⟩ = .ok true, s.sameLocation ⟨3⟩ ⟨1⟩ = .ok true,
        s.sameLocation ⟨5⟩ ⟨1⟩ = .ok false, s.sameLocation ⟨5⟩ ⟨4⟩ = .ok false,
        s.sameLocation ⟨0⟩ ⟨5⟩ = .ok false, (tellings s.talk.journal).length = 6,
        (s.perform (.heldType ⟨3⟩)).map Prod.fst = .ok (.type 30), s.graph.locations.size = 6] := by
    decide +kernel
  simp only [Option.any_eq_true, and_decide_cons, List.and_nil, and_true] at hrun
  obtain ⟨s, hs, hsame, hmarked, hapart, hapart', hdistinct, htold, htype, hsize⟩ := hrun
  have hcarries := carries_of_follow hs
  have haliased := aliased_of_carries hcarries
  obtain ⟨_, q, -, hheld, -⟩ := haliased.heldType ⟨0⟩ ⟨3⟩ hsame
  rw [hheld] at htype
  cases htype
  obtain ⟨answer, hanswer, hiff⟩ := haliased.isMarked ⟨3⟩ (by rw [hsize]; decide)
  obtain rfl : answer = true :=
    hiff.2 ⟨⟨1⟩, by simp [aliasScript], hmarked⟩
  obtain ⟨answer', hanswer', hiff'⟩ := haliased.isMarked ⟨5⟩ (by rw [hsize]; decide)
  obtain rfl : answer' = false := by
    refine Bool.eq_false_of_not_eq_true fun htrue => ?_
    obtain ⟨b, hb, hsame'⟩ := hiff'.1 htrue
    simp only [aliasScript, List.mem_cons, reduceCtorEq, Command.markLocation.injEq, false_or,
      List.not_mem_nil, or_false] at hb
    rcases hb with rfl | rfl
    · rw [hsame'] at hapart
      cases hapart
    · rw [hsame'] at hapart'
      cases hapart'
  obtain ⟨s', l, r, forth, back, hmerge, hcalls, -⟩ :=
    haliased.merge_distinct .internal ⟨0⟩ ⟨5⟩ hdistinct
  exact ⟨s, hcarries, haliased, hsame, htold,
    haliased.chained ⟨0⟩ ⟨3⟩ 10 40 rfl rfl hsame, hheld, hanswer, hanswer',
    s', l, r, forth, back, hmerge, hcalls⟩

end Session

end HeapQual
