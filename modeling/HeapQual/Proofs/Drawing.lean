import HeapQual.Proofs.Printing
import HeapQual.Proofs.Session.Invariants
import Mathlib.Algebra.BigOperators.Group.Finset.Piecewise
import Mathlib.Algebra.Order.BigOperators.Group.Finset

/-!
# What a picture shows

A picture of the store graph shows the classes of the stores that were asked for, or all classes,
and all that they depend on: with an operator its operands, and with the right side of a subset edge
the left side (`Dot.Drawn`).  The stores are found by a walk that looks at a limited number of
entries of its stack.  The limit is never reached, because an entry is put on the stack at most
once for each operand of a class and for each edge into it (`Dot.pending`).

There is a picture if everything exists that is asked for and that the stores to be shown name, and
only then (`Dot.exists_lines_iff`).  It then declares each of these stores once, shows each of their
operands and each edge into them, and mentions no other store (`Dot.depicts_of_lines`).
-/

namespace HeapQual

namespace Dot

variable {τ : Type} {t : Stores τ}

/-! ## The walk to the stores that are drawn -/

/-- How many entries can still be put on the stack. -/
def pending (t : Stores τ) (seen : List Nat) : Nat :=
  ∑ i ∈ (Finset.range t.size).filter (· ∉ seen), (dependencies t i).length

/-- Seeing a store uses up the entries that it puts on the stack. -/
lemma pending_cons {i : Nat} {seen : List Nat} (hi : i < t.size) (hnew : i ∉ seen) :
    (dependencies t i).length + pending t (i :: seen) = pending t seen := by
  have hmem : i ∈ (Finset.range t.size).filter (· ∉ seen) :=
    Finset.mem_filter.2 ⟨Finset.mem_range.2 hi, hnew⟩
  have herase : (Finset.range t.size).filter (· ∉ i :: seen) =
      ((Finset.range t.size).filter (· ∉ seen)).erase i := by
    ext j
    simp only [Finset.mem_filter, Finset.mem_erase, List.mem_cons, not_or]
    exact and_left_comm
  rw [pending, herase]
  exact Finset.add_sum_erase _ (fun j => (dependencies t j).length) hmem

/-- Each entry of a list is counted at one number at most. -/
lemma sum_length_filter_le {α : Type} (f : α → Nat) (l : List α) (n : Nat) :
    ∑ i ∈ Finset.range n, (l.filter fun a => decide (f a = i)).length ≤ l.length := by
  induction l with
  | nil => simp
  | cons a l ih =>
    have hsplit (i : Nat) : ((a :: l).filter fun a => decide (f a = i)).length =
        (if f a = i then 1 else 0) + (l.filter fun a => decide (f a = i)).length := by
      by_cases h : f a = i
      · rw [List.filter_cons_of_pos (by simpa using h), if_pos h, List.length_cons, Nat.add_comm]
      · rw [List.filter_cons_of_neg (by simpa using h), if_neg h, Nat.zero_add]
    have hone : ∑ i ∈ Finset.range n, (if f a = i then 1 else 0) ≤ 1 := by
      rw [Finset.sum_ite_eq]
      split <;> decide
    simp only [hsplit, Finset.sum_add_distrib, List.length_cons]
    omega

/-- At the start no more entries can follow than the walk allows for. -/
lemma pending_nil_le (t : Stores τ) : pending t [] ≤ 2 * t.size + t.edges.size := by
  have hoperands : ∑ i ∈ Finset.range t.size, (t.nodeAt i).operands.length ≤ 2 * t.size := by
    calc ∑ i ∈ Finset.range t.size, (t.nodeAt i).operands.length
        ≤ ∑ _i ∈ Finset.range t.size, 2 := by
          refine Finset.sum_le_sum fun i _ => ?_
          cases t.nodeAt i <;> simp [StoreNode.operands]
      _ = 2 * t.size := by simp [Nat.mul_comm]
  have hedges : ∑ i ∈ Finset.range t.size, (t.edgesInto i).length ≤ t.edges.size := by
    have hsum := sum_length_filter_le (fun p : FlowEdge × Nat => t.root p.1.right) t.numberedEdges
      t.size
    rwa [Stores.numberedEdges, List.length_zipIdx, Array.length_toList] at hsum
  have hall : (Finset.range t.size).filter (· ∉ ([] : List Nat)) = Finset.range t.size := by simp
  simp only [pending, dependencies, hall, List.length_append, List.length_map,
    Finset.sum_add_distrib]
  exact Nat.add_le_add hoperands hedges

/-- What was seen and what is on the stack is found, and with each store that was not seen before
all that it depends on. -/
structure Completes (t : Stores τ) (stack : List StoreId) (seen found : List Nat) : Prop where
  seen_subset : ∀ i ∈ seen, i ∈ found
  stack_mem : ∀ x ∈ stack, x.index < t.size ∧ t.root x ∈ found
  closed : ∀ i ∈ found, i ∈ seen ∨ ∀ x ∈ dependencies t i, x.index < t.size ∧ t.root x ∈ found

variable {fuel : Nat} {stack : List StoreId} {seen found : List Nat} {P : Nat → Prop}

lemma Completes.nil (t : Stores τ) (seen : List Nat) : Completes t [] seen seen :=
  ⟨fun _ h => h, fun _ h => absurd h List.not_mem_nil, fun _ h => Or.inl h⟩

/-- A walk that may look at all entries to come leaves nothing out. -/
lemma ancestorsFrom_completes (ht : t.Sound) (hfuel : stack.length + pending t seen ≤ fuel)
    (h : ancestorsFrom t fuel stack seen = .ok found) : Completes t stack seen found := by
  induction fuel generalizing stack seen with
  | zero =>
    obtain rfl : stack = [] := List.length_eq_zero_iff.1 (by omega)
    cases h
    exact .nil t _
  | succ fuel ih =>
    cases stack with
    | nil =>
      cases h
      exact .nil t _
    | cons x rest =>
      rw [ancestorsFrom] at h
      obtain ⟨root, hfind, h⟩ := bind_eq_ok_iff.1 h
      obtain ⟨hx, rfl⟩ := Stores.find_eq_ok_iff.1 hfind
      rw [List.length_cons] at hfuel
      by_cases hseen : t.root x ∈ seen
      · rw [if_pos hseen] at h
        obtain ⟨hsub, hrest, hclosed⟩ := ih (by omega) h
        exact ⟨hsub, List.forall_mem_cons.2 ⟨⟨hx, hsub _ hseen⟩, hrest⟩, hclosed⟩
      · rw [if_neg hseen] at h
        -- The entries that are put on the stack were counted as pending.
        have hpending := pending_cons (ht.root_lt hx) hseen
        obtain ⟨hsub, hstack, hclosed⟩ := ih
          (by rw [List.length_append, List.length_reverse]; omega) h
        refine ⟨fun i hi => hsub i (List.mem_cons_of_mem _ hi), List.forall_mem_cons.2
          ⟨⟨hx, hsub _ (List.mem_cons_self ..)⟩, fun y hy => hstack y (List.mem_append_right _ hy)⟩,
          fun i hi => ?_⟩
        rcases hclosed i hi with hi | hi
        · rcases List.mem_cons.1 hi with rfl | hi
          · exact Or.inr fun y hy => hstack y (List.mem_append_left _ (List.mem_reverse.2 hy))
          · exact Or.inl hi
        · exact Or.inr hi

/-- What holds of the stack and is passed on to dependencies holds of all that is found. -/
lemma forall_mem_ancestorsFrom
    (hP : ∀ i, P i → ∀ x ∈ dependencies t i, x.index < t.size → P (t.root x))
    (hstack : ∀ x ∈ stack, x.index < t.size → P (t.root x)) (hseen : ∀ i ∈ seen, P i)
    (h : ancestorsFrom t fuel stack seen = .ok found) : ∀ i ∈ found, P i := by
  induction fuel generalizing stack seen with
  | zero =>
    cases h
    exact hseen
  | succ fuel ih =>
    cases stack with
    | nil =>
      cases h
      exact hseen
    | cons x rest =>
      rw [ancestorsFrom] at h
      obtain ⟨root, hfind, h⟩ := bind_eq_ok_iff.1 h
      obtain ⟨hx, rfl⟩ := Stores.find_eq_ok_iff.1 hfind
      obtain ⟨hroot, hrest⟩ := List.forall_mem_cons.1 hstack
      -- The invariant is on the stack and on what was seen; a new store adds its operands to the
      -- one and itself to the other.
      by_cases hmem : t.root x ∈ seen
      · rw [if_pos hmem] at h
        exact ih hrest hseen h
      · rw [if_neg hmem] at h
        refine ih (fun y hy => ?_) (List.forall_mem_cons.2 ⟨hroot hx, hseen⟩) h
        rcases List.mem_append.1 hy with hy | hy
        · exact hP _ (hroot hx) y (List.mem_reverse.1 hy)
        · exact hrest y hy

/-- If what is on the stack exists, and so does what it depends on, the walk does not fail. -/
lemma exists_ancestorsFrom
    (hP : ∀ i, P i → ∀ x ∈ dependencies t i, x.index < t.size ∧ P (t.root x))
    (fuel : Nat) (hstack : ∀ x ∈ stack, x.index < t.size ∧ P (t.root x)) (seen : List Nat) :
    ∃ found, ancestorsFrom t fuel stack seen = .ok found := by
  induction fuel generalizing stack seen with
  | zero => exact ⟨seen, rfl⟩
  | succ fuel ih =>
    cases stack with
    | nil => exact ⟨seen, rfl⟩
    | cons x rest =>
      obtain ⟨⟨hx, hroot⟩, hrest⟩ := List.forall_mem_cons.1 hstack
      simp only [ancestorsFrom, bind_eq_ok_iff]
      by_cases hmem : t.root x ∈ seen
      · obtain ⟨found, hfound⟩ := ih hrest seen
        exact ⟨found, _, Stores.find_eq_ok_iff.2 ⟨hx, rfl⟩, (if_pos hmem).trans hfound⟩
      · have hpushed : ∀ y ∈ (dependencies t (t.root x)).reverse ++ rest,
            y.index < t.size ∧ P (t.root y) := by
          intro y hy
          rcases List.mem_append.1 hy with hy | hy
          · exact hP _ hroot y (List.mem_reverse.1 hy)
          · exact hrest y hy
        obtain ⟨found, hfound⟩ := ih hpushed (t.root x :: seen)
        exact ⟨found, _, Stores.find_eq_ok_iff.2 ⟨hx, rfl⟩, (if_neg hmem).trans hfound⟩

/-! ## The stores that are drawn -/

/-- The class with this root is shown. -/
inductive Drawn (g : Graph τ) (roots : List StoreId) : Nat → Prop
  | all {i : Nat} : roots = [] → i ∈ g.stores.classes.roots → Drawn g roots i
  | root {x : StoreId} : x ∈ roots → Drawn g roots (g.stores.root x)
  | operand {i : Nat} {x : StoreId} : Drawn g roots i → x ∈ (g.stores.nodeAt i).operands →
      Drawn g roots (g.stores.root x)
  | left {edge : FlowEdge} : edge ∈ g.stores.edges → Drawn g roots (g.stores.root edge.right) →
      Drawn g roots (g.stores.root edge.left)

variable {g : Graph τ} {roots : List StoreId} {nodes : List Nat}

lemma mem_dependencies {i : Nat} {x : StoreId} : x ∈ dependencies t i ↔
    x ∈ (t.nodeAt i).operands ∨ ∃ edge ∈ t.edges, t.root edge.right = i ∧ edge.left = x := by
  rw [dependencies, List.mem_append, List.mem_map]
  refine or_congr_right ⟨?_, ?_⟩
  · rintro ⟨⟨edge, number⟩, hedge, rfl⟩
    obtain ⟨hedge, hright⟩ := Stores.mem_edgesInto.1 hedge
    exact ⟨edge, Array.mem_of_getElem? hedge, hright, rfl⟩
  · rintro ⟨edge, hedge, hright, rfl⟩
    obtain ⟨number, hnumber⟩ := Array.getElem?_of_mem hedge
    exact ⟨(edge, number), Stores.mem_edgesInto.2 ⟨hnumber, hright⟩, rfl⟩

lemma Drawn.dependency {i : Nat} {x : StoreId} (h : Drawn g roots i)
    (hx : x ∈ dependencies g.stores i) : Drawn g roots (g.stores.root x) := by
  rcases mem_dependencies.1 hx with hx | ⟨edge, hedge, rfl, rfl⟩
  · exact h.operand hx
  · exact .left hedge h

/-- There is something to be shown under each name: the stores that are given exist, and so does
everything that the stores to be shown name. -/
structure Drawable (g : Graph τ) (roots : List StoreId) : Prop where
  root_lt : ∀ x ∈ roots, x.index < g.stores.size
  namedAt : ∀ i, Drawn g roots i → g.NamedAt i

lemma drawn_of_ne_nil (hne : roots ≠ []) : drawn g.stores roots = .ok nodes ↔
    ∃ found, ancestorsFrom g.stores (pushes g.stores roots + 1) roots.reverse [] = .ok found ∧
      (List.range g.stores.size).filter (fun i => decide (i ∈ found)) = nodes := by
  unfold drawn
  rw [if_neg (by simpa using hne), bind_eq_ok_iff]
  simp [pure, Except.pure]

/-- Stores are drawn in ascending order. -/
lemma pairwise_drawn (h : drawn g.stores roots = .ok nodes) : nodes.Pairwise (· < ·) := by
  by_cases hne : roots = []
  · subst hne
    cases h
    exact List.pairwise_lt_range.filter _
  · obtain ⟨found, -, rfl⟩ := (drawn_of_ne_nil hne).1 h
    exact List.pairwise_lt_range.filter _

/-- Only what is to be shown is drawn. -/
lemma drawn_of_mem {i : Nat} (h : drawn g.stores roots = .ok nodes) (hi : i ∈ nodes) :
    Drawn g roots i := by
  by_cases hne : roots = []
  · subst hne
    cases h
    exact .all rfl hi
  · obtain ⟨found, hfound, rfl⟩ := (drawn_of_ne_nil hne).1 h
    have hmem : i ∈ found := of_decide_eq_true (List.mem_filter.1 hi).2
    exact forall_mem_ancestorsFrom (P := Drawn g roots) (fun j hj x hx _ => hj.dependency hx)
      (fun x hx _ => .root (List.mem_reverse.1 hx)) (fun j hj => absurd hj List.not_mem_nil)
      hfound i hmem

/-- What is drawn are roots. -/
lemma mem_roots_of_drawn {i : Nat} (hg : g.Sound) (h : drawn g.stores roots = .ok nodes)
    (hi : i ∈ nodes) : i ∈ g.stores.classes.roots := by
  by_cases hne : roots = []
  · subst hne
    cases h
    exact hi
  · obtain ⟨found, hfound, rfl⟩ := (drawn_of_ne_nil hne).1 h
    have hmem : i ∈ found := of_decide_eq_true (List.mem_filter.1 hi).2
    exact forall_mem_ancestorsFrom (P := (· ∈ g.stores.classes.roots))
      (fun _ _ x _ hx => hg.stores.root_mem_roots hx) (fun x _ hx => hg.stores.root_mem_roots hx)
      (fun j hj => absurd hj List.not_mem_nil) hfound i hmem

lemma exists_drawn (h : Drawable g roots) (hg : g.Sound) :
    ∃ nodes, drawn g.stores roots = .ok nodes := by
  by_cases hne : roots = []
  · subst hne
    exact ⟨_, rfl⟩
  · have hP : ∀ i, Drawn g roots i → ∀ x ∈ dependencies g.stores i,
        x.index < g.stores.size ∧ Drawn g roots (g.stores.root x) := by
      intro i hi x hx
      refine ⟨?_, hi.dependency hx⟩
      rcases mem_dependencies.1 hx with hx | ⟨edge, hedge, -, rfl⟩
      · exact (h.namedAt i hi).operand_lt x hx
      · exact (hg.stores.edge_lt edge hedge).1
    obtain ⟨found, hfound⟩ := exists_ancestorsFrom hP (pushes g.stores roots + 1)
      (fun x hx => ⟨h.root_lt x (List.mem_reverse.1 hx), .root (List.mem_reverse.1 hx)⟩) []
    exact ⟨_, (drawn_of_ne_nil hne).2 ⟨found, hfound, rfl⟩⟩

/-- The stores that were given exist, and all that is to be shown is drawn, if what is drawn names
only stores that exist. -/
lemma mem_of_drawn (hg : g.Sound) (h : drawn g.stores roots = .ok nodes)
    (hnamed : ∀ i ∈ nodes, g.NamedAt i) :
    (∀ x ∈ roots, x.index < g.stores.size) ∧ ∀ i, Drawn g roots i → i ∈ nodes := by
  by_cases hne : roots = []
  · subst hne
    cases h
    refine ⟨fun x hx => absurd hx List.not_mem_nil, fun i hi => ?_⟩
    induction hi with
    | all _ hi => exact hi
    | root hx => exact absurd hx List.not_mem_nil
    | operand _ hx ih => exact hg.stores.root_mem_roots ((hnamed _ ih).operand_lt _ hx)
    | left hedge _ _ => exact hg.stores.root_mem_roots (hg.stores.edge_lt _ hedge).1
  · obtain ⟨found, hfound, rfl⟩ := (drawn_of_ne_nil hne).1 h
    have hfuel : roots.reverse.length + pending g.stores [] ≤ pushes g.stores roots + 1 := by
      have hpending := pending_nil_le g.stores
      rw [List.length_reverse, pushes]
      omega
    -- The fuel covers every push, so the search ends with an empty stack, and what it has found is
    -- closed under dependencies.
    have hcompletes := ancestorsFrom_completes hg.stores hfuel hfound
    have hlt : ∀ i ∈ found, i < g.stores.size :=
      forall_mem_ancestorsFrom (P := (· < g.stores.size))
        (fun _ _ x _ hx => hg.stores.root_lt hx) (fun x _ hx => hg.stores.root_lt hx)
        (fun i hi => absurd hi List.not_mem_nil) hfound
    have hclosed : ∀ i ∈ found, ∀ x ∈ dependencies g.stores i, g.stores.root x ∈ found :=
      fun i hi x hx => (((hcompletes.closed i hi).resolve_left List.not_mem_nil) x hx).2
    refine ⟨fun x hx => (hcompletes.stack_mem x (List.mem_reverse.2 hx)).1, fun i hi => ?_⟩
    have hmem : i ∈ found := by
      induction hi with
      | all heq _ => exact absurd heq hne
      | root hx => exact (hcompletes.stack_mem _ (List.mem_reverse.2 hx)).2
      | operand _ hx ih => exact hclosed _ ih _ (mem_dependencies.2 (Or.inl hx))
      | left hedge _ ih => exact hclosed _ ih _ (mem_dependencies.2 (Or.inr ⟨_, hedge, rfl, rfl⟩))
    exact List.mem_filter.2 ⟨List.mem_range.2 (hlt i hmem), decide_eq_true hmem⟩

/-! ## The lines -/

/-- The store that a line declares. -/
def Line.declared? : Line → Option Nat
  | node i _ _ => some i
  | _ => none

/-- The operator and the operand that a line joins. -/
def Line.operand? : Line → Option (Nat × Nat)
  | operand i j _ => some (i, j)
  | _ => none

/-- The right and the left side of the edge that a line shows, and its label. -/
def Line.edge? : Line → Option (Nat × Nat × Option String)
  | edge right left _ label => some (right, left, label)
  | _ => none

/-- The stores that a line mentions. -/
def Line.mentions : Line → List Nat
  | node i _ _ => [i]
  | operand i j _ => [i, j]
  | edge right left _ _ => [right, left]

variable {style : Style} {declarations lines : List Line} {line : Line} {i : Nat}

lemma exists_joined_iff {pieces : List (Except Fault String)} :
    (∃ text, joined pieces = .ok text) ↔ Printable pieces := by
  have hmapM : (∃ texts, pieces.mapM id = .ok texts) ↔ Printable pieces := exists_mapM_eq_ok_iff
  rw [← hmapM, joined, exists_bind_eq_ok_iff]
  constructor
  · rintro ⟨texts, htexts, -⟩
    exact ⟨texts, htexts⟩
  · rintro ⟨texts, htexts⟩
    exact ⟨texts, htexts, _, rfl⟩

/-- A store can be declared if everything exists that it names, and only then. -/
lemma exists_nodeLine_iff : (∃ line, nodeLine g style i = .ok line) ↔ g.NamedAt i := by
  rw [← Graph.printable_storePieces_iff, ← exists_joined_iff, nodeLine, exists_bind_eq_ok_iff]
  constructor
  · rintro ⟨label, hlabel, -⟩
    exact ⟨label, hlabel⟩
  · rintro ⟨label, hlabel⟩
    exact ⟨label, hlabel, _, rfl⟩

lemma nodeLine_eq_ok (h : nodeLine g style i = .ok line) :
    ∃ shape label, line = .node i shape label := by
  obtain ⟨label, -, h⟩ := bind_eq_ok_iff.1 h
  cases h
  exact ⟨_, label, rfl⟩

/-- The lines from a store to its operands. -/
def operandsOf (g : Graph τ) (style : Style) (i : Nat) : List Line :=
  (g.stores.nodeAt i).operands.map fun x => .operand i (g.stores.root x) style.operandLine

lemma operandLines_eq_ok_iff : operandLines g style i = .ok lines ↔
    (∀ x ∈ (g.stores.nodeAt i).operands, x.index < g.stores.size) ∧
      lines = operandsOf g style i := by
  refine mapM_eq_ok_iff_map fun x line => ?_
  rw [bind_eq_ok_iff]
  constructor
  · rintro ⟨root, hroot, hline⟩
    obtain ⟨hx, rfl⟩ := Stores.find_eq_ok_iff.1 hroot
    exact ⟨hx, (Except.ok.inj hline).symm⟩
  · rintro ⟨hx, rfl⟩
    exact ⟨_, Stores.find_eq_ok_iff.2 ⟨hx, rfl⟩, rfl⟩

/-- The edges into the stores that are drawn. -/
def edgesInto (g : Graph τ) (nodes : List Nat) : List FlowEdge :=
  g.stores.edges.toList.filter fun edge => decide (g.stores.root edge.right ∈ nodes)

/-- The lines declare the stores that are drawn, and then show their operands and edges. -/
lemma lines_eq_ok_iff : Dot.lines g style roots = .ok lines ↔
    ∃ nodes declarations, drawn g.stores roots = .ok nodes ∧
      nodes.mapM (nodeLine g style) = .ok declarations ∧
      (∀ i ∈ nodes, ∀ x ∈ (g.stores.nodeAt i).operands, x.index < g.stores.size) ∧
      lines = declarations ++ nodes.flatMap (operandsOf g style) ++
        (edgesInto g nodes).map (edgeLine g style) := by
  unfold Dot.lines
  simp only [bind_eq_ok_iff, mapM_eq_ok_iff_map fun _ _ => operandLines_eq_ok_iff]
  constructor
  · rintro ⟨nodes, hnodes, declarations, hdeclarations, _, ⟨hexist, rfl⟩, hlines⟩
    cases hlines
    exact ⟨nodes, declarations, hnodes, hdeclarations, hexist, rfl⟩
  · rintro ⟨nodes, declarations, hnodes, hdeclarations, hexist, rfl⟩
    exact ⟨nodes, hnodes, declarations, hdeclarations, _, ⟨hexist, rfl⟩, rfl⟩

/-- There is a picture if everything exists that is asked for or named, and only then. -/
theorem exists_lines_iff (hg : g.Sound) :
    (∃ lines, Dot.lines g style roots = .ok lines) ↔ Drawable g roots := by
  simp only [lines_eq_ok_iff]
  constructor
  · rintro ⟨lines, nodes, declarations, hnodes, hdeclarations, -, -⟩
    have hnamed : ∀ i ∈ nodes, g.NamedAt i := fun i hi =>
      exists_nodeLine_iff.1 (exists_mapM_eq_ok_iff.1 ⟨declarations, hdeclarations⟩ i hi)
    obtain ⟨hroots, hmem⟩ := mem_of_drawn hg hnodes hnamed
    exact ⟨hroots, fun i hi => hnamed i (hmem i hi)⟩
  · intro h
    obtain ⟨nodes, hnodes⟩ := exists_drawn h hg
    have hnamed : ∀ i ∈ nodes, g.NamedAt i := fun i hi => h.namedAt i (drawn_of_mem hnodes hi)
    have hlines : ∀ i ∈ nodes, ∃ line, nodeLine g style i = .ok line := fun i hi =>
      exists_nodeLine_iff.2 (hnamed i hi)
    obtain ⟨declarations, hdeclarations⟩ := exists_mapM_eq_ok_iff.2 hlines
    exact ⟨_, nodes, declarations, hnodes, hdeclarations,
      fun i hi => (hnamed i hi).operand_lt, rfl⟩

/-- The lines show these stores: just what is to be shown, each once, with every operand of theirs
and every edge into them, and no other store. -/
structure Depicts (g : Graph τ) (style : Style) (roots : List StoreId) (nodes : List Nat)
    (lines : List Line) : Prop where
  mem_iff : ∀ i, i ∈ nodes ↔ Drawn g roots i
  ascending : nodes.Pairwise (· < ·)
  declared_eq : lines.filterMap Line.declared? = nodes
  operands_eq : lines.filterMap Line.operand? = nodes.flatMap fun i =>
    (g.stores.nodeAt i).operands.map fun x => (i, g.stores.root x)
  edges_eq : lines.filterMap Line.edge? = (edgesInto g nodes).map fun edge =>
    (g.stores.root edge.right, g.stores.root edge.left,
      if style.labelled then some edge.message else none)
  mentions_mem : ∀ line ∈ lines, ∀ i ∈ line.mentions, i ∈ nodes

/-- Declarations declare their stores and do nothing else. -/
lemma filterMap_declarations (h : nodes.mapM (nodeLine g style) = .ok declarations) :
    declarations.filterMap Line.declared? = nodes ∧ declarations.filterMap Line.operand? = [] ∧
      declarations.filterMap Line.edge? = [] ∧
      ∀ line ∈ declarations, ∀ i ∈ line.mentions, i ∈ nodes := by
  rw [mapM_eq_ok_iff] at h
  induction h with
  | nil => exact ⟨rfl, rfl, rfl, fun line hline => absurd hline List.not_mem_nil⟩
  | @cons i _ nodes _ hline _ ih =>
    obtain ⟨hdeclared, hoperands, hedges, hmentions⟩ := ih
    obtain ⟨shape, label, rfl⟩ := nodeLine_eq_ok hline
    refine ⟨congrArg (i :: ·) hdeclared, hoperands, hedges,
      List.forall_mem_cons.2 ⟨fun j hj => ?_, fun line hline j hj => ?_⟩⟩
    · rw [List.mem_singleton.1 hj]
      exact List.mem_cons_self ..
    · exact List.mem_cons_of_mem _ (hmentions line hline j hj)

/-- Lines to operands show them and do nothing else. -/
lemma filterMap_operandsOf (g : Graph τ) (style : Style) (nodes : List Nat) :
    (nodes.flatMap (operandsOf g style)).filterMap Line.declared? = [] ∧
      (nodes.flatMap (operandsOf g style)).filterMap Line.operand? = (nodes.flatMap fun i =>
        (g.stores.nodeAt i).operands.map fun x => (i, g.stores.root x)) ∧
      (nodes.flatMap (operandsOf g style)).filterMap Line.edge? = [] := by
  simp [operandsOf, List.filterMap_flatMap, List.filterMap_map, Function.comp_def, Line.declared?,
    Line.operand?, Line.edge?]

/-- Lines of edges show them and do nothing else. -/
lemma filterMap_edgeLine (g : Graph τ) (style : Style) (edges : List FlowEdge) :
    (edges.map (edgeLine g style)).filterMap Line.declared? = [] ∧
      (edges.map (edgeLine g style)).filterMap Line.operand? = [] ∧
      (edges.map (edgeLine g style)).filterMap Line.edge? = edges.map fun edge =>
        (g.stores.root edge.right, g.stores.root edge.left,
          if style.labelled then some edge.message else none) := by
  simp [edgeLine, List.filterMap_map, Function.comp_def, Line.declared?, Line.operand?, Line.edge?]

lemma append_labelText (label : String) :
    ", " ++ (labelText label ++ "];\n") = ", label=\"" ++ (escape label ++ "\"];\n") := by
  refine String.toList_injective ?_
  simp [labelText]

namespace Line

lemma text_node (i : Nat) (shape label : String) : (node i shape label).text =
    toString i ++ " [shape=" ++ shape ++ ", label=\"" ++ escape label ++ "\"];\n" := by
  have htext : (node i shape label).text =
      toString i ++ " [shape=" ++ shape ++ ", " ++ labelText label ++ "];\n" := rfl
  simp only [htext, String.append_assoc, append_labelText]

lemma text_operand (i j : Nat) (style : String) :
    (operand i j style).text = toString i ++ " -> " ++ toString j ++ " [style=" ++ style ++
      "];\n" :=
  rfl

lemma text_edge_none (right left : Nat) (style : String) :
    (edge right left style none).text = toString right ++ " -> " ++ toString left ++ " [style=" ++
      style ++ "];\n" :=
  rfl

lemma text_edge_some (right left : Nat) (style label : String) :
    (edge right left style (some label)).text = toString right ++ " -> " ++ toString left ++
      " [style=" ++ style ++ ", label=\"" ++ escape label ++ "\"];\n" := by
  have htext : (edge right left style (some label)).text = toString right ++ " -> " ++
      toString left ++ " [style=" ++ style ++ ", " ++ labelText label ++ "];\n" := rfl
  simp only [htext, String.append_assoc, append_labelText]

end Line

/-- The text of a picture.  It declares each store in a shape under its label, and then has one line
for each operand of each store and one for each edge into them. -/
def written (g : Graph τ) (style : Style) (nodes : List Nat) (labels : List String) : String :=
  "digraph \x7b\nrankdir=BT;\n" ++
    String.join (List.zipWith (fun i label =>
      toString i ++ " [shape=" ++
        (if (g.stores.nodeAt i).isVariable then style.variableShape else style.operatorShape) ++
        ", label=\"" ++ escape label ++ "\"];\n") nodes labels) ++
    String.join (nodes.flatMap fun i => (g.stores.nodeAt i).operands.map fun x =>
      toString i ++ " -> " ++ toString (g.stores.root x) ++ " [style=" ++ style.operandLine ++
        "];\n") ++
    String.join ((edgesInto g nodes).map fun edge =>
      toString (g.stores.root edge.right) ++ " -> " ++ toString (g.stores.root edge.left) ++
        " [style=" ++ style.edgeLine ++
        if style.labelled then ", label=\"" ++ escape edge.message ++ "\"];\n" else "];\n") ++
    "\x7d\n"

/-- Each store is declared under the label that its pieces make. -/
lemma exists_labels (h : nodes.mapM (nodeLine g style) = .ok declarations) :
    ∃ labels, List.Forall₂ (fun i label => joined (g.storePieces i) = .ok label) nodes labels ∧
      declarations.map Line.text = List.zipWith (fun i label =>
        toString i ++ " [shape=" ++
          (if (g.stores.nodeAt i).isVariable then style.variableShape else style.operatorShape) ++
          ", label=\"" ++ escape label ++ "\"];\n") nodes labels := by
  rw [mapM_eq_ok_iff] at h
  induction h with
  | nil => exact ⟨[], .nil, rfl⟩
  | cons hline _ ih =>
    obtain ⟨labels, hlabels, htexts⟩ := ih
    obtain ⟨label, hlabel, hline⟩ := bind_eq_ok_iff.1 hline
    cases hline
    refine ⟨label :: labels, .cons hlabel hlabels, ?_⟩
    rw [List.map_cons, List.zipWith_cons_cons, htexts, Line.text_node]

lemma text_edgeLine (g : Graph τ) (style : Style) (edge : FlowEdge) :
    (edgeLine g style edge).text = toString (g.stores.root edge.right) ++ " -> " ++
      toString (g.stores.root edge.left) ++ " [style=" ++ style.edgeLine ++
      if style.labelled then ", label=\"" ++ escape edge.message ++ "\"];\n" else "];\n" := by
  unfold edgeLine
  split
  · simp only [Line.text_edge_some, String.append_assoc]
  · exact Line.text_edge_none ..

lemma texts_operandsOf (g : Graph τ) (style : Style) (nodes : List Nat) :
    (nodes.flatMap (operandsOf g style)).map Line.text =
      nodes.flatMap fun i => (g.stores.nodeAt i).operands.map fun x =>
        toString i ++ " -> " ++ toString (g.stores.root x) ++ " [style=" ++ style.operandLine ++
          "];\n" := by
  simp only [List.map_flatMap, operandsOf, List.map_map, Function.comp_def, Line.text_operand]

theorem exists_written (h : Dot.lines g style roots = .ok lines)
    (hnodes : drawn g.stores roots = .ok nodes) :
    ∃ labels, List.Forall₂ (fun i label => joined (g.storePieces i) = .ok label) nodes labels ∧
      "digraph \x7b\nrankdir=BT;\n" ++ String.join (lines.map Line.text) ++ "\x7d\n" =
        written g style nodes labels := by
  obtain ⟨nodes', declarations, hnodes', hdeclarations, -, hlines⟩ := lines_eq_ok_iff.1 h
  obtain rfl : nodes = nodes' := Except.ok.inj (hnodes.symm.trans hnodes')
  obtain ⟨labels, hlabels, htexts⟩ := exists_labels hdeclarations
  refine ⟨labels, hlabels, ?_⟩
  rw [hlines, List.map_append, List.map_append, htexts, texts_operandsOf, String.join_append,
    String.join_append, List.map_map]
  unfold written
  simp only [Function.comp_def, text_edgeLine, ← String.append_assoc]

theorem depicts_of_lines (hg : g.Sound) (h : Dot.lines g style roots = .ok lines) :
    ∃ nodes, drawn g.stores roots = .ok nodes ∧ Depicts g style roots nodes lines := by
  obtain ⟨nodes, declarations, hnodes, hdeclarations, -, rfl⟩ := lines_eq_ok_iff.1 h
  have hnamed : ∀ i ∈ nodes, g.NamedAt i := fun i hi =>
    exists_nodeLine_iff.1 (exists_mapM_eq_ok_iff.1 ⟨declarations, hdeclarations⟩ i hi)
  have hmem (i : Nat) : i ∈ nodes ↔ Drawn g roots i :=
    ⟨drawn_of_mem hnodes, (mem_of_drawn hg hnodes hnamed).2 i⟩
  obtain ⟨hdeclared, hoperands, hedges, hmentions⟩ := filterMap_declarations hdeclarations
  obtain ⟨hdeclared', hoperands', hedges'⟩ := filterMap_operandsOf g style nodes
  obtain ⟨hdeclared'', hoperands'', hedges''⟩ := filterMap_edgeLine g style (edgesInto g nodes)
  refine ⟨nodes, hnodes, hmem, pairwise_drawn hnodes, ?_, ?_, ?_, fun line hline i hi => ?_⟩
  · simp only [List.filterMap_append, hdeclared, hdeclared', hdeclared'', List.append_nil]
  · simp only [List.filterMap_append, hoperands, hoperands', hoperands'', List.append_nil,
      List.nil_append]
  · simp only [List.filterMap_append, hedges, hedges', hedges'', List.nil_append]
  · rcases List.mem_append.1 hline with hline | hline
    · rcases List.mem_append.1 hline with hline | hline
      · exact hmentions line hline i hi
      · -- An operand of a store that is shown is shown as well.
        obtain ⟨j, hj, hline⟩ := List.mem_flatMap.1 hline
        obtain ⟨x, hx, rfl⟩ := List.mem_map.1 hline
        rcases List.mem_pair.1 hi with rfl | rfl
        · exact hj
        · exact (hmem _).2 (((hmem j).1 hj).operand hx)
    · obtain ⟨edge, hedge, rfl⟩ := List.mem_map.1 hline
      obtain ⟨hedge, hright⟩ := List.mem_filter.1 hedge
      have hright := of_decide_eq_true hright
      rcases List.mem_pair.1 hi with rfl | rfl
      · exact hright
      · exact (hmem _).2 (.left (Array.mem_toList_iff.1 hedge) ((hmem _).1 hright))

end Dot

/-- If everything exists that is named, every store that exists can be drawn. -/
lemma Graph.Named.exists_render {τ : Type} {g : Graph τ} (hg : g.Named) (hs : g.Sound)
    (style : Dot.Style) {roots : List StoreId} (hroots : ∀ x ∈ roots, x.index < g.stores.size) :
    ∃ picture, Dot.render g style roots = .ok picture := by
  have hdrawable : Dot.Drawable g roots := ⟨hroots, fun i _ => hg.namedAt i⟩
  obtain ⟨lines, hlines⟩ : ∃ lines, Dot.lines g style roots = .ok lines :=
    (Dot.exists_lines_iff hs).2 hdrawable
  exact ⟨_, bind_eq_ok_iff.2 ⟨lines, hlines, rfl⟩⟩

namespace Session

variable {σ τ : Type} [QualifierLattice σ τ] {s : Session σ τ}

/-- A label is what printing the store prints. -/
lemma printStore_of_joined {i : Nat} {label : String} (hi : i ∈ s.graph.stores.classes.roots)
    (hs : s.graph.Sound) (h : Dot.joined (s.graph.storePieces i) = .ok label) :
    s.perform (.printStore ⟨i⟩ none) = .ok (.text label, s) := by
  obtain ⟨hlt, hroot⟩ := (Forest.Sound.mem_roots _).1 hi
  have hfind : s.graph.stores.find ⟨i⟩ = .ok i :=
    Stores.find_eq_ok_iff.2 ⟨hs.stores.size_classes ▸ hlt, hroot⟩
  obtain ⟨texts, htexts, h⟩ := bind_eq_ok_iff.1 h
  cases h
  refine bind_eq_ok_iff.2 ⟨_, ?_, rfl⟩
  rw [Graph.printStore, hfind]
  exact printed_of_mapM htexts

/-- A session can draw stores if everything exists that is asked for or named, and only then.  The
picture shows what the stores depend on, each under the label that printing it prints, and drawing
it changes nothing. -/
theorem draws_dependencies (h : Reachable s) (style : Dot.Style) (roots : List StoreId) :
    ((∃ picture, s.perform (.draw style roots) = .ok (.text picture, s)) ↔
      Dot.Drawable s.graph roots) ∧
    ∀ reply s', s.perform (.draw style roots) = .ok (reply, s') → s' = s ∧
      ∃ (lines : List Dot.Line) (nodes : List Nat) (labels : List String),
        Dot.lines s.graph style roots = .ok lines ∧ Dot.Depicts s.graph style roots nodes lines ∧
        List.Forall₂ (fun i label => s.perform (.printStore ⟨i⟩ none) = .ok (.text label, s))
          nodes labels ∧
        reply = .text (Dot.written s.graph style nodes labels) ∧
        reply = .text ("digraph \x7b\nrankdir=BT;\n" ++ String.join (lines.map Dot.Line.text) ++
          "\x7d\n") := by
  have hg : s.graph.Sound := h.coherent.sound
  refine ⟨?_, fun reply s' hperform => ?_⟩
  · have hdrawable : (∃ lines, Dot.lines s.graph style roots = .ok lines) ↔
        Dot.Drawable s.graph roots := Dot.exists_lines_iff hg
    rw [← hdrawable]
    constructor
    · rintro ⟨picture, hperform⟩
      obtain ⟨_, hrender, -⟩ := bind_eq_ok_iff.1 hperform
      obtain ⟨lines, hlines, -⟩ := bind_eq_ok_iff.1 hrender
      exact ⟨lines, hlines⟩
    · rintro ⟨lines, hlines⟩
      exact ⟨_, bind_eq_ok_iff.2 ⟨_, bind_eq_ok_iff.2 ⟨lines, hlines, rfl⟩, rfl⟩⟩
  · obtain ⟨picture, hrender, hreply⟩ := bind_eq_ok_iff.1 hperform
    obtain ⟨lines, hlines, hpicture⟩ := bind_eq_ok_iff.1 hrender
    cases hpicture
    cases hreply
    obtain ⟨nodes, hnodes, hdepicts⟩ := Dot.depicts_of_lines hg hlines
    obtain ⟨labels, hlabels, hwritten⟩ := Dot.exists_written hlines hnodes
    refine ⟨rfl, lines, nodes, labels, hlines, hdepicts, ?_, congrArg Reply.text hwritten, rfl⟩
    -- What is drawn are roots, so each label is that of the store itself.
    have hroots : ∀ i ∈ nodes, i ∈ s.graph.stores.classes.roots :=
      fun i hi => Dot.mem_roots_of_drawn hg hnodes hi
    exact ((List.forall₂_and_left ..).2 ⟨hroots, hlabels⟩).imp fun i label hboth =>
      printStore_of_joined hboth.1 hg hboth.2

/-- A store is overlaid on itself and later merged into another variable.  The overlay flows into a
cycle, of which one edge is there twice, and one more edge leaves the cycle. -/
def pictureScript : List (Command Int) :=
  [.storeVariable .internal "p", .storeVariable .internal "q", .storeVariable .internal "r",
    .storeVariable .internal "apart", .emptyEffect, .overlay .internal ⟨0⟩ ⟨0⟩ ⟨0⟩,
    .storeVariable .internal "later", .includeStore .internal "in" ⟨4⟩ ⟨1⟩,
    .includeStore .internal "on" ⟨1⟩ ⟨2⟩, .includeStore .internal "back" ⟨2⟩ ⟨1⟩,
    .includeStore .internal "back" ⟨2⟩ ⟨1⟩, .includeStore .internal "out" ⟨2⟩ ⟨3⟩,
    .mergeStores .internal "merged" ⟨5⟩ ⟨0⟩]

/-- The picture of the cycle shows the overlay and the class of both its operands, with two lines
between them, and the double edge twice.  It does not show the edge that leaves the cycle, nor where
that goes. -/
def pictureLines : List Dot.Line :=
  [.node 1 "ellipse" "q", .node 2 "ellipse" "r", .node 4 "box" "ow(later, later, \x7b\x7d)",
    .node 5 "ellipse" "later", .operand 4 5 "dashed", .operand 4 5 "dashed",
    .edge 1 4 "solid" (some "in"), .edge 2 1 "solid" (some "on"), .edge 1 2 "solid" (some "back"),
    .edge 1 2 "solid" (some "back")]

/-- The picture of the cycle as it is written. -/
def pictureText : String :=
  "digraph \x7b\nrankdir=BT;\n1 [shape=ellipse, label=\"q\"];\n2 [shape=ellipse, label=\"r\"];\n" ++
  "4 [shape=box, label=\"ow(later, later, \x7b\x7d)\"];\n5 [shape=ellipse, label=\"later\"];\n" ++
  "4 -> 5 [style=dashed];\n4 -> 5 [style=dashed];\n1 -> 4 [style=solid, label=\"in\"];\n" ++
  "2 -> 1 [style=solid, label=\"on\"];\n1 -> 2 [style=solid, label=\"back\"];\n" ++
  "1 -> 2 [style=solid, label=\"back\"];\n\x7d\n"

/-- The picture is that of the cycle, and a store that does not exist cannot be drawn. -/
theorem draws_dependencies_cycle :
    ∃ (s : Session Level Int) (labels : List String), Reachable s ∧
      s.perform (.draw .labelling [⟨2⟩]) = .ok (.text pictureText, s) ∧
      Dot.Depicts s.graph .labelling [⟨2⟩] [1, 2, 4, 5] pictureLines ∧
      pictureText = Dot.written s.graph .labelling [1, 2, 4, 5] labels ∧
      ¬ ∃ picture, s.perform (.draw .plain [⟨2⟩, ⟨6⟩]) = .ok (.text picture, s) := by
  have hrun : (follow (fun _ _ => True) (start ⟨2, false⟩ Level.mk) pictureScript).any fun s =>
      succeeds (Dot.lines s.graph .labelling [⟨2⟩]) fun lines =>
      succeeds (Dot.render s.graph .labelling [⟨2⟩]) fun picture =>
        List.and [s.graph.stores.size = 6, lines = pictureLines, picture = pictureText] := by
    decide +kernel
  simp only [Option.any_eq_true, succeeds_eq_true, and_decide_cons, List.and_nil, and_true] at hrun
  obtain ⟨s, hs, _, hlines, _, hrender, hsize, rfl, rfl⟩ := hrun
  have h : Reachable s := reachableBy_of_follow hs
  have hperform : s.perform (.draw .labelling [⟨2⟩]) = .ok (.text pictureText, s) :=
    bind_eq_ok_iff.2 ⟨_, hrender, rfl⟩
  obtain ⟨-, lines, nodes, labels, hlines', hdepicts, -, hwritten, -⟩ :=
    (draws_dependencies h .labelling [⟨2⟩]).2 _ _ hperform
  obtain rfl : pictureLines = lines := Except.ok.inj (hlines.symm.trans hlines')
  obtain rfl : [1, 2, 4, 5] = nodes := hdepicts.declared_eq
  refine ⟨s, labels, h, hperform, hdepicts, Reply.text.inj hwritten, fun hdrawn => ?_⟩
  have hlt := ((draws_dependencies h .plain [⟨2⟩, ⟨6⟩]).1.1 hdrawn).root_lt ⟨6⟩ (by simp)
  rw [hsize] at hlt
  exact absurd hlt (by decide)

end Session

end HeapQual
