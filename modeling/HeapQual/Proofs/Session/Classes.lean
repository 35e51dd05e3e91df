import HeapQual.Lattice.Level
import HeapQual.Proofs.Session.Merging
import HeapQual.Proofs.Session.Recipes
import HeapQual.Proofs.Session.Reordering

/-!
# Classes are what was merged

Of all commands, three merge: one for locations, one for effect variables and one for store
variables.  Each of them joins the pair that it names (`Session.exec_merges`), and no command joins
anything else, since a command changes the graph by primitive edits only (`Graph.Edits.joins`).

Looking an entry up changes the forest of its table as well: the path to the root is halved
(`Graph.lookUp`).  Nearly every command looks entries up, so runs are considered here in which any
number of look-ups stands before, between and after the commands (`Session.Interleaves`).  In a
session that such a run has brought about, two locations are the same if and only if the merges
among the commands connect them, and likewise for the variables
(`Session.classified_of_interleaves`).
-/

namespace HeapQual

variable {σ τ : Type}

/-- The entries of a table that a list of commands merges. -/
def Command.mergedBy (commands : List (Command τ)) (t : Table) : List (Nat × Nat) :=
  commands.flatMap fun c => c.merged t

lemma Command.mergedBy_concat (commands : List (Command τ)) (c : Command τ) (t : Table) :
    mergedBy (commands ++ [c]) t = mergedBy commands t ++ c.merged t := by
  simp [mergedBy]

/-! ## Look-ups in a graph -/

namespace Graph

variable {g : Graph τ}

/-- The graph with other classes in one of its tables. -/
def withClasses (g : Graph τ) : Table → Forest → Graph τ
  | .locations, classes => { g with locations := { g.locations with classes } }
  | .effects, classes => { g with effects := { g.effects with classes } }
  | .stores, classes => { g with stores := { g.stores with classes } }

/-- Look an entry of a table up: its root, and the graph in which the path to it is halved. -/
def lookUp (g : Graph τ) (t : Table) (i : Nat) : Nat × Graph τ :=
  let (root, classes) := (g.classes t).find i
  (root, g.withClasses t classes)

lemma classes_lookUp (g : Graph τ) (t u : Table) (i : Nat) :
    (g.lookUp t i).2.classes u = if u = t then (g.classes t).halve i else g.classes u := by
  cases t <;> cases u <;> rfl

namespace Sound

variable (hg : g.Sound)

include hg

lemma classes (t : Table) : (g.classes t).Sound := by
  cases t with
  | locations => exact hg.locations.classes
  | effects => exact hg.effects.classes
  | stores => exact hg.stores.classes

/-- A look-up changes no root, neither in its own table nor in another. -/
lemma root_lookUp (t u : Table) (i j : Nat) :
    ((g.lookUp t i).2.classes u).root j = (g.classes u).root j := by
  rw [classes_lookUp]
  split
  · rename_i htable
    rw [htable, (hg.classes t).root_halve]
  · rfl

lemma lookUp (t : Table) (i : Nat) : (g.lookUp t i).2.Sound := by
  have hsound := (hg.classes t).halve i
  have hsize := (hg.classes t).size_halve i
  cases t with
  | locations =>
    exact ⟨⟨hsound, hsize.trans hg.locations.size_classes⟩, hg.effects, hg.stores⟩
  | effects =>
    refine ⟨hg.locations, { hg.effects with
      classes := hsound
      size_classes := hsize.trans hg.effects.size_classes
      merged := hg.effects.merged.halve hg.effects.classes i
      target_not_inter := fun inc hinc => ?_ }, hg.stores⟩
    have hroot := hg.effects.classes.root_halve i inc.target.index
    exact (congrArg (fun root => (g.effects.nodeAt root).isInter) hroot).trans
      (hg.effects.target_not_inter inc hinc)
  | stores =>
    exact ⟨hg.locations, hg.effects, { hg.stores with
      classes := hsound
      size_classes := hsize.trans hg.stores.size_classes
      merged := hg.stores.merged.halve hg.stores.classes i }⟩

lemma ranked_lookUp (h : g.locations.Ranked) (t : Table) (i : Nat) :
    (g.lookUp t i).2.locations.Ranked := by
  cases t with
  | locations => exact hg.locations.ranked_halve h i
  | effects => exact h
  | stores => exact h

end Sound

end Graph

namespace Session

variable {s s' : Session σ τ} {position : Position} {message : String}

/-! ## Commands that merge -/

section

variable (hs : s.graph.Sound)

include hs

lemma root_eq_of_mergeEffects {e₁ e₂ : EffectId} (h : s.mergeEffects e₁ e₂ = .ok s') :
    s'.graph.effects.root e₁ = s'.graph.effects.root e₂ := by
  obtain ⟨r₁, h₁, h⟩ := bind_eq_ok_iff.1 h
  obtain ⟨r₂, h₂, h⟩ := bind_eq_ok_iff.1 h
  obtain ⟨⟨hlt₁, -⟩, rfl⟩ := (findEffectVariable_eq_ok_iff hs).1 h₁
  obtain ⟨⟨hlt₂, -⟩, rfl⟩ := (findEffectVariable_eq_ok_iff hs).1 h₂
  dsimp only at h
  split at h
  · rename_i hsame
    cases h
    exact hsame
  · rename_i hne
    cases h
    rw [graph_forget]
    exact (Forest.Joins.hang hs.effects.classes (hs.effects.root_mem_roots hlt₂)
      (hs.effects.root_mem_roots hlt₁) (Ne.symm hne) (Or.inr ⟨rfl, rfl⟩)).joined
      _ (List.mem_singleton_self (e₁.index, e₂.index))

lemma root_eq_of_mergeStores {x y : StoreId} (h : s.mergeStores position message x y = .ok s') :
    s'.graph.stores.root x = s'.graph.stores.root y := by
  obtain ⟨rx, hx, h⟩ := bind_eq_ok_iff.1 h
  obtain ⟨ry, hy, h⟩ := bind_eq_ok_iff.1 h
  obtain ⟨rfl, hmemx, -⟩ := findStoreVariable_eq_ok hs hx
  obtain ⟨rfl, hmemy, -⟩ := findStoreVariable_eq_ok hs hy
  dsimp only at h
  split at h
  · rename_i hsame
    cases h
    exact hsame
  · rename_i hne
    cases h
    rw [graph_forget]
    exact (Forest.Joins.hang hs.stores.classes hmemy hmemx (Ne.symm hne)
      (Or.inr ⟨rfl, rfl⟩)).joined _ (List.mem_singleton_self (x.index, y.index))

variable [QualifierLattice σ τ]

lemma root_eq_of_mergeLocations {a b : LocationId}
    (h : s.mergeLocations position a b = .ok s') :
    s'.graph.locations.root a = s'.graph.locations.root b := by
  obtain ⟨⟨ha, hb⟩, talk, merged, rfl, hmerged⟩ := mergeLocations_cases h
  have hjoined := (hs.locations.joins_merge ha hb).joined _ (List.mem_singleton_self _)
  rcases hmerged with rfl | rfl
  · exact hjoined
  · rw [graph_forget]
    exact hjoined

theorem exec_merges {c : Command τ} {reply : Reply τ} (h : s.exec c = .ok (reply, s'))
    (t : Table) : ∀ p ∈ c.merged t,
      (s'.graph.classes t).root p.1 = (s'.graph.classes t).root p.2 := by
  have hperform := perform_eq_ok_of_exec h
  intro p hp
  cases t with
  | locations =>
    cases c with
    | mergeLocations position a b =>
      rw [List.mem_singleton.1 hp]
      exact of_bind_session (fun _ => root_eq_of_mergeLocations hs) hperform
    | _ => exact absurd hp List.not_mem_nil
  | effects =>
    cases c with
    | mergeEffects e₁ e₂ =>
      rw [List.mem_singleton.1 hp]
      exact of_bind_session (fun _ => root_eq_of_mergeEffects hs) hperform
    | _ => exact absurd hp List.not_mem_nil
  | stores =>
    cases c with
    | mergeStores position message x y =>
      rw [List.mem_singleton.1 hp]
      exact of_bind_session (fun _ => root_eq_of_mergeStores hs) hperform
    | _ => exact absurd hp List.not_mem_nil

end

/-! ## Look-ups between commands -/

/-- Look an entry of a table up. -/
def lookUp (s : Session σ τ) (t : Table) (i : Nat) : Nat × Session σ τ :=
  let (root, graph) := s.graph.lookUp t i
  (root, { s with graph })

variable [QualifierLattice σ τ]

/-- The commands are carried out in this order, with any look-ups before, between and after them.
In between, the caller may make types of its own. -/
inductive Interleaves (s : Session σ τ) : List (Command τ) → Session σ τ → Prop
  | refl : Interleaves s [] s
  | exec {commands : List (Command τ)} {s' s'' : Session σ τ} {c : Command τ} {reply : Reply τ} :
      Interleaves s commands s' → s'.exec c = .ok (reply, s'') →
      Interleaves s (commands ++ [c]) s''
  | lookUp {commands : List (Command τ)} {s' : Session σ τ} (t : Table) (i : Nat) :
      Interleaves s commands s' → Interleaves s commands (s'.lookUp t i).2
  | withLattice {commands : List (Command τ)} {s' : Session σ τ} (lattice : σ) :
      Interleaves s commands s' → Interleaves s commands (s'.withLattice lattice)

/-- What look-ups and commands keep up. -/
structure Classifying (commands : List (Command τ)) (s : Session σ τ) : Prop where
  sound : s.graph.Sound
  ranked : s.graph.locations.Ranked
  joins : ∀ t, (Graph.start : Graph τ).classes t |>.Joins (Command.mergedBy commands t)
    (s.graph.classes t)
  grown : ∀ t, ∃ steps, (s.graph.classes t).Grown steps

omit [QualifierLattice σ τ] in
lemma Classifying.start (config : Config) (lattice : σ) (orders : List (List Nat)) :
    (start config lattice orders : Session σ τ).Classifying [] where
  sound := Graph.Sound.start
  ranked := .empty
  joins t := .refl (Graph.Sound.start.classes t)
  grown t := by
    cases t with
    | locations => exact ⟨_, .empty⟩
    | effects => exact ⟨_, .add .empty⟩
    | stores => exact ⟨_, .empty⟩

theorem Classifying.exec {commands : List (Command τ)} {c : Command τ} {reply : Reply τ}
    (h : s.Classifying commands) (hexec : s.exec c = .ok (reply, s')) :
    s'.Classifying (commands ++ [c]) := by
  have hedits := exec_edits (P := False) h.sound False.elim hexec
  refine ⟨(hedits.grows h.sound).sound, hedits.ranked h.sound h.ranked, fun t => ?_,
    fun t => hedits.exists_grown (h.grown t)⟩
  rw [Command.mergedBy_concat]
  exact (h.joins t).trans (hedits.joins h.sound t (exec_merges h.sound hexec t))

omit [QualifierLattice σ τ] in
theorem Classifying.lookUp {commands : List (Command τ)} (h : s.Classifying commands) (t : Table)
    (i : Nat) : (s.lookUp t i).2.Classifying commands where
  sound := h.sound.lookUp t i
  ranked := h.sound.ranked_lookUp h.ranked t i
  joins u := by
    have hsame := (h.joins u).trans (Forest.Joins.of_root_eq (h.sound.classes u)
      (h.sound.root_lookUp t u i) fun _ hp => absurd hp List.not_mem_nil)
    rwa [List.append_nil] at hsame
  grown u := by
    obtain ⟨steps, hsteps⟩ := h.grown u
    refine ⟨steps, ?_⟩
    change ((s.graph.lookUp t i).2.classes u).Grown steps
    rw [Graph.classes_lookUp]
    split
    · rename_i htable
      exact htable ▸ hsteps.find i
    · exact hsteps

theorem Interleaves.classifying {config : Config} {lattice : σ} {orders : List (List Nat)}
    {commands : List (Command τ)}
    (h : Interleaves (Session.start config lattice orders) commands s) :
    s.Classifying commands := by
  induction h with
  | refl => exact .start config lattice orders
  | exec _ hexec ih => exact ih.exec hexec
  | lookUp t i _ ih => exact ih.lookUp t i
  | withLattice lattice _ ih => exact ⟨ih.sound, ih.ranked, ih.joins, ih.grown⟩

/-! ## Sessions from the start -/

omit [QualifierLattice σ τ] in
lemma sameLocation_of_lt {a b : LocationId} (ha : a.index < s.graph.locations.size)
    (hb : b.index < s.graph.locations.size) :
    s.sameLocation a b =
      .ok (decide (s.graph.locations.root a = s.graph.locations.root b)) :=
  bind_eq_ok_iff.2 ⟨_, Locations.find_eq_ok_iff.2 ⟨ha, rfl⟩,
    bind_eq_ok_iff.2 ⟨_, Locations.find_eq_ok_iff.2 ⟨hb, rfl⟩, rfl⟩⟩

lemma locationClass_of_lt {a : LocationId} (ha : a.index < s.graph.locations.size) :
    s.perform (.locationClass a) = .ok (.number (s.graph.locations.root a), s) :=
  bind_eq_ok_iff.2 ⟨_, Locations.find_eq_ok_iff.2 ⟨ha, rfl⟩, rfl⟩

/-- The session has the classes that these commands merged, tells them apart by its answers, and has
ranks that fit into eight bits. -/
structure Classified (commands : List (Command τ)) (s : Session σ τ) : Prop where
  classes : ∀ t, (s.graph.classes t).Reflects (Command.mergedBy commands t)
  /-- A look-up ends at the root, and changes no class of any table. -/
  lookUp : ∀ t i, (s.graph.classes t).Finds i (s.lookUp t i).1 ((s.lookUp t i).2.graph.classes t) ∧
    ∀ u, ((s.lookUp t i).2.graph.classes u).Sound ∧
      ∀ j, ((s.lookUp t i).2.graph.classes u).root j = (s.graph.classes u).root j
  /-- Locations are found to be the same, and to be of one class, if they are connected. -/
  sameLocation : ∀ a b : LocationId, a.index < s.graph.locations.size →
    b.index < s.graph.locations.size → ∃ same classA classB,
      s.sameLocation a b = .ok same ∧ s.perform (.locationClass a) = .ok (.number classA, s) ∧
      s.perform (.locationClass b) = .ok (.number classB, s) ∧
      (same = true ↔ Forest.Connected (Command.mergedBy commands .locations) a.index b.index) ∧
      (same = true ↔ classA = classB)
  knownEqual : ∀ e₁ e₂ : EffectId, Command.Mergeable s.graph e₁ → Command.Mergeable s.graph e₂ →
    ∃ same, s.knownEqual e₁ e₂ = .ok same ∧
      (same = true ↔ Forest.Connected (Command.mergedBy commands .effects) e₁.index e₂.index)
  sameStore : ∀ x y : StoreId, x.index < s.graph.stores.size → y.index < s.graph.stores.size →
    ∃ same, s.sameStore x y = .ok same ∧
      (same = true ↔ Forest.Connected (Command.mergedBy commands .stores) x.index y.index)
  effect_alone : ∀ i, (s.graph.effects.nodeAt i).isVariable = false →
    ∀ j, s.graph.effects.classes.root j = i ↔ j = i
  store_alone : ∀ i, (s.graph.stores.nodeAt i).isVariable = false →
    ∀ j, s.graph.stores.classes.root j = i ↔ j = i
  two_pow_rankOf_le : ∀ root ∈ s.graph.locations.roots,
    2 ^ s.graph.locations.rankOf root ≤ (s.graph.locations.classAt root).card
  rankOf_lt : s.graph.locations.size ≤ 2 ^ 32 → ∀ i, s.graph.locations.rankOf i < 2 ^ 8

/-- At the start every position is alone, the empty effect included. -/
lemma root_start (t : Table) (i : Nat) : ((Graph.start : Graph τ).classes t).root i = i := by
  cases t with
  | locations => rfl
  | effects => exact Forest.Sound.empty.root_add i
  | stores => rfl

/-- However look-ups and commands alternate, locations and variables are in one class if and only
if the commands merged them. -/
theorem classified_of_interleaves {config : Config} {lattice : σ} {orders : List (List Nat)}
    {commands : List (Command τ)} {s : Session σ τ}
    (h : Interleaves (start config lattice orders) commands s) : s.Classified commands := by
  obtain ⟨hs, hranked, hjoins, hgrown⟩ := h.classifying
  -- Every table grew from single classes by the merges of the commands and by look-ups, which
  -- change no root.
  have hclasses (t : Table) : (s.graph.classes t).Reflects (Command.mergedBy commands t) := by
    obtain ⟨steps, hsteps⟩ := hgrown t
    exact (hjoins t).reflects (root_start t) hsteps
  refine ⟨hclasses, fun t i => ⟨?_, fun u => ⟨(hs.lookUp t i).classes u, hs.root_lookUp t u i⟩⟩,
    fun a b ha hb => ?_, fun e₁ e₂ h₁ h₂ => ?_, fun x y hx hy => ?_, fun i hi => ?_,
    fun i hi => ?_, fun root hroot => ?_, fun hsize i => ?_⟩
  · change (s.graph.classes t).Finds i _ ((s.graph.lookUp t i).2.classes t)
    rw [Graph.classes_lookUp, if_pos rfl]
    exact (hs.classes t).finds_find i
  · refine ⟨_, s.graph.locations.root a, s.graph.locations.root b, sameLocation_of_lt ha hb,
      locationClass_of_lt ha, locationClass_of_lt hb, ?_, decide_eq_true_iff⟩
    rw [decide_eq_true_iff]
    exact (hclasses .locations).root_eq_iff a.index b.index
  · refine ⟨_, knownEqual_eq_ok_iff.2 ⟨⟨h₁.1, h₂.1⟩, rfl⟩, ?_⟩
    rw [hs.effects.knownEqual_variables_iff ((hs.effects.isVariable_node e₁).trans h₁.2)
      ((hs.effects.isVariable_node e₂).trans h₂.2)]
    exact (hclasses .effects).root_eq_iff e₁.index e₂.index
  · refine ⟨_, sameStore_of_lt hx hy, ?_⟩
    rw [decide_eq_true_iff]
    exact (hclasses .stores).root_eq_iff x.index y.index
  · exact hs.effects.merged.root_eq_iff (by simp [hi])
  · exact hs.stores.merged.root_eq_iff (by simp [hi])
  · obtain ⟨hlt, hself⟩ := (Forest.Sound.mem_roots _).1 hroot
    have hle := hranked root (hs.locations.size_classes ▸ hlt)
    rwa [hself] at hle
  · exact (hranked.rankOf_le hsize i).trans_lt (by decide)

lemma Interleaves.follow {commands more : List (Command τ)} {s₀ : Session σ τ}
    (h : Interleaves s₀ commands s) (hmore : follow (fun _ _ => True) s more = some s') :
    Interleaves s₀ (commands ++ more) s' := by
  induction more generalizing commands s with
  | nil =>
    cases hmore
    rwa [List.append_nil]
  | cons c more ih =>
    obtain ⟨-, reply, s₁, hexec, hmore⟩ := follow_cons_eq_some_iff.1 hmore
    have hrest := ih (h.exec hexec) hmore
    rwa [List.append_assoc] at hrest

/-- Of six locations two pairs are merged, and then the pairs.  Of the effect variables three are
merged one after the other, and so are three store variables. -/
def pairwiseMerges : List (Command Int) :=
  [.makeLocation "a" 0, .makeLocation "b" 0, .makeLocation "c" 0, .makeLocation "d" 0,
    .makeLocation "e" 0, .makeLocation "f" 0, .mergeLocations .internal ⟨0⟩ ⟨1⟩,
    .mergeLocations .internal ⟨2⟩ ⟨3⟩, .mergeLocations .internal ⟨3⟩ ⟨1⟩,
    .effectVariable "v", .effectVariable "w", .effectVariable "u", .effectVariable "t",
    .mergeEffects ⟨2⟩ ⟨1⟩, .mergeEffects ⟨3⟩ ⟨2⟩, .storeVariable .internal "x",
    .storeVariable .internal "y", .storeVariable .internal "z", .storeVariable .internal "o",
    .mergeStores .internal "merged" ⟨1⟩ ⟨0⟩, .mergeStores .internal "merged" ⟨2⟩ ⟨1⟩]

/-- One more location, effect variable and store variable is merged with them. -/
def furtherMerges : List (Command Int) :=
  [.mergeLocations .internal ⟨4⟩ ⟨0⟩, .mergeEffects ⟨4⟩ ⟨1⟩, .mergeStores .internal "late" ⟨3⟩ ⟨0⟩]

/-- In each table a path of two steps is halved, and the root at its end is merged afterwards.  The
sixth location stays apart, and the rank has been raised twice. -/
theorem classified_of_interleaves_halved :
    ∃ s₁ s : Session Level Int, Interleaves (start ⟨2, false⟩ Level.mk) pairwiseMerges s₁ ∧
      (s₁.graph.classes .locations).parent[1]? = some 0 ∧
      (s₁.graph.classes .effects).parent[1]? = some 2 ∧
      (s₁.graph.classes .stores).parent[0]? = some 1 ∧
      Interleaves (start ⟨2, false⟩ Level.mk) (pairwiseMerges ++ furtherMerges) s ∧
      (s.graph.classes .locations).parent[1]? = some 2 ∧
      (s.graph.classes .effects).parent[1]? = some 3 ∧
      (s.graph.classes .stores).parent[0]? = some 2 ∧
      s.Classified (pairwiseMerges ++ furtherMerges) ∧ s.graph.locations.rankOf 2 = 2 ∧
      Forest.Connected (Command.mergedBy (pairwiseMerges ++ furtherMerges) .locations) 1 4 ∧
      ¬ Forest.Connected (Command.mergedBy (pairwiseMerges ++ furtherMerges) .locations) 1 5 ∧
      Forest.Connected (Command.mergedBy (pairwiseMerges ++ furtherMerges) .effects) 1 4 ∧
      Forest.Connected (Command.mergedBy (pairwiseMerges ++ furtherMerges) .stores) 0 3 := by
  have hrun : (follow (fun _ _ => True) (start ⟨2, false⟩ Level.mk) pairwiseMerges).any fun s₁ =>
      (follow (fun _ _ => True)
        (((s₁.lookUp .locations 1).2.lookUp .effects 1).2.lookUp .stores 0).2
        furtherMerges).any fun s => List.and
          [(s₁.graph.classes .locations).parent[1]? = some 0,
            (s₁.graph.classes .effects).parent[1]? = some 2,
            (s₁.graph.classes .stores).parent[0]? = some 1,
            (s.graph.classes .locations).parent[1]? = some 2,
            (s.graph.classes .effects).parent[1]? = some 3,
            (s.graph.classes .stores).parent[0]? = some 2, s.graph.locations.rankOf 2 = 2,
            (s.graph.classes .locations).root 1 = 2, (s.graph.classes .locations).root 4 = 2,
            (s.graph.classes .locations).root 5 = 5, (s.graph.classes .effects).root 1 = 4,
            (s.graph.classes .effects).root 4 = 4, (s.graph.classes .stores).root 0 = 3,
            (s.graph.classes .stores).root 3 = 3] := by
    decide +kernel
  simp only [Option.any_eq_true, and_decide_cons, List.and_nil, and_true] at hrun
  obtain ⟨s₁, hpaired, s, hjoined, hx₁, hv₁, hs₁, hx, hv, hs, hrank, hroot₁, hroot₄, hroot₅,
    hroot₁', hroot₄', hroot₀'', hroot₃''⟩ := hrun
  have h₁ : Interleaves (start ⟨2, false⟩ Level.mk) pairwiseMerges s₁ := .follow .refl hpaired
  have h := (((h₁.lookUp .locations 1).lookUp .effects 1).lookUp .stores 0).follow hjoined
  have hclassified := classified_of_interleaves h
  refine ⟨s₁, s, h₁, hx₁, hv₁, hs₁, h, hx, hv, hs, hclassified, hrank, ?_, ?_, ?_, ?_⟩
  · rw [← (hclassified.classes .locations).root_eq_iff, hroot₁, hroot₄]
  · rw [← (hclassified.classes .locations).root_eq_iff, hroot₁, hroot₅]
    decide
  · rw [← (hclassified.classes .effects).root_eq_iff, hroot₁', hroot₄']
  · rw [← (hclassified.classes .stores).root_eq_iff, hroot₀'', hroot₃'']

end Session

end HeapQual
