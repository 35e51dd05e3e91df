import HeapQual.Command
import HeapQual.Proofs.Classes

/-!
# What commands do to a graph

Whatever a command does to the graph, it does by a few primitive changes: it adds an entry to one of
the three tables, joins two classes, records a constraint, sets a mark or shortens paths.
`Graph.Edit` lists them, together with what the command must be like to make them.  That a command
makes no other changes is shown once, where commands are taken apart.  What follows for the graph is
derived here, by looking at each change once:

* the graph grows (`Graph.Edits.grows`);
* a command that does not concern locations leaves them alone, and makes stores only from those that
  it names (`Graph.Edits.appends`), so operands come before what is made from them
  (`Graph.Edits.ordered`);
* no classes are joined but those of the pairs that the command merges (`Graph.Edits.joins`), and
  ranks keep up with them (`Graph.Edits.ranked`).
-/

namespace HeapQual

open Relation (ReflTransGen)

variable {τ : Type}

/-! ## What a command may change -/

/-- The tables of a graph. -/
inductive Table where
  | locations
  | effects
  | stores
  deriving DecidableEq

/-- The classes of a table. -/
def Graph.classes (g : Graph τ) : Table → Forest
  | .locations => g.locations.classes
  | .effects => g.effects.classes
  | .stores => g.stores.classes

namespace Command

/-- Can the command make the graph grow? -/
def grows : Command τ → Bool
  | makeLocation .. | markLocation .. | mergeLocations .. | atom .. | effectVariable ..
  | freshEffect | union .. | inter .. | markEffect .. | includeEffect .. | equateEffects ..
  | mergeEffects .. | storeVariable .. | restrict .. | allocate .. | allocateAll .. | overlay ..
  | update .. | joinStores .. | includeStore .. | equateStores .. | mergeStores .. => true
  | _ => false

/-- Is the effect that the command makes remembered? -/
def remembers : Command τ → Bool
  | atom .. | union .. | inter .. => true
  | _ => false

lemma grows_of_remembers {c : Command τ} (h : c.remembers = true) : c.grows = true := by
  cases c with
  | atom | union | inter => rfl
  | _ => cases h

/-- Does the command make, mark or merge locations? -/
def relocates : Command τ → Bool
  | makeLocation .. | markLocation .. | mergeLocations .. => true
  | _ => false

/-- The stores from which a command makes stores. -/
def operands : Command τ → List StoreId
  | restrict _ base _ => [base]
  | allocate _ base _ => [base]
  | allocateAll _ base _ => [base]
  | overlay _ inside outside _ => [inside, outside]
  | update _ _ base _ _ _ => [base]
  | _ => []

/-- The locations that a command merges. -/
def mergedLocations : Command τ → List (Nat × Nat)
  | mergeLocations _ a b => [(a.index, b.index)]
  | _ => []

/-- The effects that a command merges. -/
def mergedEffects : Command τ → List (Nat × Nat)
  | mergeEffects e₁ e₂ => [(e₁.index, e₂.index)]
  | _ => []

/-- The stores that a command merges. -/
def mergedStores : Command τ → List (Nat × Nat)
  | mergeStores _ _ x y => [(x.index, y.index)]
  | _ => []

/-- The entries of a table that a command merges. -/
def merged (c : Command τ) : Table → List (Nat × Nat)
  | .locations => c.mergedLocations
  | .effects => c.mergedEffects
  | .stores => c.mergedStores

end Command

/-- One of the pairs asks for these two roots to be joined. -/
structure Forest.Unites (f : Forest) (pairs : List (Nat × Nat)) (survivor child : Nat) : Prop where
  survivor_mem : survivor ∈ f.roots
  child_mem : child ∈ f.roots
  child_ne : child ≠ survivor
  exists_pair : ∃ p ∈ pairs, f.root p.1 = child ∧ f.root p.2 = survivor ∨
    f.root p.1 = survivor ∧ f.root p.2 = child

lemma Forest.Unites.exists_joins {f : Forest} {pairs : List (Nat × Nat)} {survivor child : Nat}
    (h : f.Unites pairs survivor child) (hf : f.Sound) :
    ∃ joined ⊆ pairs, f.Joins joined (f.hang child survivor) := by
  obtain ⟨p, hp, hroots⟩ := h.exists_pair
  exact ⟨[p], by simpa using hp, .hang hf h.child_mem h.survivor_mem h.child_ne hroots⟩

/-- The operands of each store come before it. -/
def Stores.Ordered (t : Stores τ) : Prop := ∀ i, ∀ x ∈ (t.nodeAt i).operands, x.index < i

namespace Graph

variable {P : Prop} {c : Command τ} {g g' : Graph τ}

/-! ## Primitive changes -/

/-- One change that a command makes to a graph.  If the condition holds, expressions are about what
exists. -/
inductive Edit (P : Prop) (c : Command τ) (g : Graph τ) : Graph τ → Prop
  | addLocation (name : String) (holds : τ) : c.relocates = true →
      Edit P c g { g with locations := (g.locations.add name holds).2 }
  | markLocation (root : Nat) : c.relocates = true →
      Edit P c g { g with locations := g.locations.mark root }
  | shorten (a b : LocationId) : c.relocates = true →
      Edit P c g { g with locations := g.locations.shorten a b }
  | joinLocations {survivor child : Nat} : c.relocates = true →
      g.locations.classes.Unites c.mergedLocations survivor child →
      Edit P c g { g with locations := g.locations.join survivor child }
  | label {effects : Effects} : effects.nodes = g.effects.nodes →
      effects.classes = g.effects.classes → effects.inclusions = g.effects.inclusions →
      Edit P c g { g with effects }
  | addEffect {node : EffectNode} :
      (∀ kind a, node = .atom kind a → a.index < g.locations.size) →
      (∀ e ∈ node.operands, e.index < g.effects.size) →
      Edit P c g { g with effects := (g.effects.add node).2 }
  | addInclusion {inc : Inclusion} : inc.source.index < g.effects.size →
      inc.target.index < g.effects.size → (g.effects.node inc.target).isInter = false →
      Edit P c g { g with effects := g.effects.addInclusion inc }
  | joinEffects {survivor child : Nat} :
      g.effects.classes.Unites c.mergedEffects survivor child →
      (g.effects.nodeAt survivor).isVariable → (g.effects.nodeAt child).isVariable →
      Edit P c g { g with effects := g.effects.join survivor child }
  | addStore {node : StoreNode τ} :
      (P → (∀ x ∈ node.operands, x.index < g.stores.size) ∧
        (∀ a, node.ownLocation? = some a → a.index < g.locations.size) ∧
        ∀ e, node.effect? = some e → e.index < g.effects.size) →
      (∀ x ∈ node.operands, x ∈ c.operands ∨ x.index < g.stores.size) →
      Edit P c g { g with stores := (g.stores.add node).2 }
  | addEdge {edge : FlowEdge} : edge.left.index < g.stores.size →
      edge.right.index < g.stores.size →
      Edit P c g { g with stores := g.stores.addEdge edge }
  | joinStores {survivor child : Nat} :
      g.stores.classes.Unites c.mergedStores survivor child →
      (g.stores.nodeAt survivor).isVariable → (g.stores.nodeAt child).isVariable →
      Edit P c g { g with stores := g.stores.join survivor child }

/-- A sequence of changes. -/
abbrev Edits (P : Prop) (c : Command τ) : Graph τ → Graph τ → Prop := ReflTransGen (Edit P c)

theorem Edit.grows (h : Edit P c g g') (hg : g.Sound) : g.Grows P g' := by
  cases h with
  | addLocation name holds => exact hg.grows_addLocation name holds
  | markLocation root => exact hg.grows_markLocation root
  | shorten a b => exact hg.grows_shorten a b
  | joinLocations _ h => exact hg.grows_joinLocations h.survivor_mem h.child_mem h.child_ne
  | label hnodes hclasses hinclusions => exact hg.grows_labels hnodes hclasses hinclusions
  | addEffect hatom hoperand => exact hg.grows_addEffect hatom hoperand
  | addInclusion hsource htarget hinter => exact hg.grows_addInclusion hsource htarget hinter
  | joinEffects h hsurvivor hchild =>
    exact hg.grows_joinEffects h.survivor_mem h.child_mem h.child_ne hsurvivor hchild
  | addStore hnode => exact hg.grows_addStore hnode
  | addEdge hleft hright => exact hg.grows_addEdge hleft hright
  | joinStores h hsurvivor hchild =>
    exact hg.grows_joinStores h.survivor_mem h.child_mem h.child_ne hsurvivor hchild

theorem Edits.grows (h : Edits P c g g') (hg : g.Sound) : g.Grows P g' := by
  induction h with
  | refl => exact .refl hg
  | tail _ hedit ih => exact ih.trans (hedit.grows ih.sound)

/-! ## Appending stores -/

/-- The second graph has the locations of the first and stores in addition, which are made from
these or from stores that stand before them. -/
structure Appends (named : List StoreId) (g g' : Graph τ) : Prop where
  locations_eq : g'.locations = g.locations
  size_le : g.stores.size ≤ g'.stores.size
  nodeAt_eq : ∀ i < g.stores.size, g'.stores.nodeAt i = g.stores.nodeAt i
  operand : ∀ i, g.stores.size ≤ i → ∀ x ∈ (g'.stores.nodeAt i).operands, x ∈ named ∨ x.index < i

namespace Appends

variable {g'' : Graph τ} {named : List StoreId}

/-- The expressions of stores are untouched. -/
lemma of_nodes_eq (hlocations : g'.locations = g.locations)
    (hnodes : g'.stores.nodes = g.stores.nodes) : g.Appends named g' where
  locations_eq := hlocations
  size_le := by rw [Stores.size, Stores.size, hnodes]
  nodeAt_eq i _ := by rw [Stores.nodeAt, Stores.nodeAt, hnodes]
  operand i hi x hx := by
    rw [Stores.nodeAt_of_size_le (by rwa [Stores.size, hnodes])] at hx
    exact absurd hx List.not_mem_nil

lemma refl (g : Graph τ) : g.Appends named g := of_nodes_eq rfl rfl

lemma trans (h : g.Appends named g') (h' : g'.Appends named g'') : g.Appends named g'' where
  locations_eq := h'.locations_eq.trans h.locations_eq
  size_le := h.size_le.trans h'.size_le
  nodeAt_eq i hi := (h'.nodeAt_eq i (hi.trans_le h.size_le)).trans (h.nodeAt_eq i hi)
  operand i hi x hx := by
    by_cases hlt : i < g'.stores.size
    · rw [h'.nodeAt_eq i hlt] at hx
      exact h.operand i hi x hx
    · exact h'.operand i (not_lt.1 hlt) x hx

/-- A store is added that is made from what is named or exists. -/
lemma addStore {node : StoreNode τ}
    (hnode : ∀ x ∈ node.operands, x ∈ named ∨ x.index < g.stores.size) :
    g.Appends named { g with stores := (g.stores.add node).2 } where
  locations_eq := rfl
  size_le := (Nat.le_succ _).trans_eq (Stores.size_add g.stores node).symm
  nodeAt_eq i hi := (Stores.nodeAt_add g.stores node i).trans (if_neg hi.ne)
  operand i hi x hx := by
    rw [Stores.nodeAt_add] at hx
    split at hx
    · exact (hnode x hx).imp_right fun hlt => hlt.trans_le hi
    · rw [Stores.nodeAt_of_size_le hi] at hx
      exact absurd hx List.not_mem_nil

/-- If what is named exists, operands still come first. -/
lemma ordered (h : g.Appends named g') (hg : g.stores.Ordered)
    (hnamed : ∀ x ∈ named, x.index < g.stores.size) : g'.stores.Ordered := by
  intro i x hx
  by_cases hi : i < g.stores.size
  · rw [h.nodeAt_eq i hi] at hx
    exact hg i x hx
  · have hle := not_lt.1 hi
    rcases h.operand i hle x hx with hx | hx
    · exact (hnamed x hx).trans_le hle
    · exact hx

end Appends

/-- Stores are appended, or the locations are changed and nothing else. -/
lemma Edit.appends_or_relocates (h : Edit P c g g') :
    g.Appends c.operands g' ∨ c.relocates = true ∧ g'.stores = g.stores := by
  cases h with
  | addLocation _ _ hc => exact Or.inr ⟨hc, rfl⟩
  | markLocation _ hc => exact Or.inr ⟨hc, rfl⟩
  | shorten _ _ hc => exact Or.inr ⟨hc, rfl⟩
  | joinLocations hc => exact Or.inr ⟨hc, rfl⟩
  | addStore _ hnamed => exact Or.inl (.addStore hnamed)
  | _ => exact Or.inl (.of_nodes_eq rfl rfl)

/-- A command that does not concern locations leaves them alone, and makes stores only from those
that it names. -/
theorem Edits.appends (h : Edits P c g g') (hc : c.relocates = false) :
    g.Appends c.operands g' := by
  induction h with
  | refl => exact .refl g
  | tail _ hedit ih =>
    rcases hedit.appends_or_relocates with happends | ⟨hrelocates, -⟩
    · exact ih.trans happends
    · exact absurd hrelocates (by simp [hc])

theorem Edits.ordered (h : Edits P c g g') (hg : g.stores.Ordered)
    (hc : ∀ x ∈ c.operands, x.index < g.stores.size) :
    g'.stores.Ordered ∧ g.stores.size ≤ g'.stores.size := by
  induction h with
  | refl => exact ⟨hg, le_rfl⟩
  | tail _ hedit ih =>
    obtain ⟨hordered, hsize⟩ := ih
    rcases hedit.appends_or_relocates with happends | ⟨-, hstores⟩
    · exact ⟨happends.ordered hordered fun x hx => (hc x hx).trans_le hsize,
        hsize.trans happends.size_le⟩
    · rw [hstores]
      exact ⟨hordered, hsize⟩

/-! ## Joining classes -/

/-- A change joins a pair that the command merges, if it joins anything. -/
lemma Edit.exists_joins (h : Edit P c g g') (hg : g.Sound) (t : Table) :
    ∃ joined ⊆ c.merged t, (g.classes t).Joins joined (g'.classes t) := by
  -- Most changes leave the roots of a table alone.
  have same {f f' : Forest} (hf : f.Sound) (hroot : ∀ i, f'.root i = f.root i) :
      ∃ joined ⊆ c.merged t, f.Joins joined f' :=
    ⟨[], List.nil_subset _, .of_root_eq hf hroot fun _ hp => absurd hp List.not_mem_nil⟩
  have hlocations := hg.locations.classes
  have heffects := hg.effects.classes
  have hstores := hg.stores.classes
  cases t with
  | locations =>
    cases h with
    | addLocation => exact same hlocations hlocations.root_add
    | shorten a b => exact same hlocations (hg.locations.shorten a b).2
    | joinLocations _ h => exact h.exists_joins hlocations
    | _ => exact same hlocations fun _ => rfl
  | effects =>
    cases h with
    | label _ hclasses => exact same heffects fun i => congrArg (Forest.root · i) hclasses
    | addEffect => exact same heffects heffects.root_add
    | joinEffects h => exact h.exists_joins heffects
    | _ => exact same heffects fun _ => rfl
  | stores =>
    cases h with
    | addStore => exact same hstores hstores.root_add
    | joinStores h => exact h.exists_joins hstores
    | _ => exact same hstores fun _ => rfl

/-- The classes are joined as the command merges, and in no other way. -/
theorem Edits.joins (h : Edits P c g g') (hg : g.Sound) (t : Table)
    (hmerged : ∀ p ∈ c.merged t, (g'.classes t).root p.1 = (g'.classes t).root p.2) :
    (g.classes t).Joins (c.merged t) (g'.classes t) := by
  have hjoins : ∃ joined ⊆ c.merged t, (g.classes t).Joins joined (g'.classes t) := by
    clear hmerged
    induction h with
    | refl =>
      refine ⟨[], List.nil_subset _, .refl ?_⟩
      cases t with
      | locations => exact hg.locations.classes
      | effects => exact hg.effects.classes
      | stores => exact hg.stores.classes
    | tail hedits hedit ih =>
      obtain ⟨joined, hsub, hjoins⟩ := ih
      obtain ⟨joined', hsub', hjoins'⟩ := hedit.exists_joins (Edits.grows hedits hg).sound t
      exact ⟨joined ++ joined', List.append_subset.2 ⟨hsub, hsub'⟩, hjoins.trans hjoins'⟩
  obtain ⟨joined, hsub, hjoins⟩ := hjoins
  exact hjoins.of_subset hsub hmerged

lemma Edit.ranked (h : Edit P c g g') (hg : g.Sound) (hranked : g.locations.Ranked) :
    g'.locations.Ranked := by
  cases h with
  | addLocation name holds => exact hg.locations.ranked_add hranked name holds
  | markLocation root => exact hg.locations.ranked_mark hranked root
  | shorten a b => exact hg.locations.ranked_shorten hranked a b
  | joinLocations _ h =>
    exact hg.locations.ranked_join hranked h.survivor_mem h.child_mem h.child_ne
  | _ => exact hranked

theorem Edits.ranked (h : Edits P c g g') (hg : g.Sound) (hranked : g.locations.Ranked) :
    g'.locations.Ranked := by
  induction h with
  | refl => exact hranked
  | tail hedits hedit ih => exact hedit.ranked (Edits.grows hedits hg).sound ih

/-- What was grown goes on growing by steps of the same kinds. -/
lemma Edit.exists_grown (h : Edit P c g g') {t : Table} {steps : List Forest.Op}
    (hgrown : (g.classes t).Grown steps) : ∃ steps', (g'.classes t).Grown steps' := by
  cases t with
  | locations =>
    cases h with
    | addLocation => exact ⟨_, hgrown.add⟩
    | shorten a b => exact ⟨_, (hgrown.find a.index).find b.index⟩
    | joinLocations _ h => exact ⟨_, hgrown.hang h.child_mem h.survivor_mem h.child_ne⟩
    | _ => exact ⟨_, hgrown⟩
  | effects =>
    cases h with
    | label _ hclasses =>
      refine ⟨steps, ?_⟩
      rw [Graph.classes, hclasses]
      exact hgrown
    | addEffect => exact ⟨_, hgrown.add⟩
    | joinEffects h => exact ⟨_, hgrown.hang h.child_mem h.survivor_mem h.child_ne⟩
    | _ => exact ⟨_, hgrown⟩
  | stores =>
    cases h with
    | addStore => exact ⟨_, hgrown.add⟩
    | joinStores h => exact ⟨_, hgrown.hang h.child_mem h.survivor_mem h.child_ne⟩
    | _ => exact ⟨_, hgrown⟩

theorem Edits.exists_grown (h : Edits P c g g') {t : Table}
    (hgrown : ∃ steps, (g.classes t).Grown steps) : ∃ steps, (g'.classes t).Grown steps := by
  induction h with
  | refl => exact hgrown
  | tail _ hedit ih =>
    obtain ⟨steps, hsteps⟩ := ih
    exact hedit.exists_grown hsteps

end Graph

end HeapQual
