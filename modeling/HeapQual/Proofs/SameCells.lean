import HeapQual.Proofs.Demand
import HeapQual.Proofs.Reaching
import HeapQual.Proofs.Shape

/-!
# Graphs that say the same about cells

Two graphs say the same about cells (`Graph.SameCells`) if their stores and edges are the same but
for types, the classes are the same, and so are the solutions.  A change that the solution does not
show is of this kind, and so is a change of types.  Such graphs make the same demands
(`Graph.SameCells.demands`), cells have the same cones in them (`Graph.SameCells.cone`), and the
same allocations reach the same stores (`Graph.SameCells.reaches`).
-/

namespace HeapQual

open Relation (ReflTransGen)

variable {τ : Type}

namespace Graph

/-- The two graphs say the same about cells. -/
structure SameCells (g g' : Graph τ) : Prop where
  shape_eq : ∀ i, (g.stores.nodeAt i).shape = (g'.stores.nodeAt i).shape
  classes_eq : g.stores.classes = g'.stores.classes
  edges_eq : g.stores.edges = g'.stores.edges
  classOf_eq : g.classOf = g'.classOf
  effectRoot_eq : g.effects.root = g'.effects.root
  solve_eq : g.solve = g'.solve

namespace SameCells

variable {g g' g'' : Graph τ}

lemma refl (g : Graph τ) : g.SameCells g := ⟨fun _ => rfl, rfl, rfl, rfl, rfl, rfl⟩

lemma symm (h : g.SameCells g') : g'.SameCells g :=
  ⟨fun i => (h.shape_eq i).symm, h.classes_eq.symm, h.edges_eq.symm, h.classOf_eq.symm,
    h.effectRoot_eq.symm, h.solve_eq.symm⟩

lemma trans (h : g.SameCells g') (h' : g'.SameCells g'') : g.SameCells g'' :=
  ⟨fun i => (h.shape_eq i).trans (h'.shape_eq i), h.classes_eq.trans h'.classes_eq,
    h.edges_eq.trans h'.edges_eq, h.classOf_eq.trans h'.classOf_eq,
    h.effectRoot_eq.trans h'.effectRoot_eq, h.solve_eq.trans h'.solve_eq⟩

lemma of_tweaks (h : g.Tweaks g') (hg : g.Sound) (hn : g.Named) : g.SameCells g' where
  shape_eq i := by rw [h.stores_eq]
  classes_eq := by rw [h.stores_eq]
  edges_eq := by rw [h.stores_eq]
  classOf_eq := h.classOf_eq.symm
  effectRoot_eq := (funext h.effectRoot_eq).symm
  solve_eq := (h.solve_eq hg hn).symm

lemma of_shape_eq (h : g.shape = g'.shape) : g.SameCells g' where
  shape_eq i := by
    rw [← Stores.nodeAt_shape, ← Stores.nodeAt_shape,
      show g.stores.shape = g'.stores.shape from congrArg Graph.stores h]
  classes_eq := congrArg (fun g => g.stores.classes) h
  edges_eq := congrArg (fun g => g.stores.edges) h
  classOf_eq := congrArg (fun g => g.classOf) h
  effectRoot_eq := congrArg (fun g => g.effects.root) h
  solve_eq := by rw [← solve_shape, h, solve_shape]

variable (h : g.SameCells g')

include h

lemma storeRoot_eq : g.stores.root = g'.stores.root := by
  funext x
  rw [Stores.root, Stores.root, h.classes_eq]

lemma mentioned_eq : g.mentioned = g'.mentioned := by
  funext e a
  rw [mentioned, mentioned, h.solve_eq, h.effectRoot_eq]

/-! ## Expressions -/

lemma restrict {i : Nat} {base : StoreId} {e : EffectId}
    (hnode : g.stores.nodeAt i = .restrict base e) : g'.stores.nodeAt i = .restrict base e := by
  have hshape := h.shape_eq i
  rw [hnode] at hshape
  cases hnode' : g'.stores.nodeAt i <;> simp_all [StoreNode.shape]

lemma allocate {i : Nat} {base : StoreId} {a : LocationId} {fresh : τ}
    (hnode : g.stores.nodeAt i = .allocate base a fresh) :
    ∃ fresh', g'.stores.nodeAt i = .allocate base a fresh' := by
  have hshape := h.shape_eq i
  rw [hnode] at hshape
  cases hnode' : g'.stores.nodeAt i <;> simp_all [StoreNode.shape]

lemma overlay {i : Nat} {inside outside : StoreId} {e : EffectId}
    (hnode : g.stores.nodeAt i = .overlay inside outside e) :
    g'.stores.nodeAt i = .overlay inside outside e := by
  have hshape := h.shape_eq i
  rw [hnode] at hshape
  cases hnode' : g'.stores.nodeAt i <;> simp_all [StoreNode.shape]

lemma update {i : Nat} {base : StoreId} {a : LocationId} {type : τ} {strong : Bool}
    {position : Position} {message : String}
    (hnode : g.stores.nodeAt i = .update base a type strong position message) :
    ∃ type', g'.stores.nodeAt i = .update base a type' strong position message := by
  have hshape := h.shape_eq i
  rw [hnode] at hshape
  cases hnode' : g'.stores.nodeAt i <;> simp_all [StoreNode.shape]

lemma isVariable_eq (x : StoreId) :
    (g.stores.node x).isVariable = (g'.stores.node x).isVariable := by
  rw [Stores.node, Stores.node, h.storeRoot_eq, ← StoreNode.isVariable_shape, h.shape_eq,
    StoreNode.isVariable_shape]

/-! ## Cells -/

variable {demoted : List Nat} {sol : Solution} {c d lower : Cell} {reason : Reason}

/-- The graphs make the same demands. -/
lemma demands (hd : View.Demands ⟨g, sol, demoted⟩ c reason lower) :
    View.Demands ⟨g', sol, demoted⟩ c reason lower := by
  have hroot : View.storeRoot ⟨g, sol, demoted⟩ = View.storeRoot ⟨g', sol, demoted⟩ :=
    h.storeRoot_eq
  cases hd with
  | edge hedge hright hbinds =>
    rw [hroot] at hright hbinds ⊢
    exact .edge (h.edges_eq ▸ hedge) hright hbinds
  | update hnode hlocation hstrong hbinds =>
    obtain ⟨type', hnode'⟩ := h.update hnode
    rw [hroot] at hbinds ⊢
    exact .update hnode' (h.classOf_eq ▸ hlocation) hstrong hbinds

/-- The search for the type of a cell is passed on to the same store. -/
lemma step {store : Nat} (hstep : View.step ⟨g, sol, demoted⟩ c = some (.next store)) :
    View.step ⟨g', sol, demoted⟩ c = some (.next store) := by
  have hroot : View.storeRoot ⟨g, sol, demoted⟩ = View.storeRoot ⟨g', sol, demoted⟩ :=
    h.storeRoot_eq
  have hmentions : View.mentions ⟨g, sol, demoted⟩ = View.mentions ⟨g', sol, demoted⟩ := by
    funext e a
    rw [View.mentions, View.mentions, h.effectRoot_eq]
  have hbinds : View.binds ⟨g, sol, demoted⟩ = View.binds ⟨g', sol, demoted⟩ := rfl
  unfold View.step at hstep ⊢
  -- The views differ at most in types, and no step to another store looks at them.
  by_cases hbound : View.isBound ⟨g, sol, demoted⟩ c = true
  · rw [if_pos hbound] at hstep
    rw [if_pos (show View.isBound ⟨g', sol, demoted⟩ c = true from hbound)]
    dsimp only at hstep ⊢
    rw [hroot, hmentions, hbinds, h.classOf_eq] at hstep
    cases hnode : g.stores.nodeAt c.store with
    | var name =>
      rw [hnode] at hstep
      cases hstep
    | restrict base e =>
      rw [hnode] at hstep
      rw [h.restrict hnode]
      exact hstep
    | allocate base a fresh =>
      obtain ⟨fresh', hnode'⟩ := h.allocate hnode
      rw [hnode] at hstep
      rw [hnode']
      dsimp only at hstep ⊢
      split at hstep
      · rename_i hpassed
        rw [if_pos hpassed]
        exact hstep
      · cases hstep
    | overlay inside outside e =>
      rw [hnode] at hstep
      rw [h.overlay hnode]
      exact hstep
    | update base a type strong position message =>
      obtain ⟨type', hnode'⟩ := h.update hnode
      rw [hnode] at hstep
      rw [hnode']
      dsimp only at hstep ⊢
      split at hstep
      · cases hstep
      · rename_i hpassed
        rw [if_neg hpassed]
        exact hstep
  · rw [if_neg hbound] at hstep
    cases hstep

lemma cone (hcone : View.Cone ⟨g, sol, demoted⟩ c d) : View.Cone ⟨g', sol, demoted⟩ c d := by
  induction hcone with
  | start => exact .start
  | demand _ hdemand ih => exact .demand ih (h.demands hdemand)
  | step _ hstep ih => exact .step ih (h.step hstep)

/-! ## Paths -/

variable {a i j : Nat}

lemma isSite (hsite : g.IsSite a i) : g'.IsSite a i := by
  obtain ⟨base, x, fresh, hnode, hlocation⟩ := hsite
  obtain ⟨fresh', hnode'⟩ := h.allocate hnode
  exact ⟨base, x, fresh', hnode', h.classOf_eq ▸ hlocation⟩

lemma passes (hpasses : g.Passes a i j) : g'.Passes a i j := by
  have hmentioned := h.mentioned_eq
  cases hpasses with
  | edge hedge hvar =>
    rw [h.storeRoot_eq]
    exact .edge (h.edges_eq ▸ hedge) (h.isVariable_eq _ ▸ hvar)
  | restrict hnode hmentions =>
    rw [h.storeRoot_eq]
    exact .restrict (h.restrict hnode) (hmentioned ▸ hmentions)
  | allocate hnode =>
    obtain ⟨fresh', hnode'⟩ := h.allocate hnode
    rw [h.storeRoot_eq]
    exact .allocate hnode'
  | update hnode =>
    obtain ⟨type', hnode'⟩ := h.update hnode
    rw [h.storeRoot_eq]
    exact .update hnode'
  | inside hnode hmentions =>
    rw [h.storeRoot_eq]
    exact .inside (h.overlay hnode) (hmentioned ▸ hmentions)
  | outside hnode hmentions =>
    rw [h.storeRoot_eq]
    exact .outside (h.overlay hnode) (hmentioned ▸ hmentions)

lemma reaches (hreaches : g.Reaches a i j) : g'.Reaches a i j :=
  ReflTransGen.mono (fun _ _ => h.passes) i j hreaches

lemma recurs (hrecurs : g.Recurs a i) : g'.Recurs a i := by
  obtain ⟨base, x, fresh, hnode, hreaches⟩ := hrecurs
  obtain ⟨fresh', hnode'⟩ := h.allocate hnode
  exact ⟨base, x, fresh', hnode', h.storeRoot_eq ▸ h.reaches hreaches⟩

end SameCells

end Graph

end HeapQual
