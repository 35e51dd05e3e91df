import HeapQual.Proofs.Effect.Absorbing
import HeapQual.Proofs.Effect.Pieces
import HeapQual.Proofs.Store.LeastDomains

/-!
# Merging and equating

Two variables can be made equal by joining their classes, or by two inclusions, one each way.  The
graph with the inclusions keeps apart what the other graph joins, but gives it the same members, so
each of the two graphs carries the other.  Hence every effect has the same members in both
(`Graph.Distinct.accessesOf_eq`) and the same inclusions fail (`Graph.Distinct.violations_eq`).

For stores there are two edges in place of the inclusions, and each of the two graphs conveys the
other, so that every store has the same domain in both (`Graph.DistinctStores.boundBy_eq`).
-/

namespace HeapQual

namespace Graph

variable {τ : Type} {g : Graph τ} {position : Position}

/-! ## Effects -/

/-- The graph in which the classes of two effects are joined. -/
def uniteEffects (g : Graph τ) (a b : EffectId) : Graph τ :=
  { g with effects := g.effects.join (g.effects.root a) (g.effects.root b) }

/-- The graph in which two effects are included in each other. -/
def linkEffects (g : Graph τ) (position : Position) (a b : EffectId) : Graph τ :=
  { g with effects := (g.effects.addInclusion ⟨a, b, position⟩).addInclusion ⟨b, a, position⟩ }

/-- Two effect variables of different classes in a sound graph. -/
structure Distinct (g : Graph τ) (a b : EffectId) : Prop where
  sound : g.Sound
  left_lt : a.index < g.effects.size
  right_lt : b.index < g.effects.size
  left_var : (g.effects.node a).isVariable = true
  right_var : (g.effects.node b).isVariable = true
  root_ne : g.effects.root a ≠ g.effects.root b

namespace Distinct

variable {a b : EffectId} (h : g.Distinct a b)

include h

lemma sound_uniteEffects : (g.uniteEffects a b).Sound :=
  (h.sound.grows_joinEffects (P := False) (h.sound.effects.root_mem_roots h.left_lt)
    (h.sound.effects.root_mem_roots h.right_lt) h.root_ne.symm h.left_var h.right_var).sound

/-- Including the one effect in the other leaves them in different classes. -/
lemma addInclusion (position : Position) :
    ({ g with effects := g.effects.addInclusion ⟨a, b, position⟩ } : Graph τ).Distinct b a where
  sound := by
    have hinter : (g.effects.node b).isInter = false := by
      obtain ⟨name, hnode⟩ := EffectNode.exists_of_isVariable h.right_var
      rw [hnode]
      rfl
    exact (h.sound.grows_addInclusion (P := False) h.left_lt h.right_lt hinter).sound
  left_lt := h.right_lt
  right_lt := h.left_lt
  left_var := h.right_var
  right_var := h.left_var
  root_ne := h.root_ne.symm

lemma sound_linkEffects (position : Position) : (g.linkEffects position a b).Sound :=
  ((h.addInclusion position).addInclusion position).sound

/-- Nothing is known about different variables, so an inclusion between them is recorded as it
is. -/
lemma split_eq : g.effects.split g.classOf a b = [⟨a, b, true⟩] := by
  have hempty : a.isEmpty = false := by
    by_contra htrue
    have hvar := h.left_var
    rw [of_decide_eq_true (Bool.eq_true_of_not_eq_false htrue), h.sound.node_empty] at hvar
    cases hvar
  have hknown : g.effects.knownEqual g.classOf a b = false :=
    Bool.eq_false_iff.2 fun hknown => h.root_ne
      ((h.sound.effects.knownEqual_variables_iff h.left_var h.right_var).1 hknown)
  obtain ⟨name, hnode⟩ := EffectNode.exists_of_isVariable h.left_var
  obtain ⟨name', hnode'⟩ := EffectNode.exists_of_isVariable h.right_var
  obtain ⟨fuel, hfuel⟩ := Nat.exists_eq_succ_of_ne_zero
    (Nat.mul_ne_zero two_ne_zero h.sound.effects.size_pos.ne')
  rw [Effects.split, hfuel]
  refine Effects.splitFrom_of_rest ?_ ?_ ?_
  · rw [hempty, hknown]
    rfl
  · rw [hnode]
    rfl
  · rw [hnode']
    rfl

lemma root_uniteEffects (e : EffectId) :
    (g.uniteEffects a b).effects.root e =
      if g.effects.root e = g.effects.root b then g.effects.root a else g.effects.root e :=
  h.sound.effects.root_join (h.sound.effects.root_mem_roots h.left_lt)
    (h.sound.effects.root_mem_roots h.right_lt) h.root_ne.symm e

/-- An effect mentions a variable in the one graph exactly if it does in the other. -/
lemma mentionsVariable_iff {e : EffectId} (he : e.index < g.effects.size) :
    (g.uniteEffects a b).effects.MentionsVariable ((g.uniteEffects a b).effects.root e) ↔
      (g.linkEffects position a b).effects.MentionsVariable (g.effects.root e) := by
  have hunite := h.sound_uniteEffects.effects
  have hlink := (h.sound_linkEffects position).effects
  rw [← hunite.hasVariables_iff he, hlink.hasVariables_congr hunite rfl, hlink.hasVariables_iff he]
  rfl

/-- Effects that include each other have the same members. -/
lemma accessesOf_linked :
    (g.linkEffects position a b).accessesOf a = (g.linkEffects position a b).accessesOf b := by
  have hlink := h.sound_linkEffects position
  have hrespects := hlink.effects.respects_members hlink.classOf_lt
  refine Ascending.ext fun x => ⟨fun hx => ?_, fun hx => ?_⟩
  · exact hrespects.inclusion ⟨a, b, position⟩ (by simp [linkEffects, Effects.addInclusion])
      (.var h.right_var) hx
  · exact hrespects.inclusion ⟨b, a, position⟩ (by simp [linkEffects, Effects.addInclusion])
      (.var h.left_var) hx

/-- In the graph that joins the effects their inclusions in each other hold. -/
lemma link_carries_unite : (g.linkEffects position a b).Carries (g.uniteEffects a b) where
  classOf_root l := h.sound.locations.classes.root_root l.index
  accessesOf_root e := by
    have hroot : (g.uniteEffects a b).effects.root ⟨g.effects.root e⟩ =
        (g.uniteEffects a b).effects.root e := by
      rw [h.root_uniteEffects, h.root_uniteEffects,
        show g.effects.root ⟨g.effects.root e⟩ = g.effects.root e from
          h.sound.effects.classes.root_root e.index]
    exact congrArg (g.uniteEffects a b).solve.membersOf hroot
  effect_eq _ _ := rfl
  inclusion inc hinc hmentions x hx := by
    have hunite := h.sound_uniteEffects
    have hjoined : (g.uniteEffects a b).accessesOf a = (g.uniteEffects a b).accessesOf b := by
      refine congrArg (g.uniteEffects a b).solve.membersOf ?_
      rw [h.root_uniteEffects, h.root_uniteEffects, if_neg h.root_ne, if_pos rfl]
    rcases Array.mem_push.1 hinc with hinc | rfl
    · rcases Array.mem_push.1 hinc with hinc | rfl
      · have hlt := (h.sound.effects.inclusion_lt inc hinc).2
        exact (hunite.effects.respects_members hunite.classOf_lt).inclusion inc hinc
          ((h.mentionsVariable_iff hlt).2 hmentions) hx
      · exact hjoined ▸ hx
    · exact hjoined ▸ hx

/-- In the graph with the inclusions, effects that the other graph joins have the same members. -/
lemma unite_carries_link : (g.uniteEffects a b).Carries (g.linkEffects position a b) where
  classOf_root l := h.sound.locations.classes.root_root l.index
  accessesOf_root e := by
    have hsame : ∀ f f' : EffectId, g.effects.root f = g.effects.root f' →
        (g.linkEffects position a b).accessesOf f = (g.linkEffects position a b).accessesOf f' :=
      fun _ _ hroot => congrArg (g.linkEffects position a b).solve.membersOf hroot
    have hroot : ∀ f : EffectId, g.effects.root ⟨g.effects.root f⟩ = g.effects.root f :=
      fun f => h.sound.effects.classes.root_root f.index
    rw [h.root_uniteEffects]
    split
    · rename_i heq
      rw [hsame _ a (hroot a), h.accessesOf_linked, hsame b e heq.symm]
    · exact hsame _ e (hroot e)
  effect_eq _ _ := rfl
  inclusion inc hinc hmentions x hx := by
    have hlink := h.sound_linkEffects position
    have hlt := (h.sound.effects.inclusion_lt inc hinc).2
    exact (hlink.effects.respects_members hlink.classOf_lt).inclusion inc
      (Array.mem_push_of_mem _ (Array.mem_push_of_mem _ hinc))
      ((h.mentionsVariable_iff hlt).1 hmentions) hx

/-- Joining two variables gives every effect the members that equating them gives it. -/
theorem accessesOf_eq (position : Position) (e : EffectId) :
    (g.uniteEffects a b).accessesOf e = (g.linkEffects position a b).accessesOf e := by
  have hunite := h.sound_uniteEffects
  have hlink := h.sound_linkEffects position
  exact Ascending.ext fun x => ⟨h.unite_carries_link.mem_of_locations_eq hunite hlink rfl,
    h.link_carries_unite.mem_of_locations_eq hlink hunite rfl⟩

/-- The same inclusions fail, and the new ones never do. -/
theorem violations_eq (position : Position) :
    (g.uniteEffects a b).solve.violations = (g.linkEffects position a b).solve.violations := by
  have hunite := h.sound_uniteEffects
  have hlink := h.sound_linkEffects position
  have hfails : (g.uniteEffects a b).fails = (g.linkEffects position a b).fails := by
    funext inc
    rw [fails, fails, h.accessesOf_eq position, h.accessesOf_eq position,
      hlink.effects.hasVariables_congr hunite.effects rfl]
  -- Linking adds two inclusions. Their targets are variables, so neither of them can fail.
  have hopen : ∀ {e : EffectId}, e.index < g.effects.size → (g.effects.node e).isVariable = true →
      (g.linkEffects position a b).effects.hasVariables e = true := fun he hvar =>
    (hlink.effects.hasVariables_iff he).2 (.var hvar)
  have hleft : (g.linkEffects position a b).fails ⟨a, b, position⟩ = false := by
    rw [fails, hopen h.right_lt h.right_var]
    rfl
  have hright : (g.linkEffects position a b).fails ⟨b, a, position⟩ = false := by
    rw [fails, hopen h.left_lt h.left_var]
    rfl
  have hinclusions : (g.linkEffects position a b).effects.inclusions.toList =
      g.effects.inclusions.toList ++ [⟨a, b, position⟩, ⟨b, a, position⟩] := by
    simp [linkEffects, Effects.addInclusion]
  rw [hunite.violations_eq, hfails, hlink.violations_eq, hinclusions, List.zipIdx_append,
    List.filter_append]
  simp only [List.zipIdx_cons, List.zipIdx_nil, List.filter_cons, List.filter_nil, hleft, hright,
    Bool.false_eq_true, if_false, List.append_nil]
  rfl

/-- Under the number of an inclusion that fails both graphs have the same inclusion. -/
lemma inclusion_eq_of_violation {number : Nat}
    (hfails : number ∈ (g.uniteEffects a b).solve.violations) :
    (g.uniteEffects a b).effects.inclusions[number]? =
      (g.linkEffects position a b).effects.inclusions[number]? := by
  obtain ⟨inc, hinc, -⟩ := h.sound_uniteEffects.effects.mem_violations.1 hfails
  have hget : g.effects.inclusions[number]? = some inc := hinc
  have hlt := (Array.getElem?_eq_some_iff.1 hget).1
  rw [hinc, linkEffects, Effects.addInclusion, Effects.addInclusion, Array.getElem?_push,
    if_neg (by rw [Array.size_push]; omega), Array.getElem?_push, if_neg hlt.ne, hget]

end Distinct

/-! ## Stores -/

/-- The graph in which the classes of two stores are joined. -/
def uniteStores (g : Graph τ) (x y : StoreId) : Graph τ :=
  { g with stores := g.stores.join (g.stores.root x) (g.stores.root y) }

/-- The graph in which two edges lead from the first store to the second and back. -/
def linkStores (g : Graph τ) (position : Position) (there back : String) (x y : StoreId) :
    Graph τ :=
  { g with
    stores := (g.stores.addEdge ⟨x, y, position, there⟩).addEdge ⟨y, x, position, back⟩ }

/-- Two store variables of different classes in a sound graph. -/
structure DistinctStores (g : Graph τ) (x y : StoreId) : Prop where
  sound : g.Sound
  left_lt : x.index < g.stores.size
  right_lt : y.index < g.stores.size
  left_var : (g.stores.node x).isVariable = true
  right_var : (g.stores.node y).isVariable = true
  root_ne : g.stores.root x ≠ g.stores.root y

namespace DistinctStores

variable {x y : StoreId} {there back : String} (h : g.DistinctStores x y)

include h

lemma sound_uniteStores : (g.uniteStores x y).Sound :=
  (h.sound.grows_joinStores (P := False) (h.sound.stores.root_mem_roots h.left_lt)
    (h.sound.stores.root_mem_roots h.right_lt) h.root_ne.symm h.left_var h.right_var).sound

/-- An edge between the stores leaves them in different classes. -/
lemma addEdge (position : Position) (message : String) :
    ({ g with stores := g.stores.addEdge ⟨x, y, position, message⟩ } : Graph τ).DistinctStores
      y x where
  sound := (h.sound.grows_addEdge (P := False) h.left_lt h.right_lt).sound
  left_lt := h.right_lt
  right_lt := h.left_lt
  left_var := h.right_var
  right_var := h.left_var
  root_ne := h.root_ne.symm

lemma sound_linkStores (position : Position) (there back : String) :
    (g.linkStores position there back x y).Sound :=
  ((h.addEdge position there).addEdge position back).sound

lemma root_uniteStores (z : StoreId) :
    (g.uniteStores x y).stores.root z =
      if g.stores.root z = g.stores.root y then g.stores.root x else g.stores.root z :=
  h.sound.stores.root_join (h.sound.stores.root_mem_roots h.left_lt)
    (h.sound.stores.root_mem_roots h.right_lt) h.root_ne.symm z

/-- Stores that flow into each other have the same domain. -/
lemma boundBy_linked (hnamed : (g.linkStores position there back x y).Named) :
    (g.linkStores position there back x y).boundBy (g.stores.root x) =
      (g.linkStores position there back x y).boundBy (g.stores.root y) := by
  have hlink := h.sound_linkStores position there back
  have hthere : ⟨x, y, position, there⟩ ∈ (g.linkStores position there back x y).stores.edges := by
    simp [linkStores, Stores.addEdge]
  have hback : ⟨y, x, position, back⟩ ∈ (g.linkStores position there back x y).stores.edges := by
    simp [linkStores, Stores.addEdge]
  have hright := hnamed.boundBy_subset_of_edge hlink hthere h.right_var
  have hleft := hnamed.boundBy_subset_of_edge hlink hback h.left_var
  exact Set.Subset.antisymm hright hleft

/-- In the graph that joins the stores the edges between them hold. -/
lemma link_conveys_unite (hnamed : (g.uniteStores x y).Named) :
    (g.linkStores position there back x y).Conveys (g.uniteStores x y) where
  locations_eq := rfl
  mentioned_eq := mentioned_congr rfl rfl
  nodes_eq := rfl
  boundBy_root z := by
    refine congrArg (g.uniteStores x y).boundBy ?_
    rw [h.root_uniteStores, h.root_uniteStores,
      show g.stores.root ⟨(g.linkStores position there back x y).stores.root z⟩ = g.stores.root z
        from h.sound.stores.classes.root_root z.index]
  edge edge hedge hvar := by
    have hjoined : (g.uniteStores x y).stores.root x = (g.uniteStores x y).stores.root y := by
      rw [h.root_uniteStores, h.root_uniteStores, if_neg h.root_ne, if_pos rfl]
    rcases Array.mem_push.1 hedge with hedge | rfl
    · rcases Array.mem_push.1 hedge with hedge | rfl
      · refine hnamed.boundBy_subset_of_edge h.sound_uniteStores hedge ?_
        rw [h.sound_uniteStores.stores.isVariable_node]
        exact (h.sound.stores.isVariable_node edge.right).symm.trans hvar
      · exact (congrArg (g.uniteStores x y).boundBy hjoined).subset
    · exact (congrArg (g.uniteStores x y).boundBy hjoined).superset

/-- In the graph with the edges the stores that the other graph joins have the same domain. -/
lemma unite_conveys_link (hnamed : (g.linkStores position there back x y).Named) :
    (g.uniteStores x y).Conveys (g.linkStores position there back x y) where
  locations_eq := rfl
  mentioned_eq := mentioned_congr rfl rfl
  nodes_eq := rfl
  boundBy_root z := by
    have hroot : ∀ w : StoreId,
        (g.linkStores position there back x y).stores.root ⟨g.stores.root w⟩ = g.stores.root w :=
      fun w => h.sound.stores.classes.root_root w.index
    rw [h.root_uniteStores]
    split
    · rename_i heq
      rw [hroot, h.boundBy_linked hnamed, ← heq]
      rfl
    · rw [hroot]
      rfl
  edge edge hedge hvar := by
    refine hnamed.boundBy_subset_of_edge (h.sound_linkStores position there back)
      (Array.mem_push_of_mem _ (Array.mem_push_of_mem _ hedge)) ?_
    rw [h.sound_uniteStores.stores.isVariable_node] at hvar
    exact (h.sound.stores.isVariable_node edge.right).trans hvar

theorem boundBy_eq (hunite : (g.uniteStores x y).Named)
    (hlink : (g.linkStores position there back x y).Named) (z : StoreId) :
    (g.uniteStores x y).boundBy ((g.uniteStores x y).stores.root z) =
      (g.linkStores position there back x y).boundBy (g.stores.root z) := by
  have hsound := h.sound_uniteStores
  have hsound' := h.sound_linkStores position there back
  refine Set.Subset.antisymm ?_ ?_
  · exact (h.unite_conveys_link hlink).boundBy_subset hsound hsound' hlink hunite z
  · exact (h.link_conveys_unite hunite).boundBy_subset hsound' hsound hunite hlink z

end DistinctStores

end Graph

end HeapQual
