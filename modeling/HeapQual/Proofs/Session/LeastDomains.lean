import HeapQual.Lattice.Level
import HeapQual.Proofs.Session.Invariants
import HeapQual.Proofs.Store.LeastDomains

/-!
# The domains that a session finds

Solving the graph of a disciplined session ends by itself and finds the least family of domains that
satisfies the equations of all stores (`Session.solve_finds_least_domains`).

A new variable into which two stores flow binds what either of them binds, as long as nothing else
flows into its class.  This holds for good, whatever is merged later, because edges keep their
numbers and classes are only joined (`Session.boundBy_joined`).
-/

namespace HeapQual

variable {σ τ : Type}

namespace Session

variable {s s' : Session σ τ}

/-! ## A variable into which two stores flow -/

lemma sameStore_eq_ok {x y : StoreId} {same : Bool} (h : s.sameStore x y = .ok same) :
    same = decide (s.graph.stores.root x = s.graph.stores.root y) := by
  obtain ⟨rx, hx, h⟩ := bind_eq_ok_iff.1 h
  obtain ⟨ry, hy, h⟩ := bind_eq_ok_iff.1 h
  obtain ⟨-, rfl⟩ := Stores.find_eq_ok_iff.1 hx
  obtain ⟨-, rfl⟩ := Stores.find_eq_ok_iff.1 hy
  exact (Except.ok.inj h).symm

/-- An edge between different classes is recorded under the next number. -/
lemma stores_includeStore {position : Position} {message : String} {left right : StoreId}
    (hne : s.graph.stores.root left ≠ s.graph.stores.root right)
    (h : s.includeStore position message left right = .ok s') :
    s'.graph.stores = s.graph.stores.addEdge ⟨left, right, position, message⟩ := by
  obtain ⟨same, hsame, h⟩ := bind_eq_ok_iff.1 h
  have hfalse : same = false := by
    rw [sameStore_eq_ok hsame]
    exact decide_eq_false hne
  rw [hfalse] at h
  rw [← Except.ok.inj h]
  exact congrArg Graph.stores (graph_forget _)

lemma stores_storeVariable {position : Position} {name : String} :
    (s.storeVariable position name).2.graph.stores = (s.graph.stores.add (.var name)).2 :=
  congrArg Graph.stores (graph_forget _)

/-- Joining two stores makes a variable, and records the edges from both stores into it, or one edge
if the two stores are in one class. -/
theorem joinStores_spec (hs : s.graph.Sound) {position : Position} {message : String}
    {x y z : StoreId} (hx : x.index < s.graph.stores.size) (hy : y.index < s.graph.stores.size)
    (h : s.joinStores position message x y = .ok (z, s')) :
    z.index < s'.graph.stores.size ∧ s'.graph.stores.nodeAt z.index = .var "lub" ∧
      (s'.graph.stores.edges =
          s.graph.stores.edges ++ #[⟨x, z, position, message⟩, ⟨y, z, position, message⟩] ∨
        s'.graph.stores.edges = s.graph.stores.edges ++ #[⟨x, z, position, message⟩] ∧
          s'.graph.stores.root x = s'.graph.stores.root y) := by
  set t := (s.graph.stores.add (.var "lub")).2 with ht
  have hsize : s.graph.stores.size < t.size := by
    rw [ht, Stores.size_add]
    exact Nat.lt_succ_self _
  have hnode : t.nodeAt s.graph.stores.size = .var "lub" := by
    rw [ht, Stores.nodeAt_add, if_pos rfl]
  -- The class of the new variable is different from all that there were.
  have hapart : ∀ w : StoreId, w.index < s.graph.stores.size →
      t.root w ≠ t.root ⟨s.graph.stores.size⟩ := by
    intro w hw
    have hroot : ∀ w : StoreId, t.root w = s.graph.stores.root w := fun w =>
      hs.stores.classes.root_add w.index
    have hnew : s.graph.stores.root ⟨s.graph.stores.size⟩ = s.graph.stores.size :=
      Forest.Sound.root_of_size_le hs.stores.size_classes.le
    rw [hroot, hroot, hnew]
    exact (hs.stores.root_lt hw).ne
  have hnew : (s.storeVariable position "lub").2.graph.stores = t := stores_storeVariable
  obtain ⟨s₁, hfirst, h⟩ := bind_eq_ok_iff.1 h
  have hs₁ : s₁.graph.stores = t.addEdge ⟨x, ⟨s.graph.stores.size⟩, position, message⟩ := by
    rw [← hnew]
    refine stores_includeStore ?_ hfirst
    rw [hnew]
    exact hapart x hx
  obtain ⟨same, hsame, h⟩ := bind_eq_ok_iff.1 h
  cases hxy : same with
  | true =>
    rw [hxy] at h hsame
    cases h
    have heq := of_decide_eq_true (sameStore_eq_ok hsame).symm
    rw [hs₁] at heq ⊢
    exact ⟨hsize, hnode, Or.inr ⟨Array.push_eq_append, heq⟩⟩
  | false =>
    rw [hxy] at h
    obtain ⟨s₂, hsecond, h⟩ := bind_eq_ok_iff.1 h
    cases h
    have hne : s₁.graph.stores.root y ≠ s₁.graph.stores.root ⟨s.graph.stores.size⟩ := by
      rw [hs₁]
      exact hapart y hy
    rw [stores_includeStore hne hsecond, hs₁]
    refine ⟨hsize, hnode, Or.inl ?_⟩
    simp only [Stores.addEdge, Array.push_eq_append, Array.append_assoc]
    rfl

/-- As long as nothing else flows into the class of the variable that joins two stores, it binds
what either of them binds. -/
theorem boundBy_joined {s₀ s₁ : Session σ τ} (h₀ : s₀.graph.Sound)
    (hs : s.graph.Sound) (hnamed : s.graph.Named) {position : Position} {message : String}
    {x y z : StoreId} (hx : x.index < s₀.graph.stores.size) (hy : y.index < s₀.graph.stores.size)
    (hjoin : s₀.joinStores position message x y = .ok (z, s₁)) (hext : s₁.graph.Extends s.graph)
    (hedges : ∀ (n : Nat) edge, s.graph.stores.edges[n]? = some edge →
      s.graph.stores.root edge.right = s.graph.stores.root z →
      s₀.graph.stores.edges.size ≤ n ∧ n < s₁.graph.stores.edges.size) :
    s.graph.boundBy (s.graph.stores.root z) =
      s.graph.boundBy (s.graph.stores.root x) ∪ s.graph.boundBy (s.graph.stores.root y) := by
  obtain ⟨hz, hnode, hnew⟩ := joinStores_spec h₀ hx hy hjoin
  have hvar : (s.graph.stores.node z).isVariable = true := by
    rw [hs.stores.isVariable_node, hext.store_eq _ hz, hnode]
    rfl
  have hroot := hs.stores.root_mem_roots (hz.trans_le hext.size_stores)
  rw [(hnamed.domainsAgree hs).flowing _ hroot hvar]
  -- The edges of the joint keep their numbers, and the classes that were one stay one.
  have hkeep : ∀ edge ∈ s₁.graph.stores.edges, edge ∈ s.graph.stores.edges := by
    intro edge hedge
    obtain ⟨n, hn⟩ := Array.mem_iff_getElem?.1 hedge
    exact Array.mem_of_getElem? (hext.edge_eq n edge hn)
  have hfrom : ∀ n : Nat, s₀.graph.stores.edges.size ≤ n → ∀ edge,
      s₁.graph.stores.edges[n]? = some edge → edge.left = x ∨ edge.left = y := by
    intro n hn edge hedge
    rcases hnew with hnew | ⟨hnew, -⟩
    · rw [hnew, Array.getElem?_append_right hn] at hedge
      have hmem := Array.mem_of_getElem? hedge
      simp only [List.mem_toArray, List.mem_cons, List.not_mem_nil, or_false] at hmem
      rcases hmem with rfl | rfl
      · exact Or.inl rfl
      · exact Or.inr rfl
    · rw [hnew, Array.getElem?_append_right hn] at hedge
      have hmem := Array.mem_of_getElem? hedge
      simp only [List.mem_toArray, List.mem_singleton] at hmem
      exact Or.inl (congrArg FlowEdge.left hmem)
  have hleft : ⟨x, z, position, message⟩ ∈ s.graph.stores.edges := by
    apply hkeep
    rcases hnew with hnew | ⟨hnew, -⟩
    · simp [hnew]
    · simp [hnew]
  have hright : ⟨y, z, position, message⟩ ∈ s.graph.stores.edges ∨
      s.graph.stores.root x = s.graph.stores.root y := by
    rcases hnew with hnew | ⟨-, heq⟩
    · exact Or.inl (hkeep _ (by simp [hnew]))
    · exact Or.inr (hext.stores.root_congr heq)
  ext a
  constructor
  · rintro ⟨edge, hedge, hinto, ha⟩
    obtain ⟨n, hn⟩ := Array.mem_iff_getElem?.1 hedge
    obtain ⟨hge, hlt⟩ := hedges n edge hn hinto
    obtain ⟨edge₁, hn₁⟩ : ∃ edge₁, s₁.graph.stores.edges[n]? = some edge₁ :=
      ⟨_, Array.getElem?_eq_getElem hlt⟩
    obtain rfl : edge₁ = edge := Option.some.inj ((hext.edge_eq n edge₁ hn₁).symm.trans hn)
    rcases hfrom n hge edge₁ hn₁ with heq | heq
    · exact Or.inl (heq ▸ ha)
    · exact Or.inr (heq ▸ ha)
  · rintro (ha | ha)
    · exact ⟨_, hleft, rfl, ha⟩
    · rcases hright with hright | heq
      · exact ⟨_, hright, rfl, ha⟩
      · exact ⟨_, hleft, rfl, heq ▸ ha⟩

variable [QualifierLattice σ τ]

/-- Solving the stores of a disciplined session ends with an empty queue.  The domains found satisfy
the equations of all stores, and they are within every family that does.  The variable that was made
to join two stores binds exactly what they bind, in every later session in which the edges into its
class are those of its making. -/
theorem solve_finds_least_domains (h : Disciplined s) :
    (s.graph.solveDomains s.graph.solve.members).queue = [] ∧
      s.graph.DomainsAgree s.graph.boundBy ∧
      (∀ D, s.graph.DomainsAgree D → ∀ i, s.graph.boundBy i ⊆ D i) ∧
      ∀ s₀ s₁ position message x y z, Disciplined s₀ →
        (Command.joinStores position message x y).Known s₀.graph →
        s₀.exec (.joinStores position message x y) = .ok (.store z, s₁) → DisciplinedRun s₁ s →
        (∀ (n : Nat) edge, s.graph.stores.edges[n]? = some edge →
          s.graph.stores.root edge.right = s.graph.stores.root z →
          s₀.graph.stores.edges.size ≤ n ∧ n < s₁.graph.stores.edges.size) →
        s.graph.boundBy (s.graph.stores.root z) =
          s.graph.boundBy (s.graph.stores.root x) ∪ s.graph.boundBy (s.graph.stores.root y) := by
  have hs := h.coherent.sound
  have hnamed := h.layered.named
  refine ⟨hnamed.queue_solveDomains hs _, hnamed.domainsAgree hs,
    fun D hD i => hnamed.boundBy_subset hs hD i, ?_⟩
  intro s₀ s₁ position message x y z h₀ hknown hexec hrun hedges
  obtain ⟨⟨z', s₁'⟩, hjoin, heq⟩ := bind_eq_ok_iff.1 (perform_eq_ok_of_exec hexec)
  cases heq
  have h₁ : Disciplined s₁ := h₀.run (.exec .refl hknown hexec)
  have hext := (hrun.grows (P := True) h₁.coherent.sound fun _ _ hc _ => hc).toExtends
  refine boundBy_joined h₀.coherent.sound hs hnamed ?_ ?_ hjoin hext hedges
  · exact hknown.store_lt x (by simp [Command.stores])
  · exact hknown.store_lt y (by simp [Command.stores])

/-- Two allocations on one variable. -/
def forkScript : List (Command Int) :=
  [.makeLocation "x" 0, .makeLocation "y" 0, .storeVariable .internal "base",
    .allocate .internal ⟨0⟩ ⟨0⟩, .allocate .internal ⟨0⟩ ⟨1⟩]

/-- What flows out of the joint flows back into the variable, and the joint becomes another
variable. -/
def returnScript : List (Command Int) :=
  [.includeStore .internal "back" ⟨3⟩ ⟨0⟩, .storeVariable .internal "again",
    .mergeStores .internal "same" ⟨4⟩ ⟨3⟩]

theorem solve_finds_least_domains_fork :
    ∃ s : Session Level Int, Disciplined s ∧
      (s.graph.solveDomains s.graph.solve.members).queue = [] ∧
      s.graph.boundBy (s.graph.stores.root ⟨3⟩) =
        s.graph.boundBy (s.graph.stores.root ⟨1⟩) ∪ s.graph.boundBy (s.graph.stores.root ⟨2⟩) ∧
      s.graph.classOf ⟨0⟩ ∈ s.graph.boundBy (s.graph.stores.root ⟨3⟩) ∧
      s.graph.classOf ⟨1⟩ ∈ s.graph.boundBy (s.graph.stores.root ⟨3⟩) := by
  have hrun : (follow (fun s c => c.Known s.graph) (start ⟨2, false⟩ Level.mk) forkScript).any
      fun s₀ => succeeds (s₀.exec (.joinStores .internal "join" ⟨1⟩ ⟨2⟩)) fun p =>
        (follow (fun s c => c.Known s.graph) p.2 returnScript).any fun s => List.and
          [p.1 = .store ⟨3⟩,
            (Command.joinStores .internal "join" ⟨1⟩ ⟨2⟩ : Command Int).Known s₀.graph,
            s₀.graph.stores.edges.size = 0, p.2.graph.stores.edges.size = 2,
            (s.graph.stores.edgesInto (s.graph.stores.root ⟨3⟩)).map Prod.snd = [0, 1],
            s.graph.stores.root ⟨1⟩ = 1, s.graph.stores.root ⟨2⟩ = 2,
            s.graph.stores.nodeAt 1 = .allocate ⟨0⟩ ⟨0⟩ 0,
            s.graph.stores.nodeAt 2 = .allocate ⟨0⟩ ⟨1⟩ 0] := by
    decide +kernel
  simp only [Option.any_eq_true, succeeds_eq_true, and_decide_cons, List.and_nil, and_true] at hrun
  obtain ⟨s₀, hfork, ⟨_, s₁⟩, hexec, s, hreturn, rfl, hknown, hfirst, hlast, hinto, hroot₁, hroot₂,
    hnode₁, hnode₂⟩ := hrun
  dsimp only at hlast
  have h₀ : Disciplined s₀ := reachableBy_of_follow hfork
  have hreturned : DisciplinedRun s₁ s := runs_of_follow hreturn
  have h : Disciplined s := (h₀.run (.exec .refl hknown hexec)).run hreturned
  obtain ⟨hqueue, hagree, -, hjoined⟩ := solve_finds_least_domains h
  have hbound := hjoined s₀ s₁ .internal "join" ⟨1⟩ ⟨2⟩ ⟨3⟩ h₀ hknown hexec hreturned (by
      intro n edge hedge hright
      have hn : n ∈ [0, 1] :=
        hinto ▸ List.mem_map.2 ⟨(edge, n), Stores.mem_edgesInto.2 ⟨hedge, hright⟩, rfl⟩
      simp only [List.mem_cons, List.not_mem_nil, or_false] at hn
      omega)
  refine ⟨s, h, hqueue, hbound, ?_, ?_⟩
  · rw [hbound, hroot₁, hagree.allocate 1 _ _ _ hnode₁]
    exact Or.inl (Set.mem_insert _ _)
  · rw [hbound, hroot₂, hagree.allocate 2 _ _ _ hnode₂]
    exact Or.inr (Set.mem_insert _ _)

end Session

end HeapQual
