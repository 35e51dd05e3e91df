import HeapQual.Proofs.Effect.Absorbing
import HeapQual.Proofs.Effect.Pieces

/-!
# What constraints make of a graph

Constraints merge locations, merge effect variables, and ask for inclusions.  The graph that comes
of them is described without regard to their order (`Graph.Constrained`): its classes are the
finest ones that join what was merged (`Forest.Joins`), and of the pieces of the inclusions those
that were not recorded are redundant for good.

So two graphs that come of the same constraints on one graph absorb each other
(`Graph.Constrained.agrees`), whichever roots their classes have and whichever pieces each of them
recorded.
-/

namespace HeapQual

namespace Forest

variable {f f' f'' : Forest} {pairs pairs' : List (Nat × Nat)}

/-- The classes of the second forest are the finest ones that join the classes of the first and the
given pairs. -/
structure Joins (pairs : List (Nat × Nat)) (f f' : Forest) : Prop where
  root_root : ∀ i, f'.root (f.root i) = f'.root i
  joined : ∀ p ∈ pairs, f'.root p.1 = f'.root p.2
  least : ∀ c : Nat → Nat, (∀ i, c (f.root i) = c i) → (∀ p ∈ pairs, c p.1 = c p.2) →
    ∀ i, c (f'.root i) = c i

namespace Joins

lemma trans (h : Joins pairs f f') (h' : Joins pairs' f' f'') : Joins (pairs ++ pairs') f f'' where
  root_root i := by rw [← h'.root_root, h.root_root, h'.root_root]
  joined p hp := by
    rcases List.mem_append.1 hp with hp | hp
    · rw [← h'.root_root p.1, h.joined p hp, h'.root_root]
    · exact h'.joined p hp
  least c hc hpairs := by
    refine h'.least c (h.least c hc fun p hp => ?_) fun p hp => ?_
    · exact hpairs p (List.mem_append_left _ hp)
    · exact hpairs p (List.mem_append_right _ hp)

/-- No root has to change if the pairs were in one class. -/
lemma of_root_eq (hf : f.Sound) (hroot : ∀ i, f'.root i = f.root i)
    (hpairs : ∀ p ∈ pairs, f.root p.1 = f.root p.2) : Joins pairs f f' where
  root_root i := by rw [hroot, hroot, hf.root_root]
  joined p hp := by rw [hroot, hroot, hpairs p hp]
  least c hc _ i := by rw [hroot, hc]

lemma refl (hf : f.Sound) : Joins [] f f :=
  of_root_eq hf (fun _ => rfl) fun _ hp => absurd hp List.not_mem_nil

/-- Hanging the one root under the other joins the pair, whichever of them survives. -/
lemma hang (hf : f.Sound) {child under i j : Nat} (hc : child ∈ f.roots) (hu : under ∈ f.roots)
    (hne : child ≠ under)
    (hij : f.root i = child ∧ f.root j = under ∨ f.root i = under ∧ f.root j = child) :
    Joins [(i, j)] f (f.hang child under) := by
  have hroot := hf.root_hang hc hu hne
  refine ⟨(Coarsens.hang hf hc hu hne).root_root, fun p hp => ?_, fun c hclass hpairs k => ?_⟩
  · rw [List.mem_singleton.1 hp, hroot, hroot]
    rcases hij with ⟨hi, hj⟩ | ⟨hi, hj⟩
    · rw [hi, hj, if_pos rfl, if_neg hne.symm]
    · rw [hi, hj, if_pos rfl, if_neg hne.symm]
  · have hpair : c i = c j := hpairs (i, j) (List.mem_singleton_self _)
    have hsame : c under = c child := by
      rw [← hclass i, ← hclass j] at hpair
      rcases hij with ⟨hi, hj⟩ | ⟨hi, hj⟩
      · rw [← hi, ← hj, hpair]
      · rw [← hi, ← hj, hpair]
    rw [hroot]
    split
    · rename_i hk
      rw [hsame, ← hk, hclass]
    · exact hclass k

/-- What joins at most the pairs of another forest does not tell its classes apart. -/
lemma root_root_of_subset (h : Joins pairs f f') (h' : Joins pairs' f f'')
    (hsub : ∀ p ∈ pairs', p ∈ pairs) (i : Nat) : f'.root (f''.root i) = f'.root i :=
  h'.least f'.root h.root_root (fun p hp => h.joined p (hsub p hp)) i

end Joins

end Forest

/-- Merging two locations joins them and nothing else. -/
lemma Locations.Sound.joins_merge {τ : Type} {t : Locations τ} (ht : t.Sound) {a b : LocationId}
    (ha : a.index < t.size) (hb : b.index < t.size) :
    t.classes.Joins [(a.index, b.index)] (t.merge a b).2.classes := by
  obtain ⟨hshort, hroot⟩ := ht.shorten a b
  have hra := ht.root_shorten_mem_roots ha a b
  have hrb := ht.root_shorten_mem_roots hb a b
  have hshorten : t.classes.Joins [] (t.shorten a b).classes :=
    .of_root_eq ht.classes hroot fun _ hp => absurd hp List.not_mem_nil
  rw [ht.merge_eq]
  by_cases hsame : t.root a = t.root b
  · rw [if_pos hsame]
    refine hshorten.trans (.of_root_eq hshort.classes (fun _ => rfl) fun p hp => ?_)
    rw [List.mem_singleton.1 hp, hroot, hroot]
    exact hsame
  · rw [if_neg hsame]
    split
    · exact hshorten.trans (.hang hshort.classes hrb hra (Ne.symm hsame)
        (Or.inr ⟨hroot a.index, hroot b.index⟩))
    · exact hshorten.trans (.hang hshort.classes hra hrb hsame
        (Or.inl ⟨hroot a.index, hroot b.index⟩))

namespace Graph

variable {τ : Type} {g g' g'' : Graph τ} {merged merged' united united' : List (Nat × Nat)}
  {asked asked' : List Inclusion}

/-! ## Constraining -/

/-- The second graph comes of merging these locations and these effects of the first one, and of
asking for these pieces of inclusions. -/
structure Constrained (merged united : List (Nat × Nat)) (asked : List Inclusion)
    (g g' : Graph τ) : Prop extends Extends g g' where
  sound : g'.Sound
  nodes_eq : g'.effects.nodes = g.effects.nodes
  stores_eq : g'.stores = g.stores
  size_eq : g'.locations.size = g.locations.size
  locations_joins : g.locations.classes.Joins merged g'.locations.classes
  effects_joins : g.effects.classes.Joins united g'.effects.classes
  /-- What is not recorded is redundant, however the graph grows. -/
  recorded : ∃ dropped, (g'.effects.inclusions.toList ++ dropped).Perm
      (g.effects.inclusions.toList ++ asked) ∧
    ∀ inc ∈ dropped, ∀ later, g'.Extends later → later.Sound → later.Redundant inc

namespace Constrained

lemma refl (hg : g.Sound) : Constrained [] [] [] g g where
  toExtends := .refl hg
  sound := hg
  nodes_eq := rfl
  stores_eq := rfl
  size_eq := rfl
  locations_joins := .refl hg.locations.classes
  effects_joins := .refl hg.effects.classes
  recorded := ⟨[], .refl _, fun _ h => absurd h List.not_mem_nil⟩

lemma trans (h : Constrained merged united asked g g')
    (h' : Constrained merged' united' asked' g' g'') :
    Constrained (merged ++ merged') (united ++ united') (asked ++ asked')
      g g'' where
  toExtends := h.toExtends.trans h'.toExtends
  sound := h'.sound
  nodes_eq := h'.nodes_eq.trans h.nodes_eq
  stores_eq := h'.stores_eq.trans h.stores_eq
  size_eq := h'.size_eq.trans h.size_eq
  locations_joins := h.locations_joins.trans h'.locations_joins
  effects_joins := h.effects_joins.trans h'.effects_joins
  recorded := by
    -- What was redundant in the first step is so in every later graph, hence also after the second.
    obtain ⟨dropped, hperm, hredundant⟩ := h.recorded
    obtain ⟨dropped', hperm', hredundant'⟩ := h'.recorded
    refine ⟨dropped' ++ dropped, ?_, fun inc hinc later hext hlater => ?_⟩
    · calc
        (g''.effects.inclusions.toList ++ (dropped' ++ dropped)).Perm
            (g'.effects.inclusions.toList ++ asked' ++ dropped) := by
          rw [← List.append_assoc]
          exact hperm'.append_right dropped
        List.Perm _ (g'.effects.inclusions.toList ++ dropped ++ asked') := by
          rw [List.append_assoc, List.append_assoc]
          exact List.perm_append_comm.append_left _
        List.Perm _ (g.effects.inclusions.toList ++ (asked ++ asked')) := by
          rw [← List.append_assoc]
          exact hperm.append_right asked'
    · rcases List.mem_append.1 hinc with hinc | hinc
      · exact hredundant' inc hinc later hext hlater
      · exact hredundant inc hinc later (h'.toExtends.trans hext) hlater

lemma size_effects_eq (h : Constrained merged united asked g g') :
    g'.effects.size = g.effects.size :=
  congrArg Array.size h.nodes_eq

end Constrained

/-! ## Agreement -/

/-- The graphs have the same effects, stores and numbers of locations, and each of them absorbs the
other. -/
structure Agrees (g g' : Graph τ) : Prop where
  left : g.Sound
  right : g'.Sound
  absorbs : g.Absorbs g'
  absorbed : g'.Absorbs g
  nodes_eq : g'.effects.nodes = g.effects.nodes
  stores_eq : g'.stores = g.stores
  size_eq : g'.locations.size = g.locations.size

lemma Agrees.symm (h : g.Agrees g') : g'.Agrees g :=
  ⟨h.right, h.left, h.absorbed, h.absorbs, h.nodes_eq.symm, h.stores_eq.symm, h.size_eq.symm⟩

namespace Constrained

variable (h : Constrained merged united asked g g')
  (h' : Constrained merged' united' asked' g g'')

include h h'

/-- A graph absorbs what comes of no more constraints than it does. -/
lemma absorbs (hmerged : ∀ p ∈ merged, p ∈ merged') (hunited : ∀ p ∈ united, p ∈ united')
    (hasked : ∀ inc ∈ asked, inc ∈ asked') : g'.Absorbs g'' := by
  have hcoarser : g'.Coarser g'' := by
    refine ⟨fun a => ?_, fun e => ?_, fun i _ => ?_⟩
    · exact h'.locations_joins.root_root_of_subset h.locations_joins hmerged a.index
    · exact h'.effects_joins.root_root_of_subset h.effects_joins hunited e.index
    · rw [Effects.nodeAt, Effects.nodeAt, h'.nodes_eq, h.nodes_eq]
  refine ⟨hcoarser, fun inc hinc hmentions => ?_⟩
  obtain ⟨dropped, hperm, -⟩ := h.recorded
  obtain ⟨dropped', hperm', hredundant'⟩ := h'.recorded
  -- A piece that the one graph recorded was recorded by the other, or it is redundant there.
  have hinc₁ : inc ∈ g.effects.inclusions.toList ++ asked :=
    hperm.subset (List.mem_append_left _ hinc.val)
  have hinc₂ : inc ∈ g.effects.inclusions.toList ++ asked' := by
    rcases List.mem_append.1 hinc₁ with hold | hnew
    · exact List.mem_append_left _ hold
    · exact List.mem_append_right _ (hasked inc hnew)
  rcases List.mem_append.1 (hperm'.symm.subset hinc₂) with hrecorded | hdropped
  · have hmentions' : g''.effects.MentionsVariable (g''.effects.root inc.target) :=
      hcoarser.root_root inc.target ▸ hcoarser.mentionsVariable h'.sound hmentions
    exact fun x hx => (h'.sound.effects.respects_members h'.sound.classOf_lt).inclusion inc
      (Array.mem_toList_iff.1 hrecorded) hmentions' hx
  · exact hredundant' inc hdropped g'' (.refl h'.sound) h'.sound

theorem agrees (hmerged : merged.Perm merged') (hunited : united.Perm united')
    (hasked : asked.Perm asked') : g'.Agrees g'' where
  left := h.sound
  right := h'.sound
  absorbs := h.absorbs h' (fun _ => hmerged.mem_iff.1) (fun _ => hunited.mem_iff.1)
    fun _ => hasked.mem_iff.1
  absorbed := h'.absorbs h (fun _ => hmerged.mem_iff.2) (fun _ => hunited.mem_iff.2)
    fun _ => hasked.mem_iff.2
  nodes_eq := h'.nodes_eq.trans h.nodes_eq.symm
  stores_eq := h'.stores_eq.trans h.stores_eq.symm
  size_eq := h'.size_eq.trans h.size_eq.symm

end Constrained

end Graph

end HeapQual
