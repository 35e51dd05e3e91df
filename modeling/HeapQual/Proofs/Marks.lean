import HeapQual.Proofs.Mirror.Flow
import HeapQual.Text.Dot

/-!
# Marks of effects do not show in the graph

A marked effect has its membership questions memoised.  Apart from that a mark is no part of what an
effect is: how expressions compare, split and print is the same whatever is marked
(`Effects.remark`), and cells are read and settled alike (`View.mirrors_remark`).
-/

namespace HeapQual

namespace Effects

/-- The table with other marks. -/
def remark (t : Effects) (marked : Array Bool) : Effects := { t with marked }

variable (t : Effects) (marked : Array Bool)

lemma hasVariables_remark (e : EffectId) : (t.remark marked).hasVariables e = t.hasVariables e := by
  have hfrom : ∀ fuel e, (t.remark marked).hasVariablesFrom fuel e = t.hasVariablesFrom fuel e := by
    intro fuel
    induction fuel with
    | zero => exact fun _ => rfl
    | succ fuel ih =>
      intro e
      simp only [hasVariablesFrom, ih]
      rfl
  exact hfrom t.size e

lemma leaves_remark (classOf : LocationId → Nat) (e : EffectId) :
    (t.remark marked).leaves classOf e = t.leaves classOf e := by
  have hfrom : ∀ fuel e,
      (t.remark marked).leavesFrom classOf fuel e = t.leavesFrom classOf fuel e := by
    intro fuel
    induction fuel with
    | zero => exact fun _ => rfl
    | succ fuel ih =>
      intro e
      simp only [leavesFrom, ih]
      rfl
  exact hfrom t.size e

lemma knownEqual_remark (classOf : LocationId → Nat) (e₁ e₂ : EffectId) :
    (t.remark marked).knownEqual classOf e₁ e₂ = t.knownEqual classOf e₁ e₂ := by
  unfold knownEqual
  rw [leaves_remark, leaves_remark]
  rfl

lemma split_remark (classOf : LocationId → Nat) (e₁ e₂ : EffectId) :
    (t.remark marked).split classOf e₁ e₂ = t.split classOf e₁ e₂ := by
  have hfrom : ∀ fuel e₁ e₂,
      (t.remark marked).splitFrom classOf fuel e₁ e₂ = t.splitFrom classOf fuel e₁ e₂ := by
    intro fuel
    induction fuel with
    | zero => exact fun _ _ => rfl
    | succ fuel ih =>
      intro e₁ e₂
      simp only [splitFrom, ih, knownEqual_remark]
      rfl
  exact hfrom (2 * t.size) e₁ e₂

lemma atoms_remark (e : EffectId) : (t.remark marked).atoms e = t.atoms e := by
  have hfrom : ∀ fuel e, (t.remark marked).atomsFrom fuel e = t.atomsFrom fuel e := by
    intro fuel
    induction fuel with
    | zero => exact fun _ => rfl
    | succ fuel ih =>
      intro e
      simp only [atomsFrom, ih]
      rfl
  exact hfrom t.size e

end Effects

namespace Graph

variable {τ : Type}

/-- The graph with other marks on its effects. -/
def remark (g : Graph τ) (marked : Array Bool) : Graph τ :=
  { g with effects := g.effects.remark marked }

variable (g : Graph τ) (marked : Array Bool)

/-! ## Texts -/

lemma effectText_remark (e : EffectId) : (g.remark marked).effectText e = g.effectText e := by
  have hfrom : ∀ fuel e, (g.remark marked).effectTextFrom fuel e = g.effectTextFrom fuel e := by
    intro fuel
    induction fuel with
    | zero => exact fun _ => rfl
    | succ fuel ih =>
      intro e
      simp only [effectTextFrom, ih]
      rfl
  exact hfrom g.effects.size e

lemma printEffect_remark (e : EffectId) : (g.remark marked).printEffect e = g.printEffect e := by
  unfold printEffect
  rw [effectText_remark]
  rfl

lemma storePieces_remark (root : Nat) :
    (g.remark marked).storePieces root = g.storePieces root := by
  unfold storePieces
  simp only [printEffect_remark]
  rfl

lemma printStore_remark (x : StoreId) : (g.remark marked).printStore x = g.printStore x := by
  unfold printStore
  simp only [storePieces_remark]
  rfl

lemma render_remark (style : Dot.Style) (roots : List StoreId) :
    Dot.render (g.remark marked) style roots = Dot.render g style roots := by
  have hnode : Dot.nodeLine (g.remark marked) style = Dot.nodeLine g style := by
    funext i
    unfold Dot.nodeLine
    rw [storePieces_remark]
    rfl
  unfold Dot.render Dot.lines
  rw [hnode]
  rfl

end Graph

/-! ## Cells -/

lemma StoreNode.mirrors_self {τ : Type} (n : StoreNode τ) : n.Mirrors Eq n := by
  cases n with
  | var name => exact .var name
  | restrict base e => exact .restrict base rfl
  | allocate base a fresh => exact .allocate base a fresh
  | overlay inside outside e => exact .overlay inside outside rfl
  | update base a type strong position message =>
    exact .update base a type strong position message

lemma View.mirrors_remark {τ : Type} (g : Graph τ) (marked : Array Bool) (sol : Solution)
    (demoted : List Nat) :
    View.Mirrors Eq ⟨g.remark marked, sol, demoted⟩ ⟨g, sol, demoted⟩ where
  locations_eq := rfl
  stores := ⟨rfl, fun i => (g.stores.nodeAt i).mirrors_self, rfl, rfl⟩
  mentions_eq := by
    rintro e _ rfl
    rfl
  domains_eq := rfl
  demoted_eq := rfl

end HeapQual
