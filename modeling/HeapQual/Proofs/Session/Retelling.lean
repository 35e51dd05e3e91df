import HeapQual.Lattice.Level
import HeapQual.Proofs.Session.MarkedOnly
import HeapQual.Proofs.Session.Speaking

/-!
# When an edge is told again

What was sent is marked, so that it is not sent again: an update by its position, an edge by its
number and the representative that the class of the location had at the time.  So an update is told
once in a session, and an edge once at every representative, and each rejection is reported once
(`Session.told_once_per_representative`).

When locations are merged, the class may get another representative.  Nothing bears a mark with the
new one, and then the edge is told for the same class again, even between the same types, and
rejected again (`Session.told_once_per_representative_moved`).
-/

namespace HeapQual

open Relation (ReflTransGen)

variable {σ τ : Type} {command : Command τ}

/-! ## Accounts -/

/-- If the reason is an edge at a location, the location represents its class. -/
def Graph.Represents (g : Graph τ) (reason : Reason) : Prop :=
  ∀ number a, reason = .edge number a → g.classOf ⟨a⟩ = a

/-- No two of these are about the same edge and representative, or about the same update. -/
def Apart (told : List (Telling τ)) : Prop :=
  told.Pairwise fun t t' => t.reason.Markable → ¬t.reason.SameMark t'.reason

lemma Apart.nodup {told : List (Telling τ)} (h : Apart told) :
    (told.filterMap (·.reason.mark?)).Nodup := by
  rw [List.Nodup, List.pairwise_filterMap]
  refine h.imp fun {t t'} hne mark hmark mark' hmark' heq => ?_
  refine hne (Reason.markable_iff.2 ⟨mark, hmark⟩) (Reason.sameMark_iff.2 ?_)
  rw [hmark, hmark', heq]

namespace Flow

variable {g : Graph τ} {f f' f'' : Flow σ τ} {new : List (Telling τ)}

/-- Of what was told between the two flows, nothing about edges and updates was marked before, all
of it is marked now, and edges were told at representatives. -/
structure Accounts (g : Graph τ) (f f' : Flow σ τ) : Prop where
  marked : ∀ reason, f.Marked reason → f'.Marked reason
  exists_tells : ∃ new, f.talk.Tells new f'.talk ∧ Apart new ∧ ∀ t ∈ new, t.reason.Markable →
    g.Represents t.reason ∧ ¬f.Marked t.reason ∧ f'.Marked t.reason

namespace Accounts

/-- Nothing about edges and updates was told. -/
lemma of_unmarkable (htells : f.talk.Tells new f'.talk) (hnew : ∀ t ∈ new, ¬t.reason.Markable)
    (hmarked : ∀ reason, f.Marked reason → f'.Marked reason) : f.Accounts g f' := by
  refine ⟨hmarked, new, htells, ?_, fun t ht hmark => absurd hmark (hnew t ht)⟩
  exact List.pairwise_of_forall_mem_list fun t ht _ _ hmark => absurd hmark (hnew t ht)

lemma refl (f : Flow σ τ) : f.Accounts g f :=
  .of_unmarkable (.refl _) (fun _ ht => absurd ht List.not_mem_nil) fun _ h => h

lemma trans (h : f.Accounts g f') (h' : f'.Accounts g f'') : f.Accounts g f'' := by
  obtain ⟨hmarked, new, htells, hapart, hnew⟩ := h
  obtain ⟨hmarked', new', htells', hapart', hnew'⟩ := h'
  refine ⟨fun reason hreason => hmarked' _ (hmarked _ hreason), new' ++ new,
    htells.trans htells', ?_, fun t ht hmark => ?_⟩
  · refine List.pairwise_append.2 ⟨hapart', hapart, fun t ht t' ht' hmark hsame => ?_⟩
    have hmark' : t'.reason.Markable := by
      rw [Reason.markable_iff, ← Reason.sameMark_iff.1 hsame]
      exact Reason.markable_iff.1 hmark
    exact (hnew' t ht hmark).2.1
      ((hnew t' ht' hmark').2.2.of_sameMark ⟨hsame.1.symm, hsame.2.symm⟩)
  · rcases List.mem_append.1 ht with ht | ht
    · obtain ⟨hroot, hunmarked, hmarked₂⟩ := hnew' t ht hmark
      exact ⟨hroot, fun h => hunmarked (hmarked _ h), hmarked₂⟩
    · obtain ⟨hroot, hunmarked, hmarked₁⟩ := hnew t ht hmark
      exact ⟨hroot, hunmarked, hmarked' _ hmarked₁⟩

lemma of_books [QualifierLattice σ τ] (h : f.Books g.Represents f') : f.Accounts g f' := by
  obtain ⟨new, htells, hpairwise, hnew⟩ := h.exists_tells
  have hapart : Apart new := by
    refine List.Pairwise.imp ?_ hpairwise
    exact fun hne _ => hne
  exact ⟨h.marked, new, htells, hapart, fun t ht _ => hnew t ht⟩

end Accounts

end Flow

namespace Session

variable {P : Prop} {s s' : Session σ τ} [QualifierLattice σ τ]

lemma Builds.accounts {g : Graph τ} (h : Builds P command s s') : s.flow.Accounts g s'.flow := by
  obtain ⟨-, new, htells, hnew⟩ := h.says_locations
  exact .of_unmarkable htells (fun t ht => hnew t ht ▸ Reason.not_markable_locations)
    fun reason => (h.keeps.2.2 reason).2

/-- Cells are settled at representatives, because only those are bound. -/
lemma Coherent.accounts_settle {sol : Solution} (hs : s.Coherent) (hsol : s.solution = some sol)
    (demoted : List Nat) (f : Flow σ τ) (seeds : List Cell) :
    f.Books s.graph.Represents (f.settle ⟨s.graph, sol, demoted⟩ seeds) := by
  cases hs.solution_eq sol hsol
  refine Flow.books_settle _ f seeds (fun number store a hbinds number' a' heq => ?_)
    fun store a number' a' heq => by cases heq
  cases heq
  exact (hs.named (by simp [hsol])).root_of_binds hs.sound hbinds

lemma Coherent.accounts_foldl_demote {sol : Solution} (hs : s.Coherent)
    (hsol : s.solution = some sol) (sites : List UpdateSite) (s₁ : Session σ τ)
    (hgraph : s₁.graph = s.graph) :
    s₁.flow.Books s.graph.Represents (sites.foldl (demote sol) s₁).flow := by
  induction sites generalizing s₁ with
  | nil => exact .refl _
  | cons site sites ih =>
    refine Flow.Books.trans ?_ (ih (demote sol s₁ site) hgraph)
    have hnote : s₁.flow.Books s.graph.Represents (s₁.note (.updateDemoted
        (s₁.graph.locations.nameOf site.location) ⟨site.store⟩)).flow :=
      .of_nil (.single (.note _)) (Dialogue.tells_note ..) fun _ h => h
    have hsettle := hs.accounts_settle hsol s₁.linearities.demoted
    rw [← hgraph] at hsettle hnote ⊢
    refine (hnote.trans (Flow.books_sendUpdate (s₁.view sol) _ site.store ?_)).trans
      (hsettle _ [⟨site.base, site.location⟩])
    intro location number a heq
    cases heq

lemma Ask.accounts (hs : s.Coherent) (h : Ask command s s') : s.flow.Accounts s.graph s'.flow := by
  cases h with
  | chat hchat =>
    obtain ⟨talk, questions, reported, rfl, hspeaks⟩ := hchat
    exact .of_unmarkable hspeaks.toSays.tells (fun _ ht => absurd ht List.not_mem_nil) fun _ h => h
  | solve =>
    obtain ⟨new, htells, hnew, -⟩ := Flow.rekey_spec s.graph s.flow
    exact .of_unmarkable htells (fun t ht => hnew t ht ▸ Reason.not_markable_cells) fun _ h => h
  | discharge => exact .refl _
  | close => exact .refl _
  | settle seeds hsol => exact .of_books (hs.accounts_settle hsol _ _ seeds)
  | read c hsol => exact .of_books (Flow.books_read _ _ c)
  | @linearize sol hphase hsol =>
    exact .of_books (hs.accounts_foldl_demote hsol _ { s with
      linearities := tabulate (s.graph.solveSupplies sol).values (updateSites s.graph)
      phase := .linearized } rfl)

/-- Whatever a command does, it tells what is not marked yet, and marks it. -/
theorem Moves.accounts (hs : s.Coherent) (h : Moves P command s s') :
    s.flow.Accounts s'.graph s'.flow := by
  rcases h with h | ⟨h, -⟩
  · exact Builds.accounts h
  · induction h with
    | refl => exact .refl _
    | tail hasks hmove ih =>
      have hgraph := Asks.graph_eq hasks
      rw [hmove.graph_eq]
      exact ih.trans (hmove.accounts (hs.asks hasks))

/-! ## Every session -/

/-- Everything told about edges and updates is marked, and nothing was told twice. -/
structure Booked (s : Session σ τ) : Prop where
  apart : Apart (tellings s.talk.journal)
  marked : ∀ t ∈ tellings s.talk.journal, s.flow.Marked t.reason

omit [QualifierLattice σ τ] in
lemma Booked.start (config : Config) (lattice : σ) (orders : List (List Nat)) :
    (Session.start config lattice orders : Session σ τ).Booked :=
  ⟨.nil, fun _ ht => absurd ht List.not_mem_nil⟩

omit [QualifierLattice σ τ] in
lemma Booked.accounts {g : Graph τ} (hs : s.Booked) (h : s.flow.Accounts g s'.flow) :
    s'.Booked := by
  obtain ⟨hmarked, new, htells, hapart, hnew⟩ := h
  have htellings : tellings s'.talk.journal = new ++ tellings s.talk.journal := htells.tellings_eq
  refine ⟨?_, fun t ht => ?_⟩
  · rw [htellings]
    refine List.pairwise_append.2 ⟨hapart, hs.apart, fun t ht t' ht' hmark hsame => ?_⟩
    exact (hnew t ht hmark).2.1 ((hs.marked t' ht').of_sameMark ⟨hsame.1.symm, hsame.2.symm⟩)
  · rw [htellings] at ht
    rcases List.mem_append.1 ht with ht | ht
    · by_cases hmark : t.reason.Markable
      · exact (hnew t ht hmark).2.2
      · refine ⟨fun key hkey => ?_, fun store hstore => ?_⟩
        · exact absurd (Or.inl ⟨key, hkey⟩) hmark
        · exact absurd (Or.inr ⟨store, hstore⟩) hmark
    · exact hmarked _ (hs.marked t ht)

variable {allowed : Session σ τ → Command τ → Prop}

theorem ReachableBy.booked (h : ReachableBy allowed s) : s.Booked := by
  obtain ⟨config, lattice, orders, hrun⟩ := h
  induction hrun with
  | refl => exact .start config lattice orders
  | exec hrun _ hexec ih =>
    have hs := ReachableBy.coherent ⟨config, lattice, orders, hrun⟩
    exact ih.accounts ((exec_moves (P := False) hs.sound False.elim hexec).accounts hs)
  | withLattice lattice _ ih => exact ⟨ih.apart, ih.marked⟩

theorem ReachableBy.fair (h : ReachableBy allowed s) : s.talk.Fair := by
  obtain ⟨config, lattice, orders, hrun⟩ := h
  induction hrun with
  | refl => exact rfl
  | exec hrun _ hexec ih =>
    have hs := ReachableBy.coherent ⟨config, lattice, orders, hrun⟩
    exact ih.speaks (exec_speaks hs.sound hexec)
  | withLattice lattice _ ih => exact ih

/-- Every rejection is reported once, so no edge at a representative, and no update, is reported
twice. -/
lemma ReachableBy.nodup_reports (h : ReachableBy allowed s) :
    ((diagnostics s.talk.journal).filterMap Diagnostic.mark?).Nodup := by
  have hfair : (diagnostics s.talk.journal).filterMap Diagnostic.mark? =
      (rejections s.talk.journal).filterMap Reason.mark? := h.fair
  have hsublist := (rejections_sublist s.talk.journal).filterMap Reason.mark?
  rw [List.filterMap_map] at hsublist
  rw [hfair]
  exact hsublist.nodup h.booked.apart.nodup

/-- An edge is told at most once at every representative of locations, an update at most once, and a
rejection is reported once.  What a command tells about an edge, it tells at a location that
represents its class; so if the edge was told at a location of the class before, that location no
longer represents the class.  And the edge is told again then: asking for the type of a cell tells
every edge into the cells it depends on, at every representative at which it was not told yet. -/
theorem told_once_per_representative (h : Reachable s) {c : Command τ} {reply : Reply τ}
    (hexec : s.exec c = .ok (reply, s')) :
    ((tellings s'.talk.journal).filterMap (·.reason.mark?)).Nodup ∧
      ((diagnostics s'.talk.journal).filterMap Diagnostic.mark?).Nodup ∧
      ∃ new, s.talk.Tells new s'.talk ∧
        (∀ t ∈ new, ∀ number a, t.reason = .edge number a → s'.graph.classOf ⟨a⟩ = a ∧
          ∀ t₀ ∈ tellings s.talk.journal, ∀ a₀, t₀.reason = .edge number a₀ →
            s'.graph.classOf ⟨a₀⟩ = a → s'.graph.classOf ⟨a₀⟩ ≠ a₀) ∧
        ∀ x b type, Disciplined s → c = .typeAt x b → reply = .type? (some type) →
          ∀ d number lower, (s'.view s'.graph.solve).Cone
              ⟨s'.graph.stores.root x, s'.graph.classOf b⟩ d →
            (s'.view s'.graph.solve).Demands d (.edge number d.location) lower →
            ((∃ t ∈ new, t.reason = .edge number d.location) ↔
              ∀ t₀ ∈ tellings s.talk.journal, t₀.reason ≠ .edge number d.location) := by
  have hs' : Reachable s' := ReachableBy.run h (.exec .refl trivial hexec)
  have hbooked := ReachableBy.booked h
  have hcoherent := ReachableBy.coherent h
  obtain ⟨-, new, htells, -, hnew⟩ :=
    (exec_moves (P := False) hcoherent.sound False.elim hexec).accounts hcoherent
  have hfresh : ∀ t ∈ new, ∀ number a, t.reason = .edge number a →
      ∀ t₀ ∈ tellings s.talk.journal, t₀.reason ≠ .edge number a := by
    intro t ht number a hreason t₀ ht₀ hreason₀
    refine (hnew t ht ?_).2.1 ?_
    · exact Or.inl ⟨_, congrArg Reason.edge? hreason⟩
    · rw [hreason, ← hreason₀]
      exact hbooked.marked t₀ ht₀
  refine ⟨(ReachableBy.booked hs').apart.nodup, hs'.nodup_reports, new, htells, ?_, ?_⟩
  · intro t ht number a hreason
    have hroot := (hnew t ht (Or.inl ⟨_, congrArg Reason.edge? hreason⟩)).1 number a hreason
    refine ⟨hroot, fun t₀ ht₀ a₀ hreason₀ hclass hmoved => ?_⟩
    exact hfresh t ht number a hreason t₀ ht₀ (by rw [hreason₀, ← hmoved, hclass])
  · rintro x b type hdisciplined rfl rfl d number lower hcone hdemand
    constructor
    · rintro ⟨t, ht, hreason⟩ t₀ ht₀
      exact hfresh t ht number d.location hreason t₀ ht₀
    · intro hnever
      obtain ⟨htypeAt, h', -⟩ := hdisciplined.typeAt_of_exec hexec
      obtain ⟨-, -, -, hbound, -⟩ := settled_of_typeAt hdisciplined htypeAt
      have hledger := h'.ledger
      have hmarked := handledOn_of_typeAt hdisciplined hexec rfl hbound d hcone _ _ hdemand
      obtain ⟨t, ht, hmark⟩ := hmarked.exists_telling hdemand.markable hledger.sentEdges_eq
        hledger.sentUpdates_eq
      have hreason : t.reason = .edge number d.location := by
        have hedge : t.reason.edge? = some (number, d.location) := hmark.1
        cases hreason : t.reason <;> simp_all [Reason.edge?]
      rcases htells.mem_tellings.1 ht with ht | ht
      · exact ⟨t, ht, hreason⟩
      · exact absurd hreason (hnever t ht)

/-- An update that does not fit flows into `r`.  After the session was linearized, the location is
merged into another one, which represents both from then on. -/
def movedScript : List (Command Int) :=
  [.makeLocation "x" 0, .storeVariable .internal "base", .update .internal "write" ⟨0⟩ ⟨0⟩ 5 true,
    .storeVariable .internal "r", .includeStore .internal "in" ⟨1⟩ ⟨2⟩, .close, .linearize,
    .makeLocation "y" 0, .mergeLocations .internal ⟨1⟩ ⟨0⟩]

/-- The edge is told again for the same class between the same types, and rejected again. -/
theorem told_once_per_representative_moved :
    ∃ s s' : Session Level Int, Disciplined s ∧
      s.exec (.typeAt ⟨2⟩ ⟨1⟩) = .ok (.type? (some 0), s') ∧
      s'.graph.classOf ⟨0⟩ = s'.graph.classOf ⟨1⟩ ∧
      ⟨.edge 0 0, 5, 0⟩ ∈ tellings s.talk.journal ∧
      (∃ new, s.talk.Tells new s'.talk ∧ ⟨.edge 0 1, 5, 0⟩ ∈ new) ∧
      (diagnostics s'.talk.journal).map Diagnostic.message = ["in", "in"] ∧
      ((diagnostics s'.talk.journal).filterMap Diagnostic.mark?).Nodup := by
  have hrun : (follow (fun s c => c.Known s.graph) (start ⟨2, false⟩ Level.mk) movedScript).any
      fun s => succeeds (s.exec (.typeAt ⟨2⟩ ⟨1⟩)) fun p => List.and
        [p.1 = .type? (some 0),
          tellings s.talk.journal = [⟨.locations, 0, 0⟩, ⟨.locations, 0, 0⟩, ⟨.edge 0 0, 5, 0⟩],
          tellings p.2.talk.journal = [⟨.edge 0 1, 5, 0⟩, ⟨.locations, 0, 0⟩, ⟨.locations, 0, 0⟩,
            ⟨.edge 0 0, 5, 0⟩],
          (diagnostics p.2.talk.journal).map Diagnostic.message = ["in", "in"],
          p.2.graph.stores.edges[0]? = some ⟨⟨1⟩, ⟨2⟩, .internal, "in"⟩,
          p.2.graph.classOf ⟨0⟩ = 1, p.2.graph.classOf ⟨1⟩ = 1, p.2.graph.stores.root ⟨1⟩ = 1,
          p.2.graph.stores.root ⟨2⟩ = 2, p.2.graph.solve.binds 1 1 = true] := by
    decide +kernel
  simp only [Option.any_eq_true, succeeds_eq_true, and_decide_cons, List.and_nil, and_true] at hrun
  obtain ⟨s, hfollow, ⟨_, s'⟩, hread, rfl, hbefore, hafter, hmessages, hedge, hx, hy, h₁, h₂,
    hbinds⟩ := hrun
  have hdisciplined : Disciplined s := reachableBy_of_follow hfollow
  have hcone : (s'.view s'.graph.solve).Cone
      ⟨s'.graph.stores.root ⟨2⟩, s'.graph.classOf ⟨1⟩⟩ ⟨2, 1⟩ := by
    rw [h₂, hy]
    exact .start
  have hdemand : (s'.view s'.graph.solve).Demands ⟨2, 1⟩ (.edge 0 1) ⟨1, 1⟩ := by
    have hleft : (s'.view s'.graph.solve).storeRoot ⟨1⟩ = 1 := h₁
    have hbase := View.Demands.edge (v := s'.view s'.graph.solve) (c := ⟨2, 1⟩) hedge h₂
      (hleft.symm ▸ hbinds)
    rw [hleft] at hbase
    exact hbase
  obtain ⟨-, hreports, new, htells, -, hagain⟩ :=
    told_once_per_representative hdisciplined.reachable hread
  refine ⟨s, s', hdisciplined, hread, hx.trans hy.symm, ?_, ⟨new, htells, ?_⟩, hmessages, hreports⟩
  · rw [hbefore]
    decide
  · -- It was not told at the new representative before, so it is told now.
    obtain ⟨t, ht, hreason⟩ := (hagain ⟨2⟩ ⟨1⟩ 0 hdisciplined rfl rfl ⟨2, 1⟩ 0 ⟨1, 1⟩ hcone
      hdemand).2 (by rw [hbefore]; decide)
    have hmem := htells.mem_tellings.2 (Or.inl ht)
    have honly : ∀ t ∈ tellings s'.talk.journal, t.reason = .edge 0 1 → t = ⟨.edge 0 1, 5, 0⟩ := by
      rw [hafter]
      decide
    rwa [honly t hmem hreason] at ht

end Session

end HeapQual
