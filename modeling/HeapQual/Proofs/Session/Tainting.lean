import HeapQual.Proofs.Session.Speaking
import HeapQual.Proofs.Session.Standing
import HeapQual.Proofs.Taint
import Mathlib.Data.Option.NAry

/-!
# Taint from end to end

Over the taint lattice, a caller makes variables and constants, and carries out commands.  A
`Chronicle` keeps beside the session what the caller has put in: the tainted constants, and the
types that were equated because the locations that hold them were merged.

When a session in which all cells count was closed and linearized, and nothing has grown since it
was closed, the type of a cell is tainted just if a tainted constant reaches it along flows of the
graph and types that were equated (`Chronicle.tainted_iff_reached`).  Neither the order in which
flows were told matters, nor when they were, nor do cycles.
-/

namespace HeapQual

open Relation (ReflTransGen)

/-! ## Types that are equated -/

variable {σ τ : Type}

/-- The types that a command equates, because it merges the locations that hold them. -/
def Command.equates (g : Graph τ) : Command τ → List (τ × τ)
  | mergeLocations _ a b =>
    if g.classOf a = g.classOf b then []
    else
      (Option.map₂ Prod.mk (g.locations.held? (g.classOf a))
        (g.locations.held? (g.classOf b))).toList
  | _ => []

/-- The two types are among those that were equated. -/
def Joined (equated : List (τ × τ)) (l r : τ) : Prop := (l, r) ∈ equated ∨ (r, l) ∈ equated

lemma not_joined_nil {l r : τ} : ¬Joined [] l r := by simp [Joined]

lemma joined_append {equated equated' : List (τ × τ)} {l r : τ} :
    Joined (equated ++ equated') l r ↔ Joined equated l r ∨ Joined equated' l r := by
  unfold Joined
  rw [List.mem_append, List.mem_append, or_or_or_comm]

/-- It does not matter which of two types comes first. -/
lemma joined_pair_comm {l? r? : Option τ} {l r : τ} :
    Joined (Option.map₂ Prod.mk l? r?).toList l r ↔
      Joined (Option.map₂ Prod.mk r? l?).toList l r := by
  cases l? <;> cases r? <;> simp [Joined, or_comm, and_comm]

/-- What the lattice is told when these types are equated. -/
def equating (equated : List (τ × τ)) : List (Telling τ) :=
  equated.flatMap fun (l, r) => [⟨.locations, r, l⟩, ⟨.locations, l, r⟩]

lemma mem_equating_iff {equated : List (τ × τ)} {l r : τ} :
    ⟨.locations, l, r⟩ ∈ equating equated ↔ Joined equated l r := by
  simp only [equating, Joined, List.mem_flatMap, List.mem_cons, List.not_mem_nil, or_false,
    Telling.mk.injEq, true_and, Prod.exists]
  constructor
  · rintro ⟨l', r', hmem, ⟨rfl, rfl⟩ | ⟨rfl, rfl⟩⟩
    · exact Or.inr hmem
    · exact Or.inl hmem
  · rintro (hmem | hmem)
    · exact ⟨l, r, hmem, Or.inr ⟨rfl, rfl⟩⟩
    · exact ⟨r, l, hmem, Or.inl ⟨rfl, rfl⟩⟩

namespace Session

variable {s s' : Session σ τ} {l r : τ} [QualifierLattice σ τ]

lemma tells_equateHeld (s : Session σ τ) (position : Position) (a b : LocationId) (l r : τ) :
    s.talk.Tells [⟨.locations, r, l⟩, ⟨.locations, l, r⟩]
      (s.equateHeld position a b l r).talk := by
  have hequate := Dialogue.tells_equate s.talk .locations l r
  unfold equateHeld
  dsimp only
  split
  · exact hequate
  · exact hequate.trans (Dialogue.tells_report _ position _)

/-- Merging two locations tells the lattice, both ways, that the types they hold are equal. -/
lemma tells_mergeLocations (hs : s.graph.Sound) {position : Position} {a b : LocationId}
    (h : s.mergeLocations position a b = .ok s') :
    ∃ equated, s.talk.Tells (equating equated) s'.talk ∧ ∀ l r, Joined equated l r ↔
      Joined (Command.equates s.graph (.mergeLocations position a b)) l r := by
  obtain ⟨ra, -, h⟩ := bind_eq_ok_iff.1 h
  obtain ⟨rb, -, h⟩ := bind_eq_ok_iff.1 h
  have hgraph : (s.note (.locationsMerged a b)).graph = s.graph := rfl
  have hnote := Dialogue.tells_note s.talk (.locationsMerged a b)
  have hequates : Command.equates s.graph (.mergeLocations position a b) =
      if s.graph.locations.root a = s.graph.locations.root b then [] else
        (Option.map₂ Prod.mk (s.graph.locations.held? (s.graph.locations.root a))
          (s.graph.locations.held? (s.graph.locations.root b))).toList := rfl
  rw [hequates]
  simp only [hgraph] at h
  rcases hs.locations.merge_roots a b with ⟨hsame, hmerge⟩ | ⟨hne, survivor, child, hmerge, hroots⟩
  · rw [hmerge] at h
    cases h
    rw [if_pos hsame]
    exact ⟨[], hnote, fun _ _ => Iff.rfl⟩
  · rw [hmerge] at h
    -- Joining the classes does not change what they hold, and either of the two may survive.
    let joined := (s.graph.locations.shorten a b).join survivor child
    have hheld : ∀ root, joined.held? root = s.graph.locations.held? root :=
      Locations.held?_join (s.graph.locations.shorten a b) survivor child
    refine ⟨(Option.map₂ Prod.mk (joined.held? survivor) (joined.held? child)).toList, ?_, ?_⟩
    · simp only at h
      split at h
      · rename_i l r hl hr
        cases h
        rw [show joined.held? survivor = some l from hl, show joined.held? child = some r from hr]
        exact (hnote.trans (tells_equateHeld
          { s.note (.locationsMerged a b) with graph := { s.graph with locations := joined } }
          position a b l r)).trans (tells_forget _)
      · rename_i hnone
        cases h
        have hempty : Option.map₂ Prod.mk (joined.held? survivor) (joined.held? child) = none := by
          cases hl : joined.held? survivor with
          | none => rfl
          | some l =>
            cases hr : joined.held? child with
            | none => rfl
            | some r => exact absurd hr (hnone l r hl)
        rw [hempty]
        exact hnote.trans (tells_forget
          { s.note (.locationsMerged a b) with graph := { s.graph with locations := joined } })
    · intro l r
      rw [if_neg hne, hheld, hheld]
      rcases hroots with ⟨rfl, rfl⟩ | ⟨rfl, rfl⟩
      · exact Iff.rfl
      · exact joined_pair_comm

/-- Only merging locations tells the lattice about locations. -/
lemma told_of_exec (hs : s.graph.Sound) {c : Command τ} {reply : Reply τ}
    (h : s.exec c = .ok (reply, s')) :
    ⟨.locations, l, r⟩ ∈ tellings s'.talk.journal ↔
      Joined (c.equates s.graph) l r ∨ ⟨.locations, l, r⟩ ∈ tellings s.talk.journal := by
  by_cases hmerge : ∃ position a b, c = .mergeLocations position a b
  · obtain ⟨position, a, b, rfl⟩ := hmerge
    obtain ⟨s₁, hmerge, hreply⟩ := bind_eq_ok_iff.1 (perform_eq_ok_of_exec h)
    cases hreply
    obtain ⟨equated, htells, hequated⟩ := tells_mergeLocations hs hmerge
    rw [htells.mem_tellings, mem_equating_iff, hequated]
  · have hequates : c.equates s.graph = [] := by
      unfold Command.equates
      split
      · exact absurd ⟨_, _, _, rfl⟩ hmerge
      · rfl
    obtain ⟨new, htells, hnew⟩ := (exec_speaks hs h).toSays
    rw [hequates, or_iff_right not_joined_nil, htells.mem_tellings]
    refine or_iff_right fun hmem => ?_
    rcases hnew _ hmem with (hmark | hcells) | ⟨-, hmerged⟩
    · exact Reason.not_markable_locations hmark
    · cases hcells
    · cases c with
      | mergeLocations position a b => exact hmerge ⟨position, a, b, rfl⟩
      | _ => exact hmerged rfl

/-- A command that was carried out has put no question that the lattice could not answer. -/
lemma fault?_of_exec {c : Command τ} {reply : Reply τ} (h : s.exec c = .ok (reply, s')) :
    QualifierLattice.fault? (τ := τ) s'.lattice = none := by
  unfold exec at h
  obtain ⟨⟨reply₁, s₁⟩, -, h⟩ := bind_eq_ok_iff.1 h
  dsimp only at h
  split at h
  · cases h
  · rename_i hnone
    cases h
    exact hnone

end Session

/-! ## Chronicles -/

/-- A session over the taint lattice, with what its caller has put in. -/
structure Chronicle where
  session : Session Taint Int
  sources : List Nat
  equated : List (Int × Int)

namespace Chronicle

/-- A new session over the lattice without variables. -/
def start (config : Config) (orders : List (List Nat)) : Chronicle :=
  ⟨Session.start config Taint.empty orders, [], []⟩

/-- The session goes on with a lattice that has one more variable, with this lower bound. -/
def extend (h : Chronicle) (lattice : Taint) (lower : TaintValue) : Chronicle where
  session := h.session.withLattice lattice
  sources := if lower = .tainted then h.session.lattice.vars.size :: h.sources else h.sources
  equated := h.equated

/-- A variable is made. -/
def declare (h : Chronicle) (name : String) : Chronicle :=
  h.extend (h.session.lattice.declare name).2 .untainted

/-- A constant is made. -/
def constant (h : Chronicle) (value : TaintValue) : Chronicle :=
  h.extend (h.session.lattice.constant value).2 value

/-- A command was carried out that leads to this session. -/
def note (h : Chronicle) (c : Command Int) (s : Session Taint Int) : Chronicle where
  session := s
  sources := h.sources
  equated := c.equates h.session.graph ++ h.equated

variable {allowed : Session Taint Int → Command Int → Prop} {h h' : Chronicle}

/-- One step of the caller. -/
inductive Step (allowed : Session Taint Int → Command Int → Prop) : Chronicle → Chronicle → Prop
  | exec {h : Chronicle} {c : Command Int} {reply : Reply Int} {s : Session Taint Int} :
      allowed h.session c → h.session.exec c = .ok (reply, s) → Step allowed h (h.note c s)
  | declare {h : Chronicle} (name : String) : Step allowed h (h.declare name)
  | constant {h : Chronicle} (value : TaintValue) : Step allowed h (h.constant value)

/-- What a caller can do, by commands that are allowed. -/
abbrev Runs (allowed : Session Taint Int → Command Int → Prop) : Chronicle → Chronicle → Prop :=
  ReflTransGen (Step allowed)

lemma Runs.runs (hruns : Runs allowed h h') : Session.Runs allowed h.session h'.session := by
  induction hruns with
  | refl => exact .refl
  | tail _ hstep ih =>
    cases hstep with
    | exec hallowed hexec => exact ih.exec hallowed hexec
    | declare name => exact ih.withLattice _
    | constant value => exact ih.withLattice _

/-- Following a script. -/
lemma exists_runs_of_follow {allowed' : Session Taint Int → Command Int → Prop}
    [∀ s c, Decidable (allowed' s c)] (hallowed : ∀ s c, allowed' s c → allowed s c)
    {commands : List (Command Int)} {s : Session Taint Int}
    (hfollow : Session.follow allowed' h.session commands = some s) :
    ∃ equated, Runs allowed h ⟨s, h.sources, equated⟩ := by
  induction commands generalizing h with
  | nil =>
    cases hfollow
    exact ⟨h.equated, .refl⟩
  | cons c commands ih =>
    obtain ⟨hc, reply, s₁, hexec, hfollow⟩ := Session.follow_cons_eq_some_iff.1 hfollow
    obtain ⟨equated, hruns⟩ := ih (h := h.note c s₁) hfollow
    exact ⟨equated, .head (.exec (hallowed _ _ hc) hexec) hruns⟩

/-- The lattice has the constants of the chronicle and was told what the journal says, and what it
was told about locations is what was equated. -/
structure Accurate (h : Chronicle) : Prop where
  sound : h.session.graph.Sound
  fault_eq : h.session.lattice.fault = none
  traces : h.session.talk.Traces h.sources
  told_iff : ∀ l r, ⟨.locations, l, r⟩ ∈ tellings h.session.talk.journal ↔ Joined h.equated l r

lemma Accurate.start (config : Config) (orders : List (List Nat)) :
    (start config orders).Accurate :=
  ⟨Graph.Sound.start, rfl, fun _ => Taint.Records.empty, fun _ _ =>
    iff_of_false List.not_mem_nil not_joined_nil⟩

lemma Accurate.exec (hh : h.Accurate) {c : Command Int} {reply : Reply Int}
    {s : Session Taint Int} (hexec : h.session.exec c = .ok (reply, s)) :
    (h.note c s).Accurate where
  sound := ((Session.exec_moves (P := False) hh.sound False.elim hexec).grows hh.sound).sound
  fault_eq := Session.fault?_of_exec hexec
  traces := hh.traces.replays (Session.exec_speaks hh.sound hexec).replays
  told_iff l r := by
    rw [note, joined_append, ← hh.told_iff]
    exact Session.told_of_exec hh.sound hexec

/-- The caller makes a variable of its own. -/
lemma Accurate.extend (hh : h.Accurate) (name : String) (lower upper : TaintValue) :
    (h.extend (h.session.lattice.add name lower upper).2 lower).Accurate :=
  ⟨hh.sound, hh.fault_eq, hh.traces.add name lower upper, hh.told_iff⟩

lemma Accurate.runs (hh : h.Accurate) (hruns : Runs allowed h h') : h'.Accurate := by
  induction hruns with
  | refl => exact hh
  | tail _ hstep ih =>
    cases hstep with
    | exec _ hexec => exact ih.exec hexec
    | declare name => exact ih.extend name .untainted .tainted
    | constant value => exact ih.extend value.constantName value value

/-! ## What is tainted in the end -/

/-- Taint passes from one position to the other: the graph lets it flow, or the types were
equated. -/
def Conveys (s : Session Taint Int) (equated : List (Int × Int)) (i j : Nat) : Prop :=
  ∃ l r, Taint.position l = i ∧ Taint.position r = j ∧ (s.Flows l r ∨ Joined equated l r)

/-- A session in which all cells count is closed and linearized, and nothing grows after it was
closed.  Then the type that is given out for a cell is tainted if a tainted constant reaches it, and
only then.  On the way each type flows into the next, along an edge at a location that both its ends
bind or as the old contents of an update that is weak or demoted, or the two types were equated
when locations were merged. -/
theorem tainted_iff_reached {bits : Nat} {orders : List (List Nat)} {h₀ h : Chronicle}
    {s₁ s' : Session Taint Int} {reply : Reply Int} {x : StoreId} {a : LocationId} {q : Int}
    (hbuilt : Runs (fun s c => c.Known s.graph) (start ⟨bits, false⟩ orders) h₀)
    (hopened : h₀.session.phase = .opened) (hclose : h₀.session.exec .close = .ok (reply, s₁))
    (hquiet : Runs Session.Quiet (h₀.note .close s₁) h)
    (hasked : h.session.exec (.typeAt x a) = .ok (.type? (some q), s')) :
    s'.lattice.value q = .ok .tainted ↔
      ∃ source ∈ h.sources, ReflTransGen (Conveys s' h.equated) source (Taint.position q) := by
  have hrun : Session.DisciplinedRun _ h₀.session := hbuilt.runs
  have hdisciplined : h₀.session.Disciplined := ⟨_, _, _, hrun⟩
  have hall : h₀.session.config.markedOnly = false := by
    rw [hrun.config_eq ⟨_, _, _, .refl⟩]
    rfl
  -- Asking for the type makes nothing grow either.
  obtain ⟨hphase, hknown⟩ := Session.linearized_of_typeAt (Session.typeAt_eq_of_exec hasked)
  have hquiet' : Session.Quiet h.session (.typeAt x a) := Session.quiet_of_not_grows rfl hknown
  have hsince : Session.QuietRun s₁ s' := Session.Runs.exec hquiet.runs hquiet' hasked
  have haccurate := (((Accurate.start _ _).runs hbuilt).exec hclose).runs hquiet
  have hmoves := Session.exec_moves (P := True) haccurate.sound (fun _ => hknown) hasked
  have hphase' : s'.phase = .linearized := hmoves.phase_linearized hphase
  have hflows (l r : Int) :=
    hdisciplined.told_iff_flows (l := l) (r := r) hopened hall hclose hsince hphase'
  have hasked' := haccurate.exec hasked
  have hpasses : Taint.Passes (tellings s'.talk.journal) = Conveys s' h.equated := by
    funext i j
    refine propext ⟨?_, ?_⟩
    · rintro ⟨t, ht, hi, hj⟩
      refine ⟨t.lower, t.upper, hi, hj, ?_⟩
      by_cases hreason : t.reason = .locations
      · refine Or.inr ((hasked'.told_iff _ _).1 ?_)
        rwa [← hreason]
      · exact Or.inl ((hflows _ _).1 ⟨t, ht, hreason, rfl, rfl⟩)
    · rintro ⟨l, r, hi, hj, hflow | hjoined⟩
      · obtain ⟨t, ht, -, rfl, rfl⟩ := (hflows l r).2 hflow
        exact ⟨t, ht, hi, hj⟩
      · exact ⟨_, (hasked'.told_iff l r).2 hjoined, hi, hj⟩
  have hrecords := hasked'.traces hasked'.fault_eq
  rw [Taint.value_eq_tainted_iff, ← hpasses]
  exact hrecords.tainted_iff _

/-- A tainted constant and two variables. -/
def stocked : Chronicle := (((start ⟨2, false⟩ []).constant .tainted).declare "x").declare "y"

/-- Two locations are merged, and allocated twice in a row, so that strong updates are demoted.  One
update writes the tainted constant, which goes around in a cycle, and another one writes over it
what the second location holds.  What the first location holds is written elsewhere. -/
def overwritingScript : List (Command Int) :=
  [.makeLocation "x" 1, .makeLocation "y" 2, .mergeLocations .internal ⟨0⟩ ⟨1⟩,
    .storeVariable .internal "base", .allocate .internal ⟨0⟩ ⟨0⟩, .allocate .internal ⟨1⟩ ⟨1⟩,
    .update .internal "taint" ⟨2⟩ ⟨0⟩ 0 true, .storeVariable .internal "p",
    .storeVariable .internal "q", .includeStore .internal "in" ⟨3⟩ ⟨4⟩,
    .includeStore .internal "on" ⟨4⟩ ⟨5⟩, .includeStore .internal "back" ⟨5⟩ ⟨4⟩,
    .update .internal "over" ⟨4⟩ ⟨1⟩ 2 true, .update .internal "elsewhere" ⟨0⟩ ⟨0⟩ 1 false]

/-- What is written elsewhere is tainted, because a demoted update and the merge pass taint on.
What was allocated before the first update is not tainted. -/
theorem tainted_iff_reached_overwritten :
    ∃ (h₀ h : Chronicle) (s₁ s' s'' : Session Taint Int),
      Runs (fun s c => c.Known s.graph) (start ⟨2, false⟩ []) h₀ ∧ h₀.session.phase = .opened ∧
      (∃ reply, h₀.session.exec .close = .ok (reply, s₁)) ∧
      Runs Session.Quiet (h₀.note .close s₁) h ∧ h.sources = [0] ∧
      (h.session.exec (.typeAt ⟨7⟩ ⟨0⟩) = .ok (.type? (some 1), s') ∧
        ReflTransGen (Conveys s' h.equated) 0 1) ∧
      h.session.exec (.typeAt ⟨2⟩ ⟨0⟩) = .ok (.type? (some 3), s'') ∧
        ¬ReflTransGen (Conveys s'' h.equated) 0 3 := by
  have hrun : (Session.follow (fun s c => c.Known s.graph) stocked.session
      overwritingScript).any fun s₀ => succeeds (s₀.exec .close) fun p =>
        (Session.follow (fun s c => c.grows = false ∧ c.Known s.graph) p.2 [.linearize]).any
          fun s => succeeds (s.exec (.typeAt ⟨7⟩ ⟨0⟩)) fun p' =>
            succeeds (s.exec (.typeAt ⟨2⟩ ⟨0⟩)) fun p'' => List.and
              [s₀.phase = .opened, p'.1 = .type? (some 1), p''.1 = .type? (some 3),
                p'.2.lattice.value 1 = .ok .tainted, p''.2.lattice.value 3 = .ok .untainted] := by
    decide +kernel
  simp only [Option.any_eq_true, succeeds_eq_true, and_decide_cons, List.and_nil, and_true] at hrun
  obtain ⟨s₀, hfollow, ⟨reply, s₁⟩, hclose, s, hlinearize, ⟨_, s'⟩, hasked, ⟨_, s''⟩, hasked',
    hopened, rfl, rfl, hvalue, hvalue'⟩ := hrun
  have hstocked : Runs (fun s c => c.Known s.graph) (start ⟨2, false⟩ []) stocked :=
    ((ReflTransGen.single (.constant .tainted)).tail (.declare "x")).tail (.declare "y")
  obtain ⟨equated, hbuilt⟩ : ∃ equated, Runs (fun s c => c.Known s.graph) stocked
      ⟨s₀, [0], equated⟩ :=
    exists_runs_of_follow (fun _ _ hc => hc) hfollow
  obtain ⟨equated', hquiet⟩ : ∃ equated', Runs Session.Quiet
      (note ⟨s₀, [0], equated⟩ .close s₁) ⟨s, [0], equated'⟩ :=
    exists_runs_of_follow (fun _ _ hc => Session.quiet_of_not_grows hc.1 hc.2) hlinearize
  have hreached := tainted_iff_reached (hstocked.trans hbuilt) hopened hclose hquiet hasked
  have hreached' := tainted_iff_reached (hstocked.trans hbuilt) hopened hclose hquiet hasked'
  simp only [List.mem_singleton, exists_eq_left] at hreached hreached'
  refine ⟨_, _, s₁, s', s'', hstocked.trans hbuilt, hopened, ⟨reply, hclose⟩, hquiet, rfl,
    ⟨hasked, hreached.1 hvalue⟩, hasked', fun hpath => ?_⟩
  have htainted := hreached'.2 hpath
  rw [hvalue'] at htainted
  cases htainted

end Chronicle

end HeapQual
