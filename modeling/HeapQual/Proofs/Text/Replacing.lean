import Mathlib.Data.List.Basic
import Mathlib.Tactic.Common

/-!
# Replacing a character

A string is searched for a character from left to right.  The search cuts the string into matches,
which are replaced by a text, and into stretches without a match, which are kept.  So all that
happens to a string can be said of its characters one by one (`Text.toList_replace`).
-/

namespace HeapQual

namespace Text

open String.Slice.Pattern String.Slice.Pattern.Model

variable {s : String.Slice} {c : Char} {text : String}

/-- One step of a replacement: a match is replaced, and all else is kept. -/
def replaceStep (text sofar : String) : SearchStep s → String
  | .matched .. => sofar ++ text.toSlice
  | .rejected start stop => sofar ++ s.slice! start stop

/-- A stretch in which the search finds no match does not contain the character. -/
lemma not_mem_of_not_matchesAt {start stop : s.Pos} (hle : start ≤ stop)
    (h : ∀ pos, start ≤ pos → pos < stop → ¬ MatchesAt c pos) :
    c ∉ (s.slice start stop hle).copy.toList := by
  intro hmem
  obtain ⟨a, b, hab⟩ := List.append_of_mem hmem
  have hcopy : (s.slice start stop hle).copy =
      String.ofList a ++ (String.singleton c ++ String.ofList b) :=
    String.toList_injective (by simp [hab])
  obtain ⟨u, v, hstart, hstop⟩ := String.Slice.copy_slice_eq_iff_splits.1 ⟨hle, hcopy⟩
  rw [String.append_assoc] at hstart
  rw [← String.append_assoc] at hstop
  -- The character would be found between its neighbours.
  obtain ⟨mid, hmid⟩ : ∃ mid : s.Pos, mid.Splits (u ++ String.ofList a)
      (String.singleton c ++ String.ofList b ++ v) := ⟨_, hstart.splits_rotateRight⟩
  have hne : String.singleton c ++ String.ofList b ≠ "" := fun h =>
    absurd (congrArg String.toList h) (by simp)
  refine h mid ?_ ?_ (Char.matchesAt_iff_splits.2 ⟨_, _, String.append_assoc ▸ hmid⟩)
  · exact (hstart.le_iff_exists_eq_append hmid).2 ⟨_, rfl, rfl⟩
  · exact (hmid.lt_iff_exists_eq_append hstop).2 ⟨_, hne, rfl, rfl⟩

/-- The steps of a search replace the character in what is still to be searched. -/
lemma toList_foldl_replaceStep {pos : s.Pos} {steps : List (SearchStep s)}
    (hsteps : IsValidSearchFrom c pos steps) {before after : String}
    (hpos : pos.Splits before after) (sofar : String) :
    (steps.foldl (replaceStep text) sofar).toList =
      sofar.toList ++ after.toList.flatMap fun x => if x = c then text.toList else [x] := by
  induction hsteps generalizing before after sofar with
  | endPos =>
    rw [hpos.eq_endPos_iff.1 rfl]
    simp
  | matched hmatch _ ih =>
    obtain ⟨h, rfl, rfl⟩ := Char.isLongestMatchAt_iff.1 hmatch
    obtain ⟨after, rfl⟩ := hpos.exists_eq_singleton_append h
    rw [List.foldl_cons, ih hpos.next]
    simp [replaceStep]
  | @mismatched steps start stop hlt hnone _ ih =>
    have hle : start ≤ stop := Std.le_of_lt hlt
    obtain ⟨u, v, hstart, hstop⟩ := String.Slice.copy_slice_eq_iff_splits.1 ⟨hle, rfl⟩
    -- What a search skips has no match in it, so replacing leaves it as it is.
    have hkept : ((s.slice start stop hle).copy.toList.flatMap fun x =>
        if x = c then text.toList else [x]) = (s.slice start stop hle).copy.toList := by
      conv_rhs => rw [← List.flatMap_singleton' (s.slice start stop hle).copy.toList]
      refine List.flatMap_congr fun x hx => if_neg ?_
      rintro rfl
      exact not_mem_of_not_matchesAt hle hnone hx
    rw [List.foldl_cons, ih hstop, hpos.eq_right hstart, replaceStep,
      ← String.Slice.slice_eq_slice! (h := hle), String.toList_append, List.flatMap_append, hkept]
    simp

/-- Replacing a character by a text puts the text in the place of each occurrence. -/
lemma toList_replace (label : String) (c : Char) (text : String) :
    (label.replace c text).toList =
      label.toList.flatMap fun x => if x = c then text.toList else [x] := by
  have hsteps : IsValidSearchFrom c label.toSlice.startPos
      (ToForwardSearcher.toSearcher c label.toSlice).toList :=
    LawfulToForwardSearcherModel.isValidSearchFrom_toList label.toSlice
  have hfold : label.replace c text =
      (ToForwardSearcher.toSearcher c label.toSlice).toList.foldl (replaceStep text) "" := by
    rw [Std.Iter.foldl_toList]
    unfold String.replace String.Slice.replace
    congr 1
    funext sofar step
    cases step <;> rfl
  rw [hfold, toList_foldl_replaceStep hsteps (String.Slice.splits_startPos label.toSlice),
    String.copy_toSlice]
  rfl

end Text

end HeapQual
