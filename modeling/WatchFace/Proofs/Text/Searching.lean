import Mathlib.Data.List.Infix
import WatchFace.Text.Blank
import WatchFace.Text.Search

/-!
# What a search finds
-/

namespace WatchFace.Text

open List

variable {cs pat sep : List Char}

def FirstAt (text line : List Char) (column : Nat) : Prop :=
  text <+: line.drop column ∧ ∀ j < column, ¬ text <+: line.drop j

theorem of_findSub? {i : Nat} (h : findSub? pat cs = some i) : FirstAt pat cs i ∧ i ≤ cs.length := by
  induction cs generalizing i with
  | nil =>
    obtain ⟨hpat, hi⟩ := Option.ite_none_right_eq_some.mp h
    cases hi
    exact ⟨⟨List.isEmpty_iff.mp hpat ▸ nil_prefix, fun j hj => absurd hj (Nat.not_lt_zero j)⟩, Nat.zero_le _⟩
  | cons c cs ih =>
    rw [findSub?] at h
    split at h
    case isTrue hpre =>
      cases h
      exact ⟨⟨List.isPrefixOf_iff_prefix.mp hpre, fun j hj => absurd hj (Nat.not_lt_zero j)⟩, Nat.zero_le _⟩
    case isFalse hpre =>
      obtain ⟨i, hi, rfl⟩ := Option.map_eq_some_iff.mp h
      obtain ⟨⟨hat, hfirst⟩, hle⟩ := ih hi
      refine ⟨⟨hat, fun j hj => ?_⟩, Nat.succ_le_succ hle⟩
      cases j with
      | zero => exact mt isPrefixOf_iff_prefix.mpr hpre
      | succ j => exact hfirst j (Nat.lt_of_succ_lt_succ hj)

theorem exists_of_findSub? {i : Nat} (h : findSub? pat cs = some i) : ∃ u v, cs = u ++ pat ++ v ∧ u.length = i := by
  obtain ⟨⟨⟨v, hv⟩, -⟩, hle⟩ := of_findSub? h
  exact ⟨cs.take i, v, by rw [append_assoc, hv, take_append_drop], length_take_of_le hle⟩

theorem isSome_findSub?_iff : (findSub? pat cs).isSome ↔ pat <:+: cs := by
  induction cs with
  | nil => simp [findSub?]
  | cons c cs ih =>
    rw [findSub?, infix_cons_iff, ← ih, ← isPrefixOf_iff_prefix]
    split <;> simp [*]

/-! ### Replacing -/

theorem splitOnGo_of_not_infix {s : Char} (h : ¬ (s :: sep) <:+: cs) (piece : List Char) :
    splitOnGo s sep 0 piece cs = [piece.reverse ++ cs] := by
  induction cs generalizing piece with
  | nil => rw [splitOnGo, append_nil]
  | cons c cs ih =>
    have hprefix : (s :: sep).isPrefixOf (c :: cs) = false := by
      rw [Bool.eq_false_iff]
      exact fun hpre => h (List.isPrefixOf_iff_prefix.mp hpre).isInfix
    simp only [splitOnGo, hprefix, Bool.false_eq_true, if_false]
    rw [ih fun hcs => h (hcs.trans (suffix_cons c cs).isInfix), reverse_cons, append_assoc,
      singleton_append]

theorem replaceAll_of_not_infix {s : Char} (h : ¬ (s :: sep) <:+: cs) (new : List Char) :
    replaceAll (s :: sep) new cs = cs := by
  rw [replaceAll, splitOn, splitOnGo_of_not_infix h, joinWith]
  rfl

/-! ### Blanks at the ends -/

theorem stripRight_isPrefix (cs : List Char) : stripRight cs <+: cs := by
  rw [stripRight, ← reverse_suffix, reverse_reverse]
  exact dropWhile_suffix isBlank

theorem strip_isInfix (cs : List Char) : strip cs <:+: cs :=
  (stripRight_isPrefix _).isInfix.trans (dropWhile_suffix isBlank).isInfix

theorem all_head?_dropWhile (cs : List Char) : (cs.dropWhile isBlank).head?.all (!isBlank ·) = true := by
  have h := head?_dropWhile_not isBlank cs
  cases hcs : (cs.dropWhile isBlank).head? with
  | none => rfl
  | some c =>
    rw [hcs] at h
    simpa using h

theorem strip_strip (cs : List Char) : strip (strip cs) = strip cs := by
  refine strip_eq_self ?_ ?_
  · have hhead := all_head?_dropWhile cs
    obtain ⟨t, ht⟩ := stripRight_isPrefix (stripLeft cs)
    rw [← stripLeft, ← ht] at hhead
    cases hs : stripRight (stripLeft cs) with
    | nil => rw [strip, hs]; rfl
    | cons c ds =>
      rw [hs] at hhead
      rw [strip, hs]
      exact hhead
  · rw [strip, stripRight, getLast?_reverse]
    exact all_head?_dropWhile _

end WatchFace.Text
