import Mathlib.Data.Nat.Digits.Defs
import WatchFace.Number.Reading

/-!
# Numbers as text

Whole numbers are written with decimal digits, and read back from them as long as there are not too many.
-/

namespace WatchFace.Text

open List

variable {c : Char} {n : Nat} {cs : List Char}

/-! ### Digits -/

theorem toNat_of_isDigit (h : c.isDigit = true) : 48 ≤ c.toNat ∧ c.toNat < 58 := by
  simp only [Char.isDigit, Bool.and_eq_true, decide_eq_true_eq, ge_iff_le, UInt32.le_iff_toNat_le] at h
  exact ⟨h.1, Nat.lt_succ_of_le h.2⟩

theorem digitValue?_of_isDigit (h : c.isDigit = true) : digitValue? c = some (c.toNat - 48) := by
  obtain ⟨hle, hlt⟩ := toNat_of_isDigit h
  have hfirst : (decide (48 ≤ c.toNat) && decide (c.toNat < 48 + 10)) = true := by
    rw [decide_eq_true hle, decide_eq_true hlt]
    rfl
  have hfind : digitZeros.find? (fun z => z ≤ c.toNat && c.toNat < z + 10) = some 48 := by
    show (48 :: digitZeros.tail).find? _ = _
    rw [find?_cons, hfirst]
  rw [digitValue?, hfind]
  rfl

theorem decimalValue_toDigits (n : Nat) : decimalValue (Nat.toDigits 10 n) = n := by
  -- both read their digits from the left, and agree from any number on
  have hvalue : ∀ cs : List Char, (∀ c ∈ cs, c.isDigit = true) → ∀ a,
      (cs.filterMap digitValue?).foldl (fun n d => n * 10 + d) a =
        cs.foldl (fun n c => 10 * n + (c.toNat - '0'.toNat)) a := by
    intro cs
    induction cs with
    | nil => exact fun _ _ => rfl
    | cons c cs ih =>
      intro hcs a
      obtain ⟨hc, hcs⟩ := forall_mem_cons.mp hcs
      rw [filterMap_cons, digitValue?_of_isDigit hc, foldl_cons, foldl_cons, ih hcs, Nat.mul_comm]
      rfl
  have hdigits : ∀ c ∈ Nat.toDigits 10 n, c.isDigit = true :=
    fun c => Nat.isDigit_of_mem_toDigits (by decide) (by decide)
  have hfold := hvalue _ hdigits 0
  rw [← Nat.ofDigitChars_eq_foldl, Nat.ofDigitChars_ten_toDigits] at hfold
  exact hfold

theorem readDigits_toDigits (h : n < 10 ^ digitLimit) : readDigits (Nat.toDigits 10 n) = .ok n := by
  have hlength : (Nat.toDigits 10 n).length ≤ digitLimit := Nat.toDigits_length 10 n digitLimit (by decide) h
  rw [readDigits, if_pos hlength, decimalValue_toDigits]

theorem isDigit_of_mem_toDigits (h : c ∈ Nat.toDigits 10 n) : isDigit c = true := by
  rw [isDigit, digitValue?_of_isDigit (Nat.isDigit_of_mem_toDigits (by decide) (by decide) h)]
  rfl

theorem isBlank_of_isDigit (h : c.isDigit = true) : isBlank c = false := by
  obtain ⟨hle, hlt⟩ := toNat_of_isDigit h
  simp only [isBlank, Bool.or_eq_false_iff, Bool.and_eq_false_iff, decide_eq_false_iff_not, beq_eq_false_iff_ne]
  omega

theorem isBlank_of_mem_toDigits (h : c ∈ Nat.toDigits 10 n) : isBlank c = false :=
  isBlank_of_isDigit (Nat.isDigit_of_mem_toDigits (by decide) (by decide) h)

theorem toList_toString (n : Nat) : (toString n).toList = Nat.toDigits 10 n := by
  rw [Nat.toString_eq_ofList_toDigits, String.toList_ofList]

/-! ### Whole numbers -/

theorem toList_intToString (n : Int) :
    (toString n).toList = (if n < 0 then ['-'] else []) ++ Nat.toDigits 10 n.natAbs := by
  cases n with
  | ofNat m =>
    rw [if_neg (show ¬ Int.ofNat m < 0 from Int.not_lt.mpr (Int.natCast_nonneg m))]
    exact toList_toString m
  | negSucc m =>
    rw [if_pos (Int.negSucc_lt_zero m)]
    show ("-" ++ toString (m + 1)).toList = _
    rw [String.toList_append, toList_toString]
    rfl

theorem mem_intToString {n : Int} (h : c ∈ (toString n).toList) : c = '-' ∨ c.isDigit = true := by
  rw [toList_intToString] at h
  rcases mem_append.mp h with h | h
  · split at h
    · exact .inl (mem_singleton.mp h)
    · cases h
  · exact .inr (Nat.isDigit_of_mem_toDigits (by decide) (by decide) h)

theorem isBlank_of_mem_intToString {n : Int} (h : c ∈ (toString n).toList) : isBlank c = false := by
  obtain rfl | hdigit := mem_intToString h
  · decide
  · exact isBlank_of_isDigit hdigit

theorem intToString_ne_nil (n : Int) : (toString n).toList ≠ [] := by
  rw [toList_intToString]
  exact append_ne_nil_of_right_ne_nil _ Nat.toDigits_ne_nil

end WatchFace.Text

namespace WatchFace.Number

open Text List

theorem digitChar_of_isDigit {c : Char} (h : c.isDigit = true) : Nat.digitChar (c.toNat - 48) = c := by
  have hchar : ∀ k < 10, Nat.digitChar k = Char.ofNat (k + 48) := by decide
  obtain ⟨hle, hlt⟩ := toNat_of_isDigit h
  rw [hchar _ (by omega), Nat.sub_add_cancel hle, Char.ofNat_toNat]

theorem normalize_eq_self {cs : List Char} (hblank : ∀ c ∈ cs, isBlank c = false)
    (hdigit : ∀ c ∈ cs, c.isDigit = true ∨ digitValue? c = none) : normalize cs = cs := by
  have hdrop : ∀ (ascii : Bool) (l : List Char), (∀ c ∈ l, isBlank c = false) →
      l.dropWhile (isOuterBlank ascii) = l := by
    intro ascii l hl
    cases l with
    | nil => rfl
    | cons c l => rw [dropWhile_cons_of_neg (by simp [isOuterBlank, hl c mem_cons_self])]
  unfold normalize
  dsimp only
  rw [hdrop _ cs hblank, hdrop _ cs.reverse fun c hc => hblank c (mem_reverse.mp hc), reverse_reverse]
  conv_rhs => rw [← map_id cs]
  refine map_congr_left fun c hc => ?_
  obtain hc | hc := hdigit c hc
  · rw [digitValue?_of_isDigit hc]
    exact digitChar_of_isDigit hc
  · rw [hc]
    rfl

theorem withoutBars?_eq_some {cs : List Char} (h : '_' ∉ cs) (p : Char → Bool) (previous : Bool) :
    withoutBars? p previous cs = some cs := by
  induction cs generalizing previous with
  | nil => rfl
  | cons c cs ih =>
    obtain ⟨hbar, hcs⟩ := not_or.mp (mem_cons.not.mp h)
    rw [withoutBars?]
    · rw [ih hcs]
      rfl
    · exact Ne.symm hbar

theorem isAsciiDigit_of_isDigit {c : Char} (h : c.isDigit = true) : isAsciiDigit c = true := h

theorem sign?_of_isDigit {c : Char} (h : c.isDigit = true) (cs : List Char) : sign? (c :: cs) = (false, c :: cs) := by
  have hne : ∀ d, d.isDigit = false → ∀ ds, c :: cs = d :: ds → False := by
    rintro d hd ds heq
    obtain ⟨rfl, -⟩ := List.cons.inj heq
    rw [h] at hd
    cases hd
  rw [sign?]
  · exact hne '+' rfl
  · exact hne '-' rfl

theorem readInt?_eq {cs digits : List Char} {negative : Bool} (hsign : sign? (normalize cs) = (negative, digits))
    (hdigits : ∀ c ∈ digits, c.isDigit = true) (hne : digits ≠ []) :
    readInt? cs = if digits.length ≤ digitLimit then some (signed negative (decimalValue digits)) else none := by
  have hall : digits.all isAsciiDigit = true := all_eq_true.mpr fun c hc => isAsciiDigit_of_isDigit (hdigits c hc)
  have hempty : digits.isEmpty = false := by simp [hne]
  have hbar : '_' ∉ digits := fun h => by cases hdigits _ h
  unfold readInt?
  simp only [hsign, withoutBars?_eq_some hbar, bind, Option.bind_some, hempty, hall, readDigits,
    Bool.not_true, Bool.or_false, Bool.false_eq_true, if_false]
  by_cases h : digits.length ≤ digitLimit <;> simp only [h, if_true, if_false]

theorem signed_natAbs (n : Int) : signed (n < 0) n.natAbs = n := by
  by_cases h : n < 0
  · rw [decide_eq_true h, signed, if_pos rfl]
    omega
  · rw [decide_eq_false h, signed, if_neg Bool.false_ne_true]
    omega

/-- **Whole numbers are read back**, unless they have too many digits. -/
theorem readInt?_toString (n : Int) : readInt? (toString n).toList =
    if (Nat.toDigits 10 n.natAbs).length ≤ digitLimit then some n else none := by
  have hdigits : ∀ c ∈ Nat.toDigits 10 n.natAbs, c.isDigit = true :=
    fun c => Nat.isDigit_of_mem_toDigits (by decide) (by decide)
  have hnormal : normalize (toString n).toList = (toString n).toList := by
    refine normalize_eq_self (fun c => isBlank_of_mem_intToString) fun c hc => ?_
    obtain rfl | hdigit := mem_intToString hc
    · exact .inr (by decide)
    · exact .inl hdigit
  have hsign : sign? (toString n).toList = (decide (n < 0), Nat.toDigits 10 n.natAbs) := by
    rw [toList_intToString]
    by_cases hneg : n < 0
    · rw [if_pos hneg, decide_eq_true hneg]
      rfl
    · rw [if_neg hneg, decide_eq_false hneg]
      cases hcs : Nat.toDigits 10 n.natAbs with
      | nil => exact absurd hcs Nat.toDigits_ne_nil
      | cons c cs => exact sign?_of_isDigit (hdigits c (hcs ▸ mem_cons_self)) cs
  rw [readInt?_eq (hnormal.symm ▸ hsign) hdigits Nat.toDigits_ne_nil, decimalValue_toDigits, signed_natAbs]

end WatchFace.Number
