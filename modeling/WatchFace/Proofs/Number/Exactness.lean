import Mathlib
import WatchFace.Layer.Basic
import WatchFace.Proofs.Number.Doubles

/-!
# Doubles that are exact

A whole number that a double is cut to has a double of its own. Zero stays zero as long as nothing that is infinite or
not a number comes in.
-/

namespace WatchFace.Number

open Float.Model UnpackedFloat

/-! ### Whole numbers -/

theorem toBits_ofBits {b : Nat} (h : b < 2047 * 2 ^ 52) : (Float.ofBits b.toUInt64).toBits.toNat = b := by
  have hb : b.toUInt64.toBitVec.toNat = b := by
    rw [Nat.toUInt64_eq, UInt64.toBitVec_ofNat', BitVec.toNat_ofNat, Nat.mod_eq_of_lt (by omega)]
  have hexponent : (@unpackExponent .binary64 b.toUInt64.toBitVec).toNat ≠ 2047 := by
    rw [toNat_unpackExponent]
    omega
  have hpack := @pack_unpack_of_valid .binary64 b.toUInt64.toBitVec ⟨fun heq => by
    rw [heq] at hexponent
    exact absurd rfl hexponent⟩ (by decide)
  exact (congrArg BitVec.toNat hpack).trans hb

/-- A whole number with up to 53 digits before its zeros is put together of those digits and an exponent. -/
theorem toBits_ofRatio_one {n : Nat} (hn : n ≠ 0) (hdvd : 2 ^ (n.log2 - 52) ∣ n) (hlog : n.log2 ≤ 1023) :
    ∃ f < 2 ^ 52, (ofRatio n 1).toBits.toNat = (n.log2 + 1023) * 2 ^ 52 + f ∧
      (f + 2 ^ 52) * 2 ^ (n.log2 - 52) = n * 2 ^ (52 - n.log2) := by
  let num := n * 2 ^ (52 - n.log2)
  let den := 2 ^ (n.log2 - 52)
  have hden : 0 < den := Nat.two_pow_pos _
  -- the digits lie between two powers of two
  have hpow : ∀ k, 2 ^ (52 + k) * den = 2 ^ (n.log2 + k) * 2 ^ (52 - n.log2) := by
    intro k
    simp only [den, ← Nat.pow_add]
    congr 1
    omega
  have hlow : 2 ^ 52 ≤ num / den := by
    rw [Nat.le_div_iff_mul_le hden, show 2 ^ 52 * den = _ from hpow 0]
    exact Nat.mul_le_mul_right _ (Nat.log2_self_le hn)
  have hhigh : num / den < 2 ^ 53 := by
    rw [Nat.div_lt_iff_lt_mul hden, show 2 ^ 53 * den = _ from hpow 1]
    exact Nat.mul_lt_mul_of_pos_right Nat.lt_log2_self (Nat.two_pow_pos _)
  have hexact : num / den * den = num := Nat.div_mul_cancel (hdvd.mul_right _)
  have hround : roundDiv num den = num / den := by
    have hmod : num % den = 0 := Nat.mod_eq_zero_of_dvd (hdvd.mul_right _)
    unfold roundDiv
    simp [hmod, hden]
  have hratio : ofRatio n 1 = Float.ofBits ((n.log2 + 1022) * 2 ^ 52 + num / den).toUInt64 := by
    have hguess : (n.log2 : Int) - (Nat.log2 1 : Nat) - 52 = (n.log2 : Int) - 52 := by
      rw [show Nat.log2 1 = 0 by decide]
      omega
    have hnum : (-((n.log2 : Int) - 52)).toNat = 52 - n.log2 := by omega
    have hdenominator : ((n.log2 : Int) - 52).toNat = n.log2 - 52 := by omega
    have hnot : ¬num < den * 2 ^ 52 := Nat.not_lt.mpr (Nat.mul_comm .. ▸ (Nat.le_div_iff_mul_le hden).mp hlow)
    have hmax : max ((n.log2 : Int) - 52) (-1074) = (n.log2 : Int) - 52 := by omega
    have hexponent : ((n.log2 : Int) - 52 + 1074).toNat = n.log2 + 1022 := by omega
    unfold ofRatio
    simp only [if_neg hn, hguess, hnum, hdenominator, Nat.one_mul, Nat.pow_eq]
    rw [if_neg hnot, hmax, hnum, hdenominator, hexponent, hround, Nat.min_eq_left (by omega)]
  refine ⟨num / den - 2 ^ 52, by omega, ?_, ?_⟩
  · rw [hratio, toBits_ofBits (by omega)]
    omega
  · rw [Nat.sub_add_cancel hlow]
    exact hexact

theorem one_lt_of_toBits {x : Float} {k f : Nat} (hx : x.toBits.toNat = k * 2 ^ 52 + f) (hf : f < 2 ^ 52) (hk : 1023 < k)
    (hfinite : k < 2047) : 1.0 < x := by
  let b := x.toModel.toBits.toBitVec
  have hb : b.toNat = k * 2 ^ 52 + f := hx
  have hexponent : (@unpackExponent .binary64 b).toNat = k := by
    rw [toNat_unpackExponent]
    omega
  have hsign : @unpackSign .binary64 b = 0#1 := by
    apply BitVec.eq_of_toNat_eq
    have hfield : (@unpackSign .binary64 b).toNat = b.toNat / 2 ^ 63 % 2 := by
      simp [unpackSign, Nat.shiftRight_eq_div_pow]
    rw [hfield, hb, BitVec.toNat_ofNat]
    omega
  have hones : @unpackExponent .binary64 b ≠ -1#_ := fun heq => by
    rw [heq] at hexponent
    exact absurd (show 2047 = k from hexponent) (by omega)
  have hzero : @unpackExponent .binary64 b ≠ 0#_ := fun heq => by
    rw [heq] at hexponent
    exact absurd (show 0 = k from hexponent) (by omega)
  have hunpack : ∃ m e hm, x.toModel.unpack = .finite .positive m e hm ∧ -52 < e := by
    show ∃ m e hm, UnpackedFloat.unpack .binary64 b = .finite .positive m e hm ∧ -52 < e
    delta UnpackedFloat.unpack
    dsimp only
    rw [if_neg hones, if_neg hzero, hsign]
    refine ⟨_, _, _, rfl, ?_⟩
    show (-52 : Int) < (@unpackExponent .binary64 b).toNat - (1023 + 52)
    omega
  obtain ⟨m, e, hm, hunpack, he⟩ := hunpack
  have hlt : (1.0 : Float).toModel.unpack.lt x.toModel.unpack = true := by
    have hone : ∃ m e hm, (1.0 : Float).toModel.unpack = .finite .positive m e hm ∧ e = -52 := ⟨_, _, _, rfl, by decide +kernel⟩
    obtain ⟨_, _, _, hone, rfl⟩ := hone
    rw [hone, hunpack, UnpackedFloat.lt, UnpackedFloat.compare, Int.compare_eq_lt.mpr he]
    rfl
  exact decide_eq_true hlt

theorem Exact.bounds_of_ofFloat? {x : Float} {v : Exact} (h : Exact.ofFloat? x = some v) : v.m < 2 ^ 53 ∧ v.e ≤ 971 := by
  unfold Exact.ofFloat? at h
  dsimp only [Nat.pow_eq] at h
  split at h
  · cases h
  · split at h <;> cases h <;> dsimp only <;> omega

/-- A whole number that a double is cut to has no more than 53 digits before its zeros. -/
theorem dvd_of_truncate? {x : Float} {k : Nat} (h : truncate? x = some (k : Int)) (hk : k ≠ 0) :
    2 ^ (k.log2 - 52) ∣ k ∧ k.log2 ≤ 1023 := by
  obtain ⟨v, hv, hcut⟩ := Option.map_eq_some_iff.mp h
  obtain ⟨hm, he⟩ := Exact.bounds_of_ofFloat? hv
  have hvalue : k = v.m * 2 ^ v.e.toNat / 2 ^ (-v.e).toNat := by
    simp only [Exact.scaled, signed, Nat.pow_eq, Int.neg_zero, Int.toNat_zero, Nat.pow_zero, Nat.mul_one] at hcut
    generalize v.m * 2 ^ v.e.toNat / 2 ^ (-v.e).toNat = q at hcut ⊢
    split at hcut <;> omega
  -- the digits that a negative exponent cuts off leave a small number
  obtain ⟨hdvd, hlt⟩ : 2 ^ v.e.toNat ∣ k ∧ k < 2 ^ (53 + v.e.toNat) := by
    obtain hneg | hpos := Int.lt_or_le v.e 0
    · rw [Int.toNat_of_nonpos hneg.le] at hvalue ⊢
      have hle : k ≤ v.m := by
        rw [hvalue, Nat.pow_zero, Nat.mul_one]
        exact Nat.div_le_self ..
      exact ⟨one_dvd k, by omega⟩
    · rw [Int.toNat_of_nonpos (show -v.e ≤ 0 by omega), Nat.pow_zero, Nat.div_one] at hvalue
      rw [hvalue, Nat.pow_add]
      exact ⟨Nat.dvd_mul_left .., Nat.mul_lt_mul_of_pos_right hm (Nat.two_pow_pos _)⟩
  have hlog : k.log2 < 53 + v.e.toNat := (Nat.log2_lt hk).mpr hlt
  exact ⟨(Nat.pow_dvd_pow 2 (by omega)).trans hdvd, by omega⟩

theorem ofFloat?_of_toBits {x : Float} {k f : Nat} (hx : x.toBits.toNat = (k + 1023) * 2 ^ 52 + f) (hf : f < 2 ^ 52)
    (hk : k ≤ 1023) : Exact.ofFloat? x = some ⟨false, f + 2 ^ 52, (k : Int) - 52⟩ := by
  have hsign : (x.toBits.toNat / 2 ^ 63 == 1) = false := by
    rw [hx, beq_eq_false_iff_ne]
    omega
  have hexponent : x.toBits.toNat / 2 ^ 52 % 2048 = k + 1023 := by omega
  have hfraction : x.toBits.toNat % 2 ^ 52 = f := by omega
  unfold Exact.ofFloat?
  simp only [Nat.pow_eq, hsign, hexponent, hfraction]
  have hshift : ((k + 1023 : Nat) : Int) - 1075 = k - 52 := by omega
  rw [if_neg (by omega), if_neg (by omega), hshift]

/-- **A whole number that a double is cut to is a double.** -/
theorem exists_ofInt?_of_truncate? {x : Float} {n : Int} (h : truncate? x = some n) (hn : 1 ≤ n) :
    ∃ y, ofInt? n = some y ∧ truncate? y = some n ∧ (1 < n → 1.0 < y) := by
  obtain ⟨k, rfl⟩ := Int.eq_ofNat_of_zero_le (show 0 ≤ n by omega)
  have hk : k ≠ 0 := by omega
  obtain ⟨hdvd, hlog⟩ := dvd_of_truncate? h hk
  obtain ⟨f, hf, hbits, hexact⟩ := toBits_ofRatio_one hk hdvd hlog
  have hfloat := ofFloat?_of_toBits hbits hf hlog
  refine ⟨ofRatio k 1, ?_, ?_, fun hlarge => one_lt_of_toBits hbits hf ?_ (by omega)⟩
  · have hpos : ¬(k : Int) < 0 := by omega
    simp [ofInt?, finite?, signedFloat, hpos, hfloat]
  · have hnum : ((k.log2 : Int) - 52).toNat = k.log2 - 52 := by omega
    have hden : (-((k.log2 : Int) - 52)).toNat = 52 - k.log2 := by omega
    simp only [truncate?, hfloat, Exact.scaled, signed, Nat.pow_eq, hnum, hden, hexact, Option.map_some]
    simp
  · have hle : 1 ≤ k.log2 := (Nat.le_log2 hk).mpr (by omega)
    omega

/-- The whole number that a double is cut to, from one up. -/
def whole? (x : Float) : Option Int := (truncate? x).map fun n => if n < 1 then 1 else n

theorem exists_ofInt?_of_whole? {x : Float} {n : Int} (h : whole? x = some n) :
    ∃ y, ofInt? n = some y ∧ truncate? y = some n ∧ whole? (Layer.larger 1.0 y) = some n ∧ 1 ≤ n := by
  obtain ⟨k, hk, hn⟩ := Option.map_eq_some_iff.mp h
  have hone : 1 ≤ n := by split at hn <;> omega
  obtain ⟨y, hy, hcut, hlarge⟩ : ∃ y, ofInt? n = some y ∧ truncate? y = some n ∧ (1 < n → 1.0 < y) := by
    by_cases hlt : k < 1
    · rw [if_pos hlt] at hn
      exact hn ▸ exists_ofInt?_of_truncate? (x := 1.0) rfl (by decide)
    · rw [if_neg hlt] at hn
      exact exists_ofInt?_of_truncate? (hn ▸ hk) hone
  refine ⟨y, hy, hcut, ?_, hone⟩
  unfold Layer.larger
  split
  case isTrue => simp [whole?, hcut, Int.not_lt.mpr hone]
  case isFalse hnot =>
    obtain rfl : 1 = n := by
      by_contra hne
      exact hnot (hlarge (by omega))
    rfl

/-! ### Zero -/

/-- Zero, or not a number where zero has met something that is not finite. -/
def Vanishing : Bool → UnpackedFloat → Prop
  | true, u => ∃ s, u = .zero s
  | false, u => u = .notANumber

def Vanishes (ok : Bool) (x : Float) : Prop := Vanishing ok x.toModel.unpack

theorem Vanishing.pack {ok : Bool} {u : UnpackedFloat} (h : Vanishing ok u) :
    Vanishing ok (Float.Model.pack u).unpack := by
  cases ok with
  | false =>
    obtain rfl := h
    rfl
  | true =>
    obtain ⟨s, rfl⟩ := h
    cases s <;> exact ⟨_, rfl⟩

section

variable {ok ok' : Bool} {x y : Float}

theorem vanishes_zero : Vanishes true 0 := ⟨_, rfl⟩

theorem Vanishes.neg (hx : Vanishes ok x) : Vanishes ok (-x) := by
  refine Vanishing.pack (u := x.toModel.unpack.neg) ?_
  cases ok with
  | false => exact congrArg UnpackedFloat.neg hx
  | true =>
    obtain ⟨s, hs⟩ := hx
    exact ⟨-s, congrArg UnpackedFloat.neg hs⟩

theorem Vanishes.mul (hx : Vanishes ok x) (y : Float) : Vanishes (ok && y.isFinite) (x * y) := by
  refine Vanishing.pack (u := UnpackedFloat.mul .binary64 x.toModel.unpack y.toModel.unpack) ?_
  show Vanishing (ok && y.toModel.unpack.isFinite) _
  generalize y.toModel.unpack = v
  cases ok with
  | false =>
    rw [show x.toModel.unpack = _ from hx]
    rfl
  | true =>
    obtain ⟨s, hs⟩ := hx
    rw [hs]
    cases v
    case zero | finite => exact ⟨_, rfl⟩
    all_goals rfl

theorem Vanishes.add (hx : Vanishes ok x) (hy : Vanishes ok' y) : Vanishes (ok && ok') (x + y) := by
  refine Vanishing.pack (u := UnpackedFloat.add .binary64 x.toModel.unpack y.toModel.unpack) ?_
  cases ok with
  | false =>
    rw [show x.toModel.unpack = _ from hx]
    rfl
  | true =>
    obtain ⟨s, hs⟩ := hx
    rw [hs]
    cases ok' with
    | false =>
      rw [show y.toModel.unpack = _ from hy]
      rfl
    | true =>
      obtain ⟨s', hs'⟩ := hy
      rw [hs']
      cases s <;> cases s' <;> exact ⟨_, rfl⟩

theorem Vanishes.div (hx : Vanishes ok x) (hy : ¬y ≤ 0) : Vanishes (ok && !y.isNaN) (x / y) := by
  have hzero : ∀ s, y.toModel.unpack ≠ .zero s := by
    intro s hs
    refine hy (decide_eq_true (p := y.toModel.unpack.le _ = true) ?_)
    rw [hs]
    rfl
  refine Vanishing.pack (u := UnpackedFloat.div .binary64 x.toModel.unpack y.toModel.unpack) ?_
  show Vanishing (ok && !y.toModel.unpack.isNaN) _
  generalize y.toModel.unpack = v at hzero ⊢
  cases ok with
  | false =>
    rw [show x.toModel.unpack = _ from hx]
    rfl
  | true =>
    obtain ⟨s, hs⟩ := hx
    rw [hs]
    cases v
    case zero s' => exact absurd rfl (hzero s')
    case notANumber => rfl
    all_goals exact ⟨_, rfl⟩

/-- To add what vanishes changes nothing from one up. -/
theorem Vanishes.larger_add (x : Float) (hy : Vanishes ok y) :
    Layer.larger 1.0 (x + y) = if ok then Layer.larger 1.0 x else 1.0 := by
  have hsmall : ∀ {z : Float}, z.toModel.unpack = .notANumber ∨ (∃ s, z.toModel.unpack = .zero s) →
      Layer.larger 1.0 z = 1.0 := by
    intro z hz
    refine if_neg fun hlt => ?_
    have hlt : (1.0 : Float).toModel.unpack.lt z.toModel.unpack = true := of_decide_eq_true hlt
    obtain hz | ⟨s, hz⟩ := hz <;> rw [hz] at hlt <;> exact Bool.false_ne_true hlt
  cases ok with
  | false =>
    refine hsmall (.inl (@Vanishing.pack false _ ?_))
    rw [show y.toModel.unpack = _ from hy]
    cases x.toModel.unpack <;> rfl
  | true =>
    by_cases hx : Vanishes true x
    · rw [hsmall (.inr (hx.add hy)), hsmall (.inr hx)]
      rfl
    · have hsame : UnpackedFloat.add .binary64 x.toModel.unpack y.toModel.unpack = x.toModel.unpack := by
        obtain ⟨s, hs⟩ := hy
        have hx : ¬∃ s, x.toModel.unpack = .zero s := hx
        rw [hs]
        generalize x.toModel.unpack = u at hx ⊢
        cases u
        case zero s' => exact absurd ⟨s', rfl⟩ hx
        all_goals rfl
      have hadd : x + y = x := (congrArg (Float.ofModel ∘ Float.Model.pack) hsame).trans (Float.ofBits_toBits x)
      rw [hadd]
      rfl

end

theorem isFinite_of_ofInt? {n : Int} {x : Float} (h : ofInt? n = some x) : x.isFinite = true := by
  show x.toModel.unpack.isFinite = true
  obtain ⟨s, hs⟩ | ⟨s, m, e, hm, hs, -⟩ := exists_unpack (isSome_of_ofInt? h) <;> rw [hs] <;> rfl

end WatchFace.Number
