import Mathlib.Algebra.Group.Nat.Defs
import WatchFace.Transform
import WatchFace.Value

/-!
# Doubles that are finite

This module takes a finite double apart, and says what follows for comparing it and for its products.
-/

namespace WatchFace.Number

open Float.Model UnpackedFloat

/-! ### Comparing doubles -/

theorem eq_nan_or_compare_self (a : UnpackedFloat) : a = .notANumber ∨ a.compare a = some .eq := by
  cases a with
  | notANumber => exact .inl rfl
  | infinity s => cases s <;> exact .inr rfl
  | zero s => exact .inr rfl
  | finite s m e hm =>
    have hself : (compare e e).then (compare m m) = .eq := by simp
    cases s
    case negative => exact .inr (congrArg (fun o => some (Ordering.swap o)) hself)
    case positive => exact .inr (congrArg some hself)

theorem lt_irrefl (x : Float) : ¬ x < x := by
  intro h
  have hdecide : decide (x.toModel < x.toModel) = true := h
  have hlt : x.toModel.unpack.lt x.toModel.unpack = true := of_decide_eq_true hdecide
  rw [UnpackedFloat.lt] at hlt
  obtain hnan | heq := eq_nan_or_compare_self x.toModel.unpack
  · rw [hnan] at hlt
    cases hlt
  · rw [heq] at hlt
    cases hlt

/-! ### Finite doubles -/

theorem unpack_cases {b : BitVec 64} (h : (@unpackExponent Format.binary64 b).toNat ≠ 2047) :
    (∃ s, UnpackedFloat.unpack .binary64 b = .zero s) ∨
      ∃ s m e hm, UnpackedFloat.unpack .binary64 b = .finite s m e hm ∧ m < 2 ^ 53 ∧ e ≤ 971 := by
  have hones : @unpackExponent Format.binary64 b ≠ -1#_ := fun heq => h (by rw [heq]; decide)
  have hle : (@unpackExponent Format.binary64 b).toNat ≤ 2046 := by
    have hlt : (@unpackExponent Format.binary64 b).toNat < 2048 := BitVec.isLt _
    omega
  have hbias : Format.binary64.exponentBias = 1023 := by decide
  delta UnpackedFloat.unpack
  dsimp only
  rw [if_neg hones]
  by_cases hzero : @unpackExponent Format.binary64 b = 0#_
  · rw [if_pos hzero]
    by_cases hmantissa : @unpackMantissa Format.binary64 b = 0#_
    · rw [dif_pos hmantissa]
      exact .inl ⟨_, rfl⟩
    · rw [dif_neg hmantissa]
      refine .inr ⟨_, _, _, _, rfl, ?_, ?_⟩
      · have hlt : (@unpackMantissa Format.binary64 b).toNat < 2 ^ 52 := BitVec.isLt _
        omega
      · show ((@unpackExponent Format.binary64 b).toNat : Int) - (Format.binary64.exponentBias + 52) + 1 ≤ 971
        rw [hbias, hzero]
        decide
  · rw [if_neg hzero]
    refine .inr ⟨_, _, _, _, rfl, BitVec.isLt _, ?_⟩
    show ((@unpackExponent Format.binary64 b).toNat : Int) - (Format.binary64.exponentBias + 52) ≤ 971
    rw [hbias]
    omega

theorem toNat_unpackExponent (b : BitVec 64) : (@unpackExponent .binary64 b).toNat = b.toNat / 2 ^ 52 % 2048 := by
  simp [unpackExponent, Nat.shiftRight_eq_div_pow]

theorem exists_unpack {x : Float} (h : (Exact.ofFloat? x).isSome) : (∃ s, x.toModel.unpack = .zero s) ∨
      ∃ s m e hm, x.toModel.unpack = .finite s m e hm ∧ m < 2 ^ 53 ∧ e ≤ 971 := by
  refine unpack_cases (b := x.toModel.toBits.toBitVec) fun heq => ?_
  have hnone : Exact.ofFloat? x = none := if_pos ((toNat_unpackExponent _).symm.trans heq)
  rw [hnone] at h
  cases h

theorem isSome_of_ofInt? {n : Int} {x : Float} (h : ofInt? n = some x) : (Exact.ofFloat? x).isSome := by
  unfold ofInt? finite? at h
  split at h
  · rename_i hsome
    exact Option.some.inj h ▸ hsome
  · cases h

theorem beq_self {x : Float} (h : (Exact.ofFloat? x).isSome) : (x == x) = true := by
  show (x.toModel.unpack.compare x.toModel.unpack == some .eq) = true
  obtain hnan | heq := eq_nan_or_compare_self x.toModel.unpack
  · obtain ⟨s, hzero⟩ | ⟨s, m, e, hm, hfinite, -⟩ := exists_unpack h
    · rw [hzero] at hnan
      cases hnan
    · rw [hfinite] at hnan
      cases hnan
  · rw [heq]
    rfl

/-! ### The order of numbers -/

theorem compare_swap (a b : UnpackedFloat) : b.compare a = (a.compare b).map Ordering.swap := by
  have hswap : ∀ (m m' : Nat) (e e' : Int),
      ((compare e e').then (compare m m')).swap = (compare e' e).then (compare m' m) := by
    intro m m' e e'
    rw [Ordering.swap_then, Int.compare_swap, Nat.compare_swap]
  obtain s | _ | s | ⟨s, m, e, hm⟩ := a <;> obtain s' | _ | s' | ⟨s', m', e', hm'⟩ := b <;> try rfl
  all_goals cases s <;> try rfl
  all_goals cases s' <;> try rfl
  case negative => exact congrArg (fun o => some (Ordering.swap o)) (hswap m m' e e').symm
  case positive => exact congrArg some (hswap m m' e e').symm

theorem isSome_compare (a b : UnpackedFloat) : (a.compare b).isSome = (!a.isNaN && !b.isNaN) := by
  obtain s | _ | s | ⟨s, m, e, hm⟩ := a <;> obtain s' | _ | s' | ⟨s', m', e', hm'⟩ := b <;> try rfl
  all_goals cases s <;> try rfl
  all_goals cases s' <;> rfl

namespace Quantity

def isNumber : Quantity → Bool
  | .whole _ => true
  | .double x => !x.isNaN

theorem order?_double (x y : Float) : order? (.double x) (.double y) = x.toModel.unpack.compare y.toModel.unpack := by
  have hlt : ∀ x y : Float, (x < y) = (x.toModel.unpack.compare y.toModel.unpack = some .lt) := by
    intro x y
    exact propext ⟨fun h => eq_of_beq (of_decide_eq_true (p := x.toModel < y.toModel) h),
      fun h => decide_eq_true (p := x.toModel < y.toModel) (beq_iff_eq.mpr h)⟩
  have heq : (x == y) = (x.toModel.unpack.compare y.toModel.unpack == some .eq) := rfl
  rw [order?, heq]
  simp only [hlt, compare_swap x.toModel.unpack y.toModel.unpack]
  cases x.toModel.unpack.compare y.toModel.unpack with
  | none => rfl
  | some o => cases o <;> rfl

theorem isSome_orderMixed? (n : Int) (x : Float) : (orderMixed? n x).isSome = !x.isNaN := by
  unfold orderMixed?
  split
  case h_1 v hv =>
    have hnumber : x.isNaN = false := by
      show x.toModel.unpack.isNaN = false
      obtain ⟨s, hzero⟩ | ⟨s, m, e, hm, hfinite, -⟩ := exists_unpack (Option.isSome_of_eq_some hv)
      · rw [hzero]
        rfl
      · rw [hfinite]
        rfl
    rw [hnumber]
    rfl
  case h_2 => cases x.isNaN <;> rfl

theorem isSome_order? (p q : Quantity) : (p.order? q).isSome = (p.isNumber && q.isNumber) := by
  cases p with
  | whole a =>
    cases q with
    | whole b => rfl
    | double y => exact isSome_orderMixed? a y
  | double x =>
    cases q with
    | whole b => rw [order?, Option.isSome_map, isSome_orderMixed?, isNumber, isNumber, Bool.and_true]
    | double y =>
      rw [order?_double, isSome_compare]
      rfl

theorem order?_swap (p q : Quantity) : q.order? p = (p.order? q).map Ordering.swap := by
  cases p with
  | whole a =>
    cases q with
    | whole b => exact congrArg some (Int.compare_swap a b).symm
    | double y => rfl
  | double x =>
    cases q with
    | whole b => simp [order?, Option.map_map, Function.comp_def]
    | double y => rw [order?_double, order?_double, compare_swap]

theorem order?_self_beq (p : Quantity) : (p.order? p == some .eq) = p.isNumber := by
  cases p with
  | whole a => simp [order?, isNumber]
  | double x =>
    rw [order?_double, isNumber, show x.isNaN = x.toModel.unpack.isNaN from rfl]
    obtain hnan | heq := eq_nan_or_compare_self x.toModel.unpack
    · rw [hnan]
      rfl
    · have hsome := isSome_compare x.toModel.unpack x.toModel.unpack
      rw [heq, Bool.and_self] at hsome
      rw [heq, ← hsome]
      rfl

theorem any_order? {p q : Quantity} (hp : p.isNumber = true) (hq : q.isNumber = true) :
    (p.order? q).any (· != .gt) = !q.below p := by
  have hsome : (p.order? q).isSome = true := by rw [isSome_order?, hp, hq, Bool.and_self]
  rw [below, order?_swap p q]
  obtain ⟨o, ho⟩ := Option.isSome_iff_exists.mp hsome
  rw [ho]
  cases o <;> rfl

end Quantity

/-! ### Rounding -/

theorem mantissa_shiftRight (em : ExtendedMantissa) (n : Nat) : (em >>> n).mantissa = em.mantissa / 2 ^ n := by
  show (n.repeat ExtendedMantissa.shiftRightOne em).mantissa = _
  induction n with
  | zero => simp [Nat.repeat]
  | succ n ih =>
    show (n.repeat ExtendedMantissa.shiftRightOne em).mantissa / 2 = _
    rw [ih, Nat.div_div_eq_div_mul, Nat.pow_succ]

theorem roundedMantissa_le (em : ExtendedMantissa) : em.roundedMantissa ≤ em.mantissa + 1 := by
  obtain ⟨m, round, sticky⟩ := em
  cases round <;> cases sticky <;>
    simp only [ExtendedMantissa.roundedMantissa, ExtendedMantissa.accuracy, Accuracy.roundToNearestEven] <;> omega

theorem shiftToTargetExponent_le {m : Nat} {e bound : Int} (he : e ≤ bound) (hm : m.log2 + e ≤ bound + 52)
    (hbound : -1074 ≤ bound) (a : Accuracy) : (shiftToTargetExponent .binary64 m e a).2 ≤ bound := by
  show e + ((Format.binary64.targetExponent (totalExponent m e) - e).toNat : Int) ≤ bound
  have htarget : Format.binary64.targetExponent (totalExponent m e) = max (m.log2 + 1 + e - 53) (-1074) := rfl
  rw [htarget]
  omega

theorem mantissa_shiftToTargetExponent_lt (m : Nat) (e : Int) :
    (shiftToTargetExponent .binary64 m e .exact).1.mantissa < 2 ^ 53 := by
  let n := (Format.binary64.targetExponent (totalExponent m e) - e).toNat
  show (ExtendedMantissa.ofMantissaAndAccuracy m .exact >>> n).mantissa < 2 ^ 53
  have htarget : Format.binary64.targetExponent (totalExponent m e) = max (m.log2 + 1 + e - 53) (-1074) := rfl
  have hn : m.log2 ≤ 52 + n := by omega
  rw [mantissa_shiftRight, Nat.div_lt_iff_lt_mul (Nat.two_pow_pos n), ← Nat.pow_add]
  show m < _
  exact Nat.lt_of_lt_of_le Nat.lt_log2_self (Nat.pow_le_pow_right (by decide) (by omega))

def ExponentLe (bound : Int) : UnpackedFloat → Prop
  | .zero _ => True
  | .finite _ _ e _ => e ≤ bound
  | _ => False

theorem exponentLe_round {m : Nat} {e bound : Int} (he : e ≤ bound) (hm : m.log2 + e ≤ bound + 52)
    (hbound : -1074 ≤ bound) (s : Sign) : ExponentLe (bound + 1) (roundWithAccuracy .binary64 s m e .exact) := by
  let first := shiftToTargetExponent .binary64 m e .exact
  have hfirst : first.2 ≤ bound := shiftToTargetExponent_le he hm hbound .exact
  have hlog : first.1.roundedMantissa.log2 ≤ 53 := by
    have hrounded : first.1.roundedMantissa ≤ 2 ^ 53 :=
      Nat.le_trans (roundedMantissa_le _) (mantissa_shiftToTargetExponent_lt m e)
    by_cases hzero : first.1.roundedMantissa = 0
    · rw [hzero]
      decide
    · exact Nat.le_of_lt_succ ((Nat.log2_lt hzero).mpr (by omega))
  let second := shiftToTargetExponent .binary64 first.1.roundedMantissa first.2 .exact
  have hsecond : second.2 ≤ bound + 1 := shiftToTargetExponent_le (by omega) (by omega) (by omega) .exact
  have hround : roundWithAccuracy .binary64 s m e .exact = if h : second.1.mantissa = 0 then .zero s
      else .finite s second.1.mantissa second.2 (Nat.pos_of_ne_zero h) := rfl
  rw [hround]
  by_cases hzero : second.1.mantissa = 0
  · rw [dif_pos hzero]
    exact trivial
  · rw [dif_neg hzero]
    exact hsecond

/-! ### Packing -/

theorem isInf_unpack {b : BitVec 64} (h : @unpackExponent .binary64 b ≠ -1#_) :
    (UnpackedFloat.unpack .binary64 b).isInf = false := by
  have hne : (@unpackExponent .binary64 b).toNat ≠ 2047 := fun heq => h (BitVec.eq_of_toNat_eq heq)
  obtain ⟨s, hzero⟩ | ⟨s, m, e, hm, hfinite, -⟩ := unpack_cases hne
  · rw [hzero]
    rfl
  · rw [hfinite]
    rfl

theorem isInf_pack {u : UnpackedFloat} (h : ExponentLe 971 u) : (Float.Model.pack u).isInf = false := by
  refine isInf_unpack (b := UnpackedFloat.pack .binary64 u) ?_
  fun_cases UnpackedFloat.pack .binary64 u
  case case1 => exact h.elim
  case case2 => exact h.elim
  case case3 =>
    rw [packedZero, unpackExponent_packComponents]
    decide
  case case4 s m e hm exponent hhigh =>
    have he : e ≤ 971 := h
    have hlow : (e + 1023 + 52).toNat < 2047 := by omega
    exact absurd hhigh (Nat.not_le.mpr (Nat.succ_lt_succ hlow))
  case case5 s m e hm _ exponent hlow _ =>
    rw [unpackExponent_packComponents]
    intro hones
    have hvalue : exponent % 2 ^ 11 = 2047 := congrArg BitVec.toNat hones
    have hbound : ¬2 ^ 11 ≤ exponent + 1 := hlow
    omega
  case case6 =>
    rw [unpackExponent_packComponents]
    decide

/-! ### Multiplying -/

theorem isInf_mul {x y : Float} (hx : (Exact.ofFloat? x).isSome) {s : Sign} {m : Nat} {e : Int} {hm : 0 < m}
    (hy : y.toModel.unpack = .finite s m e hm) (hdigits : m < 2 ^ 53) (he : e ≤ -54) :
    (x * y).isInf = false := by
  show (Float.Model.pack (UnpackedFloat.mul .binary64 x.toModel.unpack y.toModel.unpack)).isInf = false
  rw [hy]
  refine isInf_pack ?_
  obtain ⟨s', hzero⟩ | ⟨s', m', e', hm', hfinite, hdigits', he'⟩ := exists_unpack hx
  · rw [hzero]
    exact trivial
  · rw [hfinite]
    have hlog : (m' * m).log2 < 106 := by
      refine (Nat.log2_lt (Nat.ne_of_gt (Nat.mul_pos hm' hm))).mpr ?_
      exact Nat.lt_of_lt_of_le (Nat.mul_lt_mul'' hdigits' hdigits) (by decide)
    exact @exponentLe_round (m' * m) (e' + e) 970 (by omega) (by omega) (by decide) (s' * s)

theorem isInf_radians {x : Float} (h : (Exact.ofFloat? x).isSome) : (Transform.radians x).isInf = false := by
  have hdegree : ∃ s m e hm, (Transform.pi / 180.0).toModel.unpack = .finite s m e hm ∧ m < 2 ^ 53 ∧ e ≤ -54 := by
    refine ⟨_, _, _, _, rfl, ?_, ?_⟩ <;> decide +kernel
  obtain ⟨s, m, e, hm, hunpack, hdigits, he⟩ := hdegree
  exact isInf_mul h hunpack hdigits he

end WatchFace.Number
