import Mathlib.Algebra.BigOperators.Group.List.Basic
import Mathlib.Tactic.Ring
import WatchFace.Proofs.Actions
import WatchFace.Transform

/-!
# Staged transforms are products

Calls go to a pending step or to the whole. Over exact numbers this makes no difference: the steps only group the
factors of one product.
-/

namespace WatchFace.Transform

open EStateM

variable {α : Type}

/-! ### Programs -/

inductive Elementary (α : Type) where
  | shift (dx dy : α)
  | scale (sx sy : α)
  | shear (sh sv : α)
  | rotate (c s : α)
  deriving Repr, DecidableEq

inductive Call (α : Type) where
  | next
  | nextWith (m : Matrix α)
  | apply (e : Elementary α)
  | push
  deriving Repr, DecidableEq

namespace Call

def pends (pending : Bool) : Call α → Bool
  | next | nextWith _ => true
  | apply _ => pending
  | push => false

def Placed (pending : Bool) : List (Call α) → Prop
  | [] => True
  | call :: calls => (call = push → pending = true) ∧ Placed (call.pends pending) calls

end Call

section

variable [Zero α] [One α] [Neg α]

def Elementary.matrix : Elementary α → Matrix α
  | shift dx dy => .shifting dx dy
  | scale sx sy => .scaling sx sy
  | shear sh sv => .shearing sh sv
  | rotate c s => .rotation c s

def Call.factor : Call α → Matrix α
  | next | push => .one
  | nextWith m => m
  | apply e => e.matrix

variable [Add α] [Mul α]

def Call.act : Call α → EStateM Fault (Staged α) Unit
  | next => modify Staged.next
  | nextWith m => modify (·.nextWith m)
  | apply e => modify (·.add e.matrix)
  | push => do
    match (← get).push with
    | .ok t => set t
    | .error e => throw e

def close : EStateM Fault (Staged α) Unit := do
  if (← get).pending.isSome then Call.push.act

end

/-! ### Products -/

section

variable [CommRing α]

/-- Maps of the plane compose; the left factor acts first. -/
instance : Monoid (Matrix α) where
  mul := Matrix.mul
  one := Matrix.one
  mul_assoc a b c := by
    show (a.mul b).mul c = a.mul (b.mul c)
    simp only [Matrix.mul, Matrix.mk.injEq]
    refine ⟨?_, ?_, ?_, ?_, ?_, ?_, ?_, ?_, ?_⟩ <;> ring
  one_mul a := by
    show Matrix.one.mul a = a
    simp [Matrix.mul, Matrix.one]
  mul_one a := by
    show a.mul Matrix.one = a
    simp [Matrix.mul, Matrix.one]

namespace Staged

def total (t : Staged α) : Matrix α := t.whole * t.pending.getD 1

theorem total_start (inherited : Option (Matrix α)) : (start inherited).total = inherited.getD 1 := by
  cases inherited with
  | none => exact mul_one 1
  | some m => exact (mul_one (1 * m)).trans (one_mul m)

theorem nextWith_eq (t : Staged α) (m : Matrix α) : t.nextWith m = ⟨t.total, some m⟩ := by
  obtain ⟨whole, _ | p⟩ := t
  · show (⟨whole, some m⟩ : Staged α) = ⟨whole * 1, some m⟩
    rw [mul_one]
  · rfl

theorem total_add (t : Staged α) (m : Matrix α) : (t.add m).total = t.total * m := by
  obtain ⟨whole, _ | p⟩ := t
  · show whole * m * 1 = whole * 1 * m
    rw [mul_one, mul_one]
  · exact (mul_assoc whole p m).symm

theorem isSome_pending_add (t : Staged α) (m : Matrix α) : (t.add m).pending.isSome = t.pending.isSome := by
  obtain ⟨whole, _ | p⟩ := t <;> rfl

/-- **One call.** It succeeds where it may stand, and adds its factor on the right. -/
theorem exists_run_call (call : Call α) {t : Staged α} (h : call = .push → t.pending.isSome = true) :
    ∃ u, call.act.run t = .ok () u ∧ u.pending.isSome = call.pends t.pending.isSome ∧
      u.total = t.total * call.factor := by
  cases call with
  | next => exact ⟨⟨t.total, some 1⟩, congrArg (Result.ok ()) (t.nextWith_eq 1), rfl, rfl⟩
  | nextWith m => exact ⟨⟨t.total, some m⟩, congrArg (Result.ok ()) (t.nextWith_eq m), rfl, rfl⟩
  | apply e => exact ⟨t.add e.matrix, rfl, t.isSome_pending_add e.matrix, t.total_add e.matrix⟩
  | push =>
    obtain ⟨whole, _ | p⟩ := t
    · cases h rfl
    · exact ⟨⟨whole * p, none⟩, rfl, rfl, rfl⟩

theorem exists_run_forM {calls : List (Call α)} {t : Staged α} (h : Call.Placed t.pending.isSome calls) :
    ∃ u, (calls.forM Call.act).run t = .ok () u ∧ u.total = t.total * (calls.map Call.factor).prod := by
  induction calls generalizing t with
  | nil => exact ⟨t, rfl, (mul_one _).symm⟩
  | cons call calls ih =>
    obtain ⟨u, hrun, hpending, htotal⟩ := exists_run_call call h.1
    obtain ⟨v, hruns, htotals⟩ := ih (t := u) (hpending ▸ h.2)
    refine ⟨v, (run_bind_ok hrun).trans hruns, ?_⟩
    rw [htotals, htotal, List.map_cons, List.prod_cons, mul_assoc]

theorem run_close (t : Staged α) : close.run t = .ok () ⟨t.total, none⟩ := by
  obtain ⟨whole, pending⟩ := t
  cases pending with
  | none =>
    show Result.ok () (⟨whole, none⟩ : Staged α) = .ok () ⟨whole * 1, none⟩
    rw [mul_one]
  | some p => rfl

/-- **Staged transforms are products.** Every program in which a push stands only where a step is pending succeeds, and
    the whole is the inherited map times the maps that were called for, in this order. A push with nothing pending is a
    fault and changes nothing. -/
theorem exists_run_calls (inherited : Option (Matrix α)) (calls : List (Call α)) (h : Call.Placed false calls) :
    (do calls.forM Call.act; close).run (start inherited) =
        .ok () ⟨inherited.getD 1 * (calls.map Call.factor).prod, none⟩ ∧
      ∀ t : Staged α, t.pending = none → Call.push.act.run t = .error .wrongKind t := by
  constructor
  · have hstart : (start inherited).pending.isSome = false := rfl
    obtain ⟨t, hrun, htotal⟩ := exists_run_forM (hstart ▸ h)
    rw [run_bind_ok hrun, run_close, htotal, total_start]
  · rintro ⟨whole, pending⟩ rfl
    rfl

end Staged

end

def sampleCalls : List (Call Int) :=
  [.apply (.scale 2 3), .next, .apply (.shift 1 4), .nextWith (.shearing 1 0), .apply (.rotate 0 1), .push,
    .apply (.shift 5 0)]

theorem Staged.exists_run_calls_sampleCalls : Call.Placed false sampleCalls ∧
    (do sampleCalls.forM Call.act; close).run (start (some (.shifting 7 0))) =
      .ok () ⟨⟨0, 2, 0, -3, 3, 0, 1, 19, 1⟩, none⟩ := by
  have hplaced : Call.Placed false sampleCalls := by simp [sampleCalls, Call.Placed, Call.pends]
  exact ⟨hplaced, (exists_run_calls _ sampleCalls hplaced).1⟩

end WatchFace.Transform
