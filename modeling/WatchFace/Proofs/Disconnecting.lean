import Mathlib.Data.List.Induction
import WatchFace.Channel

/-!
# Listeners that leave

A channel keeps its listeners on three lists, one for each kind of value, and takes a listener that leaves off two of
them. So a listener that left as often as it joined still hears every flag.
-/

namespace WatchFace

open List

def Value.isFlag : Value → Bool
  | .bool _ => true
  | _ => false

namespace Channel

variable {L : Type} [DecidableEq L]

/-! ### Runs -/

inductive Step (L : Type) where
  | connect (l : L)
  | disconnect (l : L)
  | emit (v : Value)

namespace Step

@[simp]
def connects (l : L) : Step L → Bool
  | connect m => m = l
  | _ => false

@[simp]
def disconnects (l : L) : Step L → Bool
  | disconnect m => m = l
  | _ => false

/-- What a step makes of a channel, and who is to be called with what. -/
def heed (c : Channel L) : Step L → Channel L × Except Fault (List L × Value)
  | connect l => c.connect l
  | disconnect l => (c.disconnect l, .ok ([], .none))
  | emit v => c.emit v

end Step

def hearers : Except Fault (List L × Value) → List L
  | .ok (ls, _) => ls
  | .error _ => []

def called (c : Channel L) (step : Step L) : List L := hearers (step.heed c).2

def through (steps : List (Step L)) : Channel L := steps.foldl (fun c step => (step.heed c).1) {}

structure Gone (l : L) (n : Nat) (steps : List (Step L)) : Prop where
  joined : steps.countP (Step.connects l) = n
  left : steps.countP (Step.disconnects l) = n

/-- A listener never left more often than it had joined. -/
def Paired (l : L) (steps : List (Step L)) : Prop :=
  ∀ before, before <+: steps → before.countP (Step.disconnects l) ≤ before.countP (Step.connects l)

/-! ### Who is on the lists -/

/-- How often a listener has joined and not left since. -/
def standing (l : L) (steps : List (Step L)) : Nat :=
  steps.foldl (fun k step => if step.connects l then k + 1 else if step.disconnects l then k - 1 else k) 0

omit [DecidableEq L] in
theorem fst_connect (c : Channel L) (l : L) : (c.connect l).1 = c.register l := by
  unfold connect
  dsimp only
  split <;> rfl

theorem through_concat (steps : List (Step L)) (step : Step L) :
    through (steps ++ [step]) = (step.heed (through steps)).1 := by
  simp [through]

theorem standing_concat (l : L) (steps : List (Step L)) (step : Step L) :
    standing l (steps ++ [step]) = if step.connects l then standing l steps + 1
      else if step.disconnects l then standing l steps - 1 else standing l steps := by
  simp [standing]

theorem paired_concat_iff {l : L} {steps : List (Step L)} {step : Step L} :
    Paired l (steps ++ [step]) ↔ Paired l steps ∧
      (steps ++ [step]).countP (Step.disconnects l) ≤ (steps ++ [step]).countP (Step.connects l) := by
  simp only [Paired, prefix_concat_iff, or_imp, forall_and, forall_eq, and_comm]

variable {l : L} {n : Nat} {steps : List (Step L)}

theorem count_through (l : L) (steps : List (Step L)) :
    (through steps).numbers.count l = standing l steps ∧ (through steps).texts.count l = standing l steps ∧
      (through steps).flags.count l = steps.countP (Step.connects l) := by
  induction steps using List.reverseRecOn with
  | nil => exact ⟨rfl, rfl, rfl⟩
  | append_singleton steps step ih =>
    obtain ⟨hnumbers, htexts, hflags⟩ := ih
    rw [through_concat, standing_concat]
    cases step with
    | connect m =>
      rw [Step.heed, fst_connect]
      by_cases hm : m = l <;> simp [register, hm, hnumbers, htexts, hflags]
    | disconnect m =>
      by_cases hm : m = l
      · subst hm
        simp [Step.heed, disconnect, hnumbers, htexts, hflags]
      · simp [Step.heed, disconnect, hm, count_erase_of_ne (Ne.symm hm), hnumbers, htexts, hflags]
    | emit v => simpa [Step.heed, emit] using ⟨hnumbers, htexts, hflags⟩

theorem standing_add_eq_iff (l : L) (steps : List (Step L)) :
    steps.countP (Step.connects l) ≤ standing l steps + steps.countP (Step.disconnects l) ∧
      (standing l steps + steps.countP (Step.disconnects l) = steps.countP (Step.connects l) ↔ Paired l steps) := by
  induction steps using List.reverseRecOn with
  | nil => simp [standing, Paired]
  | append_singleton steps step ih =>
    obtain ⟨hle, heq⟩ := ih
    rw [paired_concat_iff, standing_concat, ← heq]
    cases step with
    | connect m => by_cases hm : m = l <;> simp [hm] <;> omega
    | disconnect m => by_cases hm : m = l <;> simp [hm] <;> omega
    | emit v => simp; omega

/-! ### Who is called -/

theorem count_hearers_route {c : Channel L} (hnumbers : c.numbers.count l = 0) (htexts : c.texts.count l = 0)
    {v : Value} (hv : v.isFlag = false) : (hearers (c.route v)).count l = 0 := by
  cases v with
  | bool b => cases hv
  | int n =>
    unfold route
    dsimp only
    cases Number.ofInt? n with
    | none => rfl
    | some x => exact hnumbers
  | float x => exact hnumbers
  | _ => exact htexts

theorem count_hearers_register (c : Channel L) {m : L} (hm : m ≠ l) (v : Value) :
    (hearers ((c.register m).route v)).count l = (hearers (c.route v)).count l := by
  have hcount : ∀ ls : List L, (ls ++ [m]).count l = ls.count l := fun ls => by simp [hm]
  cases v with
  | int n =>
    unfold route
    dsimp only
    cases Number.ofInt? n with
    | none => rfl
    | some x => exact hcount _
  | _ => exact hcount _

/-- **How often a listener that left is still called.** If it left as often as it joined, every flag that is carried
    later calls it as often as it joined. No other value calls it, exactly if it never left more often than it had
    joined. When somebody else joins, it is called as if the last value were carried once more. -/
theorem count_called_of_gone (h : Gone l n steps) :
    (∀ v, v.isFlag = true → ((through steps).called (.emit v)).count l = n) ∧
      ((∀ v, v.isFlag = false → ((through steps).called (.emit v)).count l = 0) ↔ Paired l steps) ∧
      ∀ m, m ≠ l → ((through steps).called (.connect m)).count l = if (through steps).last.isNone then 0
        else ((through steps).called (.emit (through steps).last)).count l := by
  obtain ⟨hnumbers, htexts, hflags⟩ := count_through l steps
  refine ⟨fun v hv => ?_, ?_, fun m hm => ?_⟩
  · cases v with
    | bool b => exact hflags.trans h.joined
    | _ => cases hv
  · have hzero : standing l steps = 0 ↔ Paired l steps := by
      rw [← (standing_add_eq_iff l steps).2, h.joined, h.left]
      omega
    rw [← hzero]
    constructor
    · intro hnone
      exact htexts.symm.trans (hnone (.text "") rfl)
    · intro hstanding v hv
      exact count_hearers_route (hnumbers.trans hstanding) (htexts.trans hstanding) hv
  · show (hearers (connect _ m).2).count l = _
    unfold connect
    dsimp only
    split
    case isTrue hnone => exact (if_pos hnone).symm
    case isFalse hsome => exact (count_hearers_register _ hm _).trans (if_neg hsome).symm

def sampleSteps : List (Step String) :=
  [.connect "a", .emit (.int 1), .connect "a", .disconnect "a", .connect "b", .emit (.text "x"), .disconnect "a"]

theorem paired_sampleSteps : Paired "a" sampleSteps := (standing_add_eq_iff "a" sampleSteps).2.mp (by decide)

theorem count_called_of_gone_sampleSteps : Gone "a" 2 sampleSteps ∧
    ((through sampleSteps).called (.emit (.text "y"))).count "a" = 0 ∧
    ((through sampleSteps).called (.connect "c")).count "a" = 0 := by
  have hgone : Gone "a" 2 sampleSteps := ⟨by decide, by decide⟩
  have hcalled := (count_called_of_gone hgone).2
  exact ⟨hgone, hcalled.1.mpr paired_sampleSteps _ rfl, hcalled.2 "c" (by decide)⟩

theorem called_sampleSteps : Gone "a" 2 sampleSteps ∧ Paired "a" sampleSteps ∧
    (through sampleSteps).called (.emit (.bool true)) = ["a", "a", "b"] :=
  ⟨⟨by decide, by decide⟩, paired_sampleSteps, rfl⟩

end Channel

end WatchFace
