import WatchFace.Proofs.Number.Doubles
import WatchFace.Proofs.Studio.Replay

/-!
# Fields with limits and kinds of values

A field puts a number inside its limits by two comparisons, and what is not a number passes both. A limit that takes the
place of a number is carried in the form of the field, and may leave the limits there. A field for a mark reads words.
-/

namespace WatchFace

open Catalog Number

namespace Value

def notAbove (a b : Value) : Bool :=
  match a.quantity?, b.quantity? with
  | some p, some q => (p.order? q).any (· != .gt)
  | _, _ => false

def within (v low high : Value) : Bool := low.notAbove v && v.notAbove high

theorem less_of_quantity? {a b : Value} {p q : Quantity} (ha : a.quantity? = some p) (hb : b.quantity? = some q) :
    a.less b = .ok (p.below q) := by
  cases a <;> cases b <;> simp_all [less, quantity?]

theorem exists_of_notAbove {a b : Value} (h : a.notAbove b = true) : ∃ p q, a.quantity? = some p ∧
    b.quantity? = some q ∧ p.isNumber = true ∧ q.isNumber = true := by
  unfold notAbove at h
  split at h
  case h_1 p q hp hq =>
    have hsome : (p.order? q).isSome = true := by
      cases ho : p.order? q with
      | none => rw [ho] at h; cases h
      | some o => rfl
    rw [Quantity.isSome_order?, Bool.and_eq_true] at hsome
    exact ⟨p, q, hp, hq, hsome⟩
  case h_2 => cases h

end Value

namespace Field

/-- A value that an edit keeps, and carries in the form of the field, inside of limits both times. -/
def Minds (x : Field) (low high v : Value) : Prop :=
  v.within low high = true ∧ ∀ said, x.convert v = .ok said → said.within low high = true

section

variable {x : Field} {low high step v : Value} {p q l : Quantity} {text : String}

theorem exists_of_map_eq_ok {α β : Type} {g : α → β} {e : Except Fault α} {b : β} (h : e.map g = .ok b) : ∃ a, b = g a := by
  cases e with
  | error => cases h
  | ok a => exact ⟨a, (Except.ok.inj h).symm⟩

theorem convert_text (hreading : x.kind.reading ≠ .words) (h : x.convert (.text text) = .ok v) :
    (∃ q, v.quantity? = some q ∧ v.same v = q.isNumber) ∧ x.convert v = .ok v := by
  cases hkind : x.kind.reading with
  | words => exact absurd hkind hreading
  | whole =>
    rw [convert, hkind] at h
    obtain ⟨n, rfl⟩ := exists_of_map_eq_ok h
    exact ⟨⟨.whole n, rfl, Quantity.order?_self_beq _⟩, by rw [convert, hkind]; rfl⟩
  | number =>
    rw [convert, hkind] at h
    obtain ⟨y, rfl⟩ := exists_of_map_eq_ok h
    exact ⟨⟨.double y, rfl, Quantity.order?_self_beq _⟩, by rw [convert, hkind]; rfl⟩

theorem clamp_limits (hle : low.notAbove high = true) (hlow : low.quantity? = some l) (hhigh : high.quantity? = some p)
    (hv : v.quantity? = some q) :
    clamp (.limits low high step) v = .ok (if p.below q then high else if q.below l then low else v) := by
  obtain ⟨l', p', hl', hp', hl, hp⟩ := Value.exists_of_notAbove hle
  cases hlow.symm.trans hl'
  cases hhigh.symm.trans hp'
  have hbelow : p.below l = false := by
    rw [Value.notAbove, hlow, hhigh] at hle
    simpa [Quantity.any_order? hl hp] using hle
  have hmost : atMost v high = .ok (if p.below q then high else v) := by
    rw [atMost, Value.less_of_quantity? hhigh hv]
    rfl
  rw [clamp, hmost]
  show atLeast _ low = _
  split
  · rw [atLeast, Value.less_of_quantity? hhigh hlow, hbelow]
    rfl
  · rw [atLeast, Value.less_of_quantity? hv hlow]
    rfl

/-- **What is read stays inside the limits** as long as it is a number, and a limit that takes its place does. -/
theorem minds_read_iff (hkind : x.kind = .limits low high step) (hreading : x.kind.reading ≠ .words)
    (hle : low.notAbove high = true) (h : x.convert (.text text) = .ok v) :
    ∃ w, x.read (.text text) = (true, w) ∧ (x.Minds low high w ↔ v.same v = true ∧
      if v.notAbove high then low.notAbove v = true ∨ x.Minds low high low else x.Minds low high high) := by
  obtain ⟨⟨q, hv, hsame⟩, hself⟩ := convert_text hreading h
  obtain ⟨l, p, hlow, hhigh, hl, hp⟩ := Value.exists_of_notAbove hle
  have hread : x.convert (.text text) >>= clamp x.kind =
      .ok (if p.below q then high else if q.below l then low else v) := by
    rw [h, hkind]
    show clamp (.limits low high step) v = _
    exact clamp_limits hle hlow hhigh hv
  refine ⟨_, by rw [read, hread], ?_⟩
  rw [hsame]
  cases hq : q.isNumber with
  | false =>
    -- nothing compares with what is not a number
    have hnone : ∀ o : Quantity, o.order? q = none ∧ q.order? o = none := by
      intro o
      rw [← Option.not_isSome_iff_eq_none, ← Option.not_isSome_iff_eq_none, Quantity.isSome_order?,
        Quantity.isSome_order?, hq]
      simp
    have hwithin : v.within low high = false := by
      rw [Value.within, Value.notAbove, hlow, hv]
      simp [(hnone l).1]
    rw [Quantity.below, Quantity.below, (hnone p).1, (hnone l).2]
    simp [Minds, hwithin]
  | true =>
    have habove : v.notAbove high = !p.below q := by
      rw [Value.notAbove, hv, hhigh]
      exact Quantity.any_order? hq hp
    have hbelow : low.notAbove v = !q.below l := by
      rw [Value.notAbove, hlow, hv]
      exact Quantity.any_order? hl hq
    rw [habove, hbelow]
    cases hupper : p.below q with
    | true => simp
    | false =>
      cases hlower : q.below l with
      | true => simp
      | false =>
        have hwithin : v.within low high = true := by rw [Value.within, habove, hbelow, hupper, hlower]; rfl
        have hminds : x.Minds low high v := ⟨hwithin, fun said hsaid => by rw [← Except.ok.inj (hself.symm.trans hsaid), hwithin]⟩
        simp [hminds]

end

end Field

namespace Studio

open EStateM

def hand (r : Reactions) (f : Nat) (x : Field) (v : Value) (finish : Bool) : Act Unit := do
  changeField f fun x => { x with settled := finish }
  r.emit x.channel (← require (x.convert v))
  if finish then
    keep r f v (← field f).value
    setValue r f v

def dismiss (r : Reactions) (f : Nat) (x : Field) (finish : Bool) : Act Unit := do
  changeField f fun x => { x with settled := finish }
  if finish then setValue r f x.value

/-- **What is entered stays inside the limits** exactly if it is a number, and a limit put in its place does. -/
theorem run_enter_limits (r : Reactions) {s : Studio} {f : Nat} {x : Field} (hx : s.fields[f]? = some x)
    {low high step : Value} (hkind : x.kind = .limits low high step) (hreading : x.kind.reading ≠ .words)
    (hle : low.notAbove high = true) (text : String) (finish : Bool) :
    (∀ e, x.convert (.text text) = .error e →
      (enter r f (.text text) finish).run s = (dismiss r f x finish).run s) ∧
    ∀ v, x.convert (.text text) = .ok v → ∃ w,
      (enter r f (.text text) finish).run s = (hand r f x w finish).run s ∧
      (x.Minds low high w ↔ v.same v = true ∧
        if v.notAbove high then low.notAbove v = true ∨ x.Minds low high low else x.Minds low high high) := by
  refine ⟨fun e he => ?_, fun v hv => ?_⟩
  · have hread : x.read (.text text) = (false, x.value) := by
      rw [Field.read, he]
      rfl
    unfold enter
    rw [run_bind_ok (run_field hx)]
    simp only [hread]
    rfl
  · obtain ⟨w, hread, hiff⟩ := Field.minds_read_iff hkind hreading hle hv
    refine ⟨w, ?_, hiff⟩
    unfold enter
    rw [run_bind_ok (run_field hx)]
    simp only [hread]
    rfl

/-- A number above the upper limit of a field for whole numbers is exchanged for it. -/
theorem run_enter_limits_above :
    let s := lone (.limits (.int 0) (.int 100) (.int 1)) (.int 0)
    ∃ x w, s.fields[0]? = some x ∧ (enter reactions 0 (.text "250") true).run s = (hand reactions 0 x w true).run s ∧
      x.Minds (.int 0) (.int 100) w := by
  intro s
  obtain ⟨w, hrun, hiff⟩ :=
    (run_enter_limits reactions (s := s) (f := 0) rfl rfl (by decide) (by decide) "250" true).2 (.int 250) rfl
  refine ⟨_, w, rfl, hrun, hiff.mpr ⟨by decide, ?_⟩⟩
  rw [if_neg (by decide)]
  exact ⟨by decide, fun said hsaid => by rw [← Except.ok.inj hsaid]; decide⟩

/-- What is not a number is accepted: it is carried, kept in the history and stored. -/
theorem within_enter_nan :
    let s := (enter reactions 0 (.text "nan") true).after (lone (.limits (.int 0) (.int 100) (.int 0)) (.int 0))
    s.values.map (·.within (.int 0) (.int 100)) = [false] ∧
      s.channels.map (·.last.within (.int 0) (.int 100)) = [false] ∧ s.history.index = 1 := by
  decide +kernel

end Studio

variable {x : Field} {f : Nat} {v w low high step : Value}

namespace Catalog.Kind

def holds (k : Kind) (v : Value) : Bool :=
  match k with
  | .flag => (v matches .bool _)
  | .nested | .options _ | .font => true
  | k =>
    match k.reading with
    | .words => (v matches .text _)
    | .whole => (v matches .int _)
    | .number => (v matches .int _ | .float _)

def proper (k : Kind) : Bool :=
  match k with
  | .limits low high _ => k.holds low && k.holds high
  | _ => true

theorem proper_schemas : (schemas.all fun s => s.2.all fun e => e.2.proper) = true := by decide

end Catalog.Kind

namespace Field

theorem clamp_limits_cases (h : clamp (.limits low high step) v = .ok w) : w = v ∨ w = low ∨ w = high := by
  obtain ⟨b, c, -, -, rfl⟩ := exists_of_clamp h
  cases b <;> cases c <;> simp

theorem convert_cases (h : x.convert v = .ok w) :
    (x.kind.reading = .words ∧ ∃ s, w = .text s) ∨ (x.kind.reading = .whole ∧ ∃ n, w = .int n) ∨
      (x.kind.reading = .number ∧ ∃ y, w = .float y) := by
  unfold convert at h
  cases hreading : x.kind.reading with
  | words => exact .inl ⟨rfl, v.shown, by simpa [hreading] using h.symm⟩
  | whole => exact .inr (.inl ⟨rfl, exists_of_map_eq_ok (by simpa [hreading] using h)⟩)
  | number => exact .inr (.inr ⟨rfl, exists_of_map_eq_ok (by simpa [hreading] using h)⟩)

/-- **What a field reads is of its kind, unless the field is a mark.** -/
theorem holds_read (hproper : x.kind.proper = true) (h : x.read v = (true, w)) :
    x.kind.holds w = true ↔ x.kind ≠ .flag := by
  obtain ⟨u, hconvert, hclamp⟩ : ∃ u, x.convert v = .ok u ∧ clamp x.kind u = .ok w := by
    rw [read_eq_true_iff] at h
    cases hu : x.convert v with
    | error e => rw [hu] at h; cases h
    | ok u => exact ⟨u, rfl, by rwa [hu] at h⟩
  have hcases := convert_cases hconvert
  cases hkind : x.kind with
  | limits low high step =>
    rw [hkind] at hproper hclamp hcases
    refine iff_of_true ?_ (by simp)
    obtain rfl | rfl | rfl := clamp_limits_cases hclamp
    · obtain ⟨hr, s, rfl⟩ | ⟨hr, n, rfl⟩ | ⟨hr, y, rfl⟩ := hcases <;> simp [Kind.holds, hr]
    · exact (Bool.and_eq_true_iff.mp hproper).1
    · exact (Bool.and_eq_true_iff.mp hproper).2
  | _ =>
    rw [hkind] at hclamp hcases
    cases hclamp
    obtain ⟨-, s, rfl⟩ | ⟨hr, -⟩ | ⟨hr, -⟩ := hcases
    · simp [Kind.holds, Kind.reading]
    all_goals cases hr

end Field

namespace Studio

open EStateM

/-- **Along every run of edits, undoing and redoing, a field holds a value of its kind, exactly if it is no mark or
    none of its edits is in effect.** -/
theorem holds_perform_iff {s : Studio} (hnew : s.history = {}) (deeds : List Deed) (hfits : ∀ d ∈ deeds, d.Fits s)
    (hx : s.fields[f]? = some x) (hproper : x.kind.proper = true) (hvalue : x.kind.holds x.value = true) :
    let t := s.perform deeds
    ∃ v, t.values[f]? = some v ∧ (x.kind.holds v = true ↔
      x.kind ≠ .flag ∨ lastGiven? f (t.history.commands.take t.history.index) = none) := by
  intro t
  have h : Faithful s t := (faithful_refl hnew).perform hfits
  have hreplay := getElem?_replay (getElem?_values hx) (t.history.commands.take t.history.index)
  rw [← h.told] at hreplay
  refine ⟨_, hreplay, ?_⟩
  cases hlast : lastGiven? f (t.history.commands.take t.history.index) with
  | none => exact iff_of_true hvalue (.inr rfl)
  | some new =>
    -- the command that gave the field its value stands for an edit, in which the field read it
    obtain ⟨c, hc, hgives⟩ := List.exists_of_findSome?_eq_some hlast
    obtain ⟨i, hi⟩ := List.getElem?_of_mem (List.mem_of_mem_take (List.mem_reverse.mp hc))
    have hsound := h.sound i c hi
    cases c with
    | change g new' old =>
      obtain ⟨⟨y, hy, -, w, hread⟩, -⟩ := hsound
      by_cases hg : g = f
      · subst hg
        cases hx.symm.trans hy
        obtain rfl : new' = new := by simpa [Command.gives?] using hgives
        simpa using Field.holds_read hproper hread
      · simp [Command.gives?, hg] at hgives
    | _ => exact absurd hsound id

theorem holds_perform_limits :
    let t := (lone (.limits (.int 0) (.float 1.5) (.int 0)) (.int 0)).perform
      [.commit 0 (.text "7"), .undo, .commit 0 (.text "-1")]
    ∃ v, t.values[0]? = some v ∧ ((Kind.limits (.int 0) (.float 1.5) (.int 0)).holds v = true ↔
      Kind.limits (.int 0) (.float 1.5) (.int 0) ≠ .flag ∨
        lastGiven? 0 (t.history.commands.take t.history.index) = none) := by
  have hcommit := fits_commit_lone (.limits (.int 0) (.float 1.5) (.int 0)) (.int 0) rfl (by simp)
  refine holds_perform_iff (s := lone (.limits (.int 0) (.float 1.5) (.int 0)) (.int 0)) (f := 0) rfl _ ?_ rfl ?_ ?_
  · simp only [List.forall_mem_cons]
    exact ⟨hcommit _, trivial, hcommit _, List.forall_mem_nil _⟩
  · rfl
  · rfl

/-- A mark that is set is a text from then on. -/
theorem not_holds_mark :
    ((enter reactions 0 (.bool true) true).after (lone .flag (.bool false))).values.map Kind.flag.holds = [false] := by
  decide +kernel

end Studio

end WatchFace
