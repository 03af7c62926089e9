import Mathlib.Data.List.Induction
import WatchFace.Window

/-!
# The geometry of a window over whole runs

A window is moved, resized and maximized in any order. It never gets too small, and what a resize gives is decided by
the press that began it and by where the mouse is now.
-/

namespace WatchFace.Window

open List

/-! ### Runs -/

/-- What happens to a window, with the mouse at `(x, y)` in it and at `(gx, gy)` on the screen; `left` is about the
    button. A switch is told what is available of the screen. -/
inductive Event where
  | press (left : Bool) (x y gx gy : Int)
  | move (left : Bool) (x y gx gy : Int)
  | release (left : Bool)
  | toggle (available : Rect)
  deriving Repr, DecidableEq

def handle (w : Window) : Event → Window
  | .press left x y gx gy => if left then (w.press x y gx gy).1 else w
  | .move left x y gx gy => if left then (w.drag gx gy).1 else w.hover x y
  | .release left => if left then w.release else w
  | .toggle available => w.toggleMaximizedOn available

def after (w : Window) (events : List Event) : Window := events.foldl handle w

def opened (x y : Int) : Window := { geometry := ⟨x, y, 1000, 700⟩ }

theorem after_concat (w : Window) (events : List Event) (e : Event) :
    w.after (events ++ [e]) = (w.after events).handle e := by
  simp [after]

def Resize.sided (r : Resize) (x : Int) : Rect :=
  (r.edge.horizontal?.map (moveSide r.start (x - r.mouseX))).getD r.start

theorem Resize.geometry_eq (r : Resize) (x y : Int) :
    r.geometry x y = (r.edge.vertical?.map (moveLevel (r.sided x) (y - r.mouseY))).getD (r.sided x) := by
  unfold geometry sided
  cases r.edge.horizontal? <;> cases r.edge.vertical? <;> rfl

/-! ### Sizes -/

def Large (g : Rect) : Prop := least ≤ g.width ∧ least ≤ g.height

instance (g : Rect) : Decidable (Large g) := inferInstanceAs (Decidable (_ ∧ _))

theorem large_moveSide {g : Rect} (h : Large g) (d : Int) (side : Horizontal) : Large (Resize.moveSide g d side) := by
  -- where the side moves, the test that lets it is what is asked
  cases side <;> unfold Resize.moveSide <;> dsimp only <;> split
  · exact ⟨‹_›, h.2⟩
  · exact h
  · exact ⟨‹_›, h.2⟩
  · exact h

theorem large_moveLevel {g : Rect} (h : Large g) (d : Int) (level : Vertical) : Large (Resize.moveLevel g d level) := by
  cases level <;> unfold Resize.moveLevel <;> dsimp only <;> split
  · exact ⟨h.1, ‹_›⟩
  · exact h
  · exact ⟨h.1, ‹_›⟩
  · exact h

theorem Resize.large_geometry {r : Resize} (h : Large r.start) (x y : Int) : Large (r.geometry x y) := by
  have hsided : Large (r.sided x) := by
    unfold sided
    cases r.edge.horizontal? with
    | none => exact h
    | some side => exact large_moveSide h _ side
  rw [geometry_eq]
  cases r.edge.vertical? with
  | none => exact hsided
  | some level => exact large_moveLevel hsided _ level

/-- The window, what it goes back to and what a resize began with are all large enough. -/
structure Roomy (w : Window) : Prop where
  geometry : Large w.geometry
  restored : ∀ g ∈ w.restored, Large g
  start : ∀ r ∈ w.resize, Large r.start

theorem roomy_opened (x y : Int) : (opened x y).Roomy where
  geometry := ⟨(by decide : least ≤ 1000), (by decide : least ≤ 700)⟩
  restored := by simp [opened]
  start := by simp [opened]

section

variable {w : Window} (h : w.Roomy)

include h

theorem Roomy.press (x y gx gy : Int) : (w.press x y gx gy).1.Roomy := by
  unfold Window.press
  split
  case h_1 e _ =>
    refine ⟨h.geometry, h.restored, fun r hr => ?_⟩
    cases hr
    exact h.geometry
  case h_2 =>
    split
    · exact ⟨h.geometry, h.restored, h.start⟩
    · exact h

theorem Roomy.resizeTo (gx gy : Int) : (w.resizeTo gx gy).Roomy := by
  unfold Window.resizeTo
  cases hresize : w.resize with
  | none => exact h
  | some r => exact ⟨r.large_geometry (h.start r hresize) gx gy, h.restored, fun r' hr' => h.start r' (hresize ▸ hr')⟩

theorem Roomy.drag (gx gy : Int) : (w.drag gx gy).1.Roomy := by
  unfold Window.drag
  split
  · exact ⟨h.geometry, h.restored, h.start⟩
  · split
    · exact h.resizeTo gx gy
    · exact h

theorem Roomy.toggleMaximizedOn {available : Rect} (havailable : Large available) :
    (w.toggleMaximizedOn available).Roomy := by
  unfold Window.toggleMaximizedOn
  split
  · refine ⟨?_, h.restored, h.start⟩
    -- back to what was there before, if anything was
    cases hrestored : w.restored with
    | none => exact h.geometry
    | some g => exact h.restored g hrestored
  · refine ⟨havailable, fun g hg => ?_, h.start⟩
    cases hg
    exact h.geometry

theorem Roomy.handle {e : Event} (he : ∀ available, e = .toggle available → Large available) : (w.handle e).Roomy := by
  cases e with
  | press left x y gx gy =>
    cases left with
    | false => exact h
    | true => exact h.press x y gx gy
  | move left x y gx gy =>
    cases left with
    | false =>
      show (w.hover x y).Roomy
      unfold Window.hover
      split
      · exact h
      · exact ⟨h.geometry, h.restored, h.start⟩
    | true => exact h.drag gx gy
  | release left =>
    cases left with
    | false => exact h
    | true => exact ⟨h.geometry, h.restored, by simp [Window.handle, Window.release]⟩
  | toggle available => exact h.toggleMaximizedOn (he available rfl)

theorem Roomy.after {events : List Event} (hevents : ∀ available, .toggle available ∈ events → Large available) :
    (w.after events).Roomy := by
  induction events generalizing w with
  | nil => exact h
  | cons e events ih =>
    refine ih (h.handle fun available he => ?_) fun available ha => hevents available (.tail _ ha)
    exact hevents available (he ▸ .head _)

end

/-! ### The resize that goes on -/

def begins? (w : Window) : Event → Option Resize
  | .press true x y gx gy =>
    if w.maximized then none else (w.edgeAt? x y).map fun e => ⟨e, gx, gy, w.geometry⟩
  | _ => none

/-- A resize goes on: an event began it, and since then neither was the button released nor did another begin. -/
def Ongoing (w : Window) (events : List Event) (r : Resize) : Prop :=
  ∃ before e later, events = before ++ e :: later ∧ (w.after before).begins? e = some r ∧
    ∀ between e' rest, later = between ++ e' :: rest →
      e' ≠ .release true ∧ (w.after (before ++ e :: between)).begins? e' = none

theorem resize_drag (w : Window) (gx gy : Int) : (w.drag gx gy).1.resize = w.resize := by
  unfold drag resizeTo
  split
  · rfl
  · cases hresize : w.resize <;> simp [hresize]

theorem resize_handle (w : Window) (e : Event) :
    (w.handle e).resize = if e = .release true then none else (w.begins? e).or w.resize := by
  cases e with
  | press left x y gx gy =>
    cases left with
    | false => rfl
    | true =>
      simp only [handle, press, begins?, reduceCtorEq, if_false, if_true]
      by_cases hmax : w.maximized = true
      · simp only [hmax, if_true, Option.none_or]
        split <;> rfl
      · cases hedge : w.edgeAt? x y with
        | none =>
          simp only [hmax, Bool.false_eq_true, if_false, Option.map_none, Option.none_or]
          split <;> rfl
        | some e => simp [hmax]
  | move left x y gx gy =>
    cases left with
    | false =>
      show (w.hover x y).resize = w.resize
      unfold hover
      split <;> rfl
    | true => exact w.resize_drag gx gy
  | release left => cases left <;> rfl
  | toggle available =>
    show (w.toggleMaximizedOn available).resize = w.resize
    unfold toggleMaximizedOn
    split <;> rfl

theorem concat_eq_append_cons_iff {α : Type} {l before later : List α} {a b : α} : l ++ [a] = before ++ b :: later ↔
      (before = l ∧ b = a ∧ later = []) ∨ ∃ rest, later = rest ++ [a] ∧ l = before ++ b :: rest := by
  constructor
  · intro h
    rcases eq_nil_or_concat later with rfl | ⟨rest, c, rfl⟩
    · obtain ⟨rfl, hab⟩ := append_inj' h rfl
      exact .inl ⟨rfl, (singleton_inj.mp hab).symm, rfl⟩
    · rw [concat_eq_append, ← cons_append, ← append_assoc] at h
      obtain ⟨rfl, hac⟩ := append_inj' h rfl
      exact .inr ⟨rest, by rw [concat_eq_append, hac], rfl⟩
  · rintro (⟨rfl, rfl, rfl⟩ | ⟨rest, rfl, rfl⟩) <;> simp

theorem ongoing_concat_iff (w : Window) (events : List Event) (e : Event) (r : Resize) :
    Ongoing w (events ++ [e]) r ↔ (w.after events).begins? e = some r ∨
        e ≠ .release true ∧ (w.after events).begins? e = none ∧ Ongoing w events r := by
  constructor
  · rintro ⟨before, e', later, hsplit, hbegins, hlater⟩
    obtain ⟨rfl, rfl, -⟩ | ⟨later, rfl, rfl⟩ := concat_eq_append_cons_iff.mp hsplit
    · exact .inl hbegins
    · obtain ⟨hrelease, hnone⟩ := hlater later e [] rfl
      refine .inr ⟨hrelease, hnone, before, e', later, rfl, hbegins, fun between e'' rest hsplit => ?_⟩
      exact hlater between e'' (rest ++ [e]) (by simp [hsplit])
  · rintro (hbegins | ⟨hrelease, hnone, before, e', later, rfl, hbegins, hlater⟩)
    · exact ⟨events, e, [], rfl, hbegins, fun between e' rest h => by simp at h⟩
    · refine ⟨before, e', later ++ [e], by simp, hbegins, fun between e'' rest hsplit => ?_⟩
      obtain ⟨rfl, rfl, -⟩ | ⟨rest, -, hsplit⟩ := concat_eq_append_cons_iff.mp hsplit
      · exact ⟨hrelease, hnone⟩
      · exact hlater between e'' rest hsplit

theorem resize_after_iff (w : Window) (h : w.resize = none) (events : List Event) (r : Resize) :
    (w.after events).resize = some r ↔ Ongoing w events r := by
  induction events using List.reverseRecOn generalizing r with
  | nil =>
    constructor
    · intro hr
      rw [show w.after [] = w from rfl, h] at hr
      cases hr
    · rintro ⟨before, e, later, hsplit, -⟩
      simp at hsplit
  | append_singleton events e ih =>
    -- from the end of the run: the last event begins a resize, ends it, or leaves it alone
    rw [ongoing_concat_iff, after_concat, resize_handle, ← ih r]
    by_cases hrelease : e = .release true
    · subst hrelease
      simp [begins?]
    · cases hbegins : (w.after events).begins? e <;> simp [hrelease]

/-! ### Edges -/

/-- The edges that a resize does not name are where they were when it began. -/
structure Resize.Keeps (r : Resize) (g : Rect) : Prop where
  left : r.edge.horizontal? ≠ some .left → g.x = r.start.x
  right : r.edge.horizontal? ≠ some .right → g.right = r.start.right
  top : r.edge.vertical? ≠ some .top → g.y = r.start.y
  bottom : r.edge.vertical? ≠ some .bottom → g.bottom = r.start.bottom

theorem moveSide_keeps (g : Rect) (d : Int) (side : Horizontal) :
    (side ≠ .left → (Resize.moveSide g d side).x = g.x) ∧
      (side ≠ .right → (Resize.moveSide g d side).right = g.right) ∧
      (Resize.moveSide g d side).y = g.y ∧ (Resize.moveSide g d side).height = g.height := by
  cases side <;> unfold Resize.moveSide <;> dsimp only <;> split
  · refine ⟨fun h => absurd rfl h, fun _ => ?_, rfl, rfl⟩
    show g.x + d + (g.width - d) = g.x + g.width
    omega
  · exact ⟨fun _ => rfl, fun _ => rfl, rfl, rfl⟩
  · exact ⟨fun _ => rfl, fun h => absurd rfl h, rfl, rfl⟩
  · exact ⟨fun _ => rfl, fun _ => rfl, rfl, rfl⟩

theorem moveLevel_keeps (g : Rect) (d : Int) (level : Vertical) :
    (level ≠ .top → (Resize.moveLevel g d level).y = g.y) ∧
      (level ≠ .bottom → (Resize.moveLevel g d level).bottom = g.bottom) ∧
      (Resize.moveLevel g d level).x = g.x ∧ (Resize.moveLevel g d level).width = g.width := by
  cases level <;> unfold Resize.moveLevel <;> dsimp only <;> split
  · refine ⟨fun h => absurd rfl h, fun _ => ?_, rfl, rfl⟩
    show g.y + d + (g.height - d) = g.y + g.height
    omega
  · exact ⟨fun _ => rfl, fun _ => rfl, rfl, rfl⟩
  · exact ⟨fun _ => rfl, fun h => absurd rfl h, rfl, rfl⟩
  · exact ⟨fun _ => rfl, fun _ => rfl, rfl, rfl⟩

theorem Resize.sided_keeps (r : Resize) (x : Int) : (r.edge.horizontal? ≠ some .left → (r.sided x).x = r.start.x) ∧
      (r.edge.horizontal? ≠ some .right → (r.sided x).right = r.start.right) ∧
      (r.sided x).y = r.start.y ∧ (r.sided x).height = r.start.height := by
  unfold sided
  cases r.edge.horizontal? with
  | none => exact ⟨fun _ => rfl, fun _ => rfl, rfl, rfl⟩
  | some side => simpa using moveSide_keeps r.start (x - r.mouseX) side

theorem Resize.keeps_geometry (r : Resize) (x y : Int) : r.Keeps (r.geometry x y) := by
  obtain ⟨hleft, hright, hy, hheight⟩ := r.sided_keeps x
  have hbottom : (r.sided x).bottom = r.start.bottom := by rw [Rect.bottom, Rect.bottom, hy, hheight]
  rw [geometry_eq]
  cases hlevel : r.edge.vertical? with
  | none => exact ⟨hleft, hright, fun _ => hy, fun _ => hbottom⟩
  | some level =>
    -- the upper and lower sides move after the others, from what these have left
    obtain ⟨htop, hlow, hx, hwidth⟩ := moveLevel_keeps (r.sided x) (y - r.mouseY) level
    refine ⟨fun h => hx.trans (hleft h), fun h => ?_, fun h => ?_, fun h => ?_⟩
    · rw [← hright h, Rect.right, Rect.right, ← hx, ← hwidth]
      rfl
    · exact (htop fun heq => h (hlevel.trans (congrArg some heq))).trans hy
    · exact (hlow fun heq => h (hlevel.trans (congrArg some heq))).trans hbottom

theorem drag_of_free {w : Window} (h : w.grip = none ∨ w.maximized = true) (gx gy : Int) :
    (w.drag gx gy).1 = w.resizeTo gx gy := by
  have hfree : (if w.maximized then none else w.grip) = none := by
    obtain h | h := h <;> simp [h]
  unfold drag resizeTo
  rw [hfree]
  cases w.resize <;> rfl

def Resize.wider (r : Resize) (x : Int) : Int :=
  match r.edge.horizontal? with
  | some .left => r.mouseX - x
  | some .right => x - r.mouseX
  | none => 0

def Resize.higher (r : Resize) (y : Int) : Int :=
  match r.edge.vertical? with
  | some .top => r.mouseY - y
  | some .bottom => y - r.mouseY
  | none => 0

def pulled (n d : Int) : Int := if least ≤ n + d then n + d else n

/-- A pull asks for too little and so leaves a size as it was at the press, but a pull that is farther out gives
    less. -/
def Rebounds (n d e : Int) : Prop := n + d < least ∧ least ≤ n + e ∧ e < 0

theorem pulled_le_pulled_iff {n d e : Int} (h : d ≤ e) : pulled n d ≤ pulled n e ↔ ¬ Rebounds n d e := by
  unfold pulled Rebounds
  grind

theorem pulled_le {n d : Int} (h : d ≤ 0) : pulled n d ≤ n := by
  unfold pulled
  grind

theorem Resize.width_geometry (r : Resize) (x y : Int) :
    (r.geometry x y).width = pulled r.start.width (r.wider x) := by
  have hsided : (r.sided x).width = pulled r.start.width (r.wider x) := by
    unfold sided wider pulled
    cases r.edge.horizontal? with
    | none => simp
    | some side => cases side <;> simp only [Option.map_some, Option.getD_some, moveSide] <;> grind
  rw [geometry_eq, ← hsided]
  cases r.edge.vertical? with
  | none => rfl
  | some level => exact (moveLevel_keeps (r.sided x) (y - r.mouseY) level).2.2.2

theorem Resize.height_geometry (r : Resize) (x y : Int) :
    (r.geometry x y).height = pulled r.start.height (r.higher y) := by
  rw [geometry_eq, ← (r.sided_keeps x).2.2.2]
  unfold higher pulled
  cases r.edge.vertical? with
  | none => simp
  | some level => cases level <;> simp only [Option.map_some, Option.getD_some, moveLevel] <;> grind

def heldRight : Window := (opened 0 0).after [.press true 998 300 998 300]

end WatchFace.Window
