import Mathlib.Data.List.Infix
import WatchFace.Font.Drawing
import WatchFace.Proofs.Actions

/-!
# Measuring and drawing agree

A text is measured and drawn by two walks over its characters. Both move a pen, by the kerning before a glyph and by its
advance behind it, and both pass over characters without a glyph.
-/

namespace WatchFace.Font

open EStateM Number List

variable {b : Bitmap} {scale pen : Quantity} {before : Option Char} {c : Char} {g : Glyph} {cs text rest : List Char}
  {ss ts : List Stroke}

theorem Draw.of_run_lift {α : Type} {x : Except Fault α} {a : α} (h : (lift x).run ss = .ok a ts) :
    x = .ok a ∧ ts = ss := by
  cases x <;> cases h
  exact ⟨rfl, rfl⟩

theorem Stroke.of_place {s : Stroke} (h : place g scale pen = .ok s) : s.glyph = g ∧ s.pen = pen := by
  unfold place at h
  dsimp only at h
  repeat (obtain ⟨_, -, h⟩ := exists_of_bind_eq_ok h)
  cases h
  exact ⟨rfl, rfl⟩

def Glyph.passed (g : Glyph) (scale pen : Quantity) : Except Fault Quantity := do
  pen.add (← (Quantity.whole g.advance).times scale)

def Stroke.passed (s : Stroke) (scale : Quantity) : Except Fault Quantity := s.glyph.passed scale s.pen

namespace Bitmap

/-! ### One character -/

def draws (b : Bitmap) (c : Char) : Bool := (b.glyph? (code c)).any fun g => b.pages.contains g.page

def kerned (b : Bitmap) (scale : Quantity) (before : Option Char) (pen : Quantity) (c : Char) : Except Fault Quantity :=
  match before with
  | some p => do pen.add (← (Quantity.whole (b.kerning (code p) (code c))).times scale)
  | none => pure pen

def mark (b : Bitmap) (g : Glyph) (scale pen : Quantity) : Draw Unit := do
  if b.pages.contains g.page then
    let s ← Draw.lift (Stroke.place g scale pen)
    modify (· ++ [s])

theorem moved_eq : b.moved scale before pen c g = b.kerned scale before pen c >>= g.passed scale := by
  cases before with
  | none => rfl
  | some p =>
    simp only [moved, kerned, bind_assoc]
    rfl

theorem drawFrom_of_glyph (h : b.glyph? (code c) = some g) :
    b.drawFrom scale before pen (c :: cs) = (do
      let pen ← Draw.lift (b.kerned scale before pen c)
      b.mark g scale pen
      let pen ← Draw.lift (g.passed scale pen)
      b.drawFrom scale (some c) pen cs) := by
  rw [drawFrom, h]
  by_cases hpage : b.pages.contains g.page = true
  · simp only [mark, if_pos hpage, bind_assoc]
    cases before <;> rfl
  · simp only [mark, if_neg hpage, pure_bind]
    cases before <;> rfl

theorem of_run_mark (h : (b.mark g scale pen).run ss = .ok () ts) :
    ∃ marks, ts = ss ++ marks ∧ marks.length = (b.pages.contains g.page).toNat ∧
      ∀ s ∈ marks, s.glyph = g ∧ s.pen = pen := by
  unfold mark at h
  split at h
  case isTrue hpage =>
    obtain ⟨s, t, hlift, hmodify⟩ := exists_of_run_bind_ok h
    obtain ⟨hplace, rfl⟩ := Draw.of_run_lift hlift
    cases hmodify
    exact ⟨[s], rfl, by rw [hpage]; rfl, forall_mem_singleton.mpr (Stroke.of_place hplace)⟩
  case isFalse hpage =>
    cases h
    exact ⟨[], (append_nil _).symm, by rw [Bool.eq_false_iff.mpr hpage]; rfl, forall_mem_nil _⟩

theorem widthFrom_of_none (h : b.glyph? (code c) = none) :
    b.widthFrom scale before pen (c :: cs) = b.widthFrom scale (some c) pen cs := by
  rw [widthFrom, h]
  rfl

theorem of_run_drawFrom_cons (h : (b.drawFrom scale before pen (c :: cs)).run ss = .ok () ts) :
    ∃ marks w, (b.drawFrom scale (some c) w cs).run (ss ++ marks) = .ok () ts ∧
      (∀ rest, b.widthFrom scale before pen (c :: rest) = b.widthFrom scale (some c) w rest) ∧
      marks.length = (b.draws c).toNat ∧
      ∀ s ∈ marks, b.glyph? (code c) = some s.glyph ∧ s.passed scale = .ok w := by
  cases hg : b.glyph? (code c) with
  | none =>
    rw [drawFrom, hg] at h
    exact ⟨[], pen, by rwa [append_nil], fun rest => widthFrom_of_none hg, by rw [draws, hg]; rfl, forall_mem_nil _⟩
  | some g =>
    rw [drawFrom_of_glyph hg] at h
    obtain ⟨kern, s₁, hlift₁, h₁⟩ := exists_of_run_bind_ok h
    obtain ⟨hkern, rfl⟩ := Draw.of_run_lift hlift₁
    obtain ⟨⟨⟩, s₂, hmark, h₂⟩ := exists_of_run_bind_ok h₁
    obtain ⟨marks, rfl, hlength, hmarks⟩ := of_run_mark hmark
    obtain ⟨w, s₃, hlift₂, h₃⟩ := exists_of_run_bind_ok h₂
    obtain ⟨hw, rfl⟩ := Draw.of_run_lift hlift₂
    refine ⟨marks, w, h₃, fun rest => ?_, by rw [hlength, draws, hg]; rfl, fun s hs => ?_⟩
    · rw [widthFrom, hg]
      dsimp only
      rw [moved_eq, hkern]
      show (g.passed scale kern >>= _) = _
      rw [hw]
      rfl
    · obtain ⟨hglyph, hpen⟩ := hmarks s hs
      rw [Stroke.passed, hglyph, hpen]
      exact ⟨rfl, hw⟩

/-! ### All characters -/

theorem of_run_drawFrom (h : (b.drawFrom scale before pen cs).run ss = .ok () ts) :
    ∃ strokes w, ts = ss ++ strokes ∧ strokes.length = cs.countP b.draws ∧
      b.widthFrom scale before pen cs = .ok w ∧
      ∀ p c, p ++ [c] <+: cs → b.draws c = true → ∃ s v, strokes[p.countP b.draws]? = some s ∧
        b.glyph? (code c) = some s.glyph ∧ s.passed scale = .ok v ∧ b.widthFrom scale before pen (p ++ [c]) = .ok v := by
  induction cs generalizing before pen ss with
  | nil =>
    cases h
    exact ⟨[], pen, (append_nil _).symm, rfl, rfl, fun p c hp => absurd (prefix_nil.mp hp) (by simp)⟩
  | cons c cs ih =>
    obtain ⟨marks, v, hrun, hmoved, hmarks, hall⟩ := of_run_drawFrom_cons h
    obtain ⟨strokes, w, hts, hlength, hw, hrest⟩ := ih hrun
    have hcount : ∀ p, (c :: p).countP b.draws = marks.length + p.countP b.draws := by
      intro p
      rw [countP_cons, hmarks, Nat.add_comm]
      cases b.draws c <;> rfl
    refine ⟨marks ++ strokes, w, by rw [hts, append_assoc], by rw [length_append, hlength, hcount],
      (hmoved cs).trans hw, fun p d hp hd => ?_⟩
    cases p with
    | nil =>
      obtain ⟨rfl, -⟩ := cons_prefix_cons.mp hp
      rw [hd] at hmarks
      obtain ⟨s, rfl⟩ := length_eq_one_iff.mp hmarks
      obtain ⟨hglyph, hpassed⟩ := hall s mem_cons_self
      exact ⟨s, v, rfl, hglyph, hpassed, hmoved []⟩
    | cons d' p =>
      obtain ⟨rfl, hp'⟩ := cons_prefix_cons.mp hp
      rw [cons_append, hmoved, hcount, getElem?_append_right (Nat.le_add_right ..), Nat.add_sub_cancel_left]
      exact hrest p d hp' hd

theorem widthFrom_append (h : ∀ c ∈ rest, b.glyph? (code c) = none) (cs : List Char) :
    b.widthFrom scale before pen (cs ++ rest) = b.widthFrom scale before pen cs := by
  induction cs generalizing before pen with
  | nil =>
    induction rest generalizing before with
    | nil => rfl
    | cons c rest ih =>
      obtain ⟨hc, hrest⟩ := forall_mem_cons.mp h
      exact (widthFrom_of_none hc).trans (ih hrest)
  | cons c cs ih => simp only [cons_append, widthFrom, ih]

theorem truncate_of_measure {w : Quantity} {size : Int × Int} (hne : text ≠ []) (hw : b.width scale text = .ok w)
    (h : b.measure text scale = .ok size) : w.truncate = .ok size.1 := by
  rw [measure, if_neg (by simpa using hne)] at h
  obtain ⟨height, -, hwidth⟩ := exists_of_bind_eq_ok h
  obtain ⟨w', hw', hfirst⟩ := exists_of_bind_eq_ok hwidth
  cases hw.symm.trans hw'
  obtain ⟨n, hn, hsecond⟩ := exists_of_bind_eq_ok hfirst
  obtain ⟨m, -, hpair⟩ := exists_of_bind_eq_ok hsecond
  cases hpair
  exact hn

/-- **Measuring and drawing agree.** Where a text is drawn, the pen behind each glyph stands where the measured text up
    to it ends. What follows the last glyph has no width. -/
theorem render_passed (h : (b.render text scale).run ss = .ok true ts) :
    ∃ strokes w size, ts = ss ++ strokes ∧ strokes.length = text.countP b.draws ∧ b.width scale text = .ok w ∧
      b.measure text scale = .ok size ∧ w.truncate = .ok size.1 ∧
      (∀ p c, p ++ [c] <+: text → b.draws c = true → ∃ s v, strokes[p.countP b.draws]? = some s ∧
        b.glyph? (code c) = some s.glyph ∧ s.passed scale = .ok v ∧ b.width scale (p ++ [c]) = .ok v) ∧
      ∀ p rest, text = p ++ rest → (∀ c ∈ rest, b.glyph? (code c) = none) → b.width scale p = .ok w := by
  unfold render at h
  split at h
  · cases h
  rename_i hempty
  have hne : text ≠ [] := fun hnil => hempty (by rw [hnil]; rfl)
  obtain ⟨size, t, hlift, hdraw⟩ := exists_of_run_bind_ok h
  obtain ⟨hmeasure, rfl⟩ := Draw.of_run_lift hlift
  dsimp only at hdraw
  split at hdraw
  · cases hdraw
  obtain ⟨⟨⟩, u, hrun, hpure⟩ := exists_of_run_bind_ok hdraw
  cases hpure
  obtain ⟨strokes, w, hts, hlength, hw, hall⟩ := of_run_drawFrom hrun
  refine ⟨strokes, w, size, hts, hlength, hw, hmeasure, truncate_of_measure hne hw hmeasure, hall,
    fun p rest htext hrest => ?_⟩
  rw [← hw, htext]
  exact (widthFrom_append hrest p).symm

def twoGlyphs : Bitmap where
  lineHeight := 10
  pages := [0]
  glyphs := [{ id := 65, width := 6, height := 8, advance := 7 }, { id := 66, advance := 5, page := 1 }]
  kernings := [((66, 65), -2), ((63, 65), 1)]

theorem render_passed_twoGlyphs :
    ∃ ts, (twoGlyphs.render ['A', 'B', 'A', '?', 'A', '!'] (.whole 2)).run [] = .ok true ts ∧
      ∃ w size, twoGlyphs.width (.whole 2) ['A', 'B', 'A', '?', 'A', '!'] = .ok w ∧ w.truncate = .ok size ∧
      ∃ s v, ts[2]? = some s ∧ s.passed (.whole 2) = .ok v ∧ 
        twoGlyphs.width (.whole 2) ['A', 'B', 'A', '?', 'A'] = .ok v := by
  refine ⟨_, rfl, ?_⟩
  obtain ⟨strokes, w, size, hts, -, hw, -, hsize, hall, -⟩ :=
    @render_passed twoGlyphs (.whole 2) ['A', 'B', 'A', '?', 'A', '!'] [] _ rfl
  obtain ⟨s, v, hs, -, hpassed, hv⟩ := hall ['A', 'B', 'A', '?'] 'A' (by decide) (by decide)
  exact ⟨w, size.1, hw, hsize, s, v, hts ▸ hs, hpassed, hv⟩

end Bitmap

end WatchFace.Font
