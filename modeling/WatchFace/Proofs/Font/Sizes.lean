import WatchFace.Font.Label
import WatchFace.Proofs.Actions

/-!
# Setting the size that is shown

Set again, an outline font keeps its size. A bitmap font keeps a small scale, and takes a large one for a size, which it
divides by its own.
-/

namespace WatchFace.Font

open EStateM Number

/-! ### Settings -/

/-- What decides about the size that a text shows: the fonts, the font in use, its size and its scale. -/
structure Setting where
  library : Library
  font : Value
  bitmap : Option Bitmap
  size : Value
  scale : Value

namespace Setting

variable {s : Setting} {b : Bitmap} {v : Value} {α : Type}

def useFont (s : Setting) (name : Value) (size : Option Value) : Setting :=
  match s.library.bitmapFor name with
  | .ok (some b) =>
    { s with
      font := name
      bitmap := some b
      scale := size.elim (.float 1.0) fun v => (Label.scaleOf b v).toOption.getD s.scale }
  | .ok none => { s with font := name, bitmap := none, size := size.getD s.size }
  | .error _ => { s with font := name }

def resize (s : Setting) (v : Value) : Setting :=
  match s.bitmap with
  | some b => { s with scale := (Label.scaleOf b v).toOption.getD s.scale }
  | none =>
    if s.font.truthy then useFont { s with size := v } s.font (if v.isNone then none else some v)
    else { s with size := v }

def shown (s : Setting) : Value := if s.bitmap.isSome then s.scale else s.size

/-- The name of an outline font stands for no bitmap font. -/
def Settled (s : Setting) : Prop :=
  s.bitmap = none → s.font.truthy = true → ∀ b, s.library.bitmapFor s.font ≠ .ok (some b)

theorem settled_useFont (s : Setting) (name : Value) (size : Option Value) : (s.useFont name size).Settled := by
  intro hbitmap _ b hb
  unfold useFont at hbitmap hb
  cases hname : s.library.bitmapFor name with
  | error e =>
    rw [hname] at hb
    cases hname.symm.trans hb
  | ok found =>
    rw [hname] at hbitmap hb
    cases found with
    | none => cases hname.symm.trans hb
    | some b => cases hbitmap

theorem Settled.resize (hs : s.Settled) (v : Value) : (s.resize v).Settled := by
  unfold Setting.resize
  split
  case h_1 b hb =>
    intro hnone
    cases hb.symm.trans hnone
  case h_2 =>
    split
    · exact settled_useFont _ _ _
    · exact hs

theorem shown_resize_iff (hs : s.Settled) : (s.resize s.shown).shown = s.shown ↔
    ∀ b, s.bitmap = some b → (Label.scaleOf b s.scale).toOption.getD s.scale = s.scale := by
  unfold resize
  split
  case h_1 b hb => simp [shown, hb]
  case h_2 hb =>
    have hshown : s.shown = s.size := by rw [shown, hb]; rfl
    refine iff_of_true ?_ (by simp [hb])
    rw [hshown]
    by_cases htruthy : s.font.truthy = true
    · rw [if_pos htruthy]
      have hsettled := hs hb htruthy
      unfold useFont
      dsimp only
      cases hfont : s.library.bitmapFor s.font with
      | error e => exact hshown
      | ok found =>
        cases found with
        | some b => exact absurd hfont (hsettled b)
        | none =>
          show Option.getD _ s.size = s.size
          split <;> rfl
    · rw [if_neg htruthy]
      exact hshown

end Setting

namespace Label

variable {l : Label}

def setting (l : Label) : Setting := ⟨l.library, l.font, l.bitmap, l.size, l.scale⟩

theorem keeps_require {α : Type} (x : Except Fault α) : Within (Keeps setting) (require x) := by
  cases x with
  | ok a => exact within_pure a
  | error e => exact within_throw e

theorem keeps_tell (e : Event) : Within (Keeps setting) (tell e) := keeps_modify fun _ => rfl

theorem keeps_draw (act : Draw Bool) : Within (Keeps setting) (draw act) := by
  have hstrokes : ∀ ss, Within (Keeps setting) (modify ({ · with strokes := ss }) : Act PUnit) :=
    fun ss => keeps_modify fun _ => rfl
  refine within_get.bind fun l => ?_
  split
  · exact (hstrokes _).bind fun _ => within_pure _
  · exact (hstrokes _).bind fun _ => within_throw _

theorem keeps_refresh (b : Bitmap) : Within (Keeps setting) (refresh b) := by
  refine within_get.bind fun l => ?_
  split
  · exact (keeps_tell _).bind fun _ => keeps_tell _
  · split
    · split
      · refine (keeps_draw _).bind fun drawn => ?_
        split <;> exact keeps_tell _
      · exact within_throw _
    · exact within_throw _

theorem after_modify_bind {α : Type} (f : Label → Label) (k : PUnit → Act α) (l : Label) :
    (modify f >>= k).after l = (k ⟨⟩).after (f l) := rfl

theorem after_get_bind {α : Type} (k : Label → Act α) (l : Label) : (get >>= k).after l = (k l).after l := rfl

theorem after_require_bind {α β : Type} (x : Except Fault α) (k : α → Act β) (l : Label) :
    (require x >>= k).after l = match x with
      | .ok a => (k a).after l
      | .error _ => l := by
  cases x <;> rfl

theorem setting_setFont (name : Value) (size : Option Value) (l : Label) :
    ((setFont name size).after l).setting = l.setting.useFont name size := by
  have hshow : ∀ b, Within (Keeps setting) (refresh b >>= fun _ => tell (.fontChanged name)) :=
    fun b => (keeps_refresh b).bind fun _ => keeps_tell _
  unfold setFont Setting.useFont
  rw [after_modify_bind, after_get_bind, after_require_bind]
  rw [show l.setting.library = l.library from rfl]
  cases l.library.bitmapFor name with
  | error e => rfl
  | ok found =>
    cases found with
    | none =>
      dsimp only
      rw [after_modify_bind, after_get_bind]
      exact (keeps_require _).bind (fun _ => (keeps_tell _).bind fun _ => keeps_tell _) _
    | some b =>
      dsimp only
      rw [after_modify_bind]
      cases size with
      | none => exact hshow b _
      | some v =>
        dsimp only
        rw [after_require_bind, Option.elim_some]
        cases scaleOf b v with
        | error e => rfl
        | ok w => exact hshow b _

theorem setting_setSize (v : Value) (l : Label) : ((setSize v).after l).setting = l.setting.resize v := by
  unfold setSize
  rw [after_get_bind]
  obtain ⟨library, text, font, size, scale, color, _ | b, strokes, events⟩ := l
  · dsimp only
    rw [after_modify_bind]
    by_cases htruthy : font.truthy = true
    · rw [if_pos htruthy]
      exact (setting_setFont ..).trans (if_pos htruthy).symm
    · rw [if_neg htruthy]
      exact (keeps_tell _ _).trans (if_neg htruthy).symm
  · dsimp only
    rw [after_require_bind]
    show _ = Setting.mk library font (some b) size ((scaleOf b v).toOption.getD scale)
    cases scaleOf b v with
    | error e => rfl
    | ok w => exact keeps_refresh b _

theorem setting_setText (v : Value) (l : Label) : ((setText v).after l).setting = l.setting := by
  unfold setText
  rw [after_modify_bind, after_get_bind]
  split
  · exact (keeps_refresh _).bind (fun _ => keeps_tell _) _
  · exact (keeps_tell _).bind (fun _ => keeps_tell _) _

theorem less_scaleLimit (v : Value) : scaleLimit.less v =
    match v.quantity? with
    | some q => .ok ((Quantity.whole 10).below q)
    | none => .error .wrongKind := by
  cases v <;> rfl

theorem scaleOf_eq {q : Quantity} {v : Value} (hq : v.quantity? = some q) (b : Bitmap) : scaleOf b v =
    if (Quantity.whole 10).below q then
      if 0 < b.size then (q.divided (.whole b.size)).map Value.float else .ok (.float 1.0)
    else .ok v := by
  have hless : scaleLimit.less v = .ok ((Quantity.whole 10).below q) := by rw [less_scaleLimit, hq]
  unfold scaleOf
  rw [hless, hq]
  cases (Quantity.whole 10).below q with
  | false => rfl
  | true =>
    by_cases hsize : 0 < b.size
    · simp only [if_pos hsize]
      cases q.divided (.whole b.size) <;> rfl
    · simp only [if_neg hsize]
      rfl

theorem scaleOf_getD_iff (b : Bitmap) (v : Value) : (scaleOf b v).toOption.getD v = v ↔
    ∀ q, v.quantity? = some q → (Quantity.whole 10).below q = true →
      0 < b.size ∧ ∀ x, q.divided (.whole b.size) = .ok x → Value.float x = v := by
  cases hq : v.quantity? with
  | none =>
    have herror : scaleOf b v = .error .wrongKind := by
      unfold scaleOf
      rw [less_scaleLimit, hq]
      rfl
    rw [herror]
    simp [Except.toOption]
  | some q =>
    rw [scaleOf_eq hq]
    cases hbelow : (Quantity.whole 10).below q with
    | false => simp [Except.toOption, hbelow]
    | true =>
      by_cases hsize : 0 < b.size
      · cases hx : q.divided (.whole b.size) with
        | error e => simp [Except.toOption, hsize, hx, Except.map]
        | ok x => simp [Except.toOption, hsize, hx, Except.map, hbelow]
      · have hone : Value.float 1.0 ≠ v := by
          rintro rfl
          cases hq
          exact absurd hbelow (by decide +kernel)
        simp [Except.toOption, hsize, hone, hbelow]

/-! ### Runs -/

inductive Deed where
  | font (name : Value) (size : Option Value)
  | size (v : Value)
  | text (v : Value)

def Deed.act : Deed → Act Unit
  | .font name s => setFont name s
  | .size v => setSize v
  | .text v => setText v

def performed (l : Label) (ds : List Deed) : Label := ds.foldl (fun l d => d.act.after l) l

theorem settled_performed (h : l.setting.Settled) (ds : List Deed) : (l.performed ds).setting.Settled := by
  induction ds generalizing l with
  | nil => exact h
  | cons d ds ih =>
    refine ih (l := d.act.after l) ?_
    cases d with
    | font name s =>
      rw [Deed.act, setting_setFont]
      exact Setting.settled_useFont _ _ _
    | size v =>
      rw [Deed.act, setting_setSize]
      exact h.resize v
    | text v => rwa [Deed.act, setting_setText]

/-- **Setting the size that is shown changes nothing but large scales.** It stays exactly if the font is no bitmap
    font, or its scale is at most the limit, or the quotient of the scale by the size of the font is the scale. -/
theorem sizeShown_setSize_iff (library : Library) (text : Value) (ds : List Deed) :
    let l := performed { library, text } ds
    ((setSize l.sizeShown).after l).sizeShown = l.sizeShown ↔
      ∀ b, l.bitmap = some b → ∀ q, l.scale.quantity? = some q → (Quantity.whole 10).below q = true →
        0 < b.size ∧ ∀ x, q.divided (.whole b.size) = .ok x → Value.float x = l.scale := by
  intro l
  have hfirst : Setting.Settled (setting { library, text }) := fun _ h => absurd h Bool.false_ne_true
  have hsettled : l.setting.Settled := settled_performed hfirst ds
  have hagain : ((setSize l.sizeShown).after l).sizeShown = (l.setting.resize l.setting.shown).shown :=
    congrArg Setting.shown (setting_setSize l.sizeShown l)
  rw [hagain]
  exact (Setting.shown_resize_iff hsettled).trans (forall₂_congr fun b _ => scaleOf_getD_iff b l.scale)

def smallFont : Library where
  bitmaps := [("bm", { size := 4, pages := [0] })]

/-- A size of 48 makes a scale of 12, which is then taken for a size and makes one of 3. -/
theorem sizeShown_setSize_large :
    let l := performed { library := smallFont } [.font (.text "bm") (some (.int 48))]
    ((setSize l.sizeShown).after l).sizeShown ≠ l.sizeShown := by
  intro l h
  have hbelow := congrArg (fun v : Value => v.quantity?.any ((Quantity.whole 10).below ·)) h
  exact absurd hbelow (by decide +kernel)

end Label

end WatchFace.Font
