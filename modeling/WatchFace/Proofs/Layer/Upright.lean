import WatchFace.Proofs.Studio.Listening

/-!
# Layers that can be placed

A layer settles in many steps: it is placed, then placed once more without its rotation to fit the box, and placed again
with it. Where all this succeeds, the transform and the box follow from a few fields.
-/

namespace WatchFace

open EStateM

variable {l : Layer}

def Value.Slopes (v : Value) : Prop := (Layer.slope v).isOk = true

def Value.Turns (v : Value) : Prop := (v.measure >>= Transform.circle).isOk = true

theorem Except.exists_of_isOk {ε α : Type} {x : Except ε α} (h : x.isOk = true) : ∃ a, x = .ok a := by
  cases x
  case ok a => exact ⟨a, rfl⟩
  case error e => exact absurd h Bool.false_ne_true

theorem Value.Turns.exists_circle {v : Value} (h : v.Turns) :
    ∃ a cs, v.measure = .ok a ∧ Transform.circle a = .ok cs := by
  obtain ⟨cs, hcs⟩ := Except.exists_of_isOk h
  obtain ⟨a, ha, hcs⟩ := exists_of_bind_eq_ok hcs
  exact ⟨a, cs, ha, hcs⟩

namespace Layer

/-- A layer whose skews and rotation can be put into a transform. -/
structure Upright (l : Layer) : Prop where
  skewX : l.skewX.Slopes
  skewY : l.skewY.Slopes
  rotation : l.rotation.Turns

def angles (l : Layer) : Value × Value × Value := (l.rotation, l.skewX, l.skewY)

theorem Upright.of_angles {m : Layer} (h : l.Upright) (hangles : m.angles = l.angles) : m.Upright := by
  have hrotation : m.rotation = l.rotation := congrArg Prod.fst hangles
  have hskewX : m.skewX = l.skewX := congrArg (fun a => a.2.1) hangles
  have hskewY : m.skewY = l.skewY := congrArg (fun a => a.2.2) hangles
  exact ⟨hskewX ▸ h.skewX, hskewY ▸ h.skewY, hrotation ▸ h.rotation⟩

theorem turns_zero : (Value.int 0).Turns := by
  unfold Value.Turns
  decide +kernel

theorem exists_ownMatrix {x y : Option Float} (hx : slope l.skewX = .ok x) (hy : slope l.skewY = .ok y)
    (hrotation : l.rotation.Turns) : ∃ m, l.ownMatrix = .ok m ∧ m.isSome = (x.isSome && y.isSome) := by
  obtain ⟨a, cs, ha, hcs⟩ := hrotation.exists_circle
  have hslopes : l.slopes = .ok (x.bind fun x => y.map fun y => (x, y)) := by
    rw [slopes, hx, hy]
    rfl
  rw [ownMatrix, hslopes]
  rw [ha]
  show ∃ m, (Transform.circle a >>= _) = _ ∧ _
  rw [hcs]
  cases x <;> cases y
  all_goals exact ⟨_, rfl, rfl⟩

theorem Upright.exists_ownMatrix (h : l.Upright) : ∃ m, l.ownMatrix = .ok m := by
  obtain ⟨x, hx⟩ := Except.exists_of_isOk h.skewX
  obtain ⟨y, hy⟩ := Except.exists_of_isOk h.skewY
  obtain ⟨m, hm, -⟩ := Layer.exists_ownMatrix hx hy h.rotation
  exact ⟨m, hm⟩

theorem Upright.run_place (h : l.Upright) : ∃ m, place.run l = .ok () m ∧ m.angles = l.angles ∧ m.box = l.box := by
  obtain ⟨m, hm⟩ := h.exists_ownMatrix
  have hrequire : (require l.ownMatrix).run l = .ok m l := by rw [hm]; rfl
  have hplace : place.run l = (setMatrix m).run l := by
    unfold place
    rw [run_bind_ok (run_get l), run_bind_ok hrequire]
  rw [hplace]
  cases m
  all_goals exact ⟨_, rfl, rfl, rfl⟩

theorem Upright.run_fit (h : l.Upright) :
    ∃ m, fit.run l = .ok () m ∧ m.angles = l.angles ∧ m.box.busy = l.box.busy := by
  have hbox : ∀ (g : Box → Box) (m : Layer), (changeBox g).run m = .ok () { m with box := g m.box } :=
    fun _ _ => rfl
  unfold fit
  rw [run_bind_ok (run_get l)]
  split
  case isTrue => exact ⟨l, rfl, rfl, rfl⟩
  case isFalse hbusy =>
    rw [run_bind_ok (hbox _ _), run_bind_ok (run_modify _ _)]
    -- without its rotation the layer can be placed as well
    have hlevel : ({ l with box := { l.box with busy := true }, rotation := .int 0 } : Layer).Upright :=
      ⟨h.skewX, h.skewY, turns_zero⟩
    obtain ⟨m, hm, hangles, -⟩ := hlevel.run_place
    rw [run_bind_ok hm, run_bind_ok (hbox _ _), run_bind_ok (hbox _ _), run_bind_ok (run_modify _ _)]
    have hskews : (m.skewX, m.skewY) = (l.skewX, l.skewY) := congrArg Prod.snd hangles
    generalize hn : ({ m with box := _, rotation := l.rotation } : Layer) = n
    have hback : n.angles = l.angles := by
      rw [← hn]
      exact congrArg (Prod.mk l.rotation) hskews
    obtain ⟨k, hk, hkangles, -⟩ := (h.of_angles hback).run_place
    rw [run_bind_ok hk]
    exact ⟨_, hbox _ _, hkangles.trans hback, (Bool.eq_false_iff.mpr hbusy).symm⟩

theorem Upright.run_settle (h : l.Upright) :
    ∃ m, settle.run l = .ok () m ∧ m.angles = l.angles ∧ m.box.busy = l.box.busy := by
  obtain ⟨m, hm, hmangles, hmbox⟩ := h.run_place
  obtain ⟨k, hk, hkangles, hkbusy⟩ := (h.of_angles hmangles).run_fit
  exact ⟨k, (run_bind_ok hm).trans hk, hkangles.trans hmangles, hkbusy.trans (congrArg Box.busy hmbox)⟩

def Part.Suits : Part → Value → Prop
  | .rotate, v => v.Turns
  | .skewX, v | .skewY, v => v.Slopes
  | _, _ => True

instance (p : Part) (v : Value) : Decidable (p.Suits v) :=
  match p with
  | .rotate | .skewX | .skewY => inferInstanceAs (Decidable (_ = true))
  | .order | .moveX | .moveY | .opacity | .display | .transform | .text | .font | .size | .color
  | .alignment => .isTrue trivial

theorem Upright.hear (h : l.Upright) (families : Font.Families) {p : Part} {o : Option Value}
    (ho : ∀ v, o = some v → p.Suits v) : ((hear families p o).after l).Upright := by
  refine within_hear (R := Upholds Upright) (fun v m x hv hx => ?_) (fun _ x hx => ?_) (fun _ x hx => ?_) l h
  · have hsuits := ho v hv
    cases p
    case rotate => exact ⟨hx.skewX, hx.skewY, hsuits⟩
    case skewX => exact ⟨hsuits, hx.skewY, hx.rotation⟩
    case skewY => exact ⟨hx.skewX, hsuits, hx.rotation⟩
    all_goals exact hx.of_angles rfl
  · obtain ⟨m, hm, hangles, -⟩ := hx.run_fit
    rw [after_of_ok hm]
    exact hx.of_angles hangles
  · obtain ⟨m, hm, hangles, -⟩ := hx.run_settle
    rw [after_of_ok hm]
    exact hx.of_angles hangles

end Layer

variable {m : Layer}

namespace Layer

/-! ### Sound layers -/

def Inclines (v : Value) : Prop := ∃ t, slope v = .ok (some t)

/-- A layer that can be placed by one transform. -/
structure Poised (l : Layer) : Prop where
  skewX : Inclines l.skewX
  skewY : Inclines l.skewY
  rotation : l.rotation.Turns

/-- A layer that can be placed by one transform and fitted, with a font that has a size. -/
structure Sound (l : Layer) : Prop extends Poised l where
  idle : l.box.busy = false
  size : 0 < l.size

def pose (l : Layer) : (Value × Value × Value) × Float × Float × Float × Float :=
  (l.angles, l.width, l.height, l.offsetX, l.offsetY)

theorem ownMatrix_of_pose (h : m.pose = l.pose) : m.ownMatrix = l.ownMatrix := by
  obtain ⟨hangles, hwidth, hheight, hoffsetX, hoffsetY⟩ : m.angles = l.angles ∧ m.width = l.width ∧
      m.height = l.height ∧ m.offsetX = l.offsetX ∧ m.offsetY = l.offsetY := by
    simpa only [pose, Prod.mk.injEq] using h
  obtain ⟨hrotation, hskewX, hskewY⟩ : m.rotation = l.rotation ∧ m.skewX = l.skewX ∧ m.skewY = l.skewY := by
    simpa only [angles, Prod.mk.injEq] using hangles
  unfold ownMatrix slopes
  rw [hrotation, hskewX, hskewY, hwidth, hheight, hoffsetX, hoffsetY]

theorem Poised.of_angles (h : l.Poised) (hangles : m.angles = l.angles) : m.Poised := by
  obtain ⟨hrotation, hskewX, hskewY⟩ : m.rotation = l.rotation ∧ m.skewX = l.skewX ∧ m.skewY = l.skewY := by
    simpa only [angles, Prod.mk.injEq] using hangles
  exact ⟨hskewX ▸ h.skewX, hskewY ▸ h.skewY, hrotation ▸ h.rotation⟩

theorem inclines_zero : Inclines (.int 0) := ⟨_, rfl⟩

theorem Poised.exists_ownMatrix (h : l.Poised) : ∃ m, l.ownMatrix = .ok (some m) := by
  obtain ⟨x, hx⟩ := h.skewX
  obtain ⟨y, hy⟩ := h.skewY
  obtain ⟨m, hm, hsome⟩ := Layer.exists_ownMatrix hx hy h.rotation
  obtain ⟨m, rfl⟩ := Option.isSome_iff_exists.mp hsome
  exact ⟨m, hm⟩

/-! ### Settling in one step -/

def dressed (l : Layer) (m : Option (Transform.Matrix Float)) (vague : Bool) (b : Box) : Layer :=
  { l with matrix := m, vague := vague, box := b }

def transform (l : Layer) : Option (Transform.Matrix Float) :=
  match l.ownMatrix with
  | .ok m => m
  | .error _ => none

theorem transform_of_pose (h : m.pose = l.pose) : m.transform = l.transform := by
  unfold transform
  rw [ownMatrix_of_pose h]

def Box.fitted (b : Box) (l : Layer) : Box :=
  ({ b with
      matrix := some (Transform.Matrix.one.mul (.shifting (l.width / 2) (l.height / 2)))
      x := -l.width / 2, y := -l.height / 2, width := l.width, height := l.height
      originX := l.width * l.offsetX, originY := l.height * l.offsetY
      rotation := l.rotation } : Box).arrange l.offsetX l.offsetY

theorem Box.fitted_busy (b : Box) (l : Layer) (busy : Bool) :
    Box.fitted { b with busy := busy } l = { b.fitted l with busy := busy } := rfl

theorem Box.busy_fitted (b : Box) (l : Layer) : (b.fitted l).busy = b.busy := rfl

def settled (l : Layer) : Layer := l.dressed l.transform false (l.box.fitted l)

theorem Poised.run_place (h : l.Poised) : place.run l = .ok () (l.dressed l.transform false l.box) := by
  obtain ⟨m, hm⟩ := h.exists_ownMatrix
  have hrequire : (require l.ownMatrix).run l = .ok (some m) l := by rw [hm]; rfl
  unfold place
  rw [run_bind_ok (run_get l), run_bind_ok hrequire, transform, hm]
  rfl

theorem Sound.run_fit (h : l.Sound) : fit.run l = .ok () l.settled := by
  have hbox : ∀ (g : Box → Box) (m : Layer), (changeBox g).run m = .ok () { m with box := g m.box } :=
    fun _ _ => rfl
  have hidle : ¬l.box.busy = true := by simp [h.idle]
  unfold fit
  rw [run_bind_ok (run_get l), if_neg hidle, run_bind_ok (hbox _ _), run_bind_ok (run_modify _ _)]
  -- without its rotation the layer can be placed as well
  have hlevel : ({ l with box := { l.box with busy := true }, rotation := .int 0 } : Layer).Poised :=
    ⟨h.skewX, h.skewY, turns_zero⟩
  rw [run_bind_ok hlevel.run_place, run_bind_ok (hbox _ _), run_bind_ok (hbox _ _), run_bind_ok (run_modify _ _)]
  -- the rotation is back, and with it the transform
  let m : Layer := { l with
    matrix := ({ l with box := { l.box with busy := true }, rotation := .int 0 } : Layer).transform
    vague := false
    box := Box.fitted { l.box with busy := true } l }
  have hpoised : m.Poised := ⟨h.skewX, h.skewY, h.rotation⟩
  have htransform : m.transform = l.transform := transform_of_pose rfl
  show (place >>= fun _ => changeBox fun b => { b with busy := false }).run m = .ok () l.settled
  rw [run_bind_ok hpoised.run_place, hbox, htransform]
  have hbox' : ({ Box.fitted { l.box with busy := true } l with busy := false } : Box) = l.box.fitted l := by
    rw [Box.fitted_busy, ← h.idle, ← Box.busy_fitted l.box l]
  show EStateM.Result.ok () (l.dressed l.transform false _) = _
  rw [settled, ← hbox']
  rfl

theorem Sound.run_settle (h : l.Sound) : settle.run l = .ok () l.settled := by
  have hplaced : (l.dressed l.transform false l.box).Sound := ⟨h.toPoised.of_angles rfl, h.idle, h.size⟩
  unfold settle
  rw [run_bind_ok h.run_place, hplaced.run_fit]
  rfl

theorem fitted_of_pose (h : m.pose = l.pose) (b : Box) : b.fitted m = b.fitted l := by
  obtain ⟨hrotation, hwidth, hheight, hoffsetX, hoffsetY⟩ : m.rotation = l.rotation ∧ m.width = l.width ∧
      m.height = l.height ∧ m.offsetX = l.offsetX ∧ m.offsetY = l.offsetY := by
    simp only [pose, angles, Prod.mk.injEq] at h
    exact ⟨h.1.1, h.2⟩
  unfold Box.fitted
  rw [hrotation, hwidth, hheight, hoffsetX, hoffsetY]

theorem Handle.resize_place (a : Handle) (w h w' h' : Float) (view : Option (Transform.Matrix Float))
    (frame : Transform.Matrix Float) :
    (((a.place w h).resize view frame).place w' h').resize view frame = (a.place w' h').resize view frame := by
  cases view <;> rfl

theorem Box.fitted_fitted (b : Box) (l m : Layer) : (b.fitted l).fitted m = b.fitted m := by
  have hhandles : ((b.fitted l).fitted m).handles = (b.fitted m).handles := by
    show List.map _ (List.map _ (List.map _ (List.map _ b.handles))) = List.map _ (List.map _ b.handles)
    simp only [List.map_map]
    refine List.map_congr_left fun a _ => ?_
    exact a.resize_place l.width l.height m.width m.height b.view b.frame
  calc (b.fitted l).fitted m
    _ = { b.fitted m with handles := ((b.fitted l).fitted m).handles } := rfl
    _ = b.fitted m := by rw [hhandles]

theorem settled_settled (l : Layer) : l.settled.settled = l.settled := by
  have hpose : l.settled.pose = l.pose := rfl
  have hbox : (l.box.fitted l).fitted l.settled = l.box.fitted l := by
    rw [fitted_of_pose hpose, Box.fitted_fitted]
  show (l.settled).dressed l.settled.transform false ((l.box.fitted l).fitted l.settled) = l.settled
  rw [hbox, transform_of_pose hpose]
  rfl

end Layer

end WatchFace
