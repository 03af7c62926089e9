import Mathlib.Data.Real.Basic
import WatchFace.Layer.Basic
import WatchFace.Proofs.Products

/-!
# Texts turn about their anchors

The transform of a text moves its anchor to the origin before it turns the text, so with exact numbers the anchor stays
where it is. A shear comes in between, about the middle of the text, and moves an anchor that is not the middle.
-/

namespace WatchFace

open EStateM

namespace Transform.Matrix

variable {α : Type} [CommRing α]

/-- A product maps a point by its left factor first, if that factor is affine. -/
theorem image_mul {a : Matrix α} (h13 : a.m13 = 0) (h23 : a.m23 = 0) (h33 : a.m33 = 1) (b : Matrix α) (x y : α) :
    (a * b).image x y = b.image (a.image x y).1 (a.image x y).2 := by
  show (a.mul b).image x y = _
  simp only [image, mul, h13, h23, h33, Prod.mk.injEq]
  constructor <;> ring

theorem image_shifting_mul (dx dy : α) (b : Matrix α) (x y : α) :
    (shifting dx dy * b).image x y = b.image (x + dx) (y + dy) := by
  rw [image_mul rfl rfl rfl]
  simp [image, shifting, one]

theorem image_shearing_mul (sh sv : α) (b : Matrix α) (x y : α) :
    (shearing sh sv * b).image x y = b.image (x + y * sh) (y + x * sv) := by
  rw [image_mul rfl rfl rfl]
  simp [image, shearing, one, add_comm]

theorem image_rotation (c s x y : α) : (rotation c s).image x y = (x * c - y * s, x * s + y * c) := by
  simp [image, rotation, one, sub_eq_add_neg]

end Transform.Matrix

namespace Transform.Staged

variable {α : Type} [CommRing α]

theorem total_nextWith (t : Staged α) (m : Matrix α) : (t.nextWith m).total = t.total * m := by
  rw [nextWith_eq]
  rfl

theorem push_of_isSome {t : Staged α} (h : t.pending.isSome = true) : t.push = .ok ⟨t.total, none⟩ := by
  obtain ⟨whole, _ | p⟩ := t
  · cases h
  · rfl

end Transform.Staged

namespace Layer

open Transform

/-- The transform that a layer works out is a frame of its size and offsets, for the tangents of its skews and the
    cosine and sine of its rotation. -/
theorem exists_frame_of_ownMatrix {l : Layer} {m : Transform.Matrix Float} (hm : l.ownMatrix = .ok (some m)) :
    ∃ shearX shearY c s, l.slopes = .ok (some (shearX, shearY)) ∧ (l.rotation.measure >>= circle) = .ok (c, s) ∧
      (frame l.width l.height l.offsetX l.offsetY shearX shearY c s).push = .ok ⟨m, none⟩ := by
  obtain ⟨slopes, hslopes, hm⟩ := exists_of_bind_eq_ok hm
  obtain ⟨a, ha, hm⟩ := exists_of_bind_eq_ok hm
  obtain ⟨⟨c, s⟩, hcircle, hm⟩ := exists_of_bind_eq_ok hm
  cases slopes with
  | none => cases hm
  | some shears =>
    obtain ⟨shearX, shearY⟩ := shears
    refine ⟨shearX, shearY, c, s, hslopes, ?_, ?_⟩
    · rw [ha]
      exact hcircle
    · obtain rfl : _ = m := Option.some.inj (Except.ok.inj hm)
      rfl

variable (w h offsetX offsetY shearX shearY c s : ℝ)

theorem push_frame : (frame w h offsetX offsetY shearX shearY c s).push =
    .ok ⟨.shifting (-w / 2) (-h / 2) * (.shearing shearX shearY *
      (.shifting (-w * offsetX) (-h * offsetY) * .rotation c s)), none⟩ := by
  have hunit : (Transform.Matrix.one : Transform.Matrix ℝ) = 1 := rfl
  have hone : ∀ m : Transform.Matrix ℝ, Transform.Matrix.mul 1 m = m := one_mul
  rw [Staged.push_of_isSome rfl]
  simp only [frame, Staged.total_add, Staged.next, Staged.total_nextWith, Staged.total_start, Option.getD_none, hunit,
    hone, one_mul, mul_one, mul_assoc]

/-- **A text turns about its anchor.** Let a text layer have no skews, or no offsets. Then its transform takes the anchor
    to the origin, which is the position of the layer, and every other point goes where the shear and the rotation take
    it as seen from the anchor. It is the transform that a layer works out for itself, there with doubles. -/
theorem image_frame_anchor (hplain : shearX = 0 ∧ shearY = 0 ∨ offsetX = 0 ∧ offsetY = 0) :
    (∃ m, (frame w h offsetX offsetY shearX shearY c s).push = .ok ⟨m, none⟩ ∧
      m.image (w / 2 + w * offsetX) (h / 2 + h * offsetY) = (0, 0) ∧
      ∀ u v, m.image (w / 2 + w * offsetX + u) (h / 2 + h * offsetY + v) =
        (Transform.Matrix.shearing shearX shearY * .rotation c s).image u v) ∧
      ∀ (l : Layer) (m : Transform.Matrix Float), l.ownMatrix = .ok (some m) →
        ∃ shearX shearY c s, l.slopes = .ok (some (shearX, shearY)) ∧ (l.rotation.measure >>= circle) = .ok (c, s) ∧
          (frame l.width l.height l.offsetX l.offsetY shearX shearY c s).push = .ok ⟨m, none⟩ := by
  have himage : ∀ u v, (.shifting (-w / 2) (-h / 2) * (.shearing shearX shearY *
      (.shifting (-w * offsetX) (-h * offsetY) * .rotation c s)) : Transform.Matrix ℝ).image
        (w / 2 + w * offsetX + u) (h / 2 + h * offsetY + v) =
      (Transform.Matrix.shearing shearX shearY * .rotation c s).image u v := by
    intro u v
    simp only [Transform.Matrix.image_shifting_mul, Transform.Matrix.image_shearing_mul]
    obtain ⟨rfl, rfl⟩ | ⟨rfl, rfl⟩ := hplain
    · congr 1 <;> ring
    · congr 1 <;> ring
  refine ⟨⟨_, push_frame .., ?_, himage⟩, fun l m => exists_frame_of_ownMatrix⟩
  have hanchor := himage 0 0
  rw [add_zero, add_zero] at hanchor
  rw [hanchor, Transform.Matrix.image_shearing_mul, Transform.Matrix.image_rotation]
  simp

/-- A text that hangs from its lower left corner, turned. -/
theorem image_frame_anchor_corner :
    ∃ m, (frame (40 : ℝ) 20 (-1 / 2) (1 / 2) 0 0 (3 / 5) (4 / 5)).push = .ok ⟨m, none⟩ ∧ m.image 0 20 = (0, 0) := by
  obtain ⟨⟨m, hpush, hanchor, -⟩, -⟩ :=
    image_frame_anchor (40 : ℝ) 20 (-1 / 2) (1 / 2) 0 0 (3 / 5) (4 / 5) (.inl ⟨rfl, rfl⟩)
  have hcorner : (40 / 2 + 40 * (-1 / 2) : ℝ) = 0 ∧ (20 / 2 + 20 * (1 / 2) : ℝ) = 20 := by norm_num
  rw [hcorner.1, hcorner.2] at hanchor
  exact ⟨m, hpush, hanchor⟩

end Layer

end WatchFace
