/-!
# Rectangles
-/

namespace WatchFace

structure Rect where
  x : Int
  y : Int
  width : Int
  height : Int
  deriving Repr, DecidableEq, Inhabited

namespace Rect

def right (r : Rect) : Int := r.x + r.width

def bottom (r : Rect) : Int := r.y + r.height

def center (r : Rect) : Int × Int := (r.x + r.width.fdiv 2, r.y + r.height.fdiv 2)

def contains (r : Rect) (x y : Int) : Bool :=
  r.x ≤ x && x < r.right && r.y ≤ y && y < r.bottom

def about (x y width height : Int) : Rect :=
  ⟨x - width.fdiv 2, y - height.fdiv 2, width, height⟩

theorem center_about (x y w h : Int) : (about x y w h).center = (x, y) := by
  simp [about, center]

end Rect

def gridDistance (x y x' y' : Int) : Nat := (x - x').natAbs + (y - y').natAbs

end WatchFace
