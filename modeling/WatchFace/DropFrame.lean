import WatchFace.Rect

/-!
# Drop frames

The frame that shows where something would be dropped. It follows small moves at once, and glides to places farther
away.
-/

namespace WatchFace

/-- A drop frame. `target` is where it was last wanted while seen; `gliding` tells of its animation. -/
structure DropFrame where
  geometry : Rect := ⟨0, 0, 100, 100⟩
  visible : Bool := false
  target : Option Rect := none
  gliding : Bool := false
  deriving Repr, DecidableEq, Inhabited

namespace DropFrame

inductive Event where
  | stop
  | glide (origin goal : Rect)
  deriving Repr, DecidableEq

def glideDistance : Nat := 20

def glides (f : DropFrame) (goal : Rect) : Bool :=
  glideDistance ≤ gridDistance goal.x goal.y f.geometry.x f.geometry.y ||
    (goal.width, goal.height) != (f.geometry.width, f.geometry.height)

def change (f : DropFrame) (x y width height : Int) : DropFrame × List Event :=
  let goal := Rect.about x y width height
  if !f.visible then ({ f with geometry := goal, visible := true }, [])
  else if f.target = some goal then (f, [])
  else
    let g := { f with target := some goal }
    let stop := if f.gliding then [Event.stop] else []
    if f.glides goal then (g, stop ++ [.glide f.geometry goal])
    else ({ g with geometry := goal }, stop)

def hide (f : DropFrame) : DropFrame := { f with visible := false }

end DropFrame

end WatchFace
