import WatchFace.Rect

/-!
# Drag gestures

A press and a move of the mouse become a drag once the mouse has gone far enough.
-/

namespace WatchFace

structure Gesture where
  start : Option (Int × Int) := none
  dragged : Bool := false
  deriving Repr, DecidableEq, Inhabited

namespace Gesture

inductive Event where
  | pressed
  | moved
  | released
  /-- A drag, which carries something until it is dropped. -/
  | carried
  deriving Repr, DecidableEq

def threshold : Nat := 5

def press (g : Gesture) (x y : Int) (left : Bool) : Gesture :=
  if left then { g with start := some (x, y) } else g

def release (g : Gesture) : Gesture × List Event :=
  ({ g with dragged := false }, (if g.dragged then [] else [.pressed]) ++ [.released])

/-- Moves the mouse, with the left button held or not. Where something is dropped the drag ends and the button is
    released. -/
def move (g : Gesture) (x y : Int) (left : Bool) : Gesture × List Event :=
  match g.start with
  | some (sx, sy) =>
    if left && threshold ≤ gridDistance x y sx sy then
      let (g, events) := release { start := none, dragged := true }
      (g, .moved :: .carried :: events)
    else (g, [.moved])
  | none => (g, [.moved])

end Gesture

end WatchFace
