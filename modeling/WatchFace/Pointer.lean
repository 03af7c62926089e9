import WatchFace.Transform

/-!
# Pointer shapes
-/

namespace WatchFace

inductive Pointer where
  | arrow
  | horizontal
  | vertical
  | falling
  | rising
  deriving Repr, DecidableEq

namespace Pointer

def angles : List (Float × Pointer) :=
  [(0.0, .horizontal), (45.0, .rising), (90.0, .vertical), (135.0, .falling)]

def distance (a b : Float) : Float :=
  let d := (a - b).abs
  if 180.0 - d < d then 180.0 - d else d

def along (angle : Float) : Pointer :=
  let a := Transform.remainder angle 180
  (angles.foldl (fun (best : Pointer × Float) (b, p) =>
    let d := distance a b
    if d < best.2 then (p, d) else best) (.horizontal, 360.0)).1

end Pointer

end WatchFace
