import WatchFace.Pointer
import WatchFace.Value

/-!
# Selection boxes

By the eight handles on its edges and corners a layer is made larger or smaller, and by another one it is turned.
-/

namespace WatchFace.Layer

open Transform

inductive Direction where
  | topLeft | top | topRight | left | right | bottomLeft | bottom | bottomRight
  deriving Repr, DecidableEq

namespace Direction

def all : List Direction :=
  [.topLeft, .top, .topRight, .left, .right, .bottomLeft, .bottom, .bottomRight]

def offset : Direction → Float × Float
  | .topLeft => (-0.5, -0.5)
  | .top => (0.0, -0.5)
  | .topRight => (0.5, -0.5)
  | .left => (-0.5, 0.0)
  | .right => (0.5, 0.0)
  | .bottomLeft => (-0.5, 0.5)
  | .bottom => (0.0, 0.5)
  | .bottomRight => (0.5, 0.5)

end Direction

/-- A handle on an edge or corner. `scale` undoes that of the view; `grip` is where a drag last was. -/
structure Handle where
  direction : Direction
  x : Float
  y : Float
  scale : Option (Transform.Matrix Float) := none
  grip : Option (Float × Float) := none
  pointer : Option Pointer := none
  deriving Repr

/-- The length of a vector, which is made shorter or longer first if its square is not an ordinary number. -/
def length (x y : Float) : Float :=
  let square := x * x + y * y
  if 1e-280 < square && square < 1e280 then square.sqrt
  else
    let m := if x.abs < y.abs then y.abs else x.abs
    if m == 0 || m.isInf then m else m * ((x / m) * (x / m) + (y / m) * (y / m)).sqrt

def scales (m : Transform.Matrix Float) : Float × Float := (length m.m11 m.m12, length m.m21 m.m22)

namespace Handle

def place (h : Handle) (w h' : Float) : Handle :=
  let (dx, dy) := h.direction.offset
  { h with x := dx * w, y := dy * h' }

def undoing (s : Float) : Float := if s != 0 then 1.0 / s else 1.0

/-- A handle of constant size on the screen, whatever the scales of view and box. Without a view it stays. -/
def resize (h : Handle) (view : Option (Transform.Matrix Float))
    (frame : Transform.Matrix Float) : Handle :=
  match view with
  | none => h
  | some view =>
    let (vx, vy) := scales view
    let (bx, by') := scales frame
    let back := .scaling (undoing (vx * bx)) (undoing (vy * by'))
    { h with scale := some (Transform.Matrix.one.mul back) }

def pointerOver (h : Handle) (frame : Transform.Matrix Float) : Pointer :=
  let (dx, dy) := h.direction.offset
  Pointer.along
    (degrees (Float.atan2 (-dy) dx) + degrees (Float.atan2 (-frame.m12) frame.m11))

end Handle

structure Turn where
  radius : Float
  angle : Float
  rotation : Value
  deriving Repr

/-- The handle for turning; `sector` tells whether a sector shows the turn. -/
structure Turner where
  x : Float
  y : Float
  turn : Option Turn := none
  sector : Bool := false
  deriving Repr

def Turner.distance : Float := 30

def Turner.place (t : Turner) (view : Option (Transform.Matrix Float))
    (frame : Transform.Matrix Float) (w h : Float) (offsetX offsetY : Float) : Turner :=
  let viewScale := match view with
    | some v => (scales v).2
    | none => 1.0
  let total := (scales frame).2 * viewScale
  let total := if total == 0 then 1.0 else total
  let (side, offsetY) := if offsetY == 0.5 then (1.0, offsetY) else (-1.0, -0.5)
  { t with x := w * offsetX, y := side * Turner.distance / total + h * offsetY }

/-- A selection box. `frame` maps it to the scene and `view` the scene to the screen, if shown; `busy` tells that it is
    being fitted to its layer. -/
structure Box where
  x : Float := 0
  y : Float := 0
  width : Float := 100
  height : Float := 100
  rotation : Value := .float 0
  matrix : Option (Transform.Matrix Float) := none
  originX : Float := 0
  originY : Float := 0
  visible : Bool := false
  selected : Bool := false
  /-- Whether the control key is held. -/
  control : Bool := false
  busy : Bool := false
  frame : Transform.Matrix Float := Transform.Matrix.one
  view : Option (Transform.Matrix Float) := none
  handles : List Handle :=
    Direction.all.map fun d => (⟨d, 0, 0, none, none, none⟩ : Handle).place 100 100
  turner : Turner := { x := 50, y := -50 }
  deriving Repr

namespace Box

def handle? (b : Box) (d : Direction) : Option Handle := b.handles.find? (·.direction = d)

def changeHandle (b : Box) (d : Direction) (f : Handle → Handle) : Box :=
  { b with handles := b.handles.map fun h => if h.direction = d then f h else h }

def resizeHandles (b : Box) : Box :=
  { b with handles := b.handles.map fun h : Handle => h.resize b.view b.frame }

def placeTurner (b : Box) (offsetX offsetY : Float) : Box :=
  { b with turner := b.turner.place b.view b.frame b.width b.height offsetX offsetY }

def arrange (b : Box) (offsetX offsetY : Float) : Box :=
  let b := { b with handles := b.handles.map fun h : Handle => h.place b.width b.height }
  (b.placeTurner offsetX offsetY).resizeHandles

end Box

end WatchFace.Layer
