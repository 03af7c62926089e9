import WatchFace.Layer.Sketch
import WatchFace.Studio.Reactions

/-!
# Layers in the studio

Dragging a layer, its selection box or one of its handles carries new values on the channels of its attributes.
-/

namespace WatchFace.Studio

/-- The layer joins the channels of those attributes that there are. -/
def follow (l : Nat) (channels : List (String × Nat)) (parts : List (String × Layer.Part)) :
    Act Unit :=
  parts.forM fun (title, p) =>
    match channels.lookup title with
    | some c => connect c (.layer l p)
    | none => pure ()

def makeLayer (channels : List (String × Nat)) : Act Nat := do
  let l := (← get).layers.length
  modify fun s => { s with layers := s.layers ++ [{ channels := channels }] }
  follow l channels Layer.following.1
  onLayer l Layer.settle
  follow l channels Layer.following.2
  pure l

/-- A new layer of a type. Sketches cannot be made from channels; any other type is a text. -/
def createLayer (type : String) (channels : List (String × Nat)) : Act Nat :=
  if Sketch.isOwnType type then throw .wrongKind else makeLayer channels

def channelOf (l : Nat) (title : String) : Act Nat := do
  match (← part Studio.layers l).channels.lookup title with
  | some c => pure c
  | none => throw .noEntry

def emitOn (l : Nat) (title : String) (v : Value) : Act Unit := do
  emit (← channelOf l title) v

def moveTo (l : Nat) (x y : Value) : Act Unit := do
  let layer ← part Studio.layers l
  let cx ← channelOf l "X"
  emit cx (.float ((← require x.measure) + layer.width * layer.offsetX))
  let cy ← channelOf l "Y"
  emit cy (.float ((← require y.measure) + layer.height * layer.offsetY))

def movePointTo (l : Nat) (x y : Value) : Act Unit := do
  emitOn l "X" x
  emitOn l "Y" y

def turnTo (l : Nat) (angle : Value) : Act Unit := emitOn l "Rotation" angle

def pullHandle (l : Nat) (d : Option Layer.Direction) (dx dy : Float) : Act Unit := do
  match ← onLayer l (Layer.pull d dx dy) with
  | none => pure ()
  | some p =>
    emitOn l "Text size" (.int p.size)
    emitOn l "X" (.float ((← part Studio.layers l).x + p.dx))
    emitOn l "Y" (.float ((← part Studio.layers l).y + p.dy))
    onLayer l Layer.fit

/-- Drags the selection box to a position, a whole one without the control key. -/
def dragBox (l : Nat) (x y : Float) : Act Unit := do
  onLayer l (Layer.changeBox fun b => { b with x := x, y := y })
  let b := (← part Studio.layers l).box
  if b.control then
    moveTo l (.float (Number.roundPlaces (x + b.width / 2) 2))
      (.float (Number.roundPlaces (y + b.height / 2) 2))
  else
    let x ← require (Value.float x).toInt
    let y ← require (Value.float y).toInt
    let x := Float.ofInt x
    let y := Float.ofInt y
    onLayer l (Layer.changeBox fun b => { b with x := x, y := y })
    moveTo l (.int (← require (Value.float (x + b.width / 2)).toInt))
      (.int (← require (Value.float (y + b.height / 2)).toInt))

def pressHandle (l : Nat) (d : Layer.Direction) (x y : Float) : Act Unit :=
  onLayer l (Layer.changeBox fun b => b.changeHandle d fun h => { h with grip := some (x, y) })

def releaseHandle (l : Nat) (d : Layer.Direction) : Act Unit :=
  onLayer l (Layer.changeBox fun b => b.changeHandle d fun h => { h with grip := none })

def dragHandle (l : Nat) (d : Layer.Direction) (x y : Float) : Act Bool := do
  match ((← part Studio.layers l).box.handle? d).bind (·.grip) with
  | none => pure false
  | some (gx, gy) =>
    pullHandle l (some d) (x - gx) (y - gy)
    pressHandle l d x y
    pure true

structure Sector where
  turn : Layer.Turn
  start : Int
  span : Int
  deriving Repr

/-- Moves the mouse with the handle for turning; the layer turns by the angle it has gone about the origin of the box.
    -/
def dragTurner (l : Nat) (x y : Float) : Act Sector := do
  let b := (← part Studio.layers l).box
  let angle (dx dy : Float) := Transform.degrees (Float.atan2 dy dx)
  let mouse := angle (x - b.originX) (y - b.originY)
  let turn := b.turner.turn.getD
    { radius := Layer.length (b.turner.x - b.originX) (b.turner.y - b.originY)
      angle := angle (b.turner.x - b.originX) (b.turner.y - b.originY)
      rotation := b.rotation }
  onLayer l (Layer.changeBox fun b => { b with turner := { b.turner with turn := some turn } })
  let delta := mouse - turn.angle
  turnTo l (.float ((← require turn.rotation.measure) + delta))
  onLayer l (Layer.changeBox fun b => { b with turner := { b.turner with sector := true } })
  let start ← require (Value.float (-turn.angle * 16)).toInt
  let span ← require (Value.float (-delta * 16)).toInt
  pure ⟨turn, start, span⟩

def releaseTurner (l : Nat) : Act Unit :=
  onLayer l (Layer.changeBox fun b =>
    { b with selected := false, turner := { b.turner with turn := none, sector := false } })

def pointsOf (length : Float) (dotsPerInch : Option Float) : Except Fault Float :=
  match dotsPerInch with
  | none => .error .noApplication
  | some d => if d == 0 then .error .divideByZero else .ok (length * 72.0 / d)

end WatchFace.Studio
