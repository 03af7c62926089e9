import WatchFace.Color
import WatchFace.Number.Arithmetic
import WatchFace.Rect

/-!
# Round buttons

Only presses inside the circle count.
-/

namespace WatchFace

open Number

structure RoundButton where
  width : Quantity
  height : Quantity
  text : String
  down : Bool := false
  hovered : Bool := false
  deriving Repr

structure RoundButton.Palette where
  normal : Color := Color.parse "#2a2a2a"
  hovered : Color := Color.parse "#3584e4"
  pressed : Color := Color.parse "#1a5fb4"
  border : Color := Color.parse "#4a4a4a"
  text : Color := Color.parse "#ffffff"
  deriving Repr

namespace RoundButton

def diameter (b : RoundButton) : Quantity := b.width.least b.height

def half (q : Quantity) : Except Fault Float := q.divided (.whole 2)

def hits (b : RoundButton) (x y : Quantity) : Except Fault Bool := do
  let middleX ← half b.width
  let middleY ← half b.height
  let radius ← half b.diameter
  let dx := (← x.toFloat) - middleX
  let dy := (← y.toFloat) - middleY
  return (dx * dx + dy * dy).pow 0.5 ≤ radius

inductive Stroke where
  | brush (color : Option Color)
  | pen (color : Option Color)
  | ellipse (frame : Rect)
  | text (width height : Quantity) (s : String)
  deriving Repr

def Palette.colors (p : Palette) : List Color := [p.normal, p.hovered, p.pressed, p.border, p.text]

def Palette.standard : Palette := {}

def fill (b : RoundButton) (p : Palette) : Color :=
  if b.down then p.pressed else if b.hovered then p.hovered else p.normal

def frame (b : RoundButton) : Except Fault Rect := do
  let x ← Quantity.truncate (.double (← half (← b.width.minus b.diameter)))
  let y ← Quantity.truncate (.double (← half (← b.height.minus b.diameter)))
  let side ← b.diameter.truncate
  return ⟨x, y, side, side⟩

def paint (b : RoundButton) : Except Fault (List Stroke) := do
  let p := Palette.standard
  let frame ← b.frame
  return [.brush (some (b.fill p)), .pen none, .ellipse frame,
    .pen (some p.border), .brush none, .ellipse frame,
    .pen (some p.text), .text b.width b.height b.text]

end RoundButton

end WatchFace
