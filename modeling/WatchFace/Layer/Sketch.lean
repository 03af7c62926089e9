import WatchFace.Layer.Basic

/-!
# Sketches of layers

A layer that the preview cannot draw yet has a sketch: a rectangle with an outline and a fill, or a text.
-/

namespace WatchFace

inductive Sketch.Outline where
  | none
  | line (color : Color) (width : Nat) (dashed : Bool)
  deriving Repr, DecidableEq

inductive Sketch.Fill where
  | none
  | solid (color : Color)
  deriving Repr, DecidableEq

structure Sketch where
  x : Float := 0
  y : Float := 0
  width : Float := 100
  height : Float := 100
  outline : Option Sketch.Outline := none
  fill : Option Sketch.Fill := none
  text : Option Value := none
  deriving Repr

namespace Sketch

/-- A colour of a template: a fixed one, or the one that an attribute gives. -/
inductive Ink where
  | fixed (code : String)
  | attribute (title : String) (default : String)
  deriving Repr, DecidableEq

/-- The size of a template: two attributes give its sides, one its radius, or it is fixed. -/
inductive Extent where
  | sides (widthTitle : String) (width : Int) (heightTitle : String) (height : Int)
  | radius (title : String) (default : Int)
  | fixed (side : Int)
  deriving Repr, DecidableEq

inductive Template where
  | plain (extent : Extent) (fill : Ink)
  | framed (extent : Extent) (fill : Ink) (outline : String) (width : Nat)
  | hollow (extent : Extent) (outline : Ink) (width : Nat) (dashed : Bool)
  | words (title : String)
  | label (text : String)
  deriving Repr, DecidableEq

def Extent.box (width height : Int) : Extent := .sides "Width" width "Height" height

def dashedCircle (radius : Int) : Template :=
  .hollow (.radius "Radius" radius) (.fixed "#888888") 1 true

def solid : Template := .framed (.sides "Scale X" 40 "Scale Y" 40) (.fixed "#666666") "#888888" 2

def template? : String → Option Template
  | "curvedTextLayer" => some (.words "Text")
  | "shapeLayer" => some (.plain (.box 100 100) (.attribute "Color" "#ffffff"))
  | "markerLayer" => some (dashedCircle 256)
  | "tachymeterLayer" => some (dashedCircle 230)
  | "mapLayer" => some (.framed (.box 512 512) (.fixed "#3a3a3a") "#555555" 1)
  | "slideshowLayer" => some (.framed (.box 300 300) (.fixed "#444444") "#666666" 1)
  | "textRingLayer" => some (dashedCircle 200)
  | "roundedRectangleLayer" => some (.plain (.box 300 200) (.attribute "Color" "#ffffff"))
  | "seriesLayer" => some (.label "MON\nTUE\nWED")
  | "complicationLayer" =>
    some (.framed (.box 100 100) (.attribute "Color background" "#494949") "#666666" 1)
  | "chartLayer" => some (.framed (.box 205 76) (.fixed "#2a2a2a") "#444444" 1)
  | "imageCondLayer" => some (.framed (.box 80 80) (.fixed "#555555") "#777777" 1)
  | "imageGifLayer" => some (.framed (.box 100 100) (.fixed "#4a4a4a") "#666666" 1)
  | "progressLayer" => some (.plain (.box 114 24) (.attribute "Color 3" "#525151"))
  | "ringLayer" => some (.hollow (.radius "Radius outer" 57) (.attribute "Color" "#ffffff") 4 false)
  | "markersHMLayer" => some (dashedCircle 256)
  | "directionalLightLayer" =>
    some (.framed (.fixed 60) (.attribute "Color" "#ffffff") "#ffff00" 2)
  | "layer3D" | "3DLayer" => some solid
  | _ => none

abbrev Attributes := List (String × Value)

def lengthOf (as : Attributes) (title : String) (default : Int) : Except Fault Float :=
  ((as.lookup title).getD (.int default)).measure

def Ink.color (as : Attributes) : Ink → Except Fault Color
  | .fixed code => .ok (Color.parse code)
  | .attribute title default =>
    match as.lookup title with
    | none => .ok (Color.parse default)
    | some (.text s) => .ok (Color.parse (if s.startsWith "#" then s else "#" ++ s))
    | some _ => .error .missing

def Extent.sketch (as : Attributes) : Extent → Except Fault Sketch
  | .sides wt w ht h => do
    let w ← lengthOf as wt w
    let h ← lengthOf as ht h
    return { x := -w / 2, y := -h / 2, width := w, height := h }
  | .radius t r => do
    let r ← lengthOf as t r
    return { x := -r, y := -r, width := r * 2, height := r * 2 }
  | .fixed side =>
    let s := Float.ofInt side
    return { x := -s / 2, y := -s / 2, width := s, height := s }

def draw (as : Attributes) : Template → Except Fault Sketch
  | .plain extent fill => do
    let s ← extent.sketch as
    return { s with fill := some (.solid (← fill.color as)), outline := some .none }
  | .framed extent fill outline width => do
    let s ← extent.sketch as
    return { s with fill := some (.solid (← fill.color as))
                    outline := some (.line (Color.parse outline) width false) }
  | .hollow extent outline width dashed => do
    let s ← extent.sketch as
    return { s with fill := some .none, outline := some (.line (← outline.color as) width dashed) }
  | .words title => .ok { text := some ((as.lookup title).getD (.text "")) }
  | .label text => .ok { text := some (.text text) }

end Sketch

/-- An image on the preview; the offsets tell which point of it is at its position. -/
structure Picture where
  width : Float
  height : Float
  offsetX : Float := 0.5
  offsetY : Float := 0.5
  deriving Repr

namespace Picture

def align (p : Picture) (s : String) : Picture :=
  let (x, y) := Layer.alignTo 0 0.5 1 s p.offsetX p.offsetY
  { p with offsetX := x, offsetY := y }

def shift (p : Picture) : Transform.Matrix Float :=
  .shifting (-p.width * p.offsetX) (-p.height * p.offsetY)

end Picture

def Sketch.isOwnType (type : String) : Bool := type == "imageLayer" || (template? type).isSome

def Sketch.templateOf (type : String) : Except Fault Template :=
  if type == "textLayer" || type == "imageLayer" then .error .wrongKind
  else
    match template? type with
    | some t => .ok t
    | none => .error .noEntry

end WatchFace
