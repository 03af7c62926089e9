import WatchFace.Color
import WatchFace.Font.Bitmap
import WatchFace.Number.Arithmetic
import WatchFace.Rect

/-!
# Drawing with a bitmap font
-/

namespace WatchFace.Font

open Number

def code (c : Char) : Int := c.toNat

namespace Bitmap

def moved (b : Bitmap) (scale : Quantity) (before : Option Char) (pen : Quantity) (c : Char)
    (g : Glyph) : Except Fault Quantity := do
  let pen ← match before with
    | some p => pen.add (← (Quantity.whole (b.kerning (code p) (code c))).times scale)
    | none => pure pen
  pen.add (← (Quantity.whole g.advance).times scale)

def widthFrom (b : Bitmap) (scale : Quantity) (before : Option Char) (pen : Quantity) :
    List Char → Except Fault Quantity
  | [] => .ok pen
  | c :: cs => do
    let pen ← match b.glyph? (code c) with
      | some g => b.moved scale before pen c g
      | none => pure pen
    widthFrom b scale (some c) pen cs

def width (b : Bitmap) (scale : Quantity) (text : List Char) : Except Fault Quantity :=
  b.widthFrom scale none (.whole 0) text

def measure (b : Bitmap) (text : List Char) (scale : Quantity) : Except Fault (Int × Int) := do
  if text.isEmpty then return (0, 0)
  let height ← (Quantity.whole b.lineHeight).times scale
  let width ← b.width scale text
  return (← width.truncate, ← height.truncate)

end Bitmap

/-- A part of a page that is drawn: the glyph, where the pen is, and where the glyph goes. -/
structure Stroke where
  glyph : Glyph
  pen : Quantity
  target : Rect
  deriving Repr

def Stroke.source (s : Stroke) : Rect := ⟨s.glyph.x, s.glyph.y, s.glyph.width, s.glyph.height⟩

/-- An action that draws strokes; those that were drawn before a fault stay. -/
abbrev Draw := EStateM Fault (List Stroke)

def Draw.lift {α : Type} : Except Fault α → Draw α
  | .ok a => pure a
  | .error e => throw e

def Stroke.place (g : Glyph) (scale pen : Quantity) : Except Fault Stroke := do
  let scaled (n : Int) : Except Fault Quantity := (Quantity.whole n).times scale
  let x ← pen.add (← scaled g.xOffset)
  let y ← scaled g.yOffset
  return ⟨g, pen, ⟨← x.truncate, ← y.truncate, ← (← scaled g.width).truncate,
    ← (← scaled g.height).truncate⟩⟩

namespace Bitmap

/-- Draws a text from the pen on. A glyph whose page was not found moves the pen only. -/
def drawFrom (b : Bitmap) (scale : Quantity) (before : Option Char) (pen : Quantity) :
    List Char → Draw Unit
  | [] => pure ()
  | c :: cs => do
    match b.glyph? (code c) with
    | none => drawFrom b scale (some c) pen cs
    | some g =>
      let pen ← match before with
        | some p =>
          Draw.lift (do pen.add (← (Quantity.whole (b.kerning (code p) (code c))).times scale))
        | none => pure pen
      if b.pages.contains g.page then
        let s ← Draw.lift (Stroke.place g scale pen)
        modify (· ++ [s])
      let pen ← Draw.lift (do pen.add (← (Quantity.whole g.advance).times scale))
      drawFrom b scale (some c) pen cs

/-- Draws a text, and tells whether there is a picture: not without a text, pages or room. -/
def render (b : Bitmap) (text : List Char) (scale : Quantity) : Draw Bool := do
  if text.isEmpty || b.pages.isEmpty then return false
  let (width, height) ← Draw.lift (b.measure text scale)
  if width ≤ 0 || height ≤ 0 then return false
  b.drawFrom scale none (.whole 0) text
  return true

end Bitmap

end WatchFace.Font

namespace WatchFace.Color

def tint (c point : Color) : Color :=
  if point.alpha ≤ 0 then point
  else
    let gray := (point.red + point.green + point.blue).fdiv 3
    let strength := Float.ofInt gray / 255.0
    let part (n : Int) : Int := (Number.truncate? (Float.ofInt n * strength)).getD 0
    { red := part c.red, green := part c.green, blue := part c.blue, alpha := point.alpha }

end WatchFace.Color
