import WatchFace.Font.Drawing
import WatchFace.Font.Library

/-!
# Texts on a watch face

A text is shown in an outline font, or drawn with a bitmap font.
-/

namespace WatchFace.Font

/-- What happens to a text on the screen, and what others are told. -/
inductive Label.Event where
  | font (family : String) (size : Value)
  | text (v : Value)
  | style (sheet : String)
  | picture (isEmpty : Bool)
  | textChanged (v : Value)
  | fontChanged (name : Value)
  deriving Repr

/-- A text on a watch face. A bitmap font has a scale, an outline font a size. The text and the name of the font are
    values of any kind; a colour whose parts are no whole numbers is none. -/
structure Label where
  library : Library
  text : Value := .text ""
  font : Value := .text ""
  size : Value := .int 12
  scale : Value := .float 1.0
  color : Option Color := some {}
  bitmap : Option Bitmap := none
  /-- What was drawn since the last look. -/
  strokes : List Stroke := []
  events : List Label.Event := []

namespace Label

abbrev Act := EStateM Fault Label

def require {α : Type} : Except Fault α → Act α
  | .ok a => pure a
  | .error e => throw e

def tell (e : Event) : Act Unit := modify fun l => { l with events := l.events ++ [e] }

def draw (act : Draw Bool) : Act Bool := do
  match act.run (← get).strokes with
  | .ok a s => modify ({ · with strokes := s }); return a
  | .error e s => modify ({ · with strokes := s }); throw e

def refresh (b : Bitmap) : Act Unit := do
  let l ← get
  if !l.text.truthy then
    tell (.text (.text ""))
    tell (.picture true)
  else
    let some scale := l.scale.quantity? | throw .wrongKind
    let some s := l.text.text? | throw .wrongKind
    if ← draw (b.render s.toList scale) then tell (.picture false) else tell (.text l.text)

def scaleLimit : Value := .int 10

/-- The scale that a size stands for: one for a small size, else its ratio to the size of the font. -/
def scaleOf (b : Bitmap) (size : Value) : Except Fault Value := do
  if ← scaleLimit.less size then
    let some q := size.quantity? | throw .wrongKind
    return .float (← if 0 < b.size then q.divided (.whole b.size) else pure 1.0)
  else return size

def setFont (name : Value) (size : Option Value) : Act Unit := do
  modify ({ · with font := name })
  match ← require ((← get).library.bitmapFor name) with
  | some b =>
    modify ({ · with bitmap := some b })
    let scale ← match size with
      | some s => require (scaleOf b s)
      | none => pure (.float 1.0)
    modify ({ · with scale := scale })
    refresh b
  | none =>
    modify fun l => { l with bitmap := none, size := size.getD l.size }
    let l ← get
    tell (.font (← require (l.library.families.familyFor name)) l.size)
  tell (.fontChanged name)

def setSize (size : Value) : Act Unit := do
  let l ← get
  match l.bitmap with
  | some b =>
    let scale ← require (scaleOf b size)
    modify ({ · with scale := scale })
    refresh b
  | none =>
    modify ({ · with size := size })
    if l.font.truthy then setFont l.font (if size.isNone then none else some size)
    else tell (.font fallback size)

def setColor (c : Option Color) : Act Unit := do
  modify ({ · with color := c })
  match (← get).bitmap, c with
  | some b, _ => refresh b
  | none, some c => tell (.style s!"color: {c.name}; background-color: transparent;")
  | none, none => throw .wrongKind

def setText (v : Value) : Act Unit := do
  modify ({ · with text := v })
  match (← get).bitmap with
  | some b => refresh b
  | none => tell (.text v)
  tell (.textChanged v)

def sizeShown (l : Label) : Value := if l.bitmap.isSome then l.scale else l.size

end Label

end WatchFace.Font
