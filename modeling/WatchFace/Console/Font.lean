import WatchFace.Console
import WatchFace.Font.Label
import WatchFace.Json.Values
import WatchFace.Script.Completion

/-!
# Consoles for fonts
-/

namespace WatchFace

open Json

namespace Font

def Glyph.toJson (g : Glyph) : Json :=
  list int [g.id, g.x, g.y, g.width, g.height, g.xOffset, g.yOffset, g.advance, g.page, g.channel]

def Bitmap.toJson (b : Bitmap) : Json :=
  obj [ ("face", str b.face), ("size", int b.size), ("bold", bool b.bold), ("italic", bool b.italic),
    ("common", list int [b.lineHeight, b.base, b.pageWidth, b.pageHeight]),
    ("pages", list int (b.pages.mergeSort (· ≤ ·))), ("chars", list Glyph.toJson b.glyphs),
    ("kernings", list (fun k => list int [k.1.1, k.1.2, k.2]) b.kernings) ]

def Stroke.toJson (s : Stroke) : Except Fault Json := do
  return arr [str "pixmap", ← ofRect s.target, ← ofRect s.source]

def Label.Event.toJson : Label.Event → Json
  | .font family size => arr [str "set_font", str family, size.toJson]
  | .text v => arr [str "set_text", v.toJson]
  | .style sheet => strs ["style", sheet]
  | .picture isEmpty => arr [str "pixmap", bool isEmpty]
  | .textChanged v => arr [str "text_changed", v.toJson]
  | .fontChanged name => arr [str "font_changed", name.toJson]

end Font

namespace Console

open Font

def charKey (v : Value) : Except Fault Value :=
  match v with
  | .text s =>
    match s.toList with
    | [c] => .ok (.int (code c))
    | _ => .error .wrongKind
  | v => if v.isKey then .ok v else .error .wrongKind

def scaleGiven (j : Json) : Except Fault Number.Quantity :=
  match j.value.quantity? with
  | some q => .ok q
  | none => .error .wrongKind

def pointOf (j : Json) : Color :=
  { red := (j.nth 0).whole, green := (j.nth 1).whole, blue := (j.nth 2).whole
    alpha := (j.nth 3).whole }

def ofPoint (c : Color) : Json := list int [c.red, c.green, c.blue, c.alpha]

def bitmapAct (name : String) (arg : Nat → Json) : EStateM Fault Bitmap Json := do
  let b ← get
  let x := arg 0
  let y := arg 1
  let line : EStateM Fault Bitmap (List Char) :=
    match x with
    | .str s => pure s.toList
    | _ => throw .wrongKind
  match name with
  | "measure" =>
    if !x.value.truthy then return (Value.tuple [.int 0, .int 0]).toJson
    let (w, h) ← lift (b.measure (← line) (← lift (scaleGiven y)))
    return (Value.tuple [.int w, .int h]).toJson
  | "kerning" =>
    let first ← lift (charKey x.value)
    let second ← lift (charKey y.value)
    return int ((b.kernings.find? fun k => .int k.1.1 == first && .int k.1.2 == second).elim 0 (·.2))
  | "char" =>
    let key ← lift (charKey x.value)
    return opt Glyph.toJson (b.glyphs.find? fun g => .int g.id == key)
  | "render" =>
    if !x.value.truthy || b.pages.isEmpty then return obj [("null", bool true), ("draw", arr [])]
    match (b.render (← line) (← lift (scaleGiven y))).run [] with
    | .ok shown strokes =>
      return obj [("null", bool !shown), ("draw", ← lift (listM Stroke.toJson strokes))]
    | .error e _ => throw e
  | "colorize" =>
    let same := (arg 2).holds
    let tint (p : Json) : Json := if same then p else ofPoint ((pointOf y).tint (pointOf p))
    return obj [("pixels", list (fun row => list tint row.items) x.items), ("same", bool same)]
  | "value" =>
    return opt (fun v => str (String.ofList v)) (valueOf? y.value.shown.toList (← line))
  | "int" => return ((int? (← line) y.value.shown).map int).getD (arg 2)
  | _ => return .null

def bitmap : Console Bitmap := ⟨fun c => bitmapAct c.name c.arg, fun b => .ok (b, [])⟩

def namesInOrder (names : List String) : Json := strs (Script.sorted names.eraseDups)

def libraryAct (withBitmaps : Bool) (name : String) (arg : Nat → Json) :
    EStateM Fault Library Json := do
  let l ← get
  let font (size : Json) : EStateM Fault Library Json := do
    return arr [str (← lift (l.families.familyFor (arg 0).value)), size]
  match name with
  | "family" => return opt str (← lift (l.families.family? (arg 0).value))
  | "available" =>
    return if withBitmaps then namesInOrder (l.families.names ++ l.bitmapNames)
      else strs l.families.names
  | "font" => font (arg 1)
  | "font_default" => font (nat 12)
  | "same" => return bool true
  | "bitmap_font" =>
    return opt (fun b => arr [str b.face, int b.size]) (← lift (l.bitmapFor (arg 0).value))
  | "is_bitmap" => return bool (← lift (l.bitmapFor (arg 0).value)).isSome
  | "ttf" => return namesInOrder l.families.names
  | "bitmap" => return namesInOrder l.bitmapNames
  | _ => return .null

def library (withBitmaps : Bool) : Console Library :=
  showing (libraryAct withBitmaps) fun l => (l, .null)

def labelAct (name : String) (arg : Nat → Json) : Label.Act Json := do
  let a := arg 0
  match name with
  | "font" =>
    let size := (arg 1).value
    quiet (Label.setFont a.value (if size.isNone then none else some size))
  | "size" => quiet (Label.setSize a.value)
  | "color" =>
    match a with
    | .str s => quiet (Label.setColor (Color.parse s))
    | .arr xs => quiet (Label.setColor (Color.ofParts? (xs.map value)))
    | _ => return .null
  | "text" => quiet (Label.setText a.value)
  | _ => return .null

def label : Console Label := measuring labelAct fun l => do
  let some color := l.color | throw .wrongKind
  return ({ l with strokes := [], events := [] }, obj
    [ ("text", l.text.toJson), ("font", l.font.toJson), ("size", l.sizeShown.toJson),
      ("color", str color.name), ("bitmap", bool l.bitmap.isSome),
      ("draw", ← listM Stroke.toJson l.strokes), ("log", list Label.Event.toJson l.events) ])

def fontLists (l : Library) : Json :=
  arr [namesInOrder (l.families.names ++ l.bitmapNames), namesInOrder l.families.names,
    namesInOrder l.bitmapNames]

end Console

end WatchFace
