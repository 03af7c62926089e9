import WatchFace.Json.Values
import WatchFace.Layer.Basic

/-!
# Layers in JSON
-/

namespace WatchFace.Layer

def Direction.code : Direction → String
  | .topLeft => "tl"
  | .top => "tc"
  | .topRight => "tr"
  | .left => "cl"
  | .right => "cr"
  | .bottomLeft => "bl"
  | .bottom => "bc"
  | .bottomRight => "br"

def Direction.ofCode? (s : String) : Option Direction := Direction.all.find? (·.code == s)

theorem Direction.ofCode?_code (d : Direction) : Direction.ofCode? d.code = some d := by
  cases d <;> decide

def Handle.toJson (h : Handle) : Json :=
  .arr ([.str h.direction.code, .number h.x, .number h.y] ++ match h.scale with
    | some m => [.number m.m11, .number m.m22]
    | none => [])

def Box.toJson (b : Box) : Except Fault Json := do
  return .obj
    [ ("rect", .list .number [b.x, b.y, b.width, b.height]), ("rot", ← b.rotation.toNumber),
      ("m", .opt .ofMatrix b.matrix), ("vis", .bool b.visible), ("sel", .bool b.selected),
      ("ctrl", .bool b.control), ("origin", .pair (b.originX, b.originY)) ]

/-- What is seen of a layer. A vague transform cannot be told, nor a rotation of the box that is no number. -/
def toJson (l : Layer) : Except Fault (List (String × Json)) := do
  if l.vague then throw .wrongKind
  return [ ("pos", .pair (l.x, l.y)), ("rot", l.rotation.toJson),
    ("skew", .list Value.toJson [l.skewX, l.skewY]), ("off", .pair (l.offsetX, l.offsetY)),
    ("z", l.depth.toJson), ("name", l.name.toJson), ("m", .opt .ofMatrix l.matrix),
    ("opacity", .opt .number l.opacity), ("plain", l.plain.toJson),
    ("color", .opt (fun c => .str c.name) l.color), ("font", .arr [.str l.family, .int l.size]),
    ("acc", .opt .number l.pulled), ("box", ← l.box.toJson),
    ("rh", .pair (l.box.turner.x, l.box.turner.y)), ("handles", .list Handle.toJson l.box.handles) ]

end WatchFace.Layer
