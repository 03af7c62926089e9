import WatchFace.Console
import WatchFace.Json.Values
import WatchFace.Layer.Sketch
import WatchFace.Scene

/-!
# Consoles for sketches and scenes
-/

namespace WatchFace

open Json

def Sketch.Outline.toJson : Sketch.Outline → Json
  | .none => strs ["NoPen"]
  | .line c w dashed =>
    arr ([str c.name, nat w] ++ if dashed then [str "DashLine"] else [])

def Sketch.Fill.toJson : Sketch.Fill → Json
  | .none => str "NoBrush"
  | .solid c => strs [c.name]

def Sketch.toJson (s : Sketch) : List (String × Json) :=
  [ ("rect", list number [s.x, s.y, s.width, s.height]),
    ("pen", opt Outline.toJson s.outline), ("brush", opt Fill.toJson s.fill),
    ("text", opt Value.toJson s.text) ]

namespace Console

def picture : Console Picture := showing (fun name arg => do
  match name with
  | "align" =>
    let .text s := (arg 0).value | throw .missing
    modify (·.align s)
    throw .wrongKind
  | _ => return ofMatrix (← get).shift) fun p =>
    (p, list number [p.offsetX, p.offsetY])

def isFollower (name : String) : Bool := !name.startsWith "item"

def scene : Console (Scene String × List String) := showing (fun name arg => do
  let (s, told) ← get
  let item := (arg 0).text
  match name with
  | "add" => quiet (set (s.add item, told))
  | "remove" => quiet (set (s.remove item, told))
  | _ => quiet (set (s, told ++ s.followers isFollower))) fun (s, told) =>
    ((s, []), obj [("heard", strs told), ("items", strs s.items)])

end Console

end WatchFace
