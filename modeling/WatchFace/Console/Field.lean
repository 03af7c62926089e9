import WatchFace.Console
import WatchFace.Json.Values
import WatchFace.Script.Completion
import WatchFace.Studio.Forms

/-!
# The console for fields
-/

namespace WatchFace

open Json

def Studio.Note.toJson : Studio.Note → Except Fault Json
  | .heard _ v => return arr [str "signal", v.toJson]
  | .picked path => return strs ["value_changed", path]
  | .tip s => return strs ["tip", s]
  | .made layer id titles =>
    return arr [str "send", str layer, id.toJson, strs (Script.sorted titles)]
  | .script title => return strs ["script", title]
  | .scaled x => return arr [str "scale", (Value.float x).toJson, (Value.float x).toJson]
  | .grabbing on => return strs ["drag_mode", if on then "ScrollHandDrag" else "RubberBandDrag"]
  | .fitted r => return arr [str "fit", ← ofRect r]

def Reading.name : Reading → String
  | .words => "str"
  | .whole => "int"
  | .number => "float"

def Field.toJson (f : Field) : List (String × Json) :=
  [ ("value", f.value.toJson), ("text", str f.text), ("convert", str f.kind.reading.name),
    ("finish", bool f.settled), ("default", f.default.toJson) ] ++
  (if f.kind.isChoice then [("combo", arr [strs f.options, int f.index])] else []) ++
  (match f.kind with
    | .flag => [("checked", f.checked.toJson)]
    | _ => [])

namespace Console

open Studio

def fieldAct (name : String) (arg : Nat → Json) : Studio.Act Json := do
  let a := arg 0
  let v := a.value
  let finish := (arg 1).holds
  match name with
  | "user" => quiet (enter reactions 0 v finish)
  | "outside" => quiet (receive reactions 0 v finish)
  | "set" => quiet (setValue reactions 0 v)
  | "process" =>
    let (accepted, v) := (← Studio.field 0).read v
    return (Value.tuple [.bool accepted, v]).toJson
  | "type" =>
    changeField 0 fun f => { f with text := v.shown }
    quiet (enter reactions 0 v false)
  | "finish" => quiet (enter reactions 0 (.text (← Studio.field 0).text) true)
  | "emit" => quiet (emit 0 v)
  | "get" => return (← Studio.field 0).value.toJson
  | "select" =>
    if (← Studio.field 0).kind.isChoice then selectOption reactions 0 a.whole
    return .null
  | "color_text" => quiet (enterColor 0 v)
  | "color_click" => quiet (pickColor 0 (Color.parse a.text))
  | "file_click" => quiet (pickFile 0 a.text)
  | "undo" => quiet (undo reactions)
  | "redo" => quiet (redo reactions)
  | "enter" => quiet (note (.tip (← Studio.field 0).description))
  | "leave" => quiet (note (.tip ""))
  | _ => return .null

def field : Console Studio := measuring fieldAct fun s => do
  match s.fields with
  | [] => return (s, .null)
  | f :: _ =>
    let log ← listM Note.toJson s.notes
    return ({ s with notes := [] }, obj (f.toJson ++ [("log", log)] ++
      if f.recorded then
        [("undo", arr [nat s.history.commands.length, nat s.history.index])] else []))

def makeObservedField (name : String) (value : Value) (description : String) (kind : Value)
    (recorded : Bool) : Studio.Act Unit := do
  let kind ← lift (Catalog.Kind.ofValue kind)
  let c ← addChannel
  connect c (.observer 0)
  let f ← makeField name value description kind c
  changeField f fun x => { x with recorded := recorded }

end Console

end WatchFace
