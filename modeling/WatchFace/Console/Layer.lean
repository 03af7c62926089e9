import WatchFace.Console
import WatchFace.Layer.Snapshot
import WatchFace.Studio.Drag

/-!
# The console for layers
-/

namespace WatchFace

open Json

def Pointer.name : Pointer → String
  | .arrow => "ArrowCursor"
  | .horizontal => "SizeHorCursor"
  | .vertical => "SizeVerCursor"
  | .falling => "SizeFDiagCursor"
  | .rising => "SizeBDiagCursor"

namespace Console

open Studio

def handleOf (j : Json) : Studio.Act Layer.Direction := do
  let some d := Layer.Direction.ofCode? j.text | throw .noEntry
  return d

def accepted (yes : Bool) : Json := strs (if yes then ["accept"] else [])

def layerAct (name : String) (arg : Nat → Json) : Studio.Act Json := do
  let a := arg 0
  let b := arg 1
  let x := a.double
  let y := b.double
  let v := a.value
  let on (act : Layer.Act Unit) : Studio.Act Json := quiet (onLayer 0 act)
  let box (f : Layer.Box → Layer.Box) : Studio.Act Json := on (Layer.changeBox f)
  let apply (p : Layer.Part) : Studio.Act Json := do on (Layer.apply (← get).families p v)
  match name with
  | "emit" => quiet (emitOn 0 a.text b.value)
  | "align" => apply .alignment
  | "color" => apply .color
  | "text_size" => apply .size
  | "font" => apply .font
  | "text" => apply .text
  | "display" => apply .display
  | "move" => quiet (moveTo 0 v b.value)
  | "move_point" => quiet (movePointTo 0 (Value.ofPlainJson a) (Value.ofPlainJson b))
  | "turn" => quiet (turnTo 0 v)
  | "pull" => quiet (pullHandle 0 (Layer.Direction.ofCode? a.text) y (arg 2).double)
  | "resize" => on (modify fun l => { l with width := x, height := y })
  | "rename" => on (modify fun l => { l with name := v })
  | "transform" => on Layer.settle
  | "transform_bare" => on Layer.settleBare
  | "fit" => on Layer.fit
  | "change" =>
    match a.text with
    | "selected" => onLayer 0 (Layer.select b.value.truthy)
    | "scene" => throw .missing
    | _ => pure ()
    return b.value.toJson
  | "box_change" =>
    if a.text == "visible" && b.value.truthy then onLayer 0 Layer.fit
    return b.value.toJson
  | "box_press" | "rotate_press" => box fun b => { b with selected := true }
  | "box_release" => box fun b => { b with selected := false }
  | "box_move" => quiet (dragBox 0 x y)
  | "key" =>
    if b.text == "Control" then box fun b => { b with control := a.text == "Press" }
    else return .null
  | "view" => box fun b => { b with view := some a.matrix }
  | "no_view" => box fun b => { b with view := none }
  | "box_matrix" => box fun b => { b with frame := a.matrix }
  | "update_handles" => box Layer.Box.resizeHandles
  | "handle_press" =>
    let d ← handleOf a
    let left := (arg 3).text == "left"
    if left then pressHandle 0 d y (arg 2).double
    return accepted left
  | "handle_move" => return accepted (← dragHandle 0 (← handleOf a) y (arg 2).double)
  | "handle_release" =>
    let d ← handleOf a
    let left := b.text == "left"
    if left then releaseHandle 0 d
    return accepted left
  | "hover" =>
    let d ← handleOf a
    onLayer 0 (Layer.changeBox fun box => box.changeHandle d fun h =>
      { h with pointer := if b.text == "Leave" then none else some (h.pointerOver box.frame) })
    return opt (fun p => str p.name) (((← part Studio.layers 0).box.handle? d).bind (·.pointer))
  | "rotate_move" =>
    let s ← dragTurner 0 x y
    return arr [number s.turn.radius, number s.turn.angle, ← lift s.turn.rotation.toNumber,
      int s.start, int s.span, nat 1]
  | "rotate_release" =>
    releaseTurner 0
    let turner := (← part Studio.layers 0).box.turner
    return arr [.null, .null, bool true, nat (if turner.sector then 1 else 0)]
  | "rotate_pos" => box fun box => box.placeTurner x y
  | "origin" => box fun box => { box with originX := x, originY := y }
  | "raw_size" => on (modify fun l => { l with size := a.whole })
  | "box_scale" =>
    let _ ← lift (pointsOf 5.0 (if a.isNull then none else some x))
    return .null
  | "scene_change" => return arr [bool true]
  | _ => return .null

def layer (observers : List String) : Console Studio := measuring layerAct fun s => do
  let seen ← (s.layers.headD {}).toJson
  return ({ s with notes := [] }, obj (seen ++ [("log", arr (s.notes.filterMap fun
    | .heard n v => some (arr [str (observers.getD n ""), v.toJson])
    | _ => none))]))

def layerAttributes : List String :=
  ["Name", "Layer", "X", "Y", "Rotation", "Skew X", "Skew Y", "Opacity", "Display", "Text", "Font",
   "Text size", "Color", "Alignment"]

def makeObserved (attributes : List String) (values : List (String × Value)) (width height : Float) :
    Studio.Act Unit := do
  let channels ← attributes.mapM fun k => do return (k, ← addChannel)
  for (k, v) in values do
    let some c := channels.lookup k | throw .noEntry
    emit c v
  let l ← makeLayer channels
  onLayer l (modify fun x => { x with width := width, height := height })
  for ((_, c), n) in channels.zipIdx do
    connect c (.observer n)
  modify fun s => { s with notes := [] }

end Console

end WatchFace
