import WatchFace.Console.Layer
import WatchFace.Window

/-!
# The console for the window
-/

namespace WatchFace

open Json

namespace Window

def Horizontal.name : Horizontal → String
  | .left => "left"
  | .right => "right"

def Vertical.name : Vertical → String
  | .top => "top"
  | .bottom => "bottom"

def Edge.name : Edge → String
  | .side h => h.name
  | .level v => v.name
  | .corner v h => v.name ++ "-" ++ h.name

def edges : List Edge :=
  [.side .left, .side .right, .level .top, .level .bottom, .corner .top .left, .corner .top .right,
    .corner .bottom .left, .corner .bottom .right]

def Edge.ofName? (name : String) : Option Edge := edges.find? (·.name == name)

end Window

namespace Console

open Window in
def windowAct (name : String) (arg : Nat → Json) : EStateM Fault Window Json := do
  let w ← get
  let x := (arg 0).whole
  let y := (arg 1).whole
  let gx := (arg 2).whole
  let gy := (arg 3).whole
  let left (i : Nat) : Bool := (arg i).text == "left"
  let handled (r : Window × Bool) : EStateM Fault Window Json := do
    set r.1
    return strs (if r.2 then ["accept"] else [])
  let numbers (is : List Nat) : EStateM Fault Window Unit :=
    if is.all fun i => (arg i).value.quantity?.isSome then pure () else throw .wrongKind
  match name with
  | "geometry" => quiet (set { w with geometry := ⟨x, y, gx, gy⟩ })
  | "edge" =>
    numbers [0, 1]
    return opt (fun e => str e.name) (w.edgeAt? x y)
  | "cursor" => quiet (set (w.showPointer (Edge.ofName? (arg 0).text)))
  | "press" =>
    if left 4 then numbers [0, 1]
    handled (if left 4 then w.press x y gx gy else (w, false))
  | "move" =>
    if !left 4 && !w.maximized then numbers [0, 1]
    handled (if left 4 then w.drag gx gy else (w.hover x y, false))
  | "release" => handled (if left 0 then (w.release, true) else (w, false))
  | "double" =>
    if left 2 then numbers [1]
    handled (if left 2 then w.doubleClick y else (w, false))
  | "maximize" => quiet (set w.toggleMaximized)
  | "margin" => quiet (set { w with margin := x })
  | "resize_to" => quiet (set (w.resizeTo x y))
  | "imported" => return str (importedText (arg 0).value.shown)
  | _ => return .null

def window : Console Window := measuring windowAct fun w => do
  return (w, obj
    [ ("geo", ← ofRect w.geometry), ("max", arr [bool w.maximized, str w.caption]),
      ("prev", ← optM ofRect w.restored), ("drag", bool w.grip.isSome),
      ("resize", bool w.resize.isSome), ("edge", opt (fun r => str r.edge.name) w.resize),
      ("cursor", opt (fun p => str p.name) w.pointer) ])

end Console

end WatchFace
