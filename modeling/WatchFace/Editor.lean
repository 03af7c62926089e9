import WatchFace.DropFrame
import WatchFace.Studio.Preview

/-!
# The editor

Explorer, preview, toolbox and attributes around one studio. While something is dragged, a frame shows where it would
go.
-/

namespace WatchFace

namespace Editor

inductive Part where
  | explorer
  | preview
  | toolbox
  | attributes
  deriving Repr, DecidableEq

structure Zone where
  covered : Bool := false
  hovered : Option Bool := none
  deriving Repr, DecidableEq

structure Zones where
  explorer : Zone := {}
  preview : Zone := {}
  toolbox : Zone := {}
  attributes : Zone := {}
  deriving Repr, DecidableEq

def Zones.change (z : Zones) (f : Zone → Zone) : Part → Zones
  | .explorer => { z with explorer := f z.explorer }
  | .preview => { z with preview := f z.preview }
  | .toolbox => { z with toolbox := f z.toolbox }
  | .attributes => { z with attributes := f z.attributes }

def Zones.cover (z : Zones) (covered : Bool) : Zones :=
  let f (x : Zone) : Zone := { x with covered := covered }
  ⟨f z.explorer, f z.preview, f z.toolbox, f z.attributes⟩

def Zones.toList (z : Zones) : List Zone := [z.explorer, z.preview, z.toolbox, z.attributes]

inductive Reply where
  | accept
  | ignore
  deriving Repr, DecidableEq

inductive Stage where
  | enter
  | move
  | leave
  | drop
  | other
  deriving Repr, DecidableEq

end Editor

open Editor in
structure Editor where
  studio : Studio := {}
  zones : Zones := {}
  dragging : Bool := false
  frame : DropFrame := {}

namespace Editor

abbrev Act := EStateM Fault Editor

def onStudio {α : Type} (act : Studio.Act α) : Act α := do
  match act.run (← get).studio with
  | .ok a s => modify ({ · with studio := s }); return a
  | .error e s => modify ({ · with studio := s }); throw e

def changeZone (p : Part) (f : Zone → Zone) : Act Unit :=
  modify fun e => { e with zones := e.zones.change f p }

def coverAll (covered : Bool) : Act Unit := modify fun e => { e with zones := e.zones.cover covered }

def enter (p : Part) (hasText : Bool) : Act (Option Reply) := do
  if !hasText then return none
  changeZone p fun _ => { covered := false, hovered := some true }
  return some .accept

def hover (p : Part) (hasText : Bool) : Option Reply :=
  match p with
  | .explorer | .toolbox => some .accept
  | .preview => some (if hasText then .accept else .ignore)
  | .attributes => if hasText then some .accept else none

def leave (p : Part) : Act Unit := changeZone p fun _ => { covered := true, hovered := some false }

/-- Something is dropped on a part: an item on the explorer, a component on the preview, at whole coordinates, or on the
    attributes. -/
def drop (p : Part) (x y : Value) (text : Option Value) : Act (Option Reply) := do
  let uncover : Act Unit := changeZone p fun z => { z with covered := false }
  match p with
  | .explorer =>
    match text with
    | some t => onStudio (Studio.dropText t)
    | none => pure ()
    uncover
    return none
  | .preview =>
    match text with
    | some t =>
      onStudio do
        let pos := Value.tuple [.int (← Studio.require x.toInt), .int (← Studio.require y.toInt)]
        Studio.calmly (Studio.place t (some pos) (some (.int 0)))
      uncover
      return some .accept
    | none =>
      uncover
      return none
  | .toolbox =>
    uncover
    return none
  | .attributes =>
    onStudio (Studio.dropName (text.getD .none))
    return some .ignore

def finish : Act Unit := do
  modify ({ · with dragging := false })
  coverAll false
  modify fun e => { e with frame := e.frame.hide }

def begin : Act Unit := do
  if !(← get).dragging then
    modify ({ · with dragging := true })
    coverAll true

def enterBeside (hasText : Bool) : Act (Option Reply) := do
  if !hasText then return none
  begin
  return some .accept

def markOn (p : Part) (x y : Int) : Act ((Int × Int) × (Int × Int)) :=
  match p with
  | .explorer => onStudio (Studio.markDrop {} x y)
  | .preview | .toolbox => return ((x, y), (60, 60))
  | .attributes => return ((50, 50), (100, 100))

def room : Rect := ⟨0, 0, 100, 100⟩

def watch (s : Stage) (target : Option Part) (x y : Int) : Act Unit := do
  let cover (covered : Bool) : Act Unit :=
    match target with
    | some p => changeZone p fun z => { z with covered := covered }
    | none => pure ()
  match s with
  | .enter =>
    begin
    cover false
  | .move =>
    let some p := target | throw .wrongKind
    let (pos, size) ← markOn p x y
    modify fun e => { e with frame := (e.frame.change pos.1 pos.2 size.1 size.2).1 }
  | .leave => if !room.contains x y then cover true
  | .drop => finish
  | .other => pure ()

end Editor

end WatchFace
