import WatchFace.Console.Explorer
import WatchFace.Console.Panel
import WatchFace.Editor

/-!
# The consoles for the editor and the preview
-/

namespace WatchFace.Console

open Json Studio

def partNamed (j : Json) : Except Fault (Option Editor.Part) :=
  match j.text with
  | "explorer" => .ok (some .explorer)
  | "preview" => .ok (some .preview)
  | "components" => .ok (some .toolbox)
  | "attribute" => .ok (some .attributes)
  | "self" => .ok none
  | _ => .error .noEntry

def stageNamed (j : Json) : Editor.Stage :=
  match j.text with
  | "Enter" | "DragEnter" => .enter
  | "Move" | "DragMove" => .move
  | "Leave" | "DragLeave" => .leave
  | "drop" | "Drop" => .drop
  | _ => .other

def replyJson (r : Option Editor.Reply) : Json :=
  match r with
  | none => arr []
  | some .accept => strs ["acceptProposedAction"]
  | some .ignore => strs ["ignore"]

def dragOn (p : Option Editor.Part) (s : Editor.Stage) (x y : Value) (text : Option Value) :
    Editor.Act (Option Editor.Reply) := do
  match p, s with
  | some p, .enter => Editor.enter p text.isSome
  | some p, .move => return Editor.hover p text.isSome
  | some p, .leave => Editor.leave p; return none
  | some p, .drop => Editor.drop p x y text
  | none, .enter => Editor.enterBeside text.isSome
  | none, .move => return some .accept
  | none, .leave | none, .drop => Editor.finish; return none
  | _, .other => return none

def editorAct (name : String) (arg : Nat → Json) : Editor.Act Json := do
  let a := arg 0
  let b := arg 1
  let c := arg 2
  match name with
  | "com" => quiet (Editor.onStudio (offer a.value none none))
  | "pre" => quiet (Editor.onStudio (place a.value (given b) (given c)))
  | "new_id" => return int (← Editor.onStudio takeId)
  | "delete" => quiet (Editor.onStudio (freeId a.whole))
  | "event" =>
    return replyJson (← dragOn (← lift (partNamed a)) (stageNamed b) c.value (arg 3).value
      (given (arg 4)))
  | "filter" | "child_filter" =>
    Editor.watch (stageNamed b) (← lift (partNamed a)) c.whole (arg 3).whole
    return bool false
  | "layer" => Editor.onStudio do quiet (emitOn (← layerOf a.value) b.text c.value)
  | "wheel" =>
    if !b.holds then return .null
    let upward ← lift ((Value.int 0).less a.value)
    quiet (Editor.onStudio (zoom upward))
  | "key" => if a.text == "Control" then quiet (Editor.onStudio (grab b.holds)) else return .null
  | "undo_btn" => quiet (Editor.onStudio (undo reactions))
  | "redo_btn" => quiet (Editor.onStudio (redo reactions))
  | "show" => quiet (Editor.onStudio appear)
  | "resize" => quiet (Editor.onStudio resized)
  | "enter" => Editor.onStudio do
    let f ← Studio.field (← currentField a.text)
    quiet (note (.tip (if b.holds then f.description else "")))
  | "name" => Editor.onStudio do
    quiet (emit (← part Studio.items (← itemOf a.value.shown)).names b.value)
  | "tree_drop" => Editor.onStudio do
    let item ← itemOf a.value.shown
    let ref ← if b.isNull then pure none else some <$> itemOf b.value.shown
    changeExplorer fun e => { e with reference := ref }
    quiet (drop item)
  | "sort" => Editor.onStudio do
    quiet (changeExplorer fun e => { e with basis := Basis.ofValue a.value })
  | _ => Editor.onStudio (panelAct introduce name arg)

def editorJson (e : Editor) : Except Fault Json := do
  let s := e.studio
  let items := s.explorer.items.filterMap fun x => s.items[x.2]?
  let layers := s.preview.table.filterMap fun x => s.layers[x.2]?.map fun l => (x.1, l)
  let log ← listM Note.toJson (s.notes.filter fun
    | .tip _ | .script _ | .scaled _ | .grabbing _ | .fitted _ => true
    | _ => false)
  return obj (panelJson s ++
    [ ("items", list (fun i : Item => arr
        [str i.id, str i.layer, i.name.toJson, i.level.toJson]) items),
      ("layers", list (fun (id, l) => arr [id.toJson, str "textLayer", pair (l.x, l.y),
        l.depth.toJson, l.plain.toJson, l.rotation.toJson]) layers),
      ("scene", strs ("QGraphicsItem" :: s.preview.scene.map fun _ => "textLayer")),
      ("over", list (fun z => bool z.covered) e.zones.toList),
      ("drag", arr [bool e.dragging, bool e.frame.visible, ← ofRect e.frame.geometry]),
      ("log", log) ])

def editor : Console Editor := measuring editorAct fun e => do
  return ({ e with studio := { e.studio with notes := [] } }, ← editorJson e)

/-- A preview alone: the names of the items on it, and its disc, which can be missing. -/
structure Previewing where
  editor : Editor := {}
  items : List (String × Nat) := []
  disc : Float × Float × Float × Float := Studio.disc 512
  hasDisc : Bool := true
  hasHistory : Bool
  log : List Json := []

def onEditor {α : Type} (act : Editor.Act α) : EStateM Fault Previewing α := do
  match act.run (← get).editor with
  | .ok a e => modify ({ · with editor := e }); return a
  | .error f e => modify ({ · with editor := e }); throw f

def previewAct (name : String) (arg : Nat → Json) : EStateM Fault Previewing Json := do
  let a := arg 0
  let b := arg 1
  let t ← get
  let inHistory (act : Studio.Act Unit) : EStateM Fault Previewing Json :=
    if t.hasHistory then quiet (onEditor (Editor.onStudio act)) else throw .missing
  match name with
  | "push" =>
    let l := t.editor.studio.layers.length
    modify fun t => { t with items := t.items.filter (·.1 != a.text) ++ [(a.text, l)] }
    inHistory do
      modify fun s => { s with layers := s.layers ++ [{}] }
      Studio.push reactions (.addLayer l)
  | "undo" => if t.hasHistory then inHistory (Studio.undo reactions) else return .null
  | "redo" => if t.hasHistory then inHistory (Studio.redo reactions) else return .null
  | "drop" =>
    match given (arg 2) with
    | some text =>
      let pos := Value.tuple [.int (← lift a.value.toInt), .int (← lift b.value.toInt)]
      modify fun t => { t with log := t.log ++ [arr [str "summon", text.toJson, pos.toJson, int 0]] }
      return replyJson (some .accept)
    | none => return replyJson none
  | "drag" =>
    let r ← onEditor (dragOn (some .preview) (stageNamed a) (.int 0) (.int 0) (given b))
    return arr [replyJson r, opt bool (← get).editor.zones.preview.hovered]
  | "filter" =>
    let reply := match stageNamed a with
      | .move => Editor.hover .preview (given b).isSome
      | _ => none
    return arr [bool false, replyJson reply]
  | "size" =>
    if t.hasDisc then set { t with disc := Studio.disc (← lift a.value.measure) }
    return .null
  | "no_circle" => quiet (set { t with hasDisc := false })
  | "visual" => return arr [a, b, int 60, int 60]
  | "create" =>
    if t.hasHistory then inHistory (showLayer a.text [] b.value)
    else onEditor (Editor.onStudio (do let _ ← createLayer a.text []; throw .missing))
  | _ => return .null

def preview : Console Previewing := showing previewAct fun t =>
  let p := t.editor.studio.preview
  let (x, y, w, h) := t.disc
  ({ t with log := [] }, obj
    [ ("circle", list number [x, y, w, h]),
      ("scene", strs (p.scene.filterMap fun l => (t.items.find? (·.2 == l)).map (·.1))),
      ("table", list (fun e => arr [e.1.toJson, str "textLayer"]) p.table),
      ("log", arr t.log) ])

end WatchFace.Console
