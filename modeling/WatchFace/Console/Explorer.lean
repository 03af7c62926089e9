import WatchFace.Console
import WatchFace.Json.Values
import WatchFace.Studio.Items

/-!
# The console for the explorer
-/

namespace WatchFace

open Json

def Studio.Item.toJson (i : Studio.Item) : Json :=
  arr [str i.id, i.name.toJson, i.level.toJson, i.shown.toJson, str (Studio.shortLayer i.layer),
    nat (if i.isGroup then 1001 else 1000)]

namespace Console

open Studio

/-- An explorer with observers: channels and observers by given ids, and the tree on the screen. -/
structure Exploring where
  studio : Studio := {}
  channels : List (Value × Nat × Nat) := []
  observers : List (String × Json) := []
  tree : TreeView := {}

def onStudio {α : Type} (act : Studio.Act α) : EStateM Fault Exploring α := do
  match act.run (← get).studio with
  | .ok a s => modify ({ · with studio := s }); return a
  | .error e s => modify ({ · with studio := s }); throw e

def wholeDouble (n : Int) : Json := num (toString n ++ ".0")

def point (p : Int × Int) : Json := list int [p.1, p.2]

def explorerAct (name : String) (arg : Nat → Json) : EStateM Fault Exploring Json := do
  let t ← get
  let a := arg 0
  let b := arg 1
  let c := arg 2
  let item (j : Json) : Studio.Act Nat := itemOf j.value.shown
  let channels (j : Json) : EStateM Fault Exploring (Nat × Nat) := do
    if !j.value.isKey then throw .wrongKind
    let some e := t.channels.find? (·.1 == j.value) | throw .noEntry
    return e.2
  let numberOf (j : Json) : Nat := (t.studio.explorer.items.lookup j.value.shown).getD 1000000
  let idOf (i : Nat) : Json := str ((t.studio.items[i]?.map (·.id)).getD "")
  let refer : Studio.Act Unit := do
    let ref ← if b.isNull then pure none else some <$> item b
    changeExplorer fun e => { e with reference := ref }
  match name with
  | "add" =>
    let (names, levels) ← onStudio do
      let names ← addChannel
      let levels ← addChannel
      for e in c.items do
        let some ch := [("Name", names), ("Layer", levels)].lookup (e.nth 0).text | throw .noEntry
        emit ch (e.nth 1).value
      return (names, levels)
    let n := t.observers.length
    modify fun t => { t with
      channels := t.channels.filter (fun e => !(e.1 == b.value)) ++ [(b.value, names, levels)]
      observers := t.observers ++ [("name", b), ("layer", b)] }
    onStudio do
      let some layer := a.text? | throw .wrongKind
      let _ ← addItem layer [("Name", names), ("Layer", levels)] b.value
      connect names (.observer n)
      quiet (connect levels (.observer (n + 1)))
  | "name" => let (names, _) ← channels a; onStudio (quiet (emit names b.value))
  | "layer" => let (_, levels) ← channels a; onStudio (quiet (emit levels b.value))
  | "rename" => onStudio do
    let i ← item a
    if c.holds then quiet (rename reactions i b.value) else quiet (settleName reactions i b.value)
  | "z" => onStudio do quiet (setLevel reactions (← item a) b.value)
  | "claim" => onStudio do quiet (claimName reactions (← item a) b.value c.value)
  | "sort" => onStudio do quiet (changeExplorer fun e => { e with basis := Basis.ofValue a.value })
  | "lt" => onStudio do
    let x ← part Studio.items (← item a)
    let y ← part Studio.items (← item b)
    return bool (← lift (x.below (← get).explorer.basis y))
  | "order" => onStudio do
    let ids ← (← ordered).mapM fun i => do
      lift (Value.text (← part Studio.items i).id).toInt
    return list int ids
  | "drop" => onStudio do refer; quiet (drop (← item a))
  | "drop_text" => onStudio do
    refer
    if c.isNull then return .null else quiet (dropText c.value)
  | "visual" =>
    let tree : TreeView :=
      { t.tree with
        places := c.items.map fun e => ((e.nth 0).rect, numberOf (e.nth 1))
        top := (arg 3).items.map numberOf }
    modify ({ · with tree := tree })
    onStudio do
      let (pos, size) ← markDrop tree a.whole b.whole
      return arr [wholeDouble pos.1, wholeDouble pos.2, int size.1, int size.2,
        opt idOf (← get).explorer.reference]
  | "mouse" => onStudio do
    if b.isNull then return .null
    let i ← item b
    let y := (arg 3).whole
    let left := (arg 4).text == "left"
    changeItem i fun it =>
      { it with gesture := match a.text with
          | "Press" => it.gesture.press c.whole y left
          | "Move" => (it.gesture.move c.whole y left).1
          | _ => it.gesture.release.1 }
    let g := (← part Studio.items i).gesture
    return arr [opt point g.start, bool g.dragged]
  | "last" =>
    let nested := b.items.map fun e =>
      (numberOf (e.nth 0), (e.nth 1).items.map numberOf, (e.nth 2).holds)
    let kept := t.tree.nested.filter fun e => !nested.any (·.1 == e.1)
    let tree := { t.tree with top := a.items.map numberOf, nested := nested ++ kept }
    modify ({ · with tree := tree })
    return opt idOf tree.last?
  | _ => return .null

def explorer : Console Exploring := showing explorerAct fun t =>
  let s := t.studio
  let items := s.explorer.items.filterMap fun e => s.items[e.2]?.map Item.toJson
  let log := s.notes.filterMap fun
    | .heard n v => t.observers[n]?.map fun (what, id) => arr [str what, id, v.toJson]
    | _ => none
  ({ t with studio := { s with notes := [] } }, obj
    [ ("names", list Value.toJson s.explorer.names), ("basis", s.explorer.basis.toValue.toJson),
      ("items", arr items), ("log", arr log) ])

end Console

end WatchFace
