import WatchFace.Console
import WatchFace.DropFrame
import WatchFace.Json.Values
import WatchFace.RoundButton
import WatchFace.Toolbox
import WatchFace.Workspace

/-!
# Consoles for layouts, drags and pages
-/

namespace WatchFace

open Json

namespace Console

def flow : Console (Flow × Nat) := measuring
  (fun name arg => do
    let (f, n) ← get
    let a := (arg 0).whole
    let number (i : Option Flow.Item) : Json := opt (fun i => nat i.number) i
    let position (f : Flow) : EStateM Fault (Flow × Nat) Int :=
      match (arg 0).value.quantity? with
      | some (.whole i) => pure i
      | some (.double x) =>
        if 0 ≤ x && x < f.items.length.toFloat then throw .wrongKind else pure (-1)
      | none => throw .wrongKind
    match name with
    | "add" => quiet (set (f.add { number := n, width := a, height := (arg 1).whole }, n + 1))
    | "height" =>
      let (f, h) := f.measure a
      set (f, n)
      return int h
    | "min" | "hint" => return list int [f.least.1, f.least.2]
    | "count" => return nat f.items.length
    | "has" => return bool true
    | "at" => return number (f.at? (← position f))
    | "take" =>
      let (f, i) := f.take? (← position f)
      set (f, n)
      return number i
    | _ => quiet (set (f.arrange (list arg (List.range 4)).rect, n)))
  fun (f, n) => do
    let items ← f.items.mapM fun i => do return arr [nat i.number, ← optM ofRect i.place]
    return ((f, n), obj [("h", int f.height), ("items", arr items)])

def glideJson : DropFrame.Event → Except Fault (List Json)
  | .stop => .ok [strs ["stop"]]
  | .glide a b => do
    return [arr [str "from", ← ofRect a], arr [str "to", ← ofRect b], strs ["start"]]

def dropFrame : Console (DropFrame × List DropFrame.Event) := measuring
  (fun name arg => do
    let (f, _) ← get
    let a (i : Nat) : Int := (arg i).whole
    let numbers := (List.range 4).all fun i => (arg i).value.quantity?.isSome
    let still (f : DropFrame) := quiet (set (f, ([] : List DropFrame.Event)))
    match name with
    | "change" =>
      if numbers then quiet (set (f.change (a 0) (a 1) (a 2) (a 3))) else throw .wrongKind
    | "hide" => still f.hide
    | _ => still { f with gliding := (arg 0).holds })
  fun (f, log) => do
    return ((f, []), obj
      [ ("geo", ← ofRect f.geometry), ("vis", bool f.visible), ("last", ← optM ofRect f.target),
        ("anim", bool false), ("log", arr (← log.mapM glideJson).flatten) ])

def gesture (handled : Bool) (carried : Except Fault Json) : Console (Gesture × List Gesture.Event) :=
  let called (s : String) : List Json := if handled then [strs [s]] else []
  let eventJson : Gesture.Event → List Json
    | .pressed => called "press"
    | .moved => called "move"
    | .released => called "release"
    | .carried => [arr [str "mime", carried.toOption.getD null], strs ["drag"]]
  showing
    (fun name arg => do
      let (g, _) ← get
      let x := (arg 0).whole
      let y := (arg 1).whole
      let left := (arg 2).text == "left"
      match name with
      | "press" => quiet (set (g.press x y left, ([] : List Gesture.Event)))
      | "move" =>
        let (moved, events) := g.move x y left
        if events.contains .carried then
          set (g, [Gesture.Event.moved])
          let _ ← lift carried
        quiet (set (moved, events))
      | _ => quiet (set g.release))
    fun (g, log) => ((g, []), obj
      [ ("start", opt (fun p => list int [p.1, p.2]) g.start), ("draged", bool g.dragged),
        ("log", arr (log.flatMap eventJson)) ])

/-- Pages named by texts, with the commands that were carried out or taken back last. -/
abbrev Paging := Workspace Value String String × List Json

def pages (kept : Bool) : Console Paging := showing
  (fun name arg => do
    let (w, _) ← get
    let a := arg 0
    let b := arg 1
    let c := arg 2
    let still (w : Workspace Value String String) : EStateM Fault Paging Unit := set ((w, []) : Paging)
    let on (p : Pages Value String) := quiet (still { w with pages := p })
    let log (what : String) (name : Option String) : List Json :=
      name.toList.map fun n => strs [what, n]
    let position (j : Json) : EStateM Fault Paging Int :=
      if j.value.quantity?.isSome then pure j.whole else throw .wrongKind
    let key (j : Json) : EStateM Fault Paging Value :=
      if j.value.isKey then pure j.value else throw .wrongKind
    let property (p : Workspace.Property) : Json :=
      obj [("obj", str (match p with
        | .operation => "method"
        | .placeholder => "_Anything"))]
    match name with
    | "add" =>
      if kept then
        let (w, r) := w.add a.text (← key b) c.holds
        still w
        return nat (if ← lift r then 1 else 0)
      else
        let (p, target) := w.pages.add a.text (← key b) c.holds
        still { w with pages := p }
        return nat (match target with
          | .existing _ => 1
          | .fresh _ => 0)
    | "insert" =>
      let k ← key c
      still { w with pages := w.pages.claim b.text k }
      on (w.pages.insert (← position a) b.text k (arg 3).holds)
    | "remove" => on (w.pages.remove a.text)
    | "remove_key" => on (← lift (w.pages.unregister (← key a)))
    | "find" => return match w.pages.find? (← key a) with
      | some p => str p
      | none => bool false
    | "index" => on (w.pages.showAt (← position a))
    | "current" => on (w.pages.showPage a.text)
    | "push" => if kept then quiet (set (w.push a.text, log "redo" (some a.text))) else return .null
    | "undo" =>
      let (w, r) := w.undo
      quiet (set (w, log "undo" r))
    | "redo" =>
      let (w, r) := w.redo
      quiet (set (w, log "redo" r))
    | "activate" =>
      let k ← key a
      if kept then quiet (do still (← lift (w.activate k))) else throw .wrongKind
    | _ =>
      if a.text?.isNone then throw (if kept then .wrongKind else .missing)
      else if kept then return property (← lift (Workspace.property a.text))
      else if a.text.startsWith "_" then throw .missing
      else return property .placeholder)
  fun (w, log) => ((w, []), obj
    ([ ("keys", list (fun (k, p) => arr [k.toJson, str p]) w.pages.registry),
       ("stack", strs w.pages.stack),
       ("cur", int (match w.pages.current with
         | some i => (i : Int)
         | none => -1)),
       ("widget", opt str w.pages.shown?), ("log", arr log) ] ++
     if kept then
       [ ("active", list (fun e => e.1.toJson) (w.owner.filter fun e => w.active == some e.2)),
         ("undo", list (fun (k, i) =>
           let h := w.histories[i]?.getD {}
           arr [k.toJson, nat h.commands.length, nat h.index]) w.owner) ]
     else []))

end Console

def RoundButton.toJson (b : RoundButton) : Except Fault Json := do
  let color (c : Option Color) : Json := opt (fun c => str c.name) c
  let strokes ← (← b.paint).mapM fun
    | .brush c => pure (arr [str "brush", color c])
    | .pen c => pure (arr [str "pen", color c])
    | .ellipse r => do return arr [str "ellipse", ← ofRect r]
    | .text w h s => do
      return arr [str "text", arr [nat 0, nat 0, number (← w.toFloat), number (← h.toFloat)], str s]
  return arr strokes

end WatchFace
