import WatchFace.Console.Panel
import WatchFace.Desktop
import WatchFace.Sidebar

/-!
# Consoles for the main window
-/

namespace WatchFace.Console

open Json

def desktopAct (name : String) (arg : Nat → Json) :
    EStateM Fault (Desktop × Option (Nat × Nat)) Json := do
  let on {α : Type} (act : Desktop.Act α) : EStateM Fault (Desktop × Option (Nat × Nat)) α := do
    let (d, last) ← get
    match act.run d with
    | .ok a d => set (d, last); return a
    | .error e d => set (d, last); throw e
  let a := arg 0
  match name with
  | "summon" =>
    if a.value.isKey then quiet (on (Desktop.openFace (.watch a.value))) else throw .wrongKind
  | "add_card" => quiet (on (Desktop.openFace .newWatch))
  | "script" =>
    let n ← on Desktop.shownStudio
    if let some type := given a then
      on (Desktop.onStudio n (Studio.summon Studio.introduce type none none))
    let f ← on (Desktop.onStudio n (Studio.currentField (arg 1).text))
    modify fun (d, _) => (d, some (n, f))
    quiet (on (Desktop.openScript n f))
  | "text" => quiet (on (Desktop.setText a.text))
  | "apply" => quiet (on Desktop.apply)
  | "back" => quiet (on Desktop.back)
  | "switch" =>
    if a.value.quantity?.isNone then return .null
    quiet (modify fun (d, last) => ({ d with pages := d.pages.showAt a.whole }, last))
  | "tip" => quiet (modify fun (d, last) => ({ d with tip := a.value.shown }, last))
  | _ => return .null

def pageName : Desktop.Page → String
  | .gallery => "WatchesView"
  | .face _ => "EditView"
  | .script _ => "ScriptView"

def desktop : Console (Desktop × Option (Nat × Nat)) := showing desktopAct fun (d, last) =>
  let field := last.bind fun (n, f) => d.studios[n]?.bind (·.fields[f]?)
  ((d, last), obj
    [ ("stack", strs (d.pages.stack.map pageName)),
      ("cur", opt nat d.pages.current),
      ("title", opt (fun t => str t.2.view.title) d.shownTask?),
      ("input", opt (fun f : Field => arr [str f.text, f.value.toJson]) field),
      ("keys", nat d.pages.registry.length),
      ("tip", str d.tip) ])

structure Bars where
  tip : String := ""
  button : SideButton
  gallery : Gallery := {}
  log : List Json := []

def barsAct (name : String) (arg : Nat → Json) : EStateM Fault Bars Json := do
  let a := arg 0
  let b ← get
  let say (tip : String) : EStateM Fault Bars Json := quiet (set { b with tip := tip })
  let tell (log : List Json) : EStateM Fault Bars Json := quiet (set { b with log := b.log ++ log })
  match name, a.text with
  | "bar", "enter" => say Tips.resting
  | "bar", _ => say ""
  | "tip", _ => say a.value.shown
  | "no_tip", _ => say ""
  | "check", _ => quiet (set { b with button := { b.button with checked := a.holds } })
  | "button", "enter" => say b.button.hint
  | "button", "leave" => say ""
  | "button", _ =>
    tell [strs ["icon", if b.button.checked then "coloured" else "original"],
      arr [str "toggle", int b.button.target]]
  | "add_watch", _ => quiet (set { b with gallery := b.gallery.add (arg 1).text })
  | "card", _ =>
    let c ← lift (Value.nth b.gallery.cards a.whole)
    match (arg 1).text with
    | "enter" => say Gallery.hint
    | "leave" => say ""
    | _ => tell [strs ["summon", c.name, c.face]]
  | "face", _ =>
    let i ← lift (Value.nth (List.range b.gallery.cards.length) a.whole)
    quiet (set { b with gallery := b.gallery.setFace i (arg 1).text })
  | "icon", _ => return bool a.holds
  | _, _ => return .null

def bars : Console Bars := showing barsAct fun b =>
  ({ b with log := [] }, obj
    [ ("tip", str b.tip),
      ("cards", list (fun c : Gallery.Card => strs [c.name, c.face]) b.gallery.cards),
      ("flow", nat b.gallery.places),
      ("log", arr b.log) ])

end WatchFace.Console
