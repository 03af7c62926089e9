import WatchFace.Script.View
import WatchFace.Studio.Preview

/-!
# The desktop

The gallery, the studios of watch faces, and the editors of scripts, each for a field of a studio.
-/

namespace WatchFace

namespace Desktop

inductive Page where
  | gallery
  | face (studio : Nat)
  | script (task : Nat)
  deriving Repr, DecidableEq

/-- What pages are registered under: the watch of a face, the card for a new watch, or the field of a script. -/
inductive Key where
  | gallery
  | watch (name : Value)
  | newWatch
  | field (studio field : Nat)
  deriving Repr, BEq

structure Task where
  studio : Nat
  field : Nat
  view : Script.View

end Desktop

open Desktop in
/-- The pages of the main window, the studios and scripts on them, and the tip. -/
structure Desktop where
  pages : Pages Key Page :=
    { registry := [(.gallery, .gallery)], stack := [.gallery], current := some 0 }
  studios : List Studio := []
  tasks : List Task := []
  tip : String := ""

namespace Desktop

abbrev Act := EStateM Fault Desktop

def onStudio {α : Type} (n : Nat) (act : Studio.Act α) : Act α := do
  let some s := (← get).studios[n]? | throw .missing
  let keep (s : Studio) : Act Unit := modify fun d => { d with studios := d.studios.set n s }
  match act.run s with
  | .ok a s => keep s; return a
  | .error e s => keep s; throw e

def shownStudio : Act Nat := do
  let some (.face n) := (← get).pages.shown? | throw .missing
  return n

def showUnder (key : Key) (p : Page) : Act Unit :=
  modify fun d => { d with pages := (d.pages.add p key true).1 }

def openFace (key : Key) : Act Unit := do
  let n := (← get).studios.length
  modify fun d => { d with studios := d.studios ++ [{}] }
  onStudio n Studio.openPanel
  showUnder key (.face n)

def openScript (studio field : Nat) : Act Unit := do
  let f ← onStudio studio (Studio.field field)
  let view := ({ mode := .simple, connected := true } : Script.View).edit f.name f.text
  let n := (← get).tasks.length
  modify fun d => { d with tasks := d.tasks ++ [⟨studio, field, view.1⟩] }
  showUnder (.field studio field) (.script n)

def shownTask? (d : Desktop) : Option (Nat × Task) := do
  let .script n ← d.pages.shown? | none
  return (n, ← d.tasks[n]?)

def close (n : Nat) (t : Task) : Act Unit :=
  modify fun d => { d with pages := (d.pages.remove (.script n)).showPage (.face t.studio) }

/-- What comes of an effect of a script editor: an applied script is the text of its field, and the editor goes. -/
def heed (n : Nat) (t : Task) : Script.Effect → Act Unit
  | .applied text => do
    onStudio t.studio (Studio.changeField t.field ({ · with text := text }))
    close n t
  | .wentBack => close n t
  | _ => pure ()

def setText (text : String) : Act Unit := do
  if let some (n, t) := (← get).shownTask? then
    modify fun d => { d with tasks := d.tasks.set n { t with view := (t.view.setText text).1 } }

def apply : Act Unit := do
  if let some (n, t) := (← get).shownTask? then t.view.apply.forM (heed n t)

def back : Act Unit := do
  if let some (n, t) := (← get).shownTask? then t.view.back.forM (heed n t)

end Desktop

end WatchFace
