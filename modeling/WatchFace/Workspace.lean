import WatchFace.History
import WatchFace.Pages

/-!
# Workspaces

A stack of pages with a history for each key. One history is active: it takes the commands, and undoing and redoing work
on it.
-/

namespace WatchFace

/-- Pages with histories of commands of type `c`. `owner` gives the number of the history of each
    key; a key keeps it when its page goes. -/
structure Workspace (κ π c : Type) where
  pages : Pages κ π := {}
  histories : List (History c) := []
  owner : List (κ × Nat) := []
  active : Option Nat := none
  deriving Repr, Inhabited

namespace Workspace

variable {κ π c : Type} [BEq κ] [BEq π]

def historyOf? (w : Workspace κ π c) (key : κ) : Option Nat := w.owner.lookup key

def activate (w : Workspace κ π c) (key : κ) : Except Fault (Workspace κ π c) :=
  match w.historyOf? key with
  | some i => .ok { w with active := some i }
  | none => .error .noEntry

def openHistory (w : Workspace κ π c) (key : κ) : Workspace κ π c :=
  let n := w.histories.length
  let owner := if w.owner.any (·.1 == key) then w.owner.map fun e => if e.1 == key then (e.1, n) else e
    else w.owner ++ [(key, n)]
  { w with histories := w.histories ++ [{}], owner := owner }

/-- Adds a page under a key, with a new history if the key was free. That history becomes active if the page is shown or
    the key was taken, which the second part tells. -/
def add (w : Workspace κ π c) (p : π) (key : κ) (switch : Bool) :
    Workspace κ π c × Except Fault Bool :=
  let (pages, target) := w.pages.add p key switch
  let w := { w with pages := pages }
  let enter (w : Workspace κ π c) (taken : Bool) :=
    match w.activate key with
    | .ok w => (w, Except.ok taken)
    | .error e => (w, Except.error e)
  match target with
  | .existing _ => enter w true
  | .fresh _ => if switch then enter (w.openHistory key) false else (w.openHistory key, .ok false)

/-- The number of the history that takes commands: the active one, or else the first. -/
def target? (w : Workspace κ π c) : Option Nat :=
  w.active.orElse fun _ => if w.histories.isEmpty then none else some 0

def push (w : Workspace κ π c) (cmd : c) : Workspace κ π c :=
  match w.target? with
  | some i => { w with histories := w.histories.modify i (·.push cmd) }
  | none => w

def undo (w : Workspace κ π c) : Workspace κ π c × Option c :=
  match w.target?.bind fun i => (w.histories[i]?.bind (·.undo?)).map fun r => (i, r) with
  | some (i, h, cmd) => ({ w with histories := w.histories.set i h }, some cmd)
  | none => (w, none)

def redo (w : Workspace κ π c) : Workspace κ π c × Option c :=
  match w.target?.bind fun i => (w.histories[i]?.bind (·.redo?)).map fun r => (i, r) with
  | some (i, h, cmd) => ({ w with histories := w.histories.set i h }, some cmd)
  | none => (w, none)

/-- What a workspace answers for a name: an operation of its active history, or a placeholder. -/
inductive Property where
  | operation
  | placeholder
  deriving Repr, DecidableEq

def operations : List String :=
  ["push", "undo", "redo", "beginMacro", "endMacro", "setUndoLimit"]

def property (name : String) : Except Fault Property :=
  if name.startsWith "_" then .error (.unknownProperty name)
  else .ok (if operations.contains name then .operation else .placeholder)

end Workspace

end WatchFace
