import WatchFace.Channel
import WatchFace.Field
import WatchFace.Gesture
import WatchFace.History
import WatchFace.Layer.Basic
import WatchFace.Pages

/-!
# The studio

Forms with fields, layers on the preview and items of the explorer, joined by channels that carry the values of
attributes. Parts refer to each other by number.
-/

namespace WatchFace

namespace Studio

inductive Listener where
  /-- A field, which takes over the value. -/
  | field (f : Nat)
  /-- The button of a nested form, which shows the value. -/
  | caption (f : Nat)
  | layer (l : Nat) (part : Layer.Part)
  /-- An item, whose place in the stacking order is the value. -/
  | level (item : Nat)
  /-- An item, whose name is the value. -/
  | title (item : Nat)
  /-- An observer, for whom the value is noted down. -/
  | observer (n : Nat)
  deriving Repr, DecidableEq

inductive Command where
  | change (field : Nat) (new old : Value)
  /-- A form was added; it is `cancelled` once undone. -/
  | addForm (form : Nat) (key : Value) (switch : Bool) (cancelled : Bool)
  | addLayer (layer : Nat)
  deriving Repr

inductive Note where
  | heard (observer : Nat) (v : Value)
  | picked (path : String)
  | tip (text : String)
  | made (layer : String) (id : Value) (titles : List String)
  | script (title : String)
  | scaled (factor : Float)
  | grabbing (on : Bool)
  | fitted (r : Rect)
  deriving Repr

/-- A form: the fields of a component by title, and its nested form; `opens` is the page of its button. -/
structure Form where
  layer : String
  fields : List (String × Nat) := []
  child : Option Nat := none
  opens : Option Value := none
  deriving Repr

/-- An item of the explorer. `shown` is the name in the tree. -/
structure Item where
  id : String
  layer : String
  levels : Nat
  names : Nat
  level : Value := .int 0
  name : Value := .none
  shown : Value := .none
  gesture : Gesture := {}
  deriving Repr

def groupLayer : String := "group"

def Item.isGroup (i : Item) : Bool := i.layer == groupLayer

/-- A place to go back to: a form, the empty panel, or a form that was asked for and not there. -/
inductive Place where
  | form (n : Nat)
  | empty
  | absent
  deriving Repr, DecidableEq

def Place.ofShown : Option Nat → Place
  | some n => .form n
  | none => .empty

def Place.ofFound : Option Nat → Place
  | some n => .form n
  | none => .absent

/-- The pages of forms. `opened` are the places where one was, the last one last; to those `deleted` there is no way
    back; `ids` are to be given out. -/
structure Panel where
  pages : Pages Value Nat := {}
  opened : List Place := []
  deleted : List Place := []
  ids : List Int := [2]
  deriving Repr

/-- What the explorer sorts by: the place in the stacking order, the name or the type of layer. Any other basis stands
    for the name. -/
inductive Basis where
  | level
  | name
  | layer
  | other (v : Value)
  deriving Repr

def Basis.toValue : Basis → Value
  | .level => .text "layer"
  | .name => .text "name"
  | .layer => .text "type"
  | .other v => v

def Basis.ofValue : Value → Basis
  | .text "layer" => .level
  | .text "name" => .name
  | .text "type" => .layer
  | v => .other v

theorem Basis.toValue_ofValue (v : Value) : (Basis.ofValue v).toValue = v := by
  unfold Basis.ofValue
  split <;> rfl

/-- The tree of items, by id. `names` are those in use; something is dropped at the item `reference`. -/
structure Explorer where
  items : List (String × Nat) := []
  names : List Value := []
  basis : Basis := .level
  reference : Option Nat := none
  deriving Repr

structure Preview where
  scene : List Nat := []
  table : List (Value × Nat) := []
  deriving Repr

end Studio

open Studio in
structure Studio where
  families : Font.Families := []
  channels : List (Channel Listener) := []
  fields : List Field := []
  layers : List Layer := []
  items : List Item := []
  forms : List Form := []
  history : History Command := {}
  /-- How many groups of commands are open. -/
  groups : Nat := 0
  panel : Panel := {}
  explorer : Explorer := {}
  preview : Preview := {}
  notes : List Note := []
  deriving Repr

namespace Studio

/-- An action on the studio that can fail; what it did before stays done. -/
abbrev Act := EStateM Fault Studio

def require {α : Type} : Except Fault α → Act α
  | .ok a => pure a
  | .error e => throw e

def part {α : Type} (parts : Studio → List α) (n : Nat) : Act α := do
  match (parts (← get))[n]? with
  | some a => pure a
  | none => throw .missing

def field (f : Nat) : Act Field := part Studio.fields f

def changeField (f : Nat) (g : Field → Field) : Act Unit :=
  modify fun s => { s with fields := s.fields.modify f g }

def changeItem (i : Nat) (g : Item → Item) : Act Unit :=
  modify fun s => { s with items := s.items.modify i g }

def changeForm (n : Nat) (g : Form → Form) : Act Unit :=
  modify fun s => { s with forms := s.forms.modify n g }

def onLayer {α : Type} (l : Nat) (act : Layer.Act α) : Act α := do
  match act.run (← part Studio.layers l) with
  | .ok a layer =>
    modify fun s => { s with layers := s.layers.set l layer }
    pure a
  | .error e layer =>
    modify fun s => { s with layers := s.layers.set l layer }
    throw e

def changePanel (g : Panel → Panel) : Act Unit := modify fun s => { s with panel := g s.panel }

def changeExplorer (g : Explorer → Explorer) : Act Unit :=
  modify fun s => { s with explorer := g s.explorer }

def changePreview (g : Preview → Preview) : Act Unit :=
  modify fun s => { s with preview := g s.preview }

def note (n : Note) : Act Unit := modify fun s => { s with notes := s.notes ++ [n] }

def addChannel : Act Nat := do
  let s ← get
  set { s with channels := s.channels ++ [({} : Channel Listener)] }
  pure s.channels.length

def calmly (act : Act Unit) : Act Unit := tryCatch act fun _ => pure ()

end Studio

end WatchFace
