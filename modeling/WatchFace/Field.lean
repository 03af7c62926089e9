import WatchFace.Catalog.Schema
import WatchFace.Color

/-!
# Fields

A field of a form holds the value of one attribute, and reads what is typed as its kind says.
-/

namespace WatchFace

open Catalog

/-- The form in which a field keeps what is typed. -/
inductive Reading where
  | words
  | whole
  | number
  deriving Repr, DecidableEq

/-- The form in which a field keeps what is typed: numbers by their step, all else as words. -/
def Catalog.Kind.reading : Kind → Reading
  | .limits _ _ step =>
    if step == .int 1 then .whole else if step == .int 0 then .number else .words
  | _ => .words

/-- A field. `settled` is false during an edit, and `channel` is the channel that carries its value. -/
structure Field where
  name : String
  kind : Kind
  description : String
  channel : Nat
  default : Value
  value : Value
  settled : Bool := true
  text : String := ""
  options : List String := []
  /-- The position of the option that is chosen; it can lie off the list. -/
  index : Int := -1
  checked : Value := .bool false
  /-- Whether its edits are kept in the history. -/
  recorded : Bool := false
  deriving Repr

namespace Field

def convert (f : Field) (v : Value) : Except Fault Value :=
  match f.kind.reading with
  | .words => .ok (.text v.shown)
  | .whole => v.toInt.map .int
  | .number => v.toFloat.map .float

/-- The smaller of a value and a limit; the value, if they do not compare. -/
def atMost (v limit : Value) : Except Fault Value :=
  (limit.less v).map fun b => if b then limit else v

def atLeast (v limit : Value) : Except Fault Value :=
  (v.less limit).map fun b => if b then limit else v

def clamp (k : Kind) (v : Value) : Except Fault Value :=
  match k with
  | .limits low high _ => do atLeast (← atMost v high) low
  | _ => .ok v

def read (f : Field) (v : Value) : Bool × Value :=
  match f.convert v >>= clamp f.kind with
  | .ok v => (true, v)
  | .error _ => (false, f.value)

def rounded? (v : Value) : Option String :=
  match v with
  | .float x => some (Number.generalText (Number.roundPlaces x 3))
  | v => v.quantity?.bind fun q => q.toFloat?.map Number.generalText

def display (v : Value) : String := (rounded? v).getD v.shown

def fileName (path : String) : String :=
  String.ofList ((path.toList.reverse.takeWhile (· != '/')).reverse)

def fileText (v : Value) : String := if v.truthy then fileName v.shown else "None"

def chosen (f : Field) : String := if f.index < 0 then "" else f.options.getD f.index.toNat ""

def optionFor? (f : Field) (v : Value) : Option Nat := f.options.findIdx? (· == v.shown)

/-- The field with a new value, and the option that it chooses for it; in an edit it keeps what it shows. -/
def present (f : Field) (v : Value) : Field × Option Nat :=
  if !f.settled then (f, none)
  else
    let f := { f with value := v }
    match f.kind with
    | .flag => ({ f with checked := v }, none)
    | .options _ | .font => (f, f.optionFor? v)
    | .nested => ({ f with value := .none }, none)
    | .file => ({ f with text := fileText v }, none)
    | _ => ({ f with text := display v }, none)

/-- The options that a field of a kind offers; a choice of fonts offers at least one. -/
def optionsOf (families : List String) : Kind → List String
  | .options items => items.map Value.shown
  | .font => if families.isEmpty then ["Arial"] else families
  | _ => []

def showsDefault (name : String) : Kind → Bool
  | .color => true
  | .limits low high step =>
    match (Kind.limits low high step).reading with
    | .number => true
    | .whole => false
    | .words => name == "Text" || name == "Script"
  | .words | .named _ => name == "Text" || name == "Script"
  | _ => false

def start (name : String) (kind : Kind) (value : Value) (description : String) (channel : Nat)
    (families : List String) : Field :=
  let options := optionsOf families kind
  { name := name, kind := kind, description := description, channel := channel
    default := value, value := value, options := options
    index := if options.isEmpty then -1 else 0
    text := if showsDefault name kind then value.shown
      else match kind with
        | .file => fileText value
        | _ => ""
    checked := match kind with
      | .flag => value
      | _ => .bool false }

end Field

end WatchFace
