import WatchFace.Console.Field

/-!
# The console for the panel of forms
-/

namespace WatchFace.Console

open Json Studio

def formKey (p : Studio.Panel) (form : Nat) : Json :=
  ((p.pages.registry.find? (·.2 == form)).map (·.1.toJson)).getD (str "?")

def placeKey (p : Studio.Panel) : Place → Json
  | .form n => formKey p n
  | _ => str "?"

def titlesOf (channels : List (String × Nat)) : Json := strs (Script.sorted (channels.map (·.1)))

def given (j : Json) : Option Value := if j.isNull then none else some j.value

def panelAct (follow : String → List (String × Nat) → Value → Studio.Act Unit) (name : String)
    (arg : Nat → Json) : Studio.Act Json := do
  let a := arg 0
  let key := a.value
  match name with
  | "summon" =>
    quiet (summon follow key (given (arg 1)) (given (arg 2)))
  | "back" => quiet goBack
  | "home" => quiet goHome
  | "toggle" => quiet (toggle key)
  | "switch" =>
    match ← formOf? key with
    | some form => quiet (showForm (some form))
    | none => quiet (toggle (.bool false))
  | "current" => quiet (do visit (← formOf? key))
  | "index" => quiet (visitAt a.whole)
  | "drop" => quiet (dropName key)
  | "undo" => quiet (undo reactions)
  | "redo" => quiet (redo reactions)
  | "hash_id" => return int (← takeId)
  | "free_id" => quiet (freeId a.whole)
  | "pack" => return (← pack (← currentForm)).toValue.toJson
  | "values" =>
    let fields := (← part Studio.forms (← currentForm)).fields
    let values ← fields.mapM fun (title, f) => do
      return (Value.text title, (← Studio.field f).value)
    return (Value.record values).toJson
  | "value" =>
    match (← part Studio.forms (← currentForm)).fields.lookup a.text with
    | some f => return (← Studio.field f).value.toJson
    | none => return .null
  | "set" =>
    match (← part Studio.forms (← currentForm)).fields.lookup a.text with
    | some f => quiet (setValue reactions f (arg 1).value)
    | none => return .null
  | "user" => quiet (do enter reactions (← currentField a.text) (arg 1).value (arg 2).holds)
  | "open_child" => quiet (do openNested (← currentForm))
  | "script" => quiet (do let _ ← currentField a.text; note (.script a.text))
  | "remove" => quiet (removeUnder key)
  | "add" =>
    let (_, _, channels) ← addForm (← namedEntry key) (given (arg 1)) true false
    return titlesOf channels
  | "deleted" =>
    let place := Place.ofFound (← formOf? key)
    quiet (changePanel fun p => { p with deleted := p.deleted ++ [place] })
  | _ => return .null

def panelJson (s : Studio) : List (String × Json) :=
  let p := s.panel
  let shown := p.pages.shown?
  [ ("cur", placeKey p (.ofShown shown)),
    ("type", opt str ((shown.bind (s.forms[·]?)).map (·.layer))),
    ("opened", list (placeKey p) p.opened),
    ("keys", list Value.toJson (p.pages.registry.map (·.1))),
    ("ids", list int p.ids),
    ("undo", list nat [s.history.commands.length, s.history.index, s.groups]) ]

def tellMade (layer : String) (channels : List (String × Nat)) (id : Value) : Studio.Act Unit :=
  note (.made layer id (channels.map (·.1)))

def panel : Console Studio := measuring (panelAct tellMade) fun s => do
  let log ← listM Note.toJson (s.notes.filter fun
    | .made .. | .script _ => true
    | _ => false)
  return ({ s with notes := [] }, obj (panelJson s ++ [("log", log)]))

end WatchFace.Console
