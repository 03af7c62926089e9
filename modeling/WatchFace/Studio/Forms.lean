import WatchFace.Catalog
import WatchFace.Studio.Reactions

/-!
# Fields and forms in the studio

A form has a field with a channel for each attribute; an attribute that is a component of its own has a nested form.
-/

namespace WatchFace.Studio

/-- A new field on a channel. A choice that offers its default chooses it and carries its text; then the channel carries
    the value of the field. -/
def makeField (name : String) (value : Value) (description : String) (kind : Catalog.Kind)
    (channel : Nat) : Act Nat := do
  let s ← get
  let f := s.fields.length
  let x := Field.start name kind value description channel s.families.names
  set { s with fields := s.fields ++ [x] }
  connect channel (.field f)
  if kind.isChoice then
    match x.optionFor? value with
    | some i =>
      selectOption reactions f i
      emit channel (.text value.shown)
    | none => pure ()
  match kind with
  | .nested => connect channel (.caption f)
  | _ => pure ()
  emit channel (← field f).value
  pure f

/-- The user enters a colour, with or without the number sign. What is no text stands for the value of the field, if
    that is one. -/
def enterColor (f : Nat) (v : Value) : Act Unit := do
  let s ← match v, (← field f).value with
    | .text s, _ => pure s
    | _, .text s => pure s
    | _, _ => throw .endless
  let c := Color.parse (if s.startsWith "#" then s else "#" ++ s)
  if c.valid then
    enter reactions f (.text c.code) true
    changeField f fun x => { x with value := .text c.code }

def pickColor (f : Nat) (c : Color) : Act Unit := do
  let .text _ := (← field f).value | throw .wrongKind
  if c.valid then
    changeField f fun x => { x with text := c.code }
    enter reactions f (.text c.code) true

def pickFile (f : Nat) (path : String) : Act Unit := do
  if path.isEmpty then return
  enter reactions f (.text path) true
  changeField f fun x => { x with default := .text path, text := Field.fileText x.value }
  note (.picked path)

end WatchFace.Studio

namespace WatchFace

open Catalog

def Fault.isMissing : Fault → Bool
  | .missing | .unknownComponent _ | .mixedBatch _ | .unknownProperty _ => true
  | _ => false

def Studio.assign (table : List (String × Nat)) (title : String) (n : Nat) : List (String × Nat) :=
  if table.any (·.1 == title) then table.map fun e => if e.1 == title then (title, n) else e
  else table ++ [(title, n)]

namespace Studio

/-- Whether the last id of a stack is the one at its bottom: the only one, or a small number that equals it. -/
def atBottom (ids : List Int) (last first : Int) : Bool :=
  ids.length = 1 || (last = first && -5 ≤ last && last ≤ 256)

def takeId : Act Int := do
  let ids := (← get).panel.ids
  let some last := ids.getLast? | throw .outOfRange
  let rest := if atBottom ids last (ids.headD last) then [last + 1] else []
  changePanel fun p => { p with ids := ids.dropLast ++ rest }
  pure last

def freeId (id : Int) : Act Unit := changePanel fun p => { p with ids := p.ids ++ [id] }

def beginGroup : Act Unit := modify fun s => { s with groups := s.groups + 1 }

def endGroup : Act Unit := modify fun s => { s with groups := s.groups - 1 }

/-- A new form without fields, under a free key, put on the panel at once or by a command that can be undone. -/
def openForm (layer : String) (key : Value) (switch kept : Bool) : Act Nat := do
  let n := (← get).forms.length
  modify fun s => { s with forms := s.forms ++ [{ layer := layer }] }
  if kept then
    beginGroup
    push reactions (.addForm n key switch false)
  else placeForm n key switch
  pure n

def formOf? (key : Value) : Act (Option Nat) := do return (← get).panel.pages.find? key

def demandFree (key : Value) : Act Unit := do
  if !key.isKey then throw .wrongKind
  if (← formOf? key).isSome then throw .unset

def addField (form : Nat) (title : String) (v : Value) (description : String) (kind : Kind)
    (channel : Nat) : Act Unit := do
  let f ← makeField title v description kind channel
  changeField f fun x => { x with recorded := true }
  changeForm form fun x => { x with fields := assign x.fields title f }

def buttonTitle : String := "Button display"

def shownBy : List Attribute → Except Fault Value
  | [] => .error .outOfRange
  | .value title v _ :: _ => if title == buttonTitle then .ok v else .error .noEntry
  | .form title layer as _ :: _ =>
    if title == buttonTitle then .ok (Component.toValue ⟨layer, as⟩) else .error .noEntry

def notNested (v : Value) : Fault :=
  match do (← v.part (.int 1)).part (.text buttonTitle) with
  | .ok _ => .noEntry
  | .error e => e

def channelUnder (form : Nat) (title : Value) : Act Nat := do
  if !title.isKey then throw .wrongKind
  match title with
  | .text t =>
    let some f := (← part Studio.forms form).fields.lookup t | throw .noEntry
    pure (← Studio.field f).channel
  | _ => throw .noEntry

mutual

/-- Adds the field of an attribute to a form, with a new channel. A nested form comes first; its field uses the channel
    of what its button shows. The result has the channels by title. -/
def addAttribute (form : Nat) (schema : Schema) (channels : List (String × Nat)) :
    Attribute → Act (List (String × Nat))
  | .value title v description => do
    let c ← addChannel
    match schema.kindOf title with
    | .nested => throw (notNested v)
    | kind =>
      addField form title v description kind c
      pure (assign channels title c)
  | .form title layer as description => do
    let c ← addChannel
    let channels := assign channels title c
    match schema.kindOf title with
    | .nested =>
      let shown ← require (shownBy as)
      let key := Value.int (← takeId)
      demandFree key
      let n ← openForm layer key false true
      let inner ← addAttributes n (schemaOf layer) [] as
      endGroup
      let child ← formOf? key
      changeForm form fun x => { x with child := child }
      let c ← channelUnder n shown
      changeForm form fun x => { x with opens := some key }
      addField form title (.list (attributeValues as)) description .nested c
      pure (inner.foldl (fun t e => assign t e.1 e.2) channels)
    | kind =>
      addField form title (Component.toValue ⟨layer, as⟩) description kind c
      pure channels

def addAttributes (form : Nat) (schema : Schema) (channels : List (String × Nat)) :
    List Attribute → Act (List (String × Nat))
  | [] => pure channels
  | a :: as => do addAttributes form schema (← addAttribute form schema channels a) as

end

/-- Adds a form for an entry of the catalog, under a key or a new id. The result has the key, the type
    of layer and the channels by title. -/
def addForm (e : Entry) (key : Option Value) (switch kept : Bool) :
    Act (Value × String × List (String × Nat)) := do
  demandFree (key.getD .none)
  match e with
  | .schema _ => throw .noEntry
  | .maker => throw .wrongKind
  | .component c =>
    let key ← match key with
      | some k => pure k
      | none => pure (Value.int (← takeId))
    let n ← openForm c.layer key switch kept
    let channels ← addAttributes n (schemaOf c.layer) [] c.attributes
    pure (key, c.layer, channels)

/-- The component that a form describes. A field without a value stands for the nested form; forms nest up to `depth`.
    -/
def packUpTo : (depth : Nat) → (form : Nat) → Act Component
  | 0, _ => throw .endless
  | depth + 1, n => do
    let form ← part Studio.forms n
    let attributes ← form.fields.mapM fun (title, f) => do
      let x ← Studio.field f
      match x.value with
      | .none =>
        let some child := form.child | throw .missing
        let c ← packUpTo depth child
        pure (Attribute.form title c.layer c.attributes x.description)
      | v => pure (Attribute.value title v x.description)
    pure ⟨form.layer, attributes⟩

def pack (form : Nat) : Act Component := do packUpTo ((← get).forms.length + 1) form

def withPosition (pos : Value) (a : Attribute) : Except Fault Attribute :=
  let put (i : Int) := do return Attribute.value a.title (← pos.part (.int i)) a.description
  match a.title with
  | "X" => put 0
  | "Y" => put 1
  | _ => .ok a

/-- An entry with a position for its component. Others have none, unless nothing in them looks like a coordinate. -/
def Entry.at (e : Entry) (pos : Value) : Except Fault Entry :=
  match e with
  | .component c => do
    return .component { c with attributes := ← c.attributes.mapM (withPosition pos) }
  | .schema s => do
    for k in s do
      for (letter, i) in [('X', 0), ('Y', 1)] do
        if k.1.toList.contains letter then
          let _ ← pos.part (.int i)
          throw .wrongKind
    return e
  | .maker => .error .wrongKind

def namedEntry : Value → Act Entry
  | .text name => require (lookup name)
  | _ => throw .wrongKind

def sourceOf (type : Value) : Act Entry := do
  if !type.isKey then throw .wrongKind
  match ← formOf? type with
  | none => namedEntry type
  | some form =>
    tryCatch (do return .component (← pack form)) fun e =>
      if e.isMissing then namedEntry type else throw e

/-- A new component of a type at a position. Those who `follow` are told its type of layer, its
    channels and its id; their faults are passed over. -/
def summon (follow : String → List (String × Nat) → Value → Act Unit) (type : Value)
    (pos id : Option Value) : Act Unit := do
  let e ← sourceOf type
  let e ← match pos with
    | some p => require (Entry.at e p)
    | none => pure e
  let key ← match id with
    | some k => pure k
    | none => pure (Value.int (← takeId))
  let (key, layer, channels) ← addForm e (some key) true true
  calmly (follow layer channels key)
  endGroup

def dropName (name : Value) : Act Unit := do
  let _ ← addForm (← namedEntry name) (some name) true true

def toggle (key : Value) : Act Unit := do
  if !key.isKey then throw .wrongKind
  showForm (← formOf? key)

def homeKey : Value := .int 1

/-- Goes to the settings of the watch face; there is no way back. -/
def goHome : Act Unit := do
  toggle homeKey
  let home ← formOf? homeKey
  changePanel fun p => { p with opened := [.ofFound home] }

def visit (form : Option Nat) : Act Unit := do
  showForm form
  noteOpened

def visitAt (i : Int) : Act Unit := do
  changePanel fun p => { p with pages := p.pages.showAt i }
  noteOpened

def openNested (form : Nat) : Act Unit := do
  match (← part Studio.forms form).opens with
  | some key => visit (← formOf? key)
  | none => pure ()

def removeUnder (key : Value) : Act Unit := do
  match ← formOf? key with
  | some form => removeForm form
  | none =>
    strikePlace .absent
    let pages ← require ((← get).panel.pages.unregister (.bool false))
    changePanel fun p => { p with pages := pages }

def currentForm : Act Nat := do
  let some form := (← get).panel.pages.shown? | throw .missing
  pure form

def currentField (title : String) : Act Nat := do
  let some f := (← part Studio.forms (← currentForm)).fields.lookup title | throw .noEntry
  pure f

def openPanel : Act Unit := do
  let _ ← addForm (.component watchSetting) (some homeKey) true false
  let shown := (← get).panel.pages.shown?
  changePanel fun p => { p with opened := [.ofShown shown] }

end Studio

end WatchFace
