import WatchFace.Studio.Basic

/-!
# Reactions

A reaction can carry further values, so reactions are given by depth: `upTo n` are those that nest at most `n` deep.
-/

namespace WatchFace.Studio

/-- What happens when a channel carries a value, and when an option is chosen. -/
structure Reactions where
  emit : (channel : Nat) → Value → Act Unit
  chosen : (field : Nat) → Act Unit

/-- Reactions that fail at once: the limit of nesting is reached. -/
def Reactions.none : Reactions := ⟨fun _ _ => throw .endless, fun _ => throw .endless⟩

variable (r : Reactions)

def selectOption (f : Nat) (i : Int) : Act Unit := do
  if (← field f).index = i then return
  changeField f fun x => { x with index := i }
  calmly (r.chosen f)

def setValue (f : Nat) (v : Value) : Act Unit := do
  let (x, option) := (← field f).present v
  changeField f fun _ => x
  match option with
  | some i => selectOption r f i
  | none => pure ()

def noteOpened : Act Unit := changePanel fun p =>
  let place := Place.ofShown p.pages.shown?
  if p.opened.getLast? = some place then p else { p with opened := p.opened ++ [place] }

def placeForm (form : Nat) (key : Value) (switch : Bool) : Act Unit := do
  let p := (← get).panel
  let (pages, _) := p.pages.add form key switch
  changePanel fun p => { p with pages := pages }
  if switch then noteOpened

def showForm (form : Option Nat) : Act Unit := changePanel fun p =>
  match form with
  | some f => { p with pages := p.pages.showPage f }
  | none => p

def withoutDeleted (deleted opened : List Place) : List Place :=
  (opened.reverse.dropWhile deleted.contains).reverse

/-- The form of a place. Where the panel was empty it is the one under no key, and where a form was not there the one
    under the key of a failed search. -/
def formAt? (pages : Pages Value Nat) : Place → Option Nat
  | .form n => some n
  | .empty => pages.find? .none
  | .absent => pages.find? (.bool false)

def goBack : Act Unit := do
  let p := (← get).panel
  if p.opened.isEmpty then throw .outOfRange
  let opened := withoutDeleted p.deleted p.opened.dropLast
  changePanel fun p => { p with opened := opened }
  match opened.getLast? with
  | none => throw .outOfRange
  | some place => showForm (formAt? p.pages place)

/-- Removes a place from a list by going through the positions that the list had at the start. The list gets shorter, so
    a place found before the last position makes the walk run off the end. -/
def strike (place : Place) : Nat → Nat → List Place → List Place × Bool
  | _, 0, l => (l, true)
  | i, n + 1, l =>
    match l[i]? with
    | none => (l, false)
    | some x => strike place (i + 1) n (if x = place then l.eraseIdx i else l)

def strikePlace (place : Place) : Act Unit := do
  let opened := (← get).panel.opened
  let (left, whole) := strike place 0 opened.length opened
  changePanel fun p => { p with opened := left }
  if !whole then throw .outOfRange

def removeForm (form : Nat) : Act Unit := do
  strikePlace (.form form)
  changePanel fun p => { p with pages := p.pages.remove form }

def carryOut : Command → Act Unit
  | .change f new _ => setValue r f new
  | .addForm form key switch _ => placeForm form key switch
  | .addLayer l => changePreview fun p => { p with scene := p.scene ++ [l] }

def takeBack : Command → Act Unit
  | .change f _ old => setValue r f old
  | .addForm form _ switch _ => do
    if switch then
      goBack
      if (← get).panel.pages.shown? = some form then goBack
  | .addLayer l => changePreview fun p => { p with scene := p.scene.erase l }

def Command.marked (cancelled : Bool) : Command → Command
  | .addForm form key switch _ => .addForm form key switch cancelled
  | c => c

/-- What becomes of a command that is given up: a form that was taken back goes. -/
def giveUp : Command → Act Unit
  | .addForm form _ _ true => calmly (removeForm form)
  | _ => pure ()

def changeHistory (g : History Command → History Command) : Act Unit :=
  modify fun s => { s with history := g s.history }

def markAt (i : Nat) (cancelled : Bool) : Act Unit :=
  changeHistory fun h => { h with commands := h.commands.modify i (Command.marked cancelled) }

/-- Carries out a command and keeps it. Those not in effect are given up, the last first. -/
def push (c : Command) : Act Unit := do
  let h := (← get).history
  changeHistory History.cut
  h.dropped.reverse.forM giveUp
  changeHistory (·.add c)
  carryOut r c
  changeHistory History.advance

def undo : Act Unit := do
  if (← get).history.index = 0 then return
  changeHistory History.retreat
  let h := (← get).history
  match h.commands[h.index]? with
  | none => throw .outOfRange
  | some c =>
    takeBack r c
    markAt h.index true

def redo : Act Unit := do
  let h := (← get).history
  match h.commands[h.index]? with
  | none => pure ()
  | some c =>
    carryOut r c
    markAt h.index false
    changeHistory History.advance

def keep (f : Nat) (new old : Value) : Act Unit := do
  if (← field f).recorded then calmly (push r (.change f new old))

/-- The user enters a value; `finish` tells whether the edit ends. What can be read is carried at once, and kept when
    the edit ends. -/
def enter (f : Nat) (v : Value) (finish : Bool) : Act Unit := do
  let x ← field f
  let (accepted, v) := x.read v
  changeField f fun x => { x with settled := finish }
  if accepted then r.emit x.channel (← require (x.convert v))
  if finish then
    if accepted then keep r f v (← field f).value
    setValue r f v

/-- A value comes from the channel. The field shows it; unless it ends an edit, its own value stays. -/
def receive (f : Nat) (v : Value) (finish : Bool) : Act Unit := do
  let before := (← field f).value
  setValue r f v
  if finish then keep r f v before
  else changeField f fun x => { x with value := before }

def setLevel (i : Nat) (v : Value) : Act Unit := do
  let item ← part Studio.items i
  if v == item.level then return
  changeItem i fun x => { x with level := v }
  r.emit item.levels v

def settleName (i : Nat) (name : Value) : Act Unit := do
  let item ← part Studio.items i
  if !item.name.isNone && name == item.name then return
  changeItem i fun x => { x with shown := name, name := name }
  r.emit item.names name

def baseName (name : String) : String :=
  let cs := name.toList
  let strip (cs : List Char) : Option (List Char) :=
    match cs.reverse with
    | d :: ' ' :: rest => if (Text.digitValue? d).isSome then some rest.reverse else none
    | _ => none
  match strip cs with
  | some base => String.ofList base
  | none =>
    match cs.reverse with
    | '\n' :: rest =>
      match strip rest.reverse with
      | some base => String.ofList (base ++ ['\n'])
      | none => name
    | _ => name

/-- The first of `base`, `base 1`, `base 2`, … from a number on that is free; `n` bounds the search. -/
def freeName (names : List Value) (base : String) : Nat → Nat → String → String
  | 0, _, candidate => candidate
  | n + 1, k, candidate =>
    if names.contains (.text candidate) then freeName names base n (k + 1) s!"{base} {k}"
    else candidate

def claimName (i : Nat) (name old : Value) : Act Unit := do
  changeExplorer fun e => { e with names := e.names.erase old }
  let names := (← get).explorer.names
  let name ← if names.contains name then
      match name with
      | .text s =>
        let base := baseName s
        pure (Value.text (freeName names base names.length 1 base))
      | _ => throw .wrongKind
    else pure name
  changeExplorer fun e => { e with names := e.names ++ [name] }
  settleName r i name

def rename (i : Nat) (name : Value) : Act Unit := do
  let item ← part Studio.items i
  if !item.name.isNone && name == item.name then return
  changeItem i fun x => { x with shown := name }
  calmly (claimName r i name item.name)

def hear : Listener → Option Value → Act Unit
  | .field f, some v => receive r f v false
  | .caption f, some v => changeField f fun x => { x with text := v.shown }
  | .level i, some v => setLevel r i v
  | .title i, some v => rename r i v
  | .observer n, some v => note (.heard n v)
  | .layer l p, v => do onLayer l (Layer.hear (← get).families p v)
  | _, none => throw .wrongKind

def deliver (c : Nat) (heard : Channel Listener × Except Fault (List Listener × Value)) :
    Act Unit := do
  modify fun s => { s with channels := s.channels.set c heard.1 }
  let (listeners, v) ← require heard.2
  announce (hear r) v listeners

def Reactions.next : Reactions where
  emit c v := do deliver r c ((← part Studio.channels c).emit v)
  chosen f := do enter r f (.text (← field f).chosen) true

def Reactions.upTo : Nat → Reactions
  | 0 => .none
  | n + 1 => (upTo n).next

def depth : Nat := 100

def reactions : Reactions := .upTo depth

def emit (c : Nat) (v : Value) : Act Unit := reactions.emit c v

def connect (c : Nat) (l : Listener) : Act Unit := do
  deliver reactions c ((← part Studio.channels c).connect l)

end WatchFace.Studio
