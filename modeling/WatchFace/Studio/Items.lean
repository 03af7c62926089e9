import WatchFace.Studio.Reactions

/-!
# Items of the explorer

Items follow the names and the stacking order of the layers, and dropping one item on another exchanges their places.
-/

namespace WatchFace.Studio

def layerEnding : List Char := "Layer".toList

def shortLayer (layer : String) : String :=
  let strip (cs : List Char) : Option (List Char) :=
    if layerEnding.isSuffixOf cs then some (cs.take (cs.length - layerEnding.length)) else none
  let cs := layer.toList
  match strip cs with
  | some short => String.ofList short
  | none =>
    match cs.getLast? with
    | some '\n' =>
      match strip cs.dropLast with
      | some short => String.ofList (short ++ ['\n'])
      | none => layer
    | _ => layer

def addItem (layer : String) (channels : List (String × Nat)) (id : Value) : Act Nat := do
  let some names := channels.lookup "Name" | throw .noEntry
  let some levels := channels.lookup "Layer" | throw .noEntry
  let i := (← get).items.length
  let item : Item := { id := id.shown, layer := layer, levels := levels, names := names }
  modify fun s => { s with items := s.items ++ [item] }
  connect levels (.level i)
  connect names (.title i)
  changeExplorer fun e =>
    { e with items := if e.items.any (·.1 == item.id)
        then e.items.map fun x => if x.1 == item.id then (x.1, i) else x
        else e.items ++ [(item.id, i)] }
  pure i

def itemOf (id : String) : Act Nat := do
  match (← get).explorer.items.lookup id with
  | some i => pure i
  | none => throw .noEntry

def Item.below (basis : Basis) (a b : Item) : Except Fault Bool :=
  match basis with
  | .level => a.level.less b.level
  | .layer => .ok (a.layer < b.layer)
  | .name | .other _ => a.name.less b.name

section Sorting

variable {α : Type} (below : α → α → Except Fault Bool)

/-- Splits a list behind the items that go on from `x` in one direction: each is below the one before, or none is. -/
def splitRun (falling : Bool) : α → List α → Except Fault (List α × List α)
  | _, [] => .ok ([], [])
  | x, y :: ys => do
    if (← below y x) == falling then
      let (run, rest) ← splitRun falling y ys
      return (y :: run, rest)
    return ([], y :: ys)

/-- The position for an item in the part of a sorted list from `l` to `r`, behind those it is not below, by halving. -/
def positionIn (x : α) (ys : List α) (l r : Nat) : Except Fault Nat :=
  if _h : l < r then do
    let m := l + (r - l) / 2
    match ys[m]? with
    | some y => if ← below x y then positionIn x ys l m else positionIn x ys (m + 1) r
    | none => return l
  else .ok l
termination_by r - l

def insertSorted (ys : List α) (x : α) : Except Fault (List α) := do
  return ys.insertIdx (← positionIn below x ys 0 ys.length) x

/-- Sorts a list, keeping the order of items not below one another. Those after the first run are inserted one by one.
    -/
def sorted : List α → Except Fault (List α)
  | x :: y :: ys => do
    let falling ← below y x
    let (run, rest) ← splitRun below falling y ys
    let run := x :: y :: run
    rest.foldlM (insertSorted below) (if falling then run.reverse else run)
  | xs => .ok xs

end Sorting

def ordered : Act (List Nat) := do
  let s ← get
  let items := s.explorer.items.filterMap fun e => s.items[e.2]?.map fun item => (e.2, item)
  let items ← require (sorted (fun a b => a.2.below s.explorer.basis b.2) items)
  pure (items.map (·.1))

/-- Drops an item on the reference item: a group takes it in, others exchange places. -/
def drop (i : Nat) : Act Unit := do
  let some ref := (← get).explorer.reference | throw .missing
  if i = ref then return
  let target ← part Studio.items ref
  if !target.isGroup then
    let item ← part Studio.items i
    setLevel reactions ref item.level
    setLevel reactions i target.level

def dropText : Value → Act Unit
  | .text id => do drop (← itemOf id)
  | v => throw (if v.isKey then .noEntry else .wrongKind)

/-- Where the items are: the places of those that are seen, the top level, and the items inside others, with whether
    these are open. -/
structure TreeView where
  places : List (Rect × Nat) := []
  top : List Nat := []
  nested : List (Nat × List Nat × Bool) := []
  deriving Repr

namespace TreeView

def area : Rect := ⟨0, 0, 100, 100⟩

def origin : Int × Int := (8, 100)

def itemAt? (t : TreeView) (x y : Int) : Option Nat :=
  (t.places.find? fun p => p.1.contains x y).map (·.2)

def placeOf (t : TreeView) (i : Nat) : Rect :=
  ((t.places.find? fun p => p.2 = i).map (·.1)).getD ⟨0, 0, 50, 20⟩

def innermost (t : TreeView) : Nat → Nat → Nat
  | 0, i => i
  | n + 1, i =>
    match t.nested.lookup i with
    | some (children, true) =>
      match children.getLast? with
      | some c => innermost t n c
      | none => i
    | _ => i

def last? (t : TreeView) : Option Nat :=
  t.top.getLast?.map (t.innermost (t.nested.length + 1))

/-- The item to which a point belongs: the one at the point, at the lower edge, or the last one. Above the tree it is
    its first line. -/
def target (t : TreeView) (x y : Int) : Option Nat × Int :=
  let below := (t.itemAt? 1 (area.height - 1)).orElse fun _ => t.last?
  match t.itemAt? x y with
  | some i => (some i, y)
  | none =>
    if y < 0 then ((t.itemAt? 1 1).orElse fun _ => below, 1) else (below, y)

/-- Where a drop at a point is marked: the middle and size of the mark, and its item. Between items the mark is a line,
    and a group is marked as a whole. -/
def marker (t : TreeView) (isGroup : Nat → Bool) (x y : Int) : (Int × Int) × (Int × Int) × Option Nat :=
  let (item, y) := t.target x y
  let at' (px py : Int) : Int × Int := (px + origin.1, py + origin.2)
  match item with
  | none => (at' area.x area.y, (area.width, 5), none)
  | some i =>
    let r := t.placeOf i
    if isGroup i then (at' r.center.1 r.center.2, (r.width, r.height), some i)
    else if t.itemAt? 1 (y + r.height.fdiv 2) = some i then
      (at' r.center.1 r.y, (r.width, 5), some i)
    else (at' r.center.1 r.bottom, (r.width, 5), some i)

end TreeView

def markDrop (t : TreeView) (x y : Int) : Act ((Int × Int) × (Int × Int)) := do
  let s ← get
  let (pos, size, ref) := t.marker (fun i => (s.items[i]?.map Item.isGroup).getD false) x y
  changeExplorer fun e => { e with reference := ref }
  pure (pos, size)

end WatchFace.Studio
