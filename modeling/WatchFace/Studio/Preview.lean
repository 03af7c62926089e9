import WatchFace.Studio.Drag
import WatchFace.Studio.Forms
import WatchFace.Studio.Items

/-!
# The preview
-/

namespace WatchFace.Studio

def discMargin : Float := 50

def disc (size : Float) : Float × Float × Float × Float :=
  let d := size - discMargin * 2
  (-d / 2, -d / 2, d, d)

def registerLayer (table : List (Value × Nat)) (id : Value) (l : Nat) : List (Value × Nat) :=
  if table.any (·.1 == id) then table.map fun e => if e.1 == id then (e.1, l) else e
  else table ++ [(id, l)]

def showLayer (layer : String) (channels : List (String × Nat)) (id : Value) : Act Unit := do
  let l ← createLayer layer channels
  push reactions (.addLayer l)
  changePreview fun p => { p with table := registerLayer p.table id l }

def layerOf (id : Value) : Act Nat := do
  if !id.isKey then throw .wrongKind
  match ((← get).preview.table.find? (·.1 == id)).map (·.2) with
  | some l => pure l
  | none => throw .noEntry

/-- Brings a new component to preview and explorer, each of which may fail to take it in. -/
def introduce (layer : String) (channels : List (String × Nat)) (id : Value) : Act Unit := do
  calmly (showLayer layer channels id)
  calmly (do let _ ← addItem layer channels id)

def offer (type : Value) (pos id : Option Value) : Act Unit :=
  calmly (summon introduce type pos id)

def place (type : Value) (pos id : Option Value) : Act Unit := do
  let id ← if id.any (· == .int 0) then pure (some (Value.int (← takeId))) else pure id
  offer type pos id

def zoom (upward : Bool) : Act Unit := note (.scaled (if upward then 1.1 else 0.9))

def grab (down : Bool) : Act Unit := note (.grabbing down)

def wholeView : Rect := ⟨0, 0, 100, 100⟩

def appear : Act Unit := note (.fitted wholeView)

def resized : Act Unit := note (.fitted ⟨0, 0, 0, 0⟩)

end WatchFace.Studio
