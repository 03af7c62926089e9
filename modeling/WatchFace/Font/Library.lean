import WatchFace.Font.Bitmap
import WatchFace.Font.Families

/-!
# The font library
-/

namespace WatchFace.Font

/-- A file of the folder of fonts. `families` tells what the font system finds in it, by its number as a font; nothing,
    if it cannot be loaded. -/
structure FontFile where
  name : String
  text : List Char := []
  families : Nat → Option (List String) := fun _ => none

/-- The fonts that are known. `loaded` counts the attempts to load an outline font. -/
structure Library where
  families : Families := []
  bitmaps : List (String × Bitmap) := []
  loaded : Nat := 0
  deriving Repr

def learn {α : Type} (table : List (String × α)) (name : String) (a : α) : List (String × α) :=
  if table.any (·.1 == name) then table.map fun e => if e.1 == name then (name, a) else e
  else table ++ [(name, a)]

def learnFile {α : Type} (table : List (String × α)) (name : String) (a : α) :
    List (String × α) :=
  learn (learn table (stem name) a) name a

def bitmapEnding : String := ".fnt"

def hasBitmapEnding (name : String) : Bool := (Text.lower name).endsWith bitmapEnding

namespace Library

def take (all : List String) (l : Library) (f : FontFile) : Library :=
  if hasEnding f.name then
    let n := l.loaded + 1
    match f.families n with
    | some (family :: _) => { l with families := learnFile l.families f.name family, loaded := n }
    | _ => { l with loaded := n }
  else if hasBitmapEnding f.name then
    let b := Bitmap.read all f.text
    if b.pages.isEmpty then l else { l with bitmaps := learnFile l.bitmaps f.name b }
  else l

def scan (files : List FontFile) : Library := files.foldl (take (files.map (·.name))) {}

def bitmap? (l : Library) (name : String) : Option Bitmap :=
  match l.bitmaps.lookup name with
  | some b => some b
  | none => (l.bitmaps.find? fun e => Text.lower e.1 == Text.lower name).map (·.2)

def bitmapFor (l : Library) : Value → Except Fault (Option Bitmap)
  | .text name => .ok (l.bitmap? name)
  | v => .error (if v.isKey then .missing else .wrongKind)

def bitmapNames (l : Library) : List String :=
  (l.bitmaps.map (·.1)).filter fun n => !hasBitmapEnding n

end Library

end WatchFace.Font
