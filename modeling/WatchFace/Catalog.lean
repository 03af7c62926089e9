import WatchFace.Catalog.ImageComponents
import WatchFace.Catalog.Schema
import WatchFace.Catalog.ShapeComponents
import WatchFace.Catalog.TextComponents

/-!
# The catalog
-/

namespace WatchFace.Catalog

def components : List (String × Component) :=
  [("watchSetting", watchSetting), ("watchBackground", watchBackground), ("text", text),
   ("light", light), ("photoCube", photoCube), ("textCurved", textCurved),
   ("minuteHand", minuteHand), ("hourHand", hourHand), ("secondHand", secondHand),
   ("battery", battery), ("wifi", wifi), ("event", event), ("countdown", countdown),
   ("tachy", tachy), ("weather", weather), ("shape", shape), ("marker", marker), ("map", map),
   ("compass", compass), ("date", date), ("steps", steps), ("moon", moon), ("model3d", model3d),
   ("slideshow", slideshow), ("numbers", numbers), ("hourMinMarkers", hourMinMarkers),
   ("rounded", rounded), ("series", series), ("time", time), ("stopWatch1", stopWatch1),
   ("stopWatch2", stopWatch2), ("stopWatch3", stopWatch3), ("complication", complication),
   ("chart", chart), ("imageGif", imageGif), ("progress", progress), ("ring", ring)]

inductive Entry where
  | schema (s : Schema)
  | component (c : Component)
  /-- The function that makes a bare component. -/
  | maker
  deriving Repr, Inhabited

def makerName : String := "summon_components"

def lookup? (name : String) : Option Entry :=
  match schemas.lookup name with
  | some s => some (.schema s)
  | none =>
    match components.lookup name with
    | some c => some (.component c)
    | none => if name = makerName then some .maker else none

def lookup (name : String) : Except Fault Entry :=
  match lookup? name with
  | some e => .ok e
  | none => .error (.unknownComponent (Text.quote name))

def names : List String := schemas.map (·.1) ++ components.map (·.1) ++ [makerName]

/-- The schema of a type of layer; a type that has none has no kinds. -/
def schemaOf (layer : String) : Schema := (schemas.lookup layer).getD []

/-- The kind of an attribute; an attribute without one is a choice from nothing. -/
def Schema.kindOf (s : Schema) (title : String) : Kind := (s.lookup title).getD (.options [])

def Schema.toValue (s : Schema) : Value := .record (s.map fun (t, k) => (.text t, k.toValue))

def Entry.toValue? : Entry → Option Value
  | .schema s => some (Schema.toValue s)
  | .component c => some c.toValue
  | .maker => none

def Entry.count : Entry → Nat
  | .schema s => s.length
  | .component c => c.attributes.length + 1
  | .maker => 0

end WatchFace.Catalog
