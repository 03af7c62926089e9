import WatchFace.Text.Lower
import WatchFace.Value

/-!
# Font families

Fonts are known by the names of their files, with and without the ending.
-/

namespace WatchFace.Font

def endings : List String := [".ttf", ".otf"]

def hasEnding (name : String) : Bool := endings.any fun e => (Text.lower name).endsWith e

/-- Names of fonts with their families, in the order in which they became known. -/
abbrev Families := List (String × String)

def Families.familyOf? (fs : Families) (name : String) : Option String :=
  match fs.lookup name with
  | some family => some family
  | none => (fs.find? fun e => Text.lower e.1 == Text.lower name).map (·.2)

def Families.family? (fs : Families) : Value → Except Fault (Option String)
  | .text name => .ok (Families.familyOf? fs name)
  | v => .error (if v.isKey then .missing else .wrongKind)

def Families.names (fs : Families) : List String := (fs.map (·.1)).filter fun n => !hasEnding n

def fallback : String := "Arial"

/-- The family for a value; what is not known or has no name is replaced. -/
def Families.familyFor (fs : Families) (v : Value) : Except Fault String :=
  (Families.family? fs v).map fun
    | some family => if family.isEmpty then fallback else family
    | none => fallback

end WatchFace.Font
