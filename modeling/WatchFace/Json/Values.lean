import WatchFace.Json
import WatchFace.Rect
import WatchFace.Transform
import WatchFace.Value

/-!
# Values in JSON

Values whose kind matters carry a mark in JSON. Computed numbers are written in millionths, so that they do not depend
on the last digits.
-/

namespace WatchFace

namespace Json

/-- A computed number, in millionths. -/
def number (x : Float) : Json :=
  if x.isNaN then .str "nan"
  else if x.abs >= 1e12 then .str (if x < 0 then "-big" else "big")
  else .int ((Number.floor? (x * 1e6 + 0.5)).getD 0)

def ofWhole (n : Int) : Except Fault Json :=
  match Number.ofInt? n with
  | some x => .ok (number x)
  | none => .error .overflow

def pair (p : Float × Float) : Json := .arr [number p.1, number p.2]

def ofRect (r : Rect) : Except Fault Json := do
  return .arr (← [r.x, r.y, r.width, r.height].mapM ofWhole)

def optM {α : Type} (f : α → Except Fault Json) : Option α → Except Fault Json
  | some a => f a
  | none => .ok .null

def listM {α : Type} (f : α → Except Fault Json) (xs : List α) : Except Fault Json := do
  return .arr (← xs.mapM f)

def rect (j : Json) : Rect :=
  ⟨(j.nth 0).whole, (j.nth 1).whole, (j.nth 2).whole, (j.nth 3).whole⟩

def ofMatrix (m : Transform.Matrix Float) : Json :=
  list number [m.m11, m.m12, m.m13, m.m21, m.m22, m.m23, m.m31, m.m32, m.m33]

def readDouble (s : String) : Float := (Number.readFloat? s.toList).getD (0.0 / 0.0)

end Json

namespace Value

mutual

def toJson : Value → Json
  | .none => .null
  | .bool b => .bool b
  | .int n => .int n
  | .float x => .obj [("f", Json.number x)]
  | .text s => .str s
  | .list xs => .arr (itemsToJson xs)
  | .tuple xs => .obj [("t", .arr (itemsToJson xs))]
  | .record es => .obj [("d", .arr (entriesToJson es))]
  | .other name => .obj [("obj", .str name)]

def itemsToJson : List Value → List Json
  | [] => []
  | x :: xs => toJson x :: itemsToJson xs

def entriesToJson : List (Value × Value) → List Json
  | [] => []
  | (k, v) :: es => .arr [toJson k, toJson v] :: entriesToJson es

end

mutual

def ofJson : Json → Value
  | .null => .none
  | .bool b => .bool b
  | .num t =>
    match t.toInt? with
    | some n => .int n
    | Option.none => .float (Json.readDouble t)
  | .str s => .text s
  | .arr xs => .list (itemsOfJson xs)
  | .obj [("f", .str s)] => .float (Json.readDouble s)
  | .obj [("f", .num s)] => .float (Json.readDouble s)
  | .obj [("t", .arr xs)] => .tuple (itemsOfJson xs)
  | .obj [("d", .arr es)] => .record (entriesOfJson es)
  | .obj _ => .none

def itemsOfJson : List Json → List Value
  | [] => []
  | x :: xs => ofJson x :: itemsOfJson xs

def entriesOfJson : List Json → List (Value × Value)
  | [] => []
  | .arr (k :: v :: _) :: es => (ofJson k, ofJson v) :: entriesOfJson es
  | _ :: es => entriesOfJson es

def ofPlainJson : Json → Value
  | .obj fs => .record (plainFields fs)
  | .arr xs => .list (plainItems xs)
  | .null => .none
  | .bool b => .bool b
  | .num t =>
    match t.toInt? with
    | some n => .int n
    | Option.none => .float (Json.readDouble t)
  | .str s => .text s

def plainItems : List Json → List Value
  | [] => []
  | x :: xs => ofPlainJson x :: plainItems xs

def plainFields : List (String × Json) → List (Value × Value)
  | [] => []
  | (k, v) :: fs => (.text k, ofPlainJson v) :: plainFields fs

end

def toNumber : Value → Except Fault Json
  | .none => .ok .null
  | v => v.toFloat.map Json.number

end Value

namespace Json

def value (j : Json) : Value := Value.ofJson j

def double (j : Json) : Float :=
  match j with
  | .num t => readDouble t
  | j =>
    match j.value with
    | .float x => x
    | .bool b => if b then 1 else 0
    | _ => 0

def matrix (j : Json) : Transform.Matrix Float :=
  let x (i : Nat) : Float := (j.nth i).double
  ⟨x 0, x 1, x 2, x 3, x 4, x 5, x 6, x 7, x 8⟩

end Json

end WatchFace
