import WatchFace.Fault
import WatchFace.Number.Decimal
import WatchFace.Number.Reading
import WatchFace.Text.Quote

/-!
# Attribute values

An attribute can hold a value of any kind, whatever its field expects.
-/

namespace WatchFace

open Number

inductive Value where
  | none
  | bool (b : Bool)
  | int (n : Int)
  | float (x : Float)
  | text (s : String)
  | list (items : List Value)
  | tuple (items : List Value)
  | record (entries : List (Value × Value))
  | other (name : String)
  deriving Repr, Inhabited

namespace Value

def isNone : Value → Bool
  | .none => true
  | _ => false

def text? : Value → Option String
  | .text s => some s
  | _ => Option.none

/-- Whether a value counts as true: nothing, zero and what is empty do not. -/
def truthy : Value → Bool
  | .none => false
  | .bool b => b
  | .int n => n != 0
  | .float x => x != 0
  | .text s => !s.isEmpty
  | .list xs | .tuple xs => !xs.isEmpty
  | .record es => !es.isEmpty
  | .other _ => true

def quantity? : Value → Option Quantity
  | .bool b => some (.whole (if b then 1 else 0))
  | .int n => some (.whole n)
  | .float x => some (.double x)
  | _ => Option.none

mutual

/-- Whether two values are equal. Numbers and flags are equal if their values are. -/
def same : Value → Value → Bool
  | .none, b => b.isNone
  | .text s, b => b.text? == some s
  | .list xs, .list ys => sameItems xs ys
  | .tuple xs, .tuple ys => sameItems xs ys
  | .record es, .record fs => es.length == fs.length && sameEntries es fs
  | .other n, .other m => n == m
  | a, b =>
    match a.quantity?, b.quantity? with
    | some p, some q => p.order? q == some .eq
    | _, _ => false

def sameItems : List Value → List Value → Bool
  | [], [] => true
  | x :: xs, y :: ys => same x y && sameItems xs ys
  | _, _ => false

def sameEntries : List (Value × Value) → List (Value × Value) → Bool
  | [], _ => true
  | (k, v) :: es, fs => fs.any (fun f => same k f.1 && same v f.2) && sameEntries es fs

end

instance : BEq Value := ⟨same⟩

mutual

/-- Whether the first value is below the second; numbers, texts, lists and tuples compare with their own kind. -/
def less : Value → Value → Except Fault Bool
  | .text s, b =>
    match b.text? with
    | some t => .ok (s < t)
    | Option.none => .error .wrongKind
  | .list xs, .list ys => lessItems xs ys
  | .tuple xs, .tuple ys => lessItems xs ys
  | a, b =>
    match a.quantity?, b.quantity? with
    | some p, some q => .ok (p.below q)
    | _, _ => .error .wrongKind

def lessItems : List Value → List Value → Except Fault Bool
  | [], ys => .ok (!ys.isEmpty)
  | _ :: _, [] => .ok false
  | x :: xs, y :: ys => if same x y then lessItems xs ys else less x y

end

mutual

def quoted : Value → String
  | .none => "None"
  | .bool b => if b then "True" else "False"
  | .int n => toString n
  | .float x => shortestText x
  | .text s => Text.quote s
  | .list xs => "[" ++ ", ".intercalate (quotedItems xs) ++ "]"
  | .tuple [x] => "(" ++ quoted x ++ ",)"
  | .tuple xs => "(" ++ ", ".intercalate (quotedItems xs) ++ ")"
  | .record es => "\x7b" ++ ", ".intercalate (quotedEntries es) ++ "\x7d"
  | .other name => "<" ++ name ++ ">"

def quotedItems : List Value → List String
  | [] => []
  | x :: xs => quoted x :: quotedItems xs

def quotedEntries : List (Value × Value) → List String
  | [] => []
  | (k, v) :: es => (quoted k ++ ": " ++ quoted v) :: quotedEntries es

end

def shown : Value → String
  | .text s => s
  | v => v.quoted

def isKey : Value → Bool
  | .list _ | .record _ => false
  | .tuple xs => keys xs
  | _ => true
where
  keys : List Value → Bool
    | [] => true
    | x :: xs => isKey x && keys xs

def nth {α : Type} (xs : List α) (i : Int) : Except Fault α :=
  let j := if i < 0 then i + xs.length else i
  match if j < 0 then Option.none else xs[j.toNat]? with
  | some x => .ok x
  | Option.none => .error .outOfRange

def part (v key : Value) : Except Fault Value :=
  match v with
  | .list xs | .tuple xs =>
    match key.quantity? with
    | some (.whole i) => nth xs i
    | _ => .error .wrongKind
  | .text s =>
    match key.quantity? with
    | some (.whole i) => (nth s.toList i).map fun c => .text c.toString
    | _ => .error .wrongKind
  | .record es =>
    if key.isKey then
      match es.find? (fun e => same e.1 key) with
      | some e => .ok e.2
      | Option.none => .error .noEntry
    else .error .wrongKind
  | _ => .error .wrongKind

mutual

/-- The lengths of nested lists, if those at one depth have one shape; what is no list has no lengths. -/
def shape? : Value → Option (List Nat)
  | .list xs | .tuple xs =>
    match itemShapes? xs with
    | some [] => some [0]
    | some (s :: ss) => if ss.all (· == s) then some ((ss.length + 1) :: s) else Option.none
    | Option.none => Option.none
  | _ => some []

def itemShapes? : List Value → Option (List (List Nat))
  | [] => some []
  | x :: xs =>
    match shape? x, itemShapes? xs with
    | some s, some ss => some (s :: ss)
    | _, _ => Option.none

end

mutual

def leaves : Value → List Value
  | .list xs | .tuple xs => itemLeaves xs
  | v => [v]

def itemLeaves : List Value → List Value
  | [] => []
  | x :: xs => leaves x ++ itemLeaves xs

end

def toFloat : Value → Except Fault Float
  | .text s =>
    match readFloat? s.toList with
    | some x => .ok x
    | Option.none => .error .badValue
  | v =>
    match v.quantity? with
    | some q =>
      match q.toFloat? with
      | some x => .ok x
      | Option.none => .error .overflow
    | Option.none => .error .wrongKind

def toInt : Value → Except Fault Int
  | .text s =>
    match readInt? s.toList with
    | some n => .ok n
    | Option.none => .error .badValue
  | .float x =>
    match truncate? x with
    | some n => .ok n
    | Option.none => .error (if x.isNaN then .badValue else .overflow)
  | v =>
    match v.quantity? with
    | some (.whole n) => .ok n
    | _ => .error .wrongKind

def measure (v : Value) : Except Fault Float :=
  match v with
  | .text _ => .error .wrongKind
  | v => v.toFloat

end Value

end WatchFace
