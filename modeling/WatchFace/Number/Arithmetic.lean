import WatchFace.Fault
import WatchFace.Number.Exact

/-!
# Arithmetic of numbers

As soon as a double takes part, the result is a double. A quotient is always a double.
-/

namespace WatchFace.Number.Quantity

def toFloat (q : Quantity) : Except Fault Float :=
  match q.toFloat? with
  | some x => .ok x
  | none => .error .overflow

def add : Quantity → Quantity → Except Fault Quantity
  | .whole a, .whole b => .ok (.whole (a + b))
  | a, b => do return .double ((← a.toFloat) + (← b.toFloat))

def times : Quantity → Quantity → Except Fault Quantity
  | .whole a, .whole b => .ok (.whole (a * b))
  | a, b => do return .double ((← a.toFloat) * (← b.toFloat))

def minus : Quantity → Quantity → Except Fault Quantity
  | .whole a, .whole b => .ok (.whole (a - b))
  | a, b => do return .double ((← a.toFloat) - (← b.toFloat))

def divided : Quantity → Quantity → Except Fault Float
  | .whole a, .whole b =>
    if b = 0 then .error .divideByZero
    else
      match divide? a b with
      | some x => .ok x
      | none => .error .overflow
  | a, b => do
    let x ← a.toFloat
    let y ← b.toFloat
    if y == 0 then throw .divideByZero
    return x / y

def least (a b : Quantity) : Quantity := if b.below a then b else a

def truncate : Quantity → Except Fault Int
  | .whole n => .ok n
  | .double x =>
    match truncate? x with
    | some n => .ok n
    | none => .error (if x.isNaN then .badValue else .overflow)

end WatchFace.Number.Quantity
