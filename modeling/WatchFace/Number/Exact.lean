
/-!
# Numbers without rounding

A double is a whole number times a power of two. Whole numbers and doubles are compared by their exact values.
-/

namespace WatchFace.Number

/-- The value `m * 2 ^ e`, or its opposite. -/
structure Exact where
  negative : Bool
  m : Nat
  e : Int
  deriving Repr, DecidableEq

def Exact.ofFloat? (x : Float) : Option Exact :=
  let bits := x.toBits.toNat
  let negative := bits / Nat.pow 2 63 == 1
  let exponent : Nat := bits / Nat.pow 2 52 % 2048
  let fraction := bits % Nat.pow 2 52
  if exponent = 2047 then none
  else if exponent = 0 then some ⟨negative, fraction, -1074⟩
  else some ⟨negative, fraction + Nat.pow 2 52, (exponent : Int) - 1075⟩

def Exact.scaled (x : Exact) (places : Int) : Nat × Nat :=
  (x.m * Nat.pow 2 x.e.toNat * Nat.pow 10 places.toNat,
    Nat.pow 2 (-x.e).toNat * Nat.pow 10 (-places).toNat)

/-- The nearest whole number to `num / den`; a half goes to the even one. -/
def roundDiv (num den : Nat) : Nat :=
  let q := num / den
  let r := num % den
  if 2 * r < den then q
  else if den < 2 * r then q + 1
  else q + q % 2

def signed (negative : Bool) (n : Nat) : Int := if negative then -(n : Int) else n

def signedFloat (negative : Bool) (x : Float) : Float := if negative then -x else x

def truncate? (x : Float) : Option Int :=
  (Exact.ofFloat? x).map fun v =>
    let (num, den) := v.scaled 0
    signed v.negative (num / den)

def floor? (x : Float) : Option Int := truncate? x.floor

/-- The double nearest to `num / den`; a half goes to the even one, and what is too large is infinite. Significand and
    exponent are one sum, in which a significand that is rounded up to the next power of two carries over. -/
def ofRatio (num den : Nat) : Float :=
  if num = 0 then 0
  else
    let scaled (e : Int) : Nat × Nat :=
      (num * Nat.pow 2 (-e).toNat, den * Nat.pow 2 e.toNat)
    let guess : Int := (num.log2 : Int) - den.log2 - 52
    let (n, d) := scaled guess
    let e := max (if n < d * Nat.pow 2 52 then guess - 1 else guess) (-1074)
    let (n, d) := scaled e
    let bits := (e + 1074).toNat * Nat.pow 2 52 + roundDiv n d
    Float.ofBits (min bits (2047 * Nat.pow 2 52)).toUInt64

def ofDecimal (n : Nat) (e : Int) : Float :=
  ofRatio (n * Nat.pow 10 e.toNat) (Nat.pow 10 (-e).toNat)

def roundPlaces (x : Float) (places : Nat) : Float :=
  match Exact.ofFloat? x with
  | none => x
  | some v =>
    let (num, den) := v.scaled places
    signedFloat v.negative (ofDecimal (roundDiv num den) (-places))

def finite? (x : Float) : Option Float := if (Exact.ofFloat? x).isSome then some x else none

/-- The double nearest to a whole number; none where it would be infinite. -/
def ofInt? (n : Int) : Option Float := finite? (signedFloat (n < 0) (ofRatio n.natAbs 1))

def divide? (a b : Int) : Option Float :=
  finite? (signedFloat ((a < 0) != (b < 0)) (ofRatio a.natAbs b.natAbs))

/-- A whole number or a double. -/
inductive Quantity where
  | whole (n : Int)
  | double (x : Float)
  deriving Repr

namespace Quantity

def orderMixed? (n : Int) (x : Float) : Option Ordering :=
  match Exact.ofFloat? x with
  | some v =>
    let (num, den) := v.scaled 0
    some (compare (n * den) (signed v.negative num))
  | none => if x.isNaN then none else some (if x < 0 then .gt else .lt)

def order? : Quantity → Quantity → Option Ordering
  | .whole a, .whole b => some (compare a b)
  | .whole a, .double y => orderMixed? a y
  | .double x, .whole b => (orderMixed? b x).map Ordering.swap
  | .double x, .double y =>
    if x < y then some .lt else if y < x then some .gt else if x == y then some .eq else none

def below (a b : Quantity) : Bool := order? a b == some .lt

def toFloat? : Quantity → Option Float
  | .whole n => ofInt? n
  | .double x => some x

end Quantity

end WatchFace.Number
