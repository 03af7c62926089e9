import WatchFace.Number.Exact

/-!
# Decimal text of doubles
-/

namespace WatchFace.Number

/-- The decimal digits `n` with the point placed so that the value is `n * 10 ^ e`. -/
structure Digits where
  n : Nat
  e : Int
  deriving Repr, DecidableEq

def digitCount (n : Nat) : Nat := (Nat.toDigits 10 n).length

/-- The power of ten just above `num / den`: the least `k` with `num / den < 10 ^ k`. -/
def magnitude (num den : Nat) : Int :=
  if den ≤ num then digitCount (num / den)
  else
    let d := digitCount (den / num)
    if num * Nat.pow 10 (d - 1) = den then 2 - d else 1 - d

def significant (x : Exact) (count : Nat) : Digits :=
  let (num, den) := x.scaled 0
  let k := magnitude num den
  let (num, den) := x.scaled (count - k)
  let n := roundDiv num den
  if n = Nat.pow 10 count then ⟨n / 10, k - count + 1⟩ else ⟨n, k - count⟩

def candidates (x : Exact) (count : Nat) : List Digits :=
  let (num, den) := x.scaled 0
  let e := magnitude num den - count
  let (num, den) := x.scaled (-e)
  let low := num / den
  if 2 * (num % den) ≤ den then [⟨low, e⟩, ⟨low + 1, e⟩] else [⟨low + 1, e⟩, ⟨low, e⟩]

/-- The fewest digits that read back as the double of an exact value; seventeen always do. -/
def shortest (x : Exact) : Digits :=
  let same (d : Digits) : Bool :=
    Exact.ofFloat? (ofDecimal d.n d.e) == some { x with negative := false }
  let counts := (List.range 17).map (· + 1)
  (counts.findSome? fun count => (candidates x count).find? same).getD (significant x 17)

def trimZeros (digits : List Char) : List Char := (digits.reverse.dropWhile (· == '0')).reverse

def exponentText (e : Int) : List Char :=
  let digits := Nat.toDigits 10 e.natAbs
  (if e < 0 then '-' else '+') :: (if digits.length < 2 then '0' :: digits else digits)

/-- A number laid out with a point where the exponent of its first digit is between minus four and `limit`, and else
    with an exponent. Without a fraction it ends in `whole`. -/
def layout (d : Digits) (limit : Int) (whole : List Char) : List Char :=
  let all := Nat.toDigits 10 d.n
  let first := d.e + all.length - 1
  let digits := trimZeros all
  let count : Int := digits.length
  if first < -4 || limit ≤ first then
    let fraction := digits.drop 1
    digits.take 1 ++ (if fraction.isEmpty then [] else '.' :: fraction) ++ 'e' :: exponentText first
  else if first < 0 then
    ['0', '.'] ++ List.replicate (-first - 1).toNat '0' ++ digits
  else if count ≤ first + 1 then
    digits ++ List.replicate (first + 1 - count).toNat '0' ++ whole
  else
    digits.take (first + 1).toNat ++ '.' :: digits.drop (first + 1).toNat

def textWith (zero : List Char) (write : Exact → List Char) (x : Float) : String :=
  match Exact.ofFloat? x with
  | none => if x.isNaN then "nan" else if x < 0 then "-inf" else "inf"
  | some v =>
    let body := if v.m = 0 then zero else write v
    String.ofList (if v.negative then '-' :: body else body)

def shortestText (x : Float) : String :=
  textWith "0.0".toList (fun v => layout (shortest v) 16 ['.', '0']) x

def generalText (x : Float) : String :=
  textWith ['0'] (fun v => layout (significant v 6) 6 []) x

end WatchFace.Number
