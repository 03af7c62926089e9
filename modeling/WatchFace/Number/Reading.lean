import WatchFace.Number.Exact
import WatchFace.Text.Blank
import WatchFace.Text.Numeral

/-!
# Reading numbers

Blanks around a number do not matter, digits may be of any script, and single underscores may stand between digits.
-/

namespace WatchFace.Number

open Text

/-- Blanks that may surround a number; in pure ASCII the information separators may not. -/
def isOuterBlank (ascii : Bool) (c : Char) : Bool :=
  isBlank c && !(ascii && 28 ≤ c.toNat && c.toNat ≤ 31)

def normalize (cs : List Char) : List Char :=
  let outer := isOuterBlank (cs.all fun c => c.toNat < 128)
  let trimmed := ((cs.dropWhile outer).reverse.dropWhile outer).reverse
  trimmed.map fun c =>
    match digitValue? c with
    | some d => Nat.digitChar d
    | none => c

def sign? : List Char → Bool × List Char
  | '+' :: cs => (false, cs)
  | '-' :: cs => (true, cs)
  | cs => (false, cs)

/-- A text without its underscores, which have to stand between two digits of class `p`; `previous` tells whether a
    digit is before it. -/
def withoutBars? (p : Char → Bool) (previous : Bool) : List Char → Option (List Char)
  | [] => some []
  | '_' :: cs =>
    if previous && cs.head?.any p then withoutBars? p false cs else none
  | c :: cs => (withoutBars? p (p c) cs).map (c :: ·)

def readInt? (cs : List Char) : Option Int := do
  let (negative, body) := sign? (normalize cs)
  let digits ← withoutBars? isAsciiDigit false body
  if digits.isEmpty || !digits.all isAsciiDigit then none
  else
    match readDigits digits with
    | .ok n => some (signed negative n)
    | .error _ => none

def hexDigit? (c : Char) : Option Nat :=
  if isAsciiDigit c then some (c.toNat - 48)
  else if 'a' ≤ c && c ≤ 'f' then some (c.toNat - 87)
  else if 'A' ≤ c && c ≤ 'F' then some (c.toNat - 55)
  else none

def readHex? (cs : List Char) : Option Int := do
  let (negative, body) := sign? (normalize cs)
  let body :=
    match body with
    | '0' :: 'x' :: '_' :: ds | '0' :: 'X' :: '_' :: ds => ds
    | '0' :: 'x' :: ds | '0' :: 'X' :: ds => ds
    | ds => ds
  let digits ← withoutBars? (fun c => (hexDigit? c).isSome) false body
  if digits.isEmpty then none
  else
    let values ← digits.mapM hexDigit?
    some (signed negative (ofDigitValues 16 values))

def exponent? : List Char → Option Int
  | [] => some 0
  | e :: cs =>
    if e == 'e' || e == 'E' then
      let (negative, digits) := sign? cs
      if digits.isEmpty || !digits.all isAsciiDigit then none
      else some (signed negative (decimalValue digits))
    else none

/-- The double that the digits `ds` times `10 ^ e` write, without powers that can only overflow or vanish. -/
def ofScientific (ds : List Char) (e : Int) : Float :=
  let ds := ds.dropWhile (· == '0')
  if ds.isEmpty then 0
  else if 400 < e + ds.length then 1.0 / 0.0
  else if e + ds.length < -400 then 0
  else ofDecimal (decimalValue ds) e

def specialFloat? (cs : List Char) : Option Float :=
  let lower := cs.map Char.toLower
  if lower = "inf".toList || lower = "infinity".toList then some (1.0 / 0.0)
  else if lower = "nan".toList then some (0.0 / 0.0)
  else none

def magnitude? (cs : List Char) : Option Float := do
  let cs ← withoutBars? isAsciiDigit false cs
  let whole := cs.takeWhile isAsciiDigit
  let rest := cs.dropWhile isAsciiDigit
  let (fraction, rest) :=
    match rest with
    | '.' :: rest => (rest.takeWhile isAsciiDigit, rest.dropWhile isAsciiDigit)
    | rest => ([], rest)
  let digits := whole ++ fraction
  if digits.isEmpty then none
  else
    let e ← exponent? rest
    some (ofScientific digits (e - fraction.length))

def readFloat? (cs : List Char) : Option Float :=
  let (negative, body) := sign? (normalize cs)
  ((specialFloat? body).orElse fun _ => magnitude? body).map (signedFloat negative)

end WatchFace.Number
