import WatchFace.Json

/-!
# Reading JSON

Only well-formed texts are of use; of others as much is read as can be.
-/

namespace WatchFace.Json

def hexValue (c : Char) : Nat :=
  if '0' ≤ c && c ≤ '9' then c.toNat - 48
  else if 'a' ≤ c && c ≤ 'f' then c.toNat - 87
  else c.toNat - 55

def unit (a b c d : Char) : Nat :=
  ((hexValue a * 16 + hexValue b) * 16 + hexValue c) * 16 + hexValue d

def unescape : Char → Char
  | 'n' => '\n'
  | 't' => '\t'
  | 'r' => '\r'
  | 'b' => '\x08'
  | 'f' => '\x0c'
  | c => c

def parseText (acc : List Char) : List Char → String × List Char
  | '"' :: cs => (String.ofList acc.reverse, cs)
  | '\\' :: 'u' :: a :: b :: c :: d :: cs =>
    let u := unit a b c d
    if 0xD800 ≤ u && u < 0xDC00 then
      match cs with
      | '\\' :: 'u' :: a :: b :: c :: d :: cs =>
        parseText (Char.ofNat (0x10000 + (u - 0xD800) * 1024 + (unit a b c d - 0xDC00)) :: acc) cs
      | cs => parseText (Char.ofNat 0xFFFD :: acc) cs
    else parseText (Char.ofNat u :: acc) cs
  | '\\' :: c :: cs => parseText (unescape c :: acc) cs
  | c :: cs => parseText (c :: acc) cs
  | [] => (String.ofList acc.reverse, [])

def skip (cs : List Char) : List Char := cs.dropWhile (·.isWhitespace)

def inNumber (c : Char) : Bool := c.isDigit || c == '-' || c == '+' || c == '.' || c == 'e' || c == 'E'

mutual

/-- A value and what follows it; `n` bounds the number of steps. -/
def parseValue : Nat → List Char → Json × List Char
  | 0, cs => (.null, cs)
  | n + 1, cs =>
    match skip cs with
    | '"' :: cs => let (s, r) := parseText [] cs; (.str s, r)
    | '[' :: cs =>
      match skip cs with
      | ']' :: r => (.arr [], r)
      | cs => parseItems n [] cs
    | '\x7b' :: cs =>
      match skip cs with
      | '\x7d' :: r => (.obj [], r)
      | cs => parseFields n [] cs
    | 't' :: cs => (.bool true, cs.drop 3)
    | 'f' :: cs => (.bool false, cs.drop 4)
    | 'n' :: cs => (.null, cs.drop 3)
    | cs => (.num (String.ofList (cs.takeWhile inNumber)), cs.dropWhile inNumber)

def parseItems : Nat → List Json → List Char → Json × List Char
  | 0, acc, cs => (.arr acc.reverse, cs)
  | n + 1, acc, cs =>
    let (x, r) := parseValue n cs
    match skip r with
    | ',' :: r => parseItems n (x :: acc) r
    | _ :: r => (.arr (x :: acc).reverse, r)
    | [] => (.arr (x :: acc).reverse, [])

def parseFields : Nat → List (String × Json) → List Char → Json × List Char
  | 0, acc, cs => (.obj acc.reverse, cs)
  | n + 1, acc, cs =>
    match skip cs with
    | '"' :: cs =>
      let (k, r) := parseText [] cs
      let (v, r) := parseValue n ((skip r).drop 1)
      match skip r with
      | ',' :: r => parseFields n ((k, v) :: acc) r
      | _ :: r => (.obj ((k, v) :: acc).reverse, r)
      | [] => (.obj ((k, v) :: acc).reverse, [])
    | cs => (.obj acc.reverse, cs)

end

def parse (s : String) : Json := (parseValue (s.length + 1) s.toList).1

end WatchFace.Json
