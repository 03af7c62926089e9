
/-!
# Decimal digits and numbers

A run of digits is read as a number unless it is longer than the limit.
-/

namespace WatchFace.Text

def digitZeros : List Nat :=
  [0x30, 0x660, 0x6F0, 0x7C0, 0x966, 0x9E6, 0xA66, 0xAE6, 0xB66, 0xBE6, 0xC66, 0xCE6, 0xD66,
   0xDE6, 0xE50, 0xED0, 0xF20, 0x1040, 0x1090, 0x17E0, 0x1810, 0x1946, 0x19D0, 0x1A80, 0x1A90,
   0x1B50, 0x1BB0, 0x1C40, 0x1C50, 0xA620, 0xA8D0, 0xA900, 0xA9D0, 0xA9F0, 0xAA50, 0xABF0,
   0xFF10, 0x104A0, 0x10D30, 0x11066, 0x110F0, 0x11136, 0x111D0, 0x112F0, 0x11450, 0x114D0,
   0x11650, 0x116C0, 0x11730, 0x118E0, 0x11950, 0x11C50, 0x11D50, 0x11DA0, 0x16A60, 0x16AC0,
   0x16B50, 0x1D7CE, 0x1D7D8, 0x1D7E2, 0x1D7EC, 0x1D7F6, 0x1E140, 0x1E2F0, 0x1E950, 0x1FBF0]

def digitValue? (c : Char) : Option Nat :=
  (digitZeros.find? fun z => z ≤ c.toNat && c.toNat < z + 10).map (c.toNat - ·)

def isDigit (c : Char) : Bool := (digitValue? c).isSome

def isAsciiDigit (c : Char) : Bool := '0' ≤ c && c ≤ '9'

def ofDigitValues (base : Nat) (ds : List Nat) : Nat := ds.foldl (fun n d => n * base + d) 0

def decimalValue (cs : List Char) : Nat := ofDigitValues 10 (cs.filterMap digitValue?)

example : digitValue? '7' = some 7 := by decide
example : digitValue? 'x' = none := by decide

/-- The largest number of digits, leading zeros included, that is read as a number. -/
def digitLimit : Nat := 4300

structure TooManyDigits where
  digits : Nat
  deriving Repr, DecidableEq

def TooManyDigits.message (e : TooManyDigits) : String :=
  s!"Exceeds the limit ({digitLimit} digits) for integer string conversion: value has {e.digits} " ++
    "digits; use sys.set_int_max_str_digits() to increase the limit"

def readDigits (cs : List Char) : Except TooManyDigits Nat :=
  if cs.length ≤ digitLimit then .ok (decimalValue cs) else .error ⟨cs.length⟩

end WatchFace.Text
