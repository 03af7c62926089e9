import WatchFace.Text.Cased

/-!
# Small letters
-/

namespace WatchFace.Text

/-- Runs beyond ASCII in which capital and small letters take turns: the first and the last capital. -/
def alternatingRuns : List (Nat × Nat) :=
  [(0x100, 0x12E), (0x132, 0x136), (0x139, 0x147), (0x14A, 0x176), (0x179, 0x17D), (0x182, 0x184), (0x187, 0x187),
   (0x18B, 0x18B), (0x191, 0x191), (0x198, 0x198), (0x1A0, 0x1A4), (0x1A7, 0x1A7), (0x1AC, 0x1AC), (0x1AF, 0x1AF),
   (0x1B3, 0x1B5), (0x1B8, 0x1B8), (0x1BC, 0x1BC), (0x1C5, 0x1C5), (0x1C8, 0x1C8), (0x1CB, 0x1DB), (0x1DE, 0x1EE),
   (0x1F2, 0x1F4), (0x1F8, 0x21E), (0x222, 0x232), (0x23B, 0x23B), (0x241, 0x241), (0x246, 0x24E), (0x370, 0x372),
   (0x376, 0x376), (0x3D8, 0x3EE), (0x3F7, 0x3F7), (0x3FA, 0x3FA), (0x460, 0x480), (0x48A, 0x4BE), (0x4C1, 0x4CD),
   (0x4D0, 0x52E), (0x1E00, 0x1E94), (0x1EA0, 0x1EFE), (0x2183, 0x2183), (0x2C60, 0x2C60), (0x2C67, 0x2C6B),
   (0x2C72, 0x2C72), (0x2C75, 0x2C75), (0x2C80, 0x2CE2), (0x2CEB, 0x2CED), (0x2CF2, 0x2CF2), (0xA640, 0xA66C),
   (0xA680, 0xA69A), (0xA722, 0xA72E), (0xA732, 0xA76E), (0xA779, 0xA77B), (0xA77E, 0xA786), (0xA78B, 0xA78B),
   (0xA790, 0xA792), (0xA796, 0xA7A8), (0xA7B4, 0xA7C2), (0xA7C7, 0xA7C9), (0xA7D0, 0xA7D0), (0xA7D6, 0xA7D8),
   (0xA7F5, 0xA7F5)]

def shiftedRuns : List (Nat × Nat × Int) :=
  [(0xC0, 0xD6, 32), (0xD8, 0xDE, 32), (0x189, 0x18A, 205), (0x1B1, 0x1B2, 217), (0x388, 0x38A, 37),
   (0x38E, 0x38F, 63), (0x391, 0x3A1, 32), (0x3A3, 0x3AB, 32), (0x3FD, 0x3FF, -130), (0x400, 0x40F, 80),
   (0x410, 0x42F, 32), (0x531, 0x556, 48), (0x10A0, 0x10C5, 7264), (0x13A0, 0x13EF, 38864), (0x13F0, 0x13F5, 8),
   (0x1C90, 0x1CBA, -3008), (0x1CBD, 0x1CBF, -3008), (0x1F08, 0x1F0F, -8), (0x1F18, 0x1F1D, -8),
   (0x1F28, 0x1F2F, -8), (0x1F38, 0x1F3F, -8), (0x1F48, 0x1F4D, -8), (0x1F68, 0x1F6F, -8), (0x1F88, 0x1F8F, -8),
   (0x1F98, 0x1F9F, -8), (0x1FA8, 0x1FAF, -8), (0x1FB8, 0x1FB9, -8), (0x1FBA, 0x1FBB, -74), (0x1FC8, 0x1FCB, -86),
   (0x1FD8, 0x1FD9, -8), (0x1FDA, 0x1FDB, -100), (0x1FE8, 0x1FE9, -8), (0x1FEA, 0x1FEB, -112),
   (0x1FF8, 0x1FF9, -128), (0x1FFA, 0x1FFB, -126), (0x2160, 0x216F, 16), (0x24B6, 0x24CF, 26), (0x2C00, 0x2C2F, 48),
   (0x2C7E, 0x2C7F, -10815), (0xFF21, 0xFF3A, 32), (0x10400, 0x10427, 40), (0x104B0, 0x104D3, 40),
   (0x10570, 0x1057A, 39), (0x1057C, 0x1058A, 39), (0x1058C, 0x10592, 39), (0x10594, 0x10595, 39),
   (0x10C80, 0x10CB2, 64), (0x118A0, 0x118BF, 32), (0x16E40, 0x16E5F, 32), (0x1E900, 0x1E921, 34)]

def shiftedLetters : List (Nat × Int) :=
  [(0x178, -121), (0x181, 210), (0x186, 206), (0x18E, 79), (0x18F, 202), (0x190, 203), (0x193, 205), (0x194, 207),
   (0x196, 211), (0x197, 209), (0x19C, 211), (0x19D, 213), (0x19F, 214), (0x1A6, 218), (0x1A9, 218), (0x1AE, 218),
   (0x1B7, 219), (0x1C4, 2), (0x1C7, 2), (0x1CA, 2), (0x1F1, 2), (0x1F6, -97), (0x1F7, -56), (0x220, -130),
   (0x23A, 10795), (0x23D, -163), (0x23E, 10792), (0x243, -195), (0x244, 69), (0x245, 71), (0x37F, 116), (0x386, 38),
   (0x38C, 64), (0x3CF, 8), (0x3F4, -60), (0x3F9, -7), (0x4C0, 15), (0x10C7, 7264), (0x10CD, 7264), (0x1E9E, -7615),
   (0x1F59, -8), (0x1F5B, -8), (0x1F5D, -8), (0x1F5F, -8), (0x1FBC, -9), (0x1FCC, -9), (0x1FEC, -7), (0x1FFC, -9),
   (0x2126, -7517), (0x212A, -8383), (0x212B, -8262), (0x2132, 28), (0x2C62, -10743), (0x2C63, -3814),
   (0x2C64, -10727), (0x2C6D, -10780), (0x2C6E, -10749), (0x2C6F, -10783), (0x2C70, -10782), (0xA77D, -35332),
   (0xA78D, -42280), (0xA7AA, -42308), (0xA7AB, -42319), (0xA7AC, -42315), (0xA7AD, -42305), (0xA7AE, -42308),
   (0xA7B0, -42258), (0xA7B1, -42282), (0xA7B2, -42261), (0xA7B3, 928), (0xA7C4, -48), (0xA7C5, -42307),
   (0xA7C6, -35384)]

/-- Runs of capital letters beyond ASCII: the first, the last, the step to the next, and the distance to the small
    letters. -/
def lowerRuns : List (Nat × Nat × Nat × Int) :=
  alternatingRuns.map (fun (a, b) => (a, b, 2, (1 : Int))) ++ shiftedRuns.map (fun (a, b, d) => (a, b, 1, d)) ++
    shiftedLetters.map fun (a, d) => (a, a, 1, d)

/-- The small letter of a character, or the character. The capital I with a dot becomes a small i and a dot above. -/
def lowerChar (c : Char) : List Char :=
  let n := c.toNat
  if n < 128 then [c.toLower]
  else if n = 0x130 then ['i', Char.ofNat 0x307]
  else
    match lowerRuns.find? fun (a, b, step, _) => a ≤ n && n ≤ b && (n - a) % step == 0 with
    | some (_, _, _, d) => [Char.ofNat (n + d).toNat]
    | none => [c]

def meetsCased (cs : List Char) : Bool := (cs.dropWhile isIgnorable).head?.any isCased

/-- Whether a character ends a word: there is a letter before it, and none after it. `before` has its last character
    first. -/
def endsWord (before after : List Char) : Bool := meetsCased before && !meetsCased after

/-- The characters `cs` in small letters after `before`, whose last one is first. The capital sigma has its own small
    letter at the end of a word. -/
def lowerAfter (before : List Char) : List Char → List Char
  | [] => []
  | c :: cs =>
    let small := if c = 'Σ' then [if endsWord before cs then 'ς' else 'σ'] else lowerChar c
    small ++ lowerAfter (c :: before) cs

def lower (s : String) : String := String.ofList (lowerAfter [] s.toList)

example : lower "ΑΣ" = "ας" := by decide +kernel
example : lower "ΑΣ.Σ" = "ασ.ς" := by decide +kernel

end WatchFace.Text
