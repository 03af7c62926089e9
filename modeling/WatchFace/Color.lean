import WatchFace.Value

/-!
# Colours

Six hexadecimal digits, or eight with the opacity last, with or without a number sign before them.
-/

namespace WatchFace

structure Color where
  red : Int := 255
  green : Int := 255
  blue : Int := 255
  alpha : Int := 255
  valid : Bool := true
  deriving Repr, DecidableEq, Inhabited

namespace Color

def pair? (cs : List Char) (i : Nat) : Option Int := Number.readHex? ((cs.drop i).take 2)

def readParts (cs : List Char) (c : Color) : List (Nat × (Color → Int → Color)) → Color
  | [] => c
  | (i, put) :: rest =>
    match pair? cs i with
    | some n => readParts cs (put c n) rest
    | none => { c with valid := false }

def parse (s : String) : Color :=
  let cs := s.toList.dropWhile (· == '#')
  let parts : List (Nat × (Color → Int → Color)) :=
    (if 6 ≤ cs.length then
      [(0, fun c n => { c with red := n }), (2, fun c n => { c with green := n }),
       (4, fun c n => { c with blue := n })] else []) ++
    (if 8 ≤ cs.length then [(6, fun c n => { c with alpha := n })] else [])
  readParts cs {} parts

/-- The colour with given parts, or from a single text; other single values and pairs give white. Red, green and blue
    have to be whole numbers. -/
def ofParts? : List Value → Option Color
  | [.text s] => some (parse s)
  | r :: g :: b :: more =>
    match r.quantity?, g.quantity?, b.quantity?, (more.headD (.int 255)).quantity? with
    | some (.whole r), some (.whole g), some (.whole b), some (.whole a) =>
      some { red := r, green := g, blue := b, alpha := a }
    | some (.whole r), some (.whole g), some (.whole b), _ =>
      some { red := r, green := g, blue := b }
    | _, _, _, _ => none
  | _ => some {}

def digits (n : Int) : List Char := Text.hex 2 (n % 256).toNat

def name (c : Color) : String :=
  String.ofList ('#' :: digits c.red ++ digits c.green ++ digits c.blue)

def code (c : Color) : String :=
  String.ofList (digits c.red ++ digits c.green ++ digits c.blue)

end Color

end WatchFace
