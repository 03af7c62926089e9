import WatchFace.Text.Quote

/-!
# JSON

Values in the notation in which sessions are written down.
-/

namespace WatchFace

inductive Json where
  | null
  | bool (b : Bool)
  | num (text : String)
  | str (s : String)
  | arr (items : List Json)
  | obj (fields : List (String × Json))
  deriving Repr, Inhabited

namespace Json

def escape (c : Char) : List Char :=
  if c = '"' then ['\\', '"']
  else if c = '\\' then ['\\', '\\']
  else if c.toNat < 32 || c.toNat = 127 then '\\' :: 'u' :: Text.hex 4 c.toNat
  else [c]

def quote (s : String) : String := String.ofList ('"' :: s.toList.flatMap escape ++ ['"'])

mutual

def render : Json → String
  | null => "null"
  | bool b => if b then "true" else "false"
  | num t => t
  | str s => quote s
  | arr xs => "[" ++ ",".intercalate (renderItems xs) ++ "]"
  | obj fs => "\x7b" ++ ",".intercalate (renderFields fs) ++ "\x7d"

def renderItems : List Json → List String
  | [] => []
  | x :: xs => render x :: renderItems xs

def renderFields : List (String × Json) → List String
  | [] => []
  | (k, v) :: fs => (quote k ++ ":" ++ render v) :: renderFields fs

end

def int (n : Int) : Json := .num (toString n)

def nat (n : Nat) : Json := .num (toString n)

def opt {α : Type} (f : α → Json) : Option α → Json
  | some a => f a
  | none => .null

def list {α : Type} (f : α → Json) (xs : List α) : Json := .arr (xs.map f)

def strs (xs : List String) : Json := list .str xs

def get? (j : Json) (key : String) : Option Json :=
  match j with
  | obj fs => (fs.reverse.find? (·.1 == key)).map (·.2)
  | _ => none

def get (j : Json) (key : String) : Json := (j.get? key).getD .null

def items : Json → List Json
  | arr xs => xs
  | _ => []

def nth (j : Json) (i : Nat) : Json := j.items.getD i .null

def isNull : Json → Bool
  | null => true
  | _ => false

def text? : Json → Option String
  | str s => some s
  | _ => none

def text (j : Json) : String := j.text?.getD ""

def texts (j : Json) : List String := j.items.map text

def whole? : Json → Option Int
  | num t => t.toInt?
  | _ => none

def whole : Json → Int
  | bool b => if b then 1 else 0
  | j => j.whole?.getD 0

def holds : Json → Bool
  | bool b => b
  | null => false
  | num t => (t.toList.takeWhile fun c => c != 'e' && c != 'E').any fun c => '1' ≤ c && c ≤ '9'
  | str s => s != ""
  | arr xs => !xs.isEmpty
  | obj fs => !fs.isEmpty

end Json

end WatchFace
