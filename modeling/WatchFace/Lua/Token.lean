/-!
# Lua tokens
-/

namespace WatchFace.Lua

/-- What a token is; the text of a number or string is its text in the script. -/
inductive Kind where
  | keyword (text : String)
  | operator (text : String)
  | name (text : String)
  | number (text : String)
  | string (text : String)
  | eof
  deriving Repr, DecidableEq, Inhabited

/-- A place in a script. Lines end at line feeds and count from one; the column counts the characters since the last
    line feed, the offset since the start. -/
structure Place where
  line : Nat := 1
  column : Nat := 0
  offset : Nat := 0
  deriving Repr, DecidableEq, Inhabited

def Place.next (p : Place) (c : Char) : Place :=
  if c = '\n' then ⟨p.line + 1, 0, p.offset + 1⟩ else ⟨p.line, p.column + 1, p.offset + 1⟩

def Place.after (p : Place) (cs : List Char) : Place := cs.foldl Place.next p

/-- A token: its kind, where it starts, and whether line breaks are before it. -/
structure Token where
  kind : Kind
  place : Place
  broken : Bool := false
  deriving Repr, DecidableEq, Inhabited

def keywords : List String :=
  ["and", "break", "do", "else", "elseif", "end", "false", "for", "function", "goto", "if", "in",
   "local", "nil", "not", "or", "repeat", "return", "then", "true", "until", "while"]

def operators : List String :=
  ["...", "//", "==", "~=", "<=", ">=", ">>", "<<", "::", "..", "+", "-", "*", "/", "%", "^", "#",
   "<", ">", "=", "&", "|", "~", "(", ")", "\x7b", "\x7d", "[", "]", ":", ",", ".", ";"]

def beforeLastClose : List Char → Option (List Char)
  | [] => none
  | c :: cs =>
    match beforeLastClose cs with
    | some before => some (c :: before)
    | none =>
      if c = ']' ∧ cs.head? = some '=' ∧ (cs.dropWhile (· == '=')).head? = some ']' then some []
      else none

/-- The contents of a string token. Between quotes or level-zero brackets it is the text as it stands. Between brackets
    of a higher level it is the text up to the last closing bracket of the first line, and the whole token where that
    line has none. -/
def stringValue (text : List Char) : List Char :=
  match text with
  | '[' :: '[' :: cs => cs.take (cs.length - 2)
  | '[' :: cs =>
    let inner := (cs.dropWhile (· == '=')).drop 1
    (beforeLastClose (inner.takeWhile (· != '\n'))).getD text
  | _ :: cs => cs.take (cs.length - 1)
  | [] => []

example : stringValue "[==[a]=]b]==]".toList = "a]=]b".toList := by decide
example : stringValue "[=[a\nb]=]".toList = "[=[a\nb]=]".toList := by decide

end WatchFace.Lua
