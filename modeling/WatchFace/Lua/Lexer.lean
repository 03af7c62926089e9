import WatchFace.Lua.Token
import WatchFace.Text.Search

/-!
# Splitting a script into tokens

At each place the longest lexeme wins. Where no lexeme starts, the longest text that could still
begin one is passed over together with the character that spoils it, so every script has tokens.
-/

namespace WatchFace.Lua

def isDecimal (c : Char) : Bool := '0' ≤ c && c ≤ '9'

def isHex (c : Char) : Bool := isDecimal c || ('a' ≤ c && c ≤ 'f') || ('A' ≤ c && c ≤ 'F')

def isNameStart (c : Char) : Bool := ('a' ≤ c && c ≤ 'z') || ('A' ≤ c && c ≤ 'Z') || c == '_'

def isNameChar (c : Char) : Bool := isNameStart c || isDecimal c

def inLine (c : Char) : Bool := c != '\r' && c != '\n'

def spanLength (p : Char → Bool) (cs : List Char) : Nat := (cs.takeWhile p).length

def nameLength : List Char → Option Nat
  | c :: cs => if isNameStart c then some (1 + spanLength isNameChar cs) else none
  | [] => none

def exponentLength (marks : List Char) : List Char → Nat
  | e :: cs =>
    if marks.contains e then
      match cs with
      | s :: ds =>
        if s == '+' || s == '-' then
          let n := spanLength isDecimal ds
          if n = 0 then 0 else 2 + n
        else
          let n := spanLength isDecimal cs
          if n = 0 then 0 else 1 + n
      | [] => 0
    else 0
  | [] => 0

def fractionLength (p : Char → Bool) : List Char → Nat
  | '.' :: cs => 1 + spanLength p cs
  | _ => 0

def scaledLength (p : Char → Bool) (marks : List Char) (cs : List Char) : Option Nat :=
  let n := spanLength p cs
  if n = 0 then none
  else
    let m := n + fractionLength p (cs.drop n)
    some (m + exponentLength marks (cs.drop m))

def pointedLength : List Char → Option Nat
  | '.' :: cs =>
    let n := 1 + spanLength isDecimal cs
    if n = 1 then none else some (n + exponentLength ['e', 'E'] (('.' :: cs).drop n))
  | _ => none

def hexLength : List Char → Option Nat
  | '0' :: x :: cs =>
    if x == 'x' || x == 'X' then (scaledLength isHex ['p', 'P'] cs).map (2 + ·) else none
  | _ => none

def longer (a b : Option Nat) : Option Nat :=
  match a, b with
  | some m, some n => some (max m n)
  | some m, none => some m
  | none, b => b

def numberLength (cs : List Char) : Option Nat :=
  longer (hexLength cs) (longer (scaledLength isDecimal ['e', 'E'] cs) (pointedLength cs))

/-- How reading a quoted string ended, after so many characters: closed, or spoiled by one that cannot go on or by the
    end of the script. -/
inductive Quoted where
  | closed (length : Nat)
  | spoiled (length : Nat)
  deriving Repr, DecidableEq

def simpleEscapes : List Char := ['a', 'b', 'f', 'n', 'r', 't', 'v', 'z', '"', '\'', '\\', '\n']

/-- Reads the rest of a string quoted by `q`, of which `n` characters are read. -/
def quotedFrom (q : Char) (n : Nat) : List Char → Quoted
  | [] => .spoiled n
  | '\\' :: [] => .spoiled (n + 1)
  | '\\' :: 'x' :: cs =>
    match cs with
    | h :: l :: cs =>
      if isHex h && isHex l then quotedFrom q (n + 4) cs
      else if isHex h then .spoiled (n + 3) else .spoiled (n + 2)
    | [h] => if isHex h then .spoiled (n + 3) else .spoiled (n + 2)
    | [] => .spoiled (n + 2)
  | '\\' :: '\r' :: '\n' :: cs => quotedFrom q (n + 3) cs
  | '\\' :: e :: cs =>
    if simpleEscapes.contains e || e == '\r' || isDecimal e then quotedFrom q (n + 2) cs
    else .spoiled (n + 1)
  | c :: cs =>
    if c == q then .closed (n + 1)
    else if inLine c then quotedFrom q (n + 1) cs
    else .spoiled n

def quoted? : List Char → Option Quoted
  | c :: cs => if c == '"' || c == '\'' then some (quotedFrom c 1 cs) else none
  | [] => none

def longBracketLength : List Char → Option Nat
  | '[' :: cs =>
    let level := spanLength (· == '=') cs
    match cs.drop level with
    | '[' :: body =>
      let close := ']' :: List.replicate level '=' ++ [']']
      (Text.findSub? close body).map (level + 2 + · + close.length)
    | _ => none
  | _ => none

def stringLength (cs : List Char) : Option Nat :=
  match quoted? cs with
  | some (.closed n) => some n
  | _ => longBracketLength cs

/-- A comment: two hyphens with a long bracket, or with the rest of the line. An opening of a long
    bracket that is never closed ends a line comment before its second bracket. -/
def commentLength : List Char → Option Nat
  | '-' :: '-' :: cs =>
    let line :=
      match cs with
      | '[' :: ds =>
        let level := spanLength (· == '=') ds
        match ds.drop level with
        | c :: es =>
          if c != '[' && inLine c then level + 2 + spanLength inLine es else level + 1
        | [] => level + 1
      | _ => spanLength inLine cs
    some (2 + max line ((longBracketLength cs).getD 0))
  | _ => none

def shebangLength : List Char → Option Nat
  | '#' :: '!' :: cs => some (2 + spanLength inLine cs)
  | _ => none

def runLength (p : Char → Bool) (cs : List Char) : Option Nat :=
  let n := spanLength p cs
  if n = 0 then none else some n

def operatorLength (cs : List Char) : Option Nat :=
  (operators.find? fun o => o.toList.isPrefixOf cs).map (·.length)

inductive LexClass where
  | name | number | string | operator | comment | space | lineBreak | junk
  deriving Repr, DecidableEq

def lexRules : List (LexClass × (List Char → Option Nat)) :=
  [(.name, nameLength), (.number, numberLength), (.string, stringLength),
   (.comment, commentLength), (.comment, shebangLength),
   (.space, runLength fun c => c == ' ' || c == '\t'),
   (.lineBreak, runLength fun c => c == '\r' || c == '\n' || c == '\x0c'),
   (.operator, operatorLength)]

def longerLexeme (best : Option (LexClass × Nat)) (k : LexClass) : Option Nat → Option (LexClass × Nat)
  | none => best
  | some n =>
    match best with
    | some (k', m) => if m < n then some (k, n) else some (k', m)
    | none => some (k, n)

def longestLexeme (cs : List Char) : Option (LexClass × Nat) :=
  lexRules.foldl (fun best rule => longerLexeme best rule.1 (rule.2 cs)) none

/-- How many characters to pass over where no lexeme starts: the longest beginning of one, and one more. -/
def junkLength (cs : List Char) : Nat :=
  match quoted? cs with
  | some (.spoiled n) => n + 1
  | _ => 1

def lexeme (cs : List Char) : LexClass × Nat :=
  (longestLexeme cs).getD (.junk, junkLength cs)

def LexClass.kind? (k : LexClass) (text : List Char) : Option Kind :=
  let s := String.ofList text
  match k with
  | .name => some (if keywords.contains s then .keyword s else .name s)
  | .number => some (.number s)
  | .string => some (.string s)
  | .operator => some (.operator s)
  | _ => none

/-- The tokens of the text that starts at place `p`, and where it ends; `broken` tells of a line break since the last
    token. -/
def tokensFrom (p : Place) (broken : Bool) (cs : List Char) : List Token × Place :=
  match cs with
  | [] => ([], p)
  | c :: cs =>
    let (k, n) := lexeme (c :: cs)
    let text := c :: cs.take (n - 1)
    let q := p.after text
    match k.kind? text with
    | some kind =>
      let (ts, stop) := tokensFrom q false (cs.drop (n - 1))
      (⟨kind, p, broken⟩ :: ts, stop)
    | none => tokensFrom q (broken || k == .lineBreak) (cs.drop (n - 1))
termination_by cs.length
decreasing_by all_goals simp only [List.length_drop, List.length_cons]; omega

def tokenize (code : List Char) : List Token × Place := tokensFrom {} false code

end WatchFace.Lua
