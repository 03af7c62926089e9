import WatchFace.Lua.Diagnostic
import WatchFace.Text.Blank
import WatchFace.Text.Search

/-!
# A rough check without a parser

A script is checked by the words at the starts of its lines and by its brackets, both outside of strings and comment
lines.
-/

namespace WatchFace.Lua.Outline

/-- A line without its string literals. A quote ends the literal it started unless a backslash is right before it;
    `quote` is that of the literal being read and `previous` the character before. -/
def withoutStringsFrom (quote : Option Char) (previous : Char) : List Char → List Char
  | [] => []
  | c :: cs =>
    match quote with
    | none =>
      if c = '"' ∨ c = '\'' then withoutStringsFrom (some c) c cs
      else c :: withoutStringsFrom none c cs
    | some q =>
      if c = q ∧ previous ≠ '\\' then withoutStringsFrom none c cs
      else withoutStringsFrom (some q) c cs

def withoutStrings (line : List Char) : List Char := withoutStringsFrom none ' ' line

def cleanLines (code : List Char) : List (Nat × List Char) :=
  (Text.splitLines code).zipIdx.filterMap fun (line, i) =>
    let stripped := Text.strip line
    if stripped.isEmpty || ['-', '-'].isPrefixOf stripped then none
    else some (i, withoutStrings stripped)

def openers : List String := ["function", "if", "for", "while", "do", "repeat"]

def startsWithWord (word : String) (after : List Char) (line : List Char) : Bool :=
  word.toList.isPrefixOf line &&
    match line.drop word.length with
    | [] => true
    | c :: _ => after.contains c

def opener? (line : List Char) : Option String :=
  openers.find? fun w => startsWithWord w [' ', '('] line

def endsBlock (line : List Char) : Bool := startsWithWord "end" [' ', ')', ','] line

def endsLoop (line : List Char) : Bool := startsWithWord "until" [' '] line

structure OpenBlock where
  word : String
  line : Nat
  deriving Repr, DecidableEq

def stepBlocks (blocks : List OpenBlock) (i : Nat) (line : List Char) :
    List OpenBlock × List Diagnostic :=
  let opened :=
    match opener? line with
    | some w => ⟨w, i⟩ :: blocks
    | none => blocks
  if endsBlock line then
    match opened with
    | _ :: rest => (rest, [])
    | [] => ([], [{ line := i, message := "Unexpected 'end'", rule := .blocks }])
  else if endsLoop line then
    match opened with
    | b :: rest => (if b.word = "repeat" then rest else opened, [])
    | [] => ([], [])
  else (opened, [])

inductive Bracket where
  | round | square | curly
  deriving Repr, DecidableEq

def Bracket.opening : Bracket → Char
  | .round => '('
  | .square => '['
  | .curly => '\x7b'

def Bracket.closing : Bracket → Char
  | .round => ')'
  | .square => ']'
  | .curly => '\x7d'

def Bracket.all : List Bracket := [.round, .square, .curly]

structure Balance where
  depth : Nat := 0
  line : Nat := 0
  deriving Repr, DecidableEq, Inhabited

structure Balances where
  round : Balance := {}
  square : Balance := {}
  curly : Balance := {}
  deriving Repr, DecidableEq, Inhabited

def Balances.get (b : Balances) : Bracket → Balance
  | .round => b.round
  | .square => b.square
  | .curly => b.curly

def Balances.set (b : Balances) (k : Bracket) (v : Balance) : Balances :=
  match k with
  | .round => { b with round := v }
  | .square => { b with square := v }
  | .curly => { b with curly := v }

def Balance.step (b : Balance) (k : Bracket) (i : Nat) (c : Char) : Balance × Bool :=
  if c = k.opening then (⟨b.depth + 1, if b.depth = 0 then i else b.line⟩, false)
  else if c = k.closing then
    match b.depth with
    | 0 => (⟨0, b.line⟩, true)
    | d + 1 => (⟨d, b.line⟩, false)
  else (b, false)

def unmatched (k : Bracket) (i : Nat) : Diagnostic :=
  { line := i, message := "Unmatched '" ++ k.closing.toString ++ "'", rule := .brackets }

def unclosed (k : Bracket) (i : Nat) : Diagnostic :=
  { line := i, message := "Unclosed '" ++ k.opening.toString ++ "'", rule := .brackets }

def stepChar (b : Balances) (i : Nat) (c : Char) : Balances × List Diagnostic :=
  Bracket.all.foldl (fun (acc : Balances × List Diagnostic) k =>
    let (v, wrong) := (acc.1.get k).step k i c
    (acc.1.set k v, if wrong then acc.2 ++ [unmatched k i] else acc.2)) (b, [])

def stepChars (b : Balances) (i : Nat) : List Char → Balances × List Diagnostic
  | [] => (b, [])
  | c :: cs =>
    let (b, wrong) := stepChar b i c
    let (b, more) := stepChars b i cs
    (b, wrong ++ more)

structure State where
  blocks : List OpenBlock := []
  balances : Balances := {}
  deriving Repr

def run (s : State) : List (Nat × List Char) → State × List Diagnostic
  | [] => (s, [])
  | (i, line) :: rest =>
    let (blocks, wrongEnd) := stepBlocks s.blocks i line
    let (balances, wrongBrackets) := stepChars s.balances i line
    let (s, more) := run ⟨blocks, balances⟩ rest
    (s, wrongEnd ++ wrongBrackets ++ more)

def unclosedBlock (b : OpenBlock) : Diagnostic :=
  { line := b.line
    message := s!"Unclosed block: '{b.word}' started at line {b.line + 1}"
    rule := .blocks }

def leftOpen (s : State) : List Diagnostic :=
  s.blocks.reverse.map unclosedBlock ++
    Bracket.all.filterMap fun k =>
      let b := s.balances.get k
      if b.depth = 0 then none else some (unclosed k b.line)

def check (code : List Char) : List Diagnostic :=
  let (s, wrong) := run {} (cleanLines code)
  wrong ++ leftOpen s

end WatchFace.Lua.Outline
