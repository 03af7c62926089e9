import WatchFace.Lua.Lexer
import WatchFace.Lua.Syntax

/-!
# Parsing scripts

A backtracking parser over tokens. A rule succeeds, declines without having consumed anything, or
aborts the whole parse with an error.

Every rule that nests another one has consumed a token before, so a depth of one more than the
number of tokens is enough.
-/

namespace WatchFace.Lua

inductive SyntaxError where
  | expecting (line column : Nat)
  | ambiguous (line offset : Nat)
  | noChunk
  | malformedNumber (text : String)
  deriving Repr, DecidableEq

def SyntaxError.message : SyntaxError → String
  | .expecting line column => s!"Error: Expecting one of * at line {line}, column {column}"
  | .ambiguous line offset => s!"({line},{offset}): Error: Ambiguous syntax detected"
  | .noChunk => "Error: Expecting a chunk"
  | .malformedNumber text => s!"could not convert string to float: '{text}'"

/-- What is left to read: the tokens, the token before them and the end of the script. -/
structure Cursor where
  rest : List Token
  last : Option Token := none
  stop : Place
  deriving Repr

def Cursor.ahead (c : Cursor) (n : Nat) : Token := (c.rest.drop n).headD ⟨.eof, c.stop, false⟩

/-- The error of a parse that cannot go on; it names the place of the token after the next. -/
def Cursor.unexpected (c : Cursor) : SyntaxError :=
  let p := (c.ahead 1).place
  .expecting p.line p.column

inductive Outcome (α : Type) where
  | ok (value : α) (next : Cursor)
  | no
  | abort (error : SyntaxError)

def Parser (α : Type) : Type := Cursor → Outcome α

namespace Parser

variable {α β : Type}

instance : Monad Parser where
  pure a := fun c => .ok a c
  bind p f := fun c =>
    match p c with
    | .ok a c' => f a c'
    | .no => .no
    | .abort e => .abort e

theorem bind_apply (p : Parser α) (f : α → Parser β) (c : Cursor) : (p >>= f) c =
    match p c with
    | .ok a c' => f a c'
    | .no => .no
    | .abort e => .abort e := rfl

def decline : Parser α := fun _ => .no

def orElse (p q : Parser α) : Parser α := fun c =>
  match p c with
  | .no => q c
  | o => o

def firstOf : List (Parser α) → Parser α
  | [] => decline
  | p :: ps => p.orElse (firstOf ps)

def optional (p : Parser α) : Parser (Option α) := fun c =>
  match p c with
  | .ok a c' => .ok (some a) c'
  | .no => .ok none c
  | .abort e => .abort e

def orAbortAt (at_ : Cursor) (p : Parser α) : Parser α := fun c =>
  match p c with
  | .no => .abort at_.unexpected
  | o => o

def required (p : Parser α) : Parser α := fun c => orAbortAt c p c

def here : Parser Cursor := fun c => .ok c c

def iterate (step : α → Parser (Option α)) (a : α) : Parser α := fun c =>
  match step a c with
  | .ok (some b) c' => if c'.rest.length < c.rest.length then iterate step b c' else .ok b c'
  | .ok none _ => .ok a c
  | .no => .no
  | .abort e => .abort e
termination_by c => c.rest.length

def many (p : Parser α) : Parser (List α) := do
  let found ← iterate (fun found => do return (← optional p).map (· :: found)) []
  return found.reverse

def token (f : Kind → Option α) : Parser (α × Place) := fun c =>
  match c.rest with
  | t :: rest =>
    match f t.kind with
    | some a => .ok (a, t.place) { c with rest := rest, last := some t }
    | none => .no
  | [] => .no

def keyword (words : List String) : Parser (String × Place) :=
  token fun
    | .keyword w => if words.contains w then some w else none
    | _ => none

def operator (signs : List String) : Parser (String × Place) :=
  token fun
    | .operator s => if signs.contains s then some s else none
    | _ => none

def word (w : String) : Parser Unit := do discard <| keyword [w]

def sign (s : String) : Parser Unit := do discard <| operator [s]

def name : Parser (String × Place) :=
  token fun
    | .name n => some n
    | _ => none

def plainName : Parser String := do return (← name).1

def nameList : Parser (List String) := do
  let n ← plainName
  let ns ← many (do sign ","; plainName)
  return n :: ns

end Parser

open Parser

structure Rules where
  block : Parser (List Stat)
  expr : Parser Expr
  operand : Parser Expr

namespace Rules

variable (r : Rules)

/-- Expressions with commas between them; a comma without one after it aborts at the start. -/
def exprList : Parser (List Expr) := do
  let start ← here
  let e ← r.expr
  let es ← many (do sign ","; orAbortAt start r.expr)
  return e :: es

def params : Parser (List String) := do
  let rest := do
    sign "..."
    return ["..."]
  let named := do
    let ns ← nameList
    let more ← optional (do sign ","; rest)
    return ns ++ more.getD []
  return (← optional (orElse named rest)).getD []

def funcBody : Parser (List String × List Stat) := do
  sign "("
  let ps ← params
  required (sign ")")
  let body ← r.block
  required (word "end")
  return (ps, body)

def field : Parser Field :=
  firstOf
    [ do
        sign "["
        let k ← r.expr
        sign "]"
        sign "="
        return .keyed k (← r.expr),
      do
        let (n, p) ← name
        sign "="
        return .keyed (.name n p.line) (← r.expr),
      do return .item (← r.expr) ]

def table : Parser Expr := do
  let separator := operator [",", ";"]
  sign "\x7b"
  let fields ← optional do
    let f ← field r
    let fs ← many (do discard separator; field r)
    discard (optional separator)
    return f :: fs
  sign "\x7d"
  return .table (fields.getD [])

def string : Parser Expr := do
  let (s, p) ← token fun
    | .string s => some (String.ofList (stringValue s.toList))
    | _ => none
  return .string s p.line

def arguments : Parser (List Expr) := do
  sign "("
  let args ← optional (exprList r)
  sign ")"
  return args.getD []

def anyArguments : Parser (List Expr) :=
  firstOf [arguments r, do return [← table r], do return [← string]]

/-- Refuses an opening parenthesis on a new line, which could also start a statement. -/
def unambiguous : Parser Unit := fun c =>
  let next := c.ahead 0
  match c.last with
  | some t =>
    if next.kind = .operator "(" ∧ next.broken then .abort (.ambiguous t.place.line t.place.offset)
    else .ok () c
  | none => .ok () c

def suffix (e : Expr) : Parser Expr :=
  firstOf
    [ do
        sign "."
        let (n, p) ← name
        return .index e (.name n p.line),
      do
        sign "["
        let k ← r.expr
        sign "]"
        return .index e k,
      do
        sign ":"
        let n ← plainName
        return .invoke e n (← anyArguments r),
      do
        unambiguous
        return .call e (← anyArguments r) ]

def var : Parser Expr := do
  let parenthesized := do
    sign "("
    let e ← r.expr
    sign ")"
    return e
  let named := do
    let (n, p) ← name
    return .name n p.line
  let e ← orElse parenthesized named
  iterate (fun e => optional (suffix r e)) e

/-- A number; a hexadecimal one may have neither point nor exponent. -/
def number : Parser Expr := do
  let (s, p) ← token fun
    | .number s => some s
    | _ => none
  if hexLength s.toList |>.isSome then
    if s.toList.any (fun c => c == '.' || c == 'p' || c == 'P') then
      fun _ => .abort (.malformedNumber s)
    else return .literal s p.line
  else return .literal s p.line

def atom : Parser Expr :=
  firstOf
    [ var r,
      do
        let (_, p) ← keyword ["function"]
        let (ps, body) ← funcBody r
        return .function ps body p.line,
      table r,
      do
        let _ ← operator ["..."]
        return .arguments,
      number,
      string,
      do
        let (w, p) ← keyword ["nil", "true", "false"]
        return .literal w p.line ]

/-- Operands with operators between them, grouped from the left; none if the last one is missing. -/
def chain (signs words : List String) (operand : Parser Expr) : Parser Expr := do
  let first ← operand
  let step (left : Expr) : Parser (Option Expr) := do
    match ← optional (orElse (operator signs) (keyword words)) with
    | none => return none
    | some (op, _) => return some (.binary op left (← operand))
  iterate step first

def power : Parser Expr := chain ["^"] [] (atom r)

def unary : Parser Expr :=
  let applied (op : Parser (String × Place)) (p : Parser Expr) : Parser Expr := do
    let (s, place) ← op
    return .unary s (← p) place.line
  firstOf
    [ applied (operator ["-"]) r.operand, applied (operator ["#"]) (power r),
      applied (keyword ["not"]) r.operand, applied (operator ["~"]) r.operand, power r ]

def sum : Parser Expr :=
  chain ["+", "-"] [] <| chain ["*", "/", "%", "//"] [] <|
    chain ["&", "|", "~", ">>", "<<"] [] (unary r)

/-- Concatenations. A missing operand aborts at the start of the concatenation. -/
def concatenation : Parser Expr := do
  let start ← here
  let first ← sum r
  let step (left : Expr) : Parser (Option Expr) := do
    match ← optional (operator [".."]) with
    | none => return none
    | some (op, _) => return some (.binary op left (← orAbortAt start (sum r)))
  iterate step first

def comparison : Parser Expr := do
  let left ← concatenation r
  match ← optional (operator ["<", ">", "<=", ">=", "~=", "=="]) with
  | none => return left
  | some (op, _) => return .binary op left (← concatenation r)

def expression : Parser Expr := chain [] ["or"] (chain [] ["and"] (comparison r))

def doBlock : Parser (List Stat) := do
  word "do"
  let body ← r.block
  word "end"
  return body

def assignment : Parser Stat := do
  let t ← var r
  let ts ← many (do sign ","; var r)
  sign "="
  let vs ← required (exprList r)
  return .assign (t :: ts) vs

def localStat : Parser Stat := do
  let start ← here
  let (_, p) ← keyword ["local"]
  let plain := do
    let ns ← nameList
    match ← optional (sign "=") with
    | none => return .locals ns []
    | some _ => return .locals ns (← orAbortAt start (exprList r))
  let function := do
    word "function"
    let n ← plainName
    let (ps, body) ← funcBody r
    return .localFunction n ps body p.line
  required (orElse plain function)

def otherwise : Parser (List Stat) := do
  let clause := do
    word "elseif"
    let test ← r.expr
    word "then"
    return (test, ← r.block)
  let clauses ← many clause
  let last ← optional (do word "else"; r.block)
  return clauses.foldr (fun (test, body) rest => [.choice test body rest]) (last.getD [])

def choice : Parser Stat := do
  word "if"
  let test ← required r.expr
  required (word "then")
  let body ← r.block
  let rest ← otherwise r
  required (word "end")
  return .choice test body rest

def countHead : Parser (String × Expr × Expr × Option Expr) := do
  let n ← plainName
  sign "="
  let start ← r.expr
  sign ","
  let stop ← r.expr
  let step ← optional (do sign ","; optional r.expr)
  return (n, start, stop, step.getD none)

def forStat : Parser Stat := do
  word "for"
  match ← optional (countHead r) with
  | some (n, start, stop, step) => return .count n start stop step (← doBlock r)
  | none =>
    let ns ← nameList
    word "in"
    let es ← exprList r
    return .iterate ns es (← doBlock r)

def functionStat : Parser Stat := do
  let (_, p) ← keyword ["function"]
  let path ← required do
    let n ← plainName
    let ns ← many (do sign "."; plainName)
    return n :: ns
  let method := do
    sign ":"
    let n ← plainName
    let (ps, body) ← funcBody r
    return .method path n ps body
  let plain := do
    let (ps, body) ← funcBody r
    return .function path ps body p.line
  required (orElse method plain)

def statement : Parser Stat :=
  firstOf
    [ assignment r,
      do return .bare (← var r),
      do
        word "while"
        let test ← required r.expr
        return .loop test (← required (doBlock r)),
      do
        word "repeat"
        let body ← r.block
        word "until"
        return .untilLoop body (← r.expr),
      localStat r,
      do
        word "goto"
        return .goto (← plainName),
      choice r,
      forStat r,
      functionStat r,
      do
        sign "::"
        let n ← plainName
        sign "::"
        return .label n,
      do return .block (← doBlock r),
      do
        word "break"
        return .leave,
      do
        sign ";"
        return .empty ]

def blockOf : Parser (List Stat) := do
  let ss ← many (statement r)
  let last ← optional do
    word "return"
    let vs ← optional (exprList r)
    discard (optional (sign ";"))
    return Stat.yield (vs.getD [])
  return ss ++ last.toList

def deeper : Rules where
  block := blockOf r
  expr := expression r
  operand := unary r

def upTo : Nat → Rules
  | 0 => ⟨decline, decline, decline⟩
  | n + 1 => (upTo n).deeper

end Rules

def parseTokens (ts : List Token) (stop : Place) : Except SyntaxError (List Stat) :=
  match (Rules.upTo (ts.length + 1)).block { rest := ts, stop := stop } with
  | .ok b c => if c.rest.isEmpty then .ok b else .error .noChunk
  | .no => .error .noChunk
  | .abort e => .error e

def parse (code : List Char) : Except SyntaxError (List Stat) :=
  let (ts, stop) := tokenize code
  parseTokens ts stop

end WatchFace.Lua
