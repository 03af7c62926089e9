import WatchFace.Lua.Diagnostic
import WatchFace.Text.Blank
import WatchFace.Text.Numeral
import WatchFace.Text.Search

/-!
# Reading a parser's reports

Reports are lines such as `line 4:0 missing 'end'`, or one message that may name a line.
-/

namespace WatchFace.Lua.Report

open Text

structure Raw where
  line : List Char
  column : List Char
  message : List Char
  deriving Repr, DecidableEq

def run? (p : Char → Bool) (cs : List Char) : Option (List Char × List Char) :=
  let run := cs.takeWhile p
  if run.isEmpty then none else some (run, cs.dropWhile p)

def after? (text cs : List Char) : Option (List Char) :=
  if text.isPrefixOf cs then some (cs.drop text.length) else none

def lineNumber? (cs : List Char) : Option (List Char × List Char) := do
  let cs ← after? "line".toList cs
  let (_, cs) ← run? isBlank cs
  let (digits, cs) ← run? isDigit cs
  let cs ← after? [':'] cs
  return (digits, cs)

def untilNext : List Char → List Char
  | [] => []
  | c :: cs => if (lineNumber? (c :: cs)).isSome then [] else c :: untilNext cs

/-- The message of a report in the text after the numbers, which is not empty. Blanks separate it from them, and of two
    or more blanks alone the last is the message. -/
def message? (cs : List Char) : Option (List Char × List Char) := do
  let (blanks, rest) ← run? isBlank cs
  match rest with
  | c :: more => return (blanks, c :: untilNext more)
  | [] => if blanks.length < 2 then none else return (blanks.dropLast, blanks.drop (blanks.length - 1))

def reportAt? (cs : List Char) : Option (Raw × Nat) := do
  let (line, afterLine) ← lineNumber? cs
  let (column, afterColumn) ← run? isDigit afterLine
  let (blanks, message) ← message? afterColumn
  return (⟨line, column, message⟩,
    cs.length - afterColumn.length + blanks.length + message.length)

def scanAfter : Nat → List Char → List Raw
  | _, [] => []
  | skip + 1, _ :: cs => scanAfter skip cs
  | 0, c :: cs =>
    match reportAt? (c :: cs) with
    | some (r, n) => r :: scanAfter (n - 1) cs
    | none => scanAfter 0 cs

def scan (output : List Char) : List Raw := scanAfter 0 output

def quotedAfter? (intro : List Char) : List Char → Option (List Char)
  | [] => none
  | c :: cs =>
    let here := do
      let rest ← after? intro (c :: cs)
      let (_, rest) ← run? isBlank rest
      let rest ← after? ['\''] rest
      let inner := rest.takeWhile (· != '\'')
      if inner.length < rest.length then some inner else none
    here.orElse fun _ => quotedAfter? intro cs

def escapedBreak : List Char := ['\\', 'n']

/-- The token that a message complains about, maybe empty: what is "at input", up to an escaped line feed, or else the
    "mismatched input". -/
def token? (message : List Char) : Option (List Char) :=
  match quotedAfter? "at input".toList message with
  | some t => some (strip ((splitOn escapedBreak t).headD []))
  | none => (quotedAfter? "mismatched input".toList message).map strip

def brokenQuote? : List Char → Option (List Char × Nat)
  | c :: cs =>
    let inner := cs.takeWhile (· != '\'')
    if c = '\'' ∧ inner.length < cs.length then
      (findSub? escapedBreak inner).map fun n => (inner.take n, inner.length + 2)
    else none
  | [] => none

def cutQuotesAfter : Nat → List Char → List Char
  | _, [] => []
  | skip + 1, _ :: cs => cutQuotesAfter skip cs
  | 0, c :: cs =>
    match brokenQuote? (c :: cs) with
    | some (kept, n) => '\'' :: kept ++ ['\''] ++ cutQuotesAfter (n - 1) cs
    | none => c :: cutQuotesAfter 0 cs

def flatMessage (message : List Char) : List Char :=
  strip (replaceAll ['\n'] [' '] (strip message))

def cleanMessage (message : List Char) : List Char :=
  strip (replaceAll escapedBreak [' '] (cutQuotesAfter 0 message))

/-- The offset at which a line starts; lines past the last one start after the end. -/
def lineStart (lines : List (List Char)) (i : Nat) : Nat :=
  (lines.take i).foldl (fun n line => n + (line.length + 1)) 0

def lastLineWith? (text : List Char) (lines : List (List Char)) : Nat → Option (Nat × Nat)
  | 0 => none
  | n + 1 =>
    match (lines[n]?).bind (findSub? text) with
    | some column => some (n, column)
    | none => lastLineWith? text lines n

/-- Where a report is placed: its line from zero (minus one for line zero), its column, and its message for display. -/
structure Located where
  line : Int
  column : Nat
  message : List Char
  token : List Char
  deriving Repr, DecidableEq

def locate (lines : List (List Char)) (line column : Nat) (message : List Char) : Located :=
  let flat := flatMessage message
  let token := (token? flat).getD []
  let found := if token.isEmpty then none else lastLineWith? token lines (min line lines.length)
  let clean := cleanMessage flat
  match found with
  | some (l, c) => ⟨l, c, clean, token⟩
  | none => ⟨line - 1, column, clean, token⟩

def Located.diagnostic (lines : List (List Char)) (r : Located) : Diagnostic where
  line := r.line.toNat
  column := r.column
  message := String.ofList r.message
  rule := .grammar
  span := some ⟨lineStart lines r.line.toNat + r.column, max 1 r.token.length⟩

def distinct (seen : List (Int × List Char)) : List Located → List Located
  | [] => []
  | r :: rs =>
    if seen.contains (r.line, r.message) then distinct seen rs
    else r :: distinct ((r.line, r.message) :: seen) rs

def Raw.locate (lines : List (List Char)) (r : Raw) : Except TooManyDigits Located := do
  let line ← readDigits r.line
  let column ← readDigits r.column
  return Report.locate lines line column r.message

def ofOutput (output code : List Char) : Except TooManyDigits (List Diagnostic) := do
  let lines := splitLines code
  let located ← (scan output).mapM (Raw.locate lines)
  return (distinct [] located).map (Located.diagnostic lines)

/-- The word "line" in letters of either case, the dotted and the dotless i included. -/
def lineWord? : List Char → Option (List Char)
  | l :: i :: n :: e :: cs =>
    if (l == 'l' || l == 'L') && (i == 'i' || i == 'I' || i == 'İ' || i == 'ı') &&
        (n == 'n' || n == 'N') && (e == 'e' || e == 'E') then some cs
    else none
  | _ => none

def namedLine? : List Char → Option (List Char × List Char)
  | [] => none
  | c :: cs =>
    let here := do
      let rest ← lineWord? (c :: cs)
      run? isDigit (rest.dropWhile isBlank)
    here.orElse fun _ => namedLine? cs

def ofMessage (message code : List Char) : Except TooManyDigits Diagnostic := do
  let (line, column) ←
    match namedLine? message with
    | none => pure (0, 0)
    | some (digits, rest) => do
      let line ← readDigits digits
      match (after? [':'] rest).bind (run? isDigit) with
      | some (digits, _) => do pure (line - 1, ← readDigits digits)
      | none => pure (line - 1, 0)
  let text := if message = "syntax errors".toList then "Syntax error in code" else String.ofList message
  return {
    line := line
    column := column
    message := text
    rule := .grammar
    span := some ⟨lineStart (splitLines code) line + column, 10⟩ }

def ofFault (message : List Char) : Except TooManyDigits Diagnostic := do
  let line ←
    match namedLine? message with
    | none => pure 0
    | some (digits, _) => do pure ((← readDigits digits) - 1)
  return { line := line, message := String.ofList message, rule := .grammar }

def expectation : List Char := "Expecting one of ".toList

def startsWithPlace (cs : List Char) : Bool :=
  let rest := do
    let cs ← after? " at line ".toList cs
    let (_, cs) ← run? isDigit cs
    let cs ← after? ", column ".toList cs
    run? isDigit cs
  rest.isSome

def lastPlace? : List Char → Option (List Char)
  | [] => none
  | c :: cs =>
    (lastPlace? cs).orElse fun _ => if startsWithPlace (c :: cs) then some (c :: cs) else none

/-- A message with a star for the list of what was expected, which has no order of its own: from the first such words to
    the last place. -/
def brief (message : List Char) : List Char :=
  let short := do
    let n ← findSub? expectation message
    let place ← lastPlace? (message.drop (n + expectation.length))
    return message.take n ++ expectation ++ '*' :: place
  short.getD message

example : brief "no: Expecting one of 'a', 'b' at line 3, column 4.".toList =
    "no: Expecting one of * at line 3, column 4.".toList := by decide +kernel

end WatchFace.Lua.Report
