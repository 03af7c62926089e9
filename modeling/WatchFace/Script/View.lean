import WatchFace.Lua.Checker
import WatchFace.Lua.Format
import WatchFace.Script.Completion
import WatchFace.Text.Letter

/-!
# The script view

Every operation gives the new view and what it caused, in order.
-/

namespace WatchFace.Script

/-- What an operation causes: marks, highlights, lists offered, messages, and calls to those who use the view. -/
inductive Effect where
  | addMark (line : Int) (kind : Nat)
  | clearMarks (kind : Nat)
  | offer (list : Nat) (items : List String)
  | undo
  | redo
  | chooseHighlight
  | highlight (start length : Int)
  | clearHighlights (length : Nat)
  | cancelOffer
  | select (start stop : Int)
  | replaceSelection (text : String)
  | message (html : String)
  | clearMessages
  | scriptChanged (text : String)
  | returnRequested
  | entryChosen (name : String)
  | applied (text : String)
  | wentBack
  deriving Repr, DecidableEq

inductive Level where
  | info | warning | error | success
  deriving Repr, DecidableEq

def Level.color : Level → String
  | .info => "#E0E0E0"
  | .warning => "#FFCC00"
  | .error => "#FF6B6B"
  | .success => "#6A9955"

def Level.mark : Level → String
  | .info => "[INFO]"
  | .warning => "[WARNING]"
  | .error => "[ERROR]"
  | .success => "[SUCCESS]"

def colored (level : Level) (text : String) : Effect :=
  .message s!"<span style=\"color: {level.color};\">{text}</span>"

def logged (level : Level) (text : String) : Effect := colored level s!"{level.mark} {text}"

structure Notice where
  line : Int
  message : String
  severity : Lua.Severity
  code : String
  start : Option Int
  length : Option Int
  deriving Repr, DecidableEq

def Notice.ofDiagnostic (d : Lua.Diagnostic) : Notice where
  line := d.line
  message := d.message
  severity := d.severity
  code := d.rule.code
  start := d.span.map (·.start)
  length := d.span.map (·.length)

/-- What showing a notice causes: a mark on its line, a highlight for an error with a span that is not empty, and a
    message. -/
def Notice.effects (n : Notice) : List Effect :=
  let isError := n.severity = .error
  let mark := Effect.addMark n.line (if isError then 0 else 1)
  let span :=
    match n.start, n.length with
    | some s, some l => if l ≠ 0 ∧ isError then [Effect.chooseHighlight, .highlight s l] else []
    | _, _ => []
  let level :=
    match n.severity with
    | .error => Level.error
    | .warning => .warning
    | .info => .info
  mark :: span ++ [logged level s!"Line {n.line + 1}: [{n.code}] {n.message}"]

/-- How the view is used: for a whole script, for one attribute, or otherwise. -/
inductive Mode where
  | full | simple | other
  deriving Repr, DecidableEq

structure WordOffer where
  caret : Int
  start : Int
  deriving Repr, DecidableEq

/-- The script view. The caret and the start of the word at it are what the editor answers; a tag is completed from
    `tagStart` on. -/
structure View where
  mode : Mode := .full
  connected : Bool := false
  checker : Lua.Checker := { vocabulary := vocabulary }
  text : String := ""
  title : String := ""
  caret : Int := 0
  wordStart : Int := 0
  tagStart : Option Int := none
  wordOffer : Option WordOffer := none
  details : String := ""

namespace View

def clearing (v : View) : List Effect :=
  [.clearMarks 0, .clearMarks 1, .chooseHighlight, .clearHighlights v.text.length]

def visible (v : View) : List Bool :=
  let simple := v.mode = .simple
  [!simple, !simple, !simple, simple, !simple]

/-- A new text; marks and highlights go, and the checker forgets its last answer. -/
def setText (v : View) (text : String) : View × List Effect :=
  let v := { v with text := text, checker := v.checker.clear }
  (v, v.clearing)

def edit (v : View) (name : String) (value : String) : View × List Effect :=
  let (v, es) := { v with title := s!"Lua Script Editor - {name}" }.setText value
  (v, es ++ [.clearMessages, logged .info s!"Editing: {name}"])

def format (v : View) : View × List Effect :=
  if (Text.strip v.text.toList).isEmpty then (v, [])
  else
    let (v, es) := v.setText (String.ofList (Lua.format v.text.toList))
    (v, es ++ [logged .info "Code formatted"])

def clear (v : View) : View × List Effect :=
  let v := { v with text := "" }
  (v, v.clearing ++ [logged .info "Editor cleared"])

def insertSample (v : View) (name : String) : View × List Effect :=
  match entry? name with
  | some e => ({ v with text := v.text ++ e.sample }, [logged .info s!"Inserted {name} template"])
  | none => (v, [])

def display (v : View) (notices : List Notice) (tellSuccess : Bool) : List Effect :=
  match notices with
  | [] =>
    let how := if v.checker.available then "luaparser" else "basic"
    if tellSuccess then [logged .success s!"Syntax check passed ({how})"] else []
  | ns => ns.flatMap Notice.effects

def findings (v : View) (tellSuccess : Bool) : View × List Effect :=
  let (ds, checker) := v.checker.check v.text
  let v := { v with checker := checker }
  (v, v.display (ds.map .ofDiagnostic) tellSuccess)

def check (v : View) : View × List Effect :=
  if (Text.strip v.text.toList).isEmpty then (v, v.clearing ++ [logged .warning "Code is empty"])
  else
    let cleared := v.clearing
    let (v, es) := v.findings true
    (v, cleared ++ es)

def checkLimit : Nat := 10000

/-- Checks the text while typing: blank and very long texts are passed over. -/
def checkLater (v : View) : View × List Effect :=
  if (Text.strip v.text.toList).isEmpty || checkLimit < v.text.length then (v, [])
  else
    let cleared := v.clearing
    let (v, es) := v.findings false
    (v, cleared ++ es)

inductive Key where
  | j | escape | other
  deriving Repr, DecidableEq

def slice (cs : List Char) (start stop : Int) : List Char :=
  let index (i : Int) : Nat := (if i < 0 then i + cs.length else i).toNat
  (cs.take (index stop)).drop (index start)

def offerWords (v : View) : View × List Effect :=
  let word := if v.wordStart < v.caret then slice v.text.toList v.wordStart v.caret else []
  match matching word with
  | [] => (v, [])
  | items => ({ v with wordOffer := some ⟨v.caret, v.wordStart⟩ }, [.offer 2 items])

def offerTags (v : View) : View × List Effect := (v, [.offer 1 tagLabels])

def isWordlike (text : String) : Bool := !text.isEmpty && text.toList.all Text.isAlphanumeric

def key (v : View) (k : Key) (text : String) (ctrl : Bool) : View × List Effect :=
  if k = .j ∧ ctrl then v.offerWords
  else if text = "\x7b" then { v with tagStart := some v.caret }.offerTags
  else if v.tagStart.isSome ∧ k = .escape then ({ v with tagStart := none }, [.cancelOffer])
  else
    let v := if v.tagStart.isSome ∧ text = "\x7d" then { v with tagStart := none } else v
    if isWordlike text ∧ v.tagStart.isNone ∧ 2 ≤ v.caret - v.wordStart then v.offerWords else (v, [])

def choose (v : View) (list : Int) (item : String) : View × List Effect :=
  if list = 2 then
    match v.wordOffer with
    | none => (v, [])
    | some o => ({ v with wordOffer := none }, [.select o.start v.caret, .replaceSelection item])
  else if list = 1 then
    let closed := { v with tagStart := none }
    match v.tagStart, tagOfLabel? item with
    | some start, some tag => (closed, [.select (start - 1) v.caret, .replaceSelection tag.text])
    | _, _ => (closed, [])
  else (v, [])

def click (v : View) (name : Option String) : View :=
  match name.bind entry? with
  | some e => { v with details := e.details }
  | none => v

def doubleClick (v : View) (name : Option String) : View × List Effect :=
  match name with
  | none | some "" => (v, [])
  | some name =>
    let (v, es) := v.insertSample name
    (v, es ++ [.entryChosen name])

def apply (v : View) : List Effect :=
  if v.mode = .simple ∧ v.connected then [.applied v.text]
  else [.scriptChanged v.text, logged .success "Script applied"]

def back (v : View) : List Effect := if v.connected then [.wentBack] else []

end View

end WatchFace.Script
