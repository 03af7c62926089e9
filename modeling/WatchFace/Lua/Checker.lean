import WatchFace.Lua.Lint
import WatchFace.Lua.Outline
import WatchFace.Lua.Parser
import WatchFace.Lua.Report
import WatchFace.Lua.Tag

/-!
# Checking scripts

A script is checked by a parser engine and by the rules of the watch's vocabulary, or by the rough check where there is
no engine.
-/

namespace WatchFace.Lua

/-- What a parser engine answers: a script, a rejection with its text, or another fault. -/
inductive Verdict where
  | script (statements : List Stat)
  | rejected (message printed : String)
  | fault (message : String)

/-- A parser engine; with `analysisFault`, the analysis of what it accepts fails with that message. -/
structure Engine where
  parse : List Char → Verdict
  analysisFault : Option String := none

def Engine.standard : Engine where
  parse code :=
    match Lua.parse code with
    | .ok script => .script script
    | .error e => .fault e.message

/-- The findings for a script, and whether the engine accepted it, if that is known. -/
structure Examination where
  findings : List Diagnostic
  accepted : Option Bool

def afterFailure (reason : String) (code : List Char) : List Diagnostic :=
  { line := 0, message := s!"Parser failed: {reason}", severity := .warning, rule := .internal } ::
    Outline.check code

def examineHidden (v : Vocabulary) (engine : Engine) (code : List Char) : Examination :=
  match engine.parse code with
  | .script script =>
    match engine.analysisFault with
    | some reason => ⟨afterFailure reason code, some true⟩
    | none => ⟨lint v script, some true⟩
  | .rejected message printed =>
    let read := do
      match ← Report.ofOutput printed.toList code with
      | [] => return [← Report.ofMessage message.toList code]
      | ds => return ds
    match read with
    | .ok ds => ⟨ds, some false⟩
    | .error e => ⟨afterFailure e.message code, none⟩
  | .fault message =>
    match Report.ofFault message.toList with
    | .ok d => ⟨[d], some false⟩
    | .error e => ⟨afterFailure e.message code, none⟩

def Diagnostic.reveal (d : Diagnostic) : Diagnostic :=
  { d with message := String.ofList (Tag.reveal d.message.toList) }

def examine (v : Vocabulary) (engine : Option Engine) (code : List Char) : Examination :=
  let hidden := Tag.hide code
  let e :=
    match engine with
    | some engine => examineHidden v engine hidden
    | none => ⟨Outline.check hidden, none⟩
  { e with findings := e.findings.map Diagnostic.reveal }

structure Memory where
  code : String
  findings : List Diagnostic
  deriving Repr, DecidableEq

/-- A checker: its vocabulary and engine, the memory of the last check, whether the engine accepted the last script it
    saw, and whether the rough check was used. The list in the memory may be `lent`: the very list that the last check
    handed out. -/
structure Checker where
  vocabulary : Vocabulary := {}
  engine : Engine := Engine.standard
  available : Bool := true
  memory : Option Memory := none
  lent : Bool := false
  accepted : Bool := false
  roughly : Bool := false

namespace Checker

def check (c : Checker) (code : String) : List Diagnostic × Checker :=
  if (Text.strip code.toList).isEmpty then ([], { c with lent := false })
  else
    match c.memory.filter (·.code = code) with
    | some m => (m.findings, { c with lent := false })
    | none =>
      let e := examine c.vocabulary (if c.available then some c.engine else none) code.toList
      let failed := e.findings.any (·.rule = .internal)
      (e.findings,
        { c with
          memory := some ⟨code, e.findings⟩
          lent := true
          accepted := e.accepted.getD c.accepted
          roughly := c.roughly || !c.available || failed })

def clear (c : Checker) : Checker := { c with memory := none, lent := false }

/-- Empties the list that was last handed out, and the memory if it holds that list. -/
def dropAnswer (c : Checker) : Checker :=
  if c.lent then { c with memory := c.memory.map fun m => { m with findings := [] } } else c

end Checker

end WatchFace.Lua
