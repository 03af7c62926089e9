/-!
# Diagnostics
-/

namespace WatchFace.Lua

inductive Severity where
  | error | warning | info
  deriving Repr, DecidableEq, Inhabited

def Severity.text : Severity → String
  | .error => "error"
  | .warning => "warning"
  | .info => "info"

/-- The rules that a script can offend against. -/
inductive Rule where
  | internal
  | grammar
  | blocks
  | brackets
  | unknownFunction
  | unknownCallback
  | invalidAction
  | invalidEasing
  | scheduleArgument
  deriving Repr, DecidableEq, Inhabited

def Rule.code : Rule → String
  | .internal => "E000"
  | .grammar => "E001"
  | .blocks => "E003"
  | .brackets => "E004"
  | .unknownFunction => "W001"
  | .unknownCallback => "W002"
  | .invalidAction => "W003"
  | .invalidEasing => "W004"
  | .scheduleArgument => "W010"

structure Span where
  start : Nat
  length : Nat
  deriving Repr, DecidableEq

/-- A finding: its line and column from zero, its message, and the span to highlight. -/
structure Diagnostic where
  line : Nat
  column : Nat := 0
  message : String
  severity : Severity := .error
  rule : Rule
  span : Option Span := none
  deriving Repr, DecidableEq

end WatchFace.Lua
