import WatchFace.Lua.Diagnostic
import WatchFace.Lua.Syntax

/-!
# Misuse of the watch's functions

This module finds calls and definitions that do not fit the functions, callbacks, actions and easings of a watch.
-/

namespace WatchFace.Lua

structure Vocabulary where
  functions : List String := []
  actions : List String := []
  easings : List String := []
  deriving Repr, DecidableEq

def callbacks : List String :=
  ["on_hour", "on_minute", "on_second", "on_millisecond", "on_display_bright",
   "on_display_not_bright"]

namespace Lint

def warning (line : Nat) (rule : Rule) (message : String) : Diagnostic :=
  { line := line, message := message, severity := .warning, rule := rule }

def callLine (callee : Expr) : Nat := (callee.line?.getD 0) - 1

def easing? : Field → Option String
  | .keyed (.name "easing" _) (.string value _) => some value
  | _ => none

def scheduleFindings (v : Vocabulary) (line : Nat) : List Expr → List Diagnostic
  | [] => []
  | .table fields :: _ =>
    (fields.filterMap easing?).filterMap fun easing =>
      if v.easings.isEmpty || v.easings.contains easing then none
      else some (warning line .invalidEasing s!"Invalid easing function: '{easing}'")
  | _ :: _ => [warning line .scheduleArgument "wm_schedule requires a table argument"]

def withoutColons (s : String) : List Char := (s.toList.reverse.dropWhile (· == ':')).reverse

def knownAction (v : Vocabulary) (action : String) : Bool :=
  v.actions.contains action ||
    v.actions.any fun a =>
      a.toList.getLast? == some ':' && (withoutColons a).isPrefixOf action.toList

def actionFindings (v : Vocabulary) (line : Nat) : List Expr → List Diagnostic
  | .string action _ :: _ =>
    if v.actions.isEmpty || knownAction v action then []
    else [warning line .invalidAction s!"Invalid action name: '{action}'"]
  | _ => []

def callFindings (v : Vocabulary) (callee : Expr) (args : List Expr) : List Diagnostic :=
  match callee.calledName? with
  | none => []
  | some name =>
    let line := callLine callee
    if "wm_".toList.isPrefixOf name.toList then
      (if v.functions.contains name then []
        else [warning line .unknownFunction s!"Unknown WatchMaker function: '{name}'"]) ++
      (if name = "wm_schedule" then scheduleFindings v line args else []) ++
      (if name = "wm_action" then actionFindings v line args else [])
    else []

def definitionFindings (name : String) (line : Nat) : List Diagnostic :=
  if "on_".toList.isPrefixOf name.toList && !callbacks.contains name then
    let known := ", ".intercalate callbacks
    [warning (line - 1) .unknownCallback
      s!"Unknown callback function: '{name}'. Valid callbacks: {known}"]
  else []

def siteFindings (v : Vocabulary) : Site → List Diagnostic
  | .call callee args => callFindings v callee args
  | .definition name line => definitionFindings name line

end Lint

def lint (v : Vocabulary) (script : List Stat) : List Diagnostic :=
  (blockSites script).flatMap (Lint.siteFindings v)

end WatchFace.Lua
