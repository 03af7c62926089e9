import WatchFace.Console
import WatchFace.Json.Values
import WatchFace.Script.View

/-!
# Consoles for scripts
-/

namespace WatchFace

open Json

/-- A message as it is told, without the list of what the parser expected. -/
def toldMessage (text : String) : Json := str (String.ofList (Lua.Report.brief text.toList))

def Lua.Diagnostic.toJson (d : Lua.Diagnostic) : Json :=
  obj [ ("line", nat d.line), ("col", nat d.column), ("msg", toldMessage d.message),
    ("sev", str d.severity.text), ("code", str d.rule.code),
    ("pos", opt (fun s => nat s.start) d.span), ("len", opt (fun s => nat s.length) d.span) ]

def Lua.findingsJson (ds : List Lua.Diagnostic) : Json := list Lua.Diagnostic.toJson ds

namespace Console

def checker : Console Lua.Checker := showing
  (fun name arg => do
    let c ← get
    match name with
    | "check" =>
      let (ds, c) := c.check (arg 0).text
      set c
      return Lua.findingsJson ds
    | "clear" => quiet (set c.clear)
    | "parser" => quiet (set { c with available := (arg 0).holds })
    | _ => quiet (set c.dropAnswer))
  fun c => (c, obj
    [ ("cached", opt (fun m => str m.code) c.memory),
      ("n", opt (fun m => nat m.findings.length) c.memory),
      ("ast", bool c.accepted), ("warned", bool c.roughly), ("available", bool c.available) ])

def effectJson : Script.Effect → Json
  | .addMark line kind => arr [str "markerAdd", int line, nat kind]
  | .clearMarks kind => arr [str "markerDeleteAll", nat kind]
  | .offer l items => arr [str "showUserList", nat l, strs items]
  | .undo => strs ["undo"]
  | .redo => strs ["redo"]
  | .chooseHighlight => arr [str "indicator", nat 0]
  | .highlight start length => arr [str "fill", int start, int length]
  | .clearHighlights length => arr [str "clear_range", nat 0, nat length]
  | .cancelOffer => strs ["cancel"]
  | .select a b => arr [str "setsel", int a, int b]
  | .replaceSelection text => arr [str "replacesel", nat 0, str text]
  | .message html => arr [str "out", toldMessage html]
  | .clearMessages => strs ["out_clear"]
  | .scriptChanged text => strs ["script_changed", text]
  | .returnRequested => strs ["return_requested"]
  | .entryChosen name => strs ["api_selected", name]
  | .applied text => strs ["on_apply", text]
  | .wentBack => strs ["on_back"]

def severityOf : String → Except Fault Lua.Severity
  | "error" => .ok .error
  | "warning" => .ok .warning
  | "info" => .ok .info
  | _ => .error .badValue

def levelOf? : String → Option Script.Level
  | "info" => some .info
  | "warning" => some .warning
  | "error" => some .error
  | "success" => some .success
  | _ => none

def keyOf : String → Script.View.Key
  | "J" => .j
  | "Escape" => .escape
  | _ => .other

def noticeOf (e : Json) : Except Fault Script.Notice := do
  let severity ← severityOf (e.nth 2).text
  return { line := (e.nth 0).whole, message := (e.nth 1).value.shown, severity := severity
           code := (e.nth 3).value.shown, start := (e.nth 4).whole?, length := (e.nth 5).whole? }

abbrev Scripting := Script.View × List Script.Effect

def script : Console Scripting := showing
  (fun name arg => do
    let (v, _) ← get
    let a := arg 0
    let b := arg 1
    let tell (es : List Script.Effect) : EStateM Fault Scripting Json := quiet (set (v, es))
    match name with
    | "set" => quiet (set (v.edit a.value.shown b.text))
    | "text" => quiet (set (v.setText a.text))
    | "check" => quiet (set v.check)
    | "delayed" => quiet (set v.checkLater)
    | "format" => quiet (set v.format)
    | "clear" => quiet (set v.clear)
    | "apply" => tell v.apply
    | "back" => tell v.back
    | "return" => tell [.returnRequested]
    | "insert" => quiet (set (v.insertSample a.text))
    | "undo" => tell [.undo]
    | "redo" => tell [.redo]
    | "cursor" => quiet (set (({ v with caret := a.whole, wordStart := b.whole }, []) : Scripting))
    | "key" => quiet (set (v.key (keyOf a.text) b.text (arg 2).holds))
    | "api_menu" => quiet (set v.offerWords)
    | "tag_menu" => quiet (set v.offerTags)
    | "select" =>
      match b.text?, v.wordOffer with
      | none, some o =>
        if a.whole? == some 2 then
          set ((v, [.select o.start v.caret]) : Scripting)
          throw .missing
        else quiet (set (v.choose a.whole ""))
      | _, _ => quiet (set (v.choose a.whole b.text))
    | "click" =>
      let v := v.click a.text?
      set (v, ([] : List Script.Effect))
      return str v.details
    | "double_click" => quiet (set (v.doubleClick a.text?))
    | "log" => tell ((levelOf? a.text).toList.map fun l => Script.logged l b.value.shown)
    | "append" => tell [Script.colored ((levelOf? b.text).getD .info) a.value.shown]
    | "display" => tell (v.display (← a.items.mapM fun e => lift (noticeOf e)) b.holds)
    | "clear_marks" => tell [.chooseHighlight, .clearHighlights v.text.length]
    | _ => tell [])
  fun (v, es) => ((v, []), obj
    [ ("text", str v.text),
      ("tag", match v.tagStart with
        | some p => arr [bool true, int p]
        | none => arr [bool false, int (-1)]),
      ("api", match v.wordOffer with
        | some o => arr [bool true, int o.caret, int o.start]
        | none => arr [bool false, int (-1), int (-1)]),
      ("title", str v.title), ("visible", list bool v.visible), ("log", list effectJson es) ])

end Console

end WatchFace
