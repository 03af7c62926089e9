import WatchFace.Script.Reference
import WatchFace.Script.Tags

/-!
# Completion

Keywords and functions that start like the word at the caret, and tags.
-/

namespace WatchFace.Script

def languageWords : List String :=
  ["and", "break", "do", "else", "elseif", "end", "false", "for", "function", "goto", "if", "in",
   "local", "nil", "not", "or", "repeat", "return", "then", "true", "until", "while", "print",
   "type", "tonumber", "tostring", "pairs", "ipairs", "next", "select", "unpack", "pcall",
   "xpcall", "error", "assert", "string.len", "string.sub", "string.find", "string.format",
   "string.lower", "string.upper", "string.rep", "string.reverse", "math.abs", "math.ceil",
   "math.floor", "math.max", "math.min", "math.random", "math.sin", "math.cos", "math.tan",
   "math.sqrt", "table.insert", "table.remove", "table.sort", "table.concat"]

def sorted (xs : List String) : List String := xs.mergeSort (fun a b => !decide (b < a))

def keywords : List String :=
  sorted (languageWords ++ entries.map (·.name) ++ easings ++ actions).eraseDups

/-- A letter of either case as a small one; the Kelvin sign is a letter K. -/
def lowerAscii (c : Char) : Char := if c.toNat = 0x212A then 'k' else c.toLower

def matching (word : List Char) : List String :=
  let lower := word.map lowerAscii
  if lower.isEmpty then keywords
  else keywords.filter fun k => lower.isPrefixOf (k.toList.map lowerAscii)

def tagLabels : List String := sorted (tags.map Tag.label)

def groups : List (String × List String) :=
  [("Core Functions",
      ["wm_schedule", "wm_unschedule_all", "wm_action", "wm_tag", "wm_vibrate", "wm_sfx",
       "wm_transition", "wm_anim_set", "wm_anim_start"]),
   ("Callbacks",
      ["on_hour", "on_minute", "on_second", "on_millisecond", "on_display_bright",
       "on_display_not_bright"]),
   ("Variables", ["is_bright"])]

def referenceList : List (String × Option String) :=
  groups.flatMap fun (group, names) =>
    (s!"── {group} ──", none) :: names.map fun n => ("  " ++ n, some n)

def Entry.details (e : Entry) : String :=
  s!"<b>{e.signature}</b><br><br>{e.description}<br><br>" ++
    s!"<b>Example:</b><br><code>{e.sample}</code>"

end WatchFace.Script
