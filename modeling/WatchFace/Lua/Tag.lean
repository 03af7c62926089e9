/-!
# Tags in scripts

A tag is a name between braces, which a watch replaces by live data. To a Lua parser it would be a table, so it is
hidden in a string literal while the script is checked.
-/

namespace WatchFace.Lua.Tag

def isTagChar (c : Char) : Bool :=
  ('a' ≤ c && c ≤ 'z') || ('A' ≤ c && c ≤ 'Z') || ('0' ≤ c && c ≤ '9') || c == '_'

def tag (name : List Char) : List Char := '\x7b' :: name ++ ['\x7d']

def marker : List Char := "__wm_tag_".toList

def bare (name : List Char) : List Char := marker ++ name ++ ['_', '_']

def placeholder (name : List Char) : List Char := '"' :: bare name ++ ['"']

def tagAt? : List Char → Option (List Char)
  | c :: cs =>
    let name := cs.takeWhile isTagChar
    if c = '\x7b' ∧ name ≠ [] ∧ (cs.dropWhile isTagChar).head? = some '\x7d' then some name
    else none
  | [] => none

def hideAfter : Nat → List Char → List Char
  | _, [] => []
  | skip + 1, _ :: cs => hideAfter skip cs
  | 0, c :: cs =>
    match tagAt? (c :: cs) with
    | some name => placeholder name ++ hideAfter (name.length + 1) cs
    | none => c :: hideAfter 0 cs

def hide (code : List Char) : List Char := hideAfter 0 code

def isQuote (c : Char) : Bool := c == '"' || c == '\''

def beforeLastMark : List Char → Option (List Char)
  | [] => none
  | c :: cs =>
    match beforeLastMark cs with
    | some before => some (c :: before)
    | none => if c = '_' ∧ cs.head? = some '_' then some [] else none

/-- The name in the unquoted placeholder at the start of a text, as long as possible. -/
def bareAt? (cs : List Char) : Option (List Char) :=
  if marker.isPrefixOf cs then
    (beforeLastMark ((cs.drop marker.length).takeWhile isTagChar)).filter (!·.isEmpty)
  else none

def quoteLength (cs : List Char) : Nat := if cs.head?.any isQuote then 1 else 0

def placeholderAt? (cs : List Char) : Option (List Char × Nat) :=
  let opening := quoteLength cs
  let body := cs.drop opening
  (bareAt? body).map fun name =>
    let n := (bare name).length
    (name, opening + n + quoteLength (body.drop n))

def revealAfter : Nat → List Char → List Char
  | _, [] => []
  | skip + 1, _ :: cs => revealAfter skip cs
  | 0, c :: cs =>
    match placeholderAt? (c :: cs) with
    | some (name, n) => tag name ++ revealAfter (n - 1) cs
    | none => c :: revealAfter 0 cs

def reveal (message : List Char) : List Char := revealAfter 0 message

theorem hideAfter_eq_drop (skip : Nat) (cs : List Char) :
    hideAfter skip cs = hide (cs.drop skip) := by
  induction cs generalizing skip with
  | nil => cases skip <;> simp [hide, hideAfter]
  | cons c cs ih =>
    cases skip with
    | zero => rfl
    | succ skip => simp [hideAfter, ih]

theorem revealAfter_eq_drop (skip : Nat) (cs : List Char) :
    revealAfter skip cs = reveal (cs.drop skip) := by
  induction cs generalizing skip with
  | nil => cases skip <;> simp [reveal, revealAfter]
  | cons c cs ih =>
    cases skip with
    | zero => rfl
    | succ skip => simp [revealAfter, ih]

example : reveal "__wm_tag_a____wm_tag_b__".toList = tag "a____wm_tag_b".toList := by decide

end WatchFace.Lua.Tag
