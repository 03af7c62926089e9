import WatchFace.Value

/-!
# Channels

A channel carries the value of an attribute to those who listen. A listener that joins late hears the last value, and
listeners that fail do not disturb the others.
-/

namespace WatchFace

/-- A channel. Listeners are registered for numbers, for flags and for texts, which is all that is neither. -/
structure Channel (L : Type) where
  last : Value := .none
  numbers : List L := []
  texts : List L := []
  flags : List L := []
  deriving Repr, Inhabited

namespace Channel

variable {L : Type}

def register (c : Channel L) (l : L) : Channel L :=
  { c with numbers := c.numbers ++ [l], texts := c.texts ++ [l], flags := c.flags ++ [l] }

/-- Removes a listener from those of numbers and of texts, one registration each. -/
def disconnect [BEq L] (c : Channel L) (l : L) : Channel L :=
  { c with numbers := c.numbers.erase l, texts := c.texts.erase l }

/-- Who hears a value, and in which form: numbers are carried as doubles. -/
def route (c : Channel L) (v : Value) : Except Fault (List L × Value) :=
  match v with
  | .bool _ => .ok (c.flags, v)
  | .int n =>
    match Number.ofInt? n with
    | some x => .ok (c.numbers, .float x)
    | none => .error .overflow
  | .float _ => .ok (c.numbers, v)
  | _ => .ok (c.texts, v)

def emit (c : Channel L) (v : Value) : Channel L × Except Fault (List L × Value) :=
  ({ c with last := v }, c.route v)

/-- Registers a listener; a value that was carried before is carried once more, to all. -/
def connect (c : Channel L) (l : L) : Channel L × Except Fault (List L × Value) :=
  let c := c.register l
  if c.last.isNone then (c, .ok ([], .none)) else c.emit c.last

end Channel

def Fault.isWrongKind : Fault → Bool
  | .wrongKind | .notCallable _ | .notCallableAt _ => true
  | _ => false

variable {L σ : Type}

/-- Calls a listener with a value, and once more without if it needs another kind; other faults are passed over. -/
def attempt (call : L → Option Value → EStateM Fault σ Unit) (v : Value) (l : L) :
    EStateM Fault σ Unit :=
  tryCatch (call l (some v)) fun e =>
    if e.isWrongKind then tryCatch (call l none) fun _ => pure () else pure ()

def announce (call : L → Option Value → EStateM Fault σ Unit) (v : Value) (ls : List L) :
    EStateM Fault σ Unit :=
  ls.forM (attempt call v)

end WatchFace
