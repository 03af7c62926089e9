import WatchFace.Value

/-!
# Batches

Asking a batch for a feature asks each of its things, and calling it calls each of them.
-/

namespace WatchFace

inductive Batch (α : Type) where
  | listed (items : List α)
  | keyed (entries : List (Value × α))
  deriving Repr, Inhabited

namespace Batch

variable {α β σ : Type}

def things : Batch α → List α
  | .listed xs => xs
  | .keyed es => es.map (·.2)

def size (b : Batch α) : Nat := b.things.length

def ownNames : Batch α → List String
  | .listed _ => ["append", "clear", "copy", "count", "extend", "index", "insert", "pop", "remove",
      "reverse", "sort"]
  | .keyed _ => ["clear", "copy", "fromkeys", "get", "items", "keys", "pop", "popitem",
      "setdefault", "update", "values"]

def features (name : String) (look : α → Except Fault β) (callable : β → Bool) :
    (first : Option Bool) → List α → Except Fault (List β)
  | _, [] => .ok []
  | first, x :: xs => do
    let y ← look x
    if first.any (· != callable y) then throw (.mixedBatch name)
    let ys ← features name look callable (some (callable y)) xs
    return y :: ys

def feature (name : String) (look : α → Except Fault β) (callable : β → Bool) :
    Batch α → Except Fault (Batch β)
  | .listed xs => do return .listed (← features name look callable none xs)
  | .keyed es => do
    let ys ← features name look callable none (es.map (·.2))
    return .keyed ((es.map (·.1)).zip ys)

def uncallable : Except Fault String → Fault
  | .ok text => .notCallable text
  | .error e => e

def call (callable : α → Bool) (quoted : α → Except Fault String) (run : α → EStateM Fault σ β) :
    Batch α → EStateM Fault σ (Batch β)
  | .listed xs => do
    let ys ← xs.mapM fun x => if callable x then run x else throw (uncallable (quoted x))
    return .listed ys
  | .keyed es => do
    let ys ← es.mapM fun (k, x) => do
      if callable x then return (k, ← run x) else throw (.notCallableAt k.shown)
    return .keyed ys

/-- The position in a list of a length that a key stands for; negative ones count from the end. -/
def position (length : Nat) (key : Value) : Except Fault Nat :=
  match key.quantity? with
  | some (.whole i) =>
    let j := if i < 0 then i + length else i
    if 0 ≤ j ∧ j < length then .ok j.toNat else .error .outOfRange
  | _ => .error .wrongKind

def find (b : Batch α) (key : Value) : Except Fault Nat :=
  match b with
  | .listed xs => position xs.length key
  | .keyed es =>
    if key.isKey then
      match es.findIdx? (·.1 == key) with
      | some i => .ok i
      | none => .error .noEntry
    else .error .wrongKind

def get (b : Batch α) (key : Value) : Except Fault α := do
  match b.things[← b.find key]? with
  | some x => return x
  | none => throw .missing

def put (b : Batch α) (key : Value) (x : α) : Except Fault (Batch α) :=
  match b, b.find key with
  | .listed xs, .ok i => .ok (.listed (xs.set i x))
  | .keyed es, .ok i => .ok (.keyed (es.modify i fun e => (e.1, x)))
  | .keyed es, .error .noEntry => .ok (.keyed (es ++ [(key, x)]))
  | _, .error e => .error e

def erase (b : Batch α) (key : Value) : Except Fault (Batch α) := do
  let i ← b.find key
  match b with
  | .listed xs => return .listed (xs.eraseIdx i)
  | .keyed es => return .keyed (es.eraseIdx i)

def pop (b : Batch α) (key : Value) : Except Fault (Batch α × α) := do
  let x ← b.get key
  return (← b.erase key, x)

def append (b : Batch α) (ys : List α) : Batch α :=
  match b with
  | .listed xs => .listed (xs ++ ys)
  | .keyed es => .keyed es

/-- A list with a thing before the one at a position; negative positions count from the end, and those beyond an end
    stand for it. -/
def insert (b : Batch α) (i : Int) (x : α) : Batch α :=
  match b with
  | .listed xs =>
    let j := if i < 0 then i + xs.length else i
    .listed (xs.insertIdx (min j.toNat xs.length) x)
  | .keyed es => .keyed es

def reverse : Batch α → Batch α
  | .listed xs => .listed xs.reverse
  | .keyed es => .keyed es

def indexOf (b : Batch α) (is : α → Bool) (start stop : Int) : Except Fault Nat :=
  let n : Int := b.size
  let clamp (i : Int) : Nat := (if i < 0 then max 0 (i + n) else i).toNat
  match (b.things.take (clamp stop)).zipIdx.find? fun e => clamp start ≤ e.2 && is e.1 with
  | some e => .ok e.2
  | none => .error .badValue

def popLast (b : Batch α) : Except Fault (Batch α × Value × α) :=
  match b with
  | .keyed es =>
    match es.getLast? with
    | some e => .ok (.keyed es.dropLast, e)
    | none => .error .noEntry
  | .listed _ => .error .missing

def putNew (b : Batch α) (key : Value) (x : α) : Except Fault (Batch α × α) :=
  match b.get key with
  | .ok y => .ok (b, y)
  | .error .noEntry => do return (← b.put key x, x)
  | .error e => .error e

def shown (quoted : α → Except Fault String) (b : Batch α) : Except Fault String := do
  let inner ← match b with
    | .listed xs => do pure ("[" ++ ", ".intercalate (← xs.mapM quoted) ++ "]")
    | .keyed es => do
      let texts ← es.mapM fun (k, x) => do return k.quoted ++ ": " ++ (← quoted x)
      pure ("\x7b" ++ ", ".intercalate texts ++ "\x7d")
  return "BatchProcessContainer(" ++ inner ++ ")"

theorem length_features {name : String} {look : α → Except Fault β} {callable : β → Bool}
    {first : Option Bool} {xs : List α} {ys : List β}
    (h : features name look callable first xs = .ok ys) : ys.length = xs.length := by
  induction xs generalizing first ys with
  | nil =>
    obtain rfl := Except.ok.inj h
    rfl
  | cons x xs ih =>
    simp only [features, bind, Except.bind] at h
    cases hx : look x with
    | error e => simp [hx] at h
    | ok y =>
      by_cases hc : first.any (· != callable y)
      · simp [hx, hc, throw, throwThe, MonadExceptOf.throw] at h
      · cases hr : features name look callable (some (callable y)) xs with
        | error e => simp [hx, hc, hr] at h
        | ok zs =>
          simp only [hx, hc, hr, pure, Except.pure] at h
          obtain rfl := Except.ok.inj h
          exact congrArg Nat.succ (ih hr)

end Batch

end WatchFace
