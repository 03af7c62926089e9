/-!
# Faults

A fault ends an operation; what it did before stays done.
-/

namespace WatchFace

inductive Fault where
  /-- A value of another kind is needed. -/
  | wrongKind
  /-- The value is of the right kind and cannot be used. -/
  | badValue
  /-- The value has no such part. -/
  | missing
  /-- A position lies outside a list. -/
  | outOfRange
  /-- A table has no such key. -/
  | noEntry
  | overflow
  | divideByZero
  /-- A name is used before it stands for anything. -/
  | unset
  /-- Attempts to recover went on without end. -/
  | endless
  /-- No component has this name; the name is quoted for the message. -/
  | unknownComponent (quoted : String)
  /-- The items of a batch do not agree whether they can be called by a name. -/
  | mixedBatch (name : String)
  | notCallable (quoted : String)
  /-- The item of a batch under a key cannot be called. -/
  | notCallableAt (key : String)
  /-- The active history has no such property. -/
  | unknownProperty (name : String)
  | noApplication
  deriving Repr, DecidableEq

def Fault.message? : Fault → Option String
  | .unknownComponent quoted => some s!"module 'components' has no attribute {quoted}"
  | .mixedBatch name =>
    some ("All elements of <class 'edit_view.preview_obj.BatchProcessContainer'> should have " ++
      s!"the same feature type for '{name}'")
  | .notCallable quoted => some s!"Item {quoted} inside container is not callable"
  | .notCallableAt key => some s!"Item at key '{key}' is not callable"
  | .unknownProperty name =>
    some s!"Warning:<common.UndoGroupStack object> try calling unknown property {name}"
  | .noApplication => some "Please create a QApplication instance first."
  | _ => none

end WatchFace
