import WatchFace.Text.Identifier
import WatchFace.Value

/-!
# Bare components

A bare component is a record of named parts, made from attributes.
-/

namespace WatchFace.Catalog

def reservedNames : List String := ["__dict__", "__weakref__"]

def clashingNames : List String := ["__init__", "__module__", "__slots__"]

/-- Why a record cannot have parts of the given names: they are identifiers, and hide nothing that every record has or
    that makes, fills and reads it. -/
def bareFault? (names : List String) : Option Fault :=
  if names.any fun n => !Text.isIdentifier n.toList || reservedNames.contains n then some .wrongKind
  else if names.any clashingNames.contains then some .badValue
  else if names.contains "__new__" then some .wrongKind
  else if names.contains "__setattr__" then some .missing
  else if names.contains "__getattribute__" then some .wrongKind
  else none

def assign (table : List (String × Value)) (name : String) (v : Value) : List (String × Value) :=
  if table.any (·.1 == name) then table.map fun e => if e.1 == name then (name, v) else e
  else table ++ [(name, v)]

def bare (attributes : List (String × Value)) : Except Fault (List (String × Value)) :=
  let table := attributes.foldl (fun t a => assign t a.1 a.2) []
  match bareFault? (table.map (·.1)) with
  | some e => .error e
  | none => .ok table

end WatchFace.Catalog
