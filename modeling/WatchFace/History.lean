/-!
# Histories
-/

namespace WatchFace

/-- Commands of type `κ`; the first `index` are in effect. -/
structure History (κ : Type) where
  commands : List κ := []
  index : Nat := 0
  deriving Repr, Inhabited

namespace History

variable {κ : Type}

def cut (h : History κ) : History κ := { h with commands := h.commands.take h.index }

def dropped (h : History κ) : List κ := h.commands.drop h.index

def add (h : History κ) (c : κ) : History κ := { h with commands := h.cut.commands ++ [c] }

def advance (h : History κ) : History κ := { h with index := h.index + 1 }

def retreat (h : History κ) : History κ := { h with index := h.index - 1 }

def push (h : History κ) (c : κ) : History κ := (h.add c).advance

def undo? (h : History κ) : Option (History κ × κ) :=
  if h.index = 0 then none else h.commands[h.index - 1]?.map fun c => (h.retreat, c)

def redo? (h : History κ) : Option (History κ × κ) :=
  h.commands[h.index]?.map fun c => (h.advance, c)

theorem undo?_push (h : History κ) (c : κ) (hi : h.index ≤ h.commands.length) :
    (h.push c).undo?.map Prod.snd = some c := by
  simp [push, add, advance, cut, undo?, Nat.min_eq_left hi]

end History

end WatchFace
