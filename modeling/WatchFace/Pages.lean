import WatchFace.Fault

/-!
# Stacked pages

A stack of pages of which one is shown. Pages are registered under keys.
-/

namespace WatchFace

/-- Pages of type `π` under keys of type `κ`; `current` is the position of the one shown. -/
structure Pages (κ π : Type) where
  registry : List (κ × π) := []
  stack : List π := []
  current : Option Nat := none
  deriving Repr, Inhabited

/-- What a new registration asks to be shown: the page there, or the position of the new one. -/
inductive Pages.Target (π : Type) where
  | existing (page : π)
  | fresh (index : Nat)
  deriving Repr, DecidableEq

namespace Pages

variable {κ π : Type} [BEq κ] [BEq π]

def find? (s : Pages κ π) (key : κ) : Option π := (s.registry.find? (·.1 == key)).map (·.2)

def shown? (s : Pages κ π) : Option π := s.current.bind (s.stack[·]?)

def showAt (s : Pages κ π) (i : Int) : Pages κ π :=
  if 0 ≤ i ∧ i < s.stack.length then { s with current := some i.toNat } else s

def showPage (s : Pages κ π) (p : π) : Pages κ π :=
  match s.stack.findIdx? (· == p) with
  | some i => { s with current := some i }
  | none => s

def present (s : Pages κ π) : Target π → Pages κ π
  | .existing p => s.showPage p
  | .fresh i => s.showAt i

def place (s : Pages κ π) (p : π) : Pages κ π :=
  { s with stack := s.stack ++ [p], current := some (s.current.getD 0) }

/-- Registers a page and puts it on the stack. A key that is taken keeps its page. -/
def register (s : Pages κ π) (p : π) (key : κ) : Pages κ π × Target π :=
  match s.find? key with
  | some q => (s, .existing q)
  | none => ({ s.place p with registry := s.registry ++ [(key, p)] }, .fresh s.stack.length)

def add (s : Pages κ π) (p : π) (key : κ) (switch : Bool) : Pages κ π × Target π :=
  let (s, target) := s.register p key
  (if switch then s.present target else s, target)

def takeOff (s : Pages κ π) (p : π) : Pages κ π :=
  match s.stack.findIdx? (· == p) with
  | none => s
  | some i =>
    let rest := s.stack.eraseIdx i
    let current := s.current.bind fun c =>
      if i < c ∨ (i = c ∧ c = rest.length) then (if c = 0 then none else some (c - 1)) else some c
    { s with stack := rest, current := current }

def placeAt (s : Pages κ π) (i : Int) (p : π) : Pages κ π :=
  let i := if 0 ≤ i ∧ i ≤ s.stack.length then i.toNat else s.stack.length
  let current := match s.current with
    | none => 0
    | some c => if i ≤ c then c + 1 else c
  { s with stack := s.stack.insertIdx i p, current := some current }

/-- Makes ready for a page under a key: a new key is registered, and the page of a taken one leaves its place. -/
def claim (s : Pages κ π) (p : π) (key : κ) : Pages κ π :=
  if (s.find? key).isSome then s.takeOff p else { s with registry := s.registry ++ [(key, p)] }

def insert (s : Pages κ π) (i : Int) (p : π) (key : κ) (switch : Bool) : Pages κ π :=
  let s := (s.claim p key).placeAt i p
  if switch then s.showAt i else s

/-- Takes a page away, with the first key it is registered under. -/
def remove (s : Pages κ π) (p : π) : Pages κ π :=
  { s.takeOff p with registry := s.registry.eraseP (·.2 == p) }

/-- Drops a key; its page stays on the stack. -/
def unregister (s : Pages κ π) (key : κ) : Except Fault (Pages κ π) :=
  if (s.find? key).isSome then .ok { s with registry := s.registry.eraseP (·.1 == key) }
  else .error .noEntry

end Pages

end WatchFace
