import WatchFace.Fault
import WatchFace.Json

/-!
# Consoles

A console drives a part of the program from outside. A command that fails is reported, and the next one goes on from the
state that it left.
-/

namespace WatchFace

structure Console.Command where
  name : String
  args : List Json
  deriving Repr, Inhabited

def Console.Command.ofJson (j : Json) : Console.Command := ⟨(j.nth 0).text, j.items.drop 1⟩

def Console.Command.arg (c : Console.Command) (i : Nat) : Json := c.args.getD i .null

/-- A console on a state: what a command does, and what is seen. Looking can change the state, as notes are seen once,
    and fails where something cannot be told. -/
structure Console (σ : Type) where
  act : Console.Command → EStateM Fault σ Json
  look : σ → Except Fault (σ × List (String × Json))

namespace Console

variable {σ : Type}

def lift {α : Type} : Except Fault α → EStateM Fault σ α
  | .ok a => pure a
  | .error e => throw e

def quiet (act : EStateM Fault σ Unit) : EStateM Fault σ Json := act *> pure .null

def report (k : Console σ) (fault : Fault → List (String × Json)) (st : σ) (c : Command) :
    Except Fault (σ × Json) := do
  let (st, fields) := match (k.act c).run st with
    | .ok r st => (st, [("r", r)])
    | .error e st => (st, fault e)
  let (st, seen) ← k.look st
  return (st, .obj (fields ++ seen))

def reports (k : Console σ) (fault : Fault → List (String × Json)) :
    σ → List Command → Except Fault (List Json)
  | _, [] => .ok []
  | st, c :: cs => do
    let (st, r) ← k.report fault st c
    return r :: (← reports k fault st cs)

def measuring (act : String → (Nat → Json) → EStateM Fault σ Json)
    (look : σ → Except Fault (σ × Json)) : Console σ :=
  ⟨fun c => act c.name c.arg, fun st => (look st).map fun (st, s) => (st, [("s", s)])⟩

def showing (act : String → (Nat → Json) → EStateM Fault σ Json) (look : σ → σ × Json) : Console σ :=
  measuring act fun st => .ok (look st)

end Console

end WatchFace
