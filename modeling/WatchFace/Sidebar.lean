import WatchFace.Fault

/-!
# The sidebar, the tip bar and the gallery
-/

namespace WatchFace

structure SideButton where
  page : Int
  name : String
  checked : Bool := true
  deriving Repr, DecidableEq, Inhabited

namespace SideButton

def hint (b : SideButton) : String :=
  let verb := if b.checked then "open" else "close"
  s!"Press to {verb} {b.name} page."

def target (b : SideButton) : Int := if b.checked then b.page else 0

end SideButton

def Tips.resting : String := "Any annotations for any object will be written here."

structure Gallery.Card where
  name : String
  face : String := ""
  deriving Repr, DecidableEq, Inhabited

/-- The watches of a user; `places` counts the cards of the layout, the one for a new watch included. -/
structure Gallery where
  cards : List Gallery.Card := []
  places : Nat := 1
  deriving Repr, DecidableEq, Inhabited

namespace Gallery

def hint : String := "Right-click to display menu."

def add (g : Gallery) (name : String) : Gallery := { g with cards := g.cards ++ [{ name := name }] }

def setFace (g : Gallery) (i : Nat) (face : String) : Gallery :=
  { g with cards := g.cards.modify i ({ · with face := face }) }

end Gallery

end WatchFace
