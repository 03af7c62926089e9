import WatchFace.Pointer
import WatchFace.Rect

/-!
# The window

A window is moved by its title bar, resized by its edges, and fills the screen when maximized.
-/

namespace WatchFace.Window

inductive Horizontal where
  | left
  | right
  deriving Repr, DecidableEq

inductive Vertical where
  | top
  | bottom
  deriving Repr, DecidableEq

inductive Edge where
  | side (h : Horizontal)
  | level (v : Vertical)
  | corner (v : Vertical) (h : Horizontal)
  deriving Repr, DecidableEq

namespace Edge

def horizontal? : Edge → Option Horizontal
  | .side h | .corner _ h => some h
  | .level _ => none

def vertical? : Edge → Option Vertical
  | .level v | .corner v _ => some v
  | .side _ => none

def of? : Option Vertical → Option Horizontal → Option Edge
  | some v, some h => some (.corner v h)
  | some v, none => some (.level v)
  | none, some h => some (.side h)
  | none, none => none

def pointer : Edge → Pointer
  | .level _ => .vertical
  | .side _ => .horizontal
  | .corner .top .left | .corner .bottom .right => .falling
  | .corner .top .right | .corner .bottom .left => .rising

theorem of?_eq_none_iff {v : Option Vertical} {h : Option Horizontal} :
    of? v h = none ↔ v = none ∧ h = none := by
  cases v <;> cases h <;> simp [of?]

end Edge

/-- A resize that is going on: the edge, and the mouse and the window when it began. -/
structure Resize where
  edge : Edge
  mouseX : Int
  mouseY : Int
  start : Rect
  deriving Repr, DecidableEq

def least : Int := 10

namespace Resize

/-- The geometry after a side was moved left or right, unless the window would get too narrow. -/
def moveSide (r : Rect) (d : Int) : Horizontal → Rect
  | .left => if least ≤ r.width - d then { r with x := r.x + d, width := r.width - d } else r
  | .right => if least ≤ r.width + d then { r with width := r.width + d } else r

def moveLevel (r : Rect) (d : Int) : Vertical → Rect
  | .top => if least ≤ r.height - d then { r with y := r.y + d, height := r.height - d } else r
  | .bottom => if least ≤ r.height + d then { r with height := r.height + d } else r

def geometry (r : Resize) (x y : Int) : Rect :=
  let g := match r.edge.horizontal? with
    | some h => moveSide r.start (x - r.mouseX) h
    | none => r.start
  match r.edge.vertical? with
  | some v => moveLevel g (y - r.mouseY) v
  | none => g

end Resize

end Window

open Window in
/-- A window. `grip` is where it is held in a move, `restored` its geometry before it was maximized, and `caption` the
    text of the button for that. -/
structure Window where
  geometry : Rect := ⟨0, 0, 1000, 700⟩
  maximized : Bool := false
  caption : String := ""
  restored : Option Rect := none
  grip : Option (Int × Int) := none
  resize : Option Resize := none
  margin : Int := 6
  pointer : Option Pointer := none
  deriving Repr, DecidableEq

namespace Window

def titleHeight : Int := 40

def screen : Rect := ⟨0, 0, 1920, 1080⟩

def edgeAt? (w : Window) (x y : Int) : Option Edge :=
  let h := if x ≤ w.margin then some .left
    else if w.geometry.width - w.margin ≤ x then some .right else none
  let v := if y ≤ w.margin then some .top
    else if w.geometry.height - w.margin ≤ y then some .bottom else none
  Edge.of? v h

def showPointer (w : Window) (e : Option Edge) : Window :=
  { w with pointer := some ((e.map Edge.pointer).getD .arrow) }

def toggleMaximizedOn (w : Window) (available : Rect) : Window :=
  if w.maximized then
    { w with geometry := w.restored.getD w.geometry, maximized := false, caption := "□" }
  else
    { w with restored := some w.geometry, geometry := available, maximized := true, caption := "❐" }

def toggleMaximized (w : Window) : Window := w.toggleMaximizedOn screen

/-- A press of the left button at a point of the window, with the mouse at `(gx, gy)` on the screen. The result tells
    whether a resize or a move begins. -/
def press (w : Window) (x y gx gy : Int) : Window × Bool :=
  match (if w.maximized then none else w.edgeAt? x y) with
  | some e => ({ w with resize := some ⟨e, gx, gy, w.geometry⟩ }, true)
  | none =>
    if y ≤ titleHeight then
      ({ w with grip := some (gx - w.geometry.x, gy - w.geometry.y) }, true)
    else (w, false)

def resizeTo (w : Window) (gx gy : Int) : Window :=
  match w.resize with
  | some r => { w with geometry := r.geometry gx gy }
  | none => w

def drag (w : Window) (gx gy : Int) : Window × Bool :=
  match (if w.maximized then none else w.grip) with
  | some (x, y) => ({ w with geometry := { w.geometry with x := gx - x, y := gy - y } }, true)
  | none => if w.resize.isSome then (w.resizeTo gx gy, true) else (w, false)

def hover (w : Window) (x y : Int) : Window :=
  if w.maximized then w else w.showPointer (w.edgeAt? x y)

def release (w : Window) : Window := { w with grip := none, resize := none, pointer := some .arrow }

def doubleClick (w : Window) (y : Int) : Window × Bool :=
  if y ≤ titleHeight then (w.toggleMaximized, true) else (w, false)

def importedText (path : String) : String := s!"Main window received file: {path}\n"

/-- A resize keeps a window from getting smaller than allowed, or smaller than it was. -/
theorem least_le_width_geometry (r : Resize) (x y : Int) (h : least ≤ r.start.width) :
    least ≤ (r.geometry x y).width := by
  simp only [Resize.geometry, Resize.moveSide, Resize.moveLevel]
  grind

end Window

end WatchFace
