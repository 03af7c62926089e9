import WatchFace.Rect

/-!
# Flow layout
-/

namespace WatchFace

structure Margins where
  left : Int := 0
  top : Int := 0
  right : Int := 0
  bottom : Int := 0
  deriving Repr, DecidableEq, Inhabited

structure Flow.Item where
  number : Nat
  width : Int
  height : Int
  place : Option Rect := none
  deriving Repr, DecidableEq, Inhabited

/-- A flow layout. `height` is the height that was last computed. -/
structure Flow where
  items : List Flow.Item := []
  margins : Margins := {}
  spacing : Int := 5
  height : Int := 0
  deriving Repr, DecidableEq, Inhabited

namespace Flow

structure Cursor where
  x : Int
  y : Int
  row : Int := 0
  deriving Repr, DecidableEq, Inhabited

/-- The cursor at which an item of a width is placed: in a new row if the item with the spacing goes past the right
    margin, unless the row is empty. -/
def wrap (m : Margins) (spacing : Int) (r : Rect) (c : Cursor) (width : Int) : Cursor :=
  if c.x + width + spacing > r.right - m.right ∧ c.row > 0 then
    { x := r.x + m.left, y := c.y + c.row + spacing, row := 0 }
  else c

def rowsFrom (m : Margins) (spacing : Int) (r : Rect) (c : Cursor) :
    List (Int × Int) → List Rect × Cursor
  | [] => ([], c)
  | (w, h) :: rest =>
    let c := wrap m spacing r c w
    let (places, last) :=
      rowsFrom m spacing r { c with x := c.x + w + spacing, row := max c.row h } rest
    (⟨c.x, c.y, w, h⟩ :: places, last)

def rows (m : Margins) (spacing : Int) (r : Rect) (sizes : List (Int × Int)) : List Rect × Int :=
  let (places, c) := rowsFrom m spacing r { x := r.x + m.left, y := r.y + m.top } sizes
  (places, c.y + c.row - r.y + m.bottom)

def sizes (f : Flow) : List (Int × Int) := f.items.map fun i => (i.width, i.height)

def measure (f : Flow) (width : Int) : Flow × Int :=
  let h := (rows f.margins f.spacing ⟨0, 0, width, 0⟩ f.sizes).2
  ({ f with height := h }, h)

def arrange (f : Flow) (r : Rect) : Flow :=
  let (places, h) := rows f.margins f.spacing r f.sizes
  { f with
    height := h
    items := List.zipWith (fun i p => { i with place := some p }) f.items places }

def least (f : Flow) : Int × Int :=
  match f.items with
  | [] => (0, 0)
  | i :: _ => (i.width + f.margins.left + f.margins.right,
      f.height + f.margins.top + f.margins.bottom)

def add (f : Flow) (i : Item) : Flow := { f with items := f.items ++ [i] }

def at? (f : Flow) (i : Int) : Option Item := if i < 0 then none else f.items[i.toNat]?

def take? (f : Flow) (i : Int) : Flow × Option Item :=
  match f.at? i with
  | some item => ({ f with items := f.items.eraseIdx i.toNat }, some item)
  | none => (f, none)

theorem length_rowsFrom (m : Margins) (spacing : Int) (r : Rect) (c : Cursor)
    (sizes : List (Int × Int)) : (rowsFrom m spacing r c sizes).1.length = sizes.length := by
  induction sizes generalizing c with
  | nil => rfl
  | cons s rest ih => simp [rowsFrom, ih]

end Flow

end WatchFace
