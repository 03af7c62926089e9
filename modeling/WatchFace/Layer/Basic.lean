import WatchFace.Color
import WatchFace.Font.Families
import WatchFace.Layer.Box
import WatchFace.Number.Arithmetic

/-!
# Text layers

A layer follows the channels of its attributes; a value that it cannot use leaves it as it was, up to the point where it
failed.
-/

namespace WatchFace

open Transform

/-- A text layer. Offsets tell where it lies about its point, in parts of its size; `pulled` is the size reached by
    dragging, before rounding. -/
structure Layer where
  x : Float := 0
  y : Float := 0
  width : Float := 100
  height : Float := 100
  rotation : Value := .int 0
  skewX : Value := .int 0
  skewY : Value := .int 0
  offsetX : Float := 0
  offsetY : Float := 0
  depth : Value := .none
  name : Value := .text ""
  matrix : Option (Transform.Matrix Float) := none
  /-- Whether the transform has several values at once, as a skew lists several angles. -/
  vague : Bool := false
  opacity : Option Float := none
  plain : Value := .none
  color : Option Color := none
  family : String := Font.fallback
  size : Int := 12
  pulled : Option Float := none
  box : Layer.Box := {}
  /-- The channels of its attributes. -/
  channels : List (String × Nat) := []
  deriving Repr

namespace Layer

abbrev Act := EStateM Fault Layer

def require {α : Type} : Except Fault α → Act α
  | .ok a => pure a
  | .error e => throw e

/-- The transform of a text layer of size `w` by `h`: its middle goes to the origin; it is sheared, moved by its offsets
    and turned. -/
def frame {α : Type} [Zero α] [One α] [Add α] [Mul α] [Neg α] [Div α] [OfNat α 2]
    (w h offsetX offsetY shearX shearY c s : α) : Staged α :=
  let t := (Staged.start (none : Option (Transform.Matrix α))).next.add (.shifting (-w / 2) (-h / 2))
  let t := t.next.add (.shearing shearX shearY)
  let t := t.nextWith (Transform.Matrix.one.mul (.shifting (-w * offsetX) (-h * offsetY)))
  t.next.add (.rotation c s)

/-- The tangent of an angle of skew. A flag has eleven binary digits, and whole numbers have to fit in 64 bits. -/
def tangent : Value → Except Fault Float
  | .bool b => .ok (if b then 0.0174560546875 else 0)
  | .int n =>
    if -Int.pow 2 63 ≤ n ∧ n < Int.pow 2 64 then .ok (radians (Float.ofInt n)).tan
    else .error .wrongKind
  | v => v.measure.map fun x => (radians x).tan

/-- The tangent of a skew. Lists nest if all parts have one shape; one that does not come down to an angle has no single
    tangent. -/
def slope (v : Value) : Except Fault (Option Float) := do
  if v.shape?.isNone then throw .badValue
  match ← v.leaves.mapM tangent with
  | [t] => return some t
  | _ => return none

def slopes (l : Layer) : Except Fault (Option (Float × Float)) := do
  let x ← slope l.skewX
  let y ← slope l.skewY
  return x.bind fun x => y.map fun y => (x, y)

def ownMatrix (l : Layer) : Except Fault (Option (Transform.Matrix Float)) := do
  let slopes ← l.slopes
  let (c, s) ← circle (← l.rotation.measure)
  slopes.mapM fun (x, y) => do
    return (← (frame l.width l.height l.offsetX l.offsetY x y c s).push).whole

def bareMatrix (l : Layer) : Except Fault (Option (Transform.Matrix Float)) := do
  let slopes ← l.slopes
  let (c, s) ← circle (← l.rotation.toFloat)
  slopes.mapM fun (x, y) => do
    let t := (Staged.start (none : Option (Transform.Matrix Float))).next.add (.shearing x y)
    return (← (t.next.add (.rotation c s)).push).whole

def setMatrix (m : Option (Transform.Matrix Float)) : Act Unit := modify fun l =>
  match m with
  | some m => { l with matrix := some m, vague := false }
  | none => { l with vague := true }

def place : Act Unit := do
  setMatrix (← require (← get).ownMatrix)

def changeBox (f : Box → Box) : Act Unit := modify fun l => { l with box := f l.box }

/-- Fits the box to the layer as it lies without rotation, and turns it with the layer. A layer that cannot be placed
    leaves the box busy for good. -/
def fit : Act Unit := do
  let l ← get
  if l.box.busy then return
  changeBox fun b => { b with busy := true }
  modify fun l => { l with rotation := .int 0 }
  place
  changeBox fun b =>
    { b with
      matrix := some (Transform.Matrix.one.mul (.shifting (l.width / 2) (l.height / 2)))
      x := -l.width / 2, y := -l.height / 2, width := l.width, height := l.height
      originX := l.width * l.offsetX, originY := l.height * l.offsetY
      rotation := l.rotation }
  changeBox fun b => b.arrange l.offsetX l.offsetY
  modify fun m => { m with rotation := l.rotation }
  place
  changeBox fun b => { b with busy := false }

def settle : Act Unit := do
  place
  fit

def settleBare : Act Unit := do
  setMatrix (← require (← get).bareMatrix)
  fit

inductive Part where
  | order | moveX | moveY | skewX | skewY | rotate | opacity | display | transform
  | text | font | size | color | alignment
  deriving Repr, DecidableEq

def ground : Int := -999

def depthOf : Value → Except Fault Value
  | .float x => .ok (.float (Float.ofInt ground + x))
  | v =>
    match v.quantity? with
    | some (.whole n) => .ok (.int (ground + n))
    | _ => .error .wrongKind

/-- The size of a text for a value: nothing and what is not positive stand for twelve. -/
def sizeOf (v : Value) : Except Fault Int :=
  if v.truthy then v.toInt.map fun n => if n ≤ 0 then 12 else n else .ok 12

def fontSize (l : Layer) : Int := if l.size ≤ 0 then 12 else l.size

def colorOf (v : Value) : Except Fault Color :=
  if !v.truthy then .ok (Color.parse "#ffffff")
  else
    match v with
    | .text s => .ok (Color.parse (if s.startsWith "#" then s else "#" ++ s))
    | _ => .error .missing

/-- The offsets of an alignment, by letters that occur in it: a C centres, then an l is left and an i right, and a B is
    the bottom and a p the top. -/
def alignTo (low mid high : Float) (s : String) (offsetX offsetY : Float) : Float × Float :=
  let cs := s.toList
  let (x, y) := if cs.contains 'c' || cs.contains 'C' then (mid, mid) else (offsetX, offsetY)
  (if cs.contains 'l' then low else if cs.contains 'i' then high else x,
   if cs.contains 'B' then high else if cs.contains 'p' then low else y)

def apply (families : Font.Families) (p : Part) (v : Value) : Act Unit :=
  match p with
  | .order => do
    let depth ← require (depthOf v)
    modify fun l => { l with depth := depth }
  | .moveX => do
    let x ← require v.toFloat
    modify fun l => { l with x := x }
  | .moveY => do
    let y ← require v.toFloat
    modify fun l => { l with y := y }
  | .skewX => modify fun l => { l with skewX := v }
  | .skewY => modify fun l => { l with skewY := v }
  | .rotate => modify fun l => { l with rotation := v }
  | .opacity => do
    let x ← require v.toFloat
    modify fun l => { l with opacity := some (x / 100) }
  | .display => pure ()
  | .transform => settle
  | .text => do
    modify fun l => { l with plain := v }
    fit
  | .font => do
    let family ← require (Font.Families.familyFor families v)
    modify fun l => { l with family := family, size := l.fontSize }
  | .size => do
    let n ← require (sizeOf v)
    modify fun l => { l with size := n }
  | .color => do
    let c ← require (colorOf v)
    modify fun l => { l with color := some c }
  | .alignment =>
    match v with
    | .text s => modify fun l =>
        let (x, y) := alignTo (-0.5) 0 0.5 s l.offsetX l.offsetY
        { l with offsetX := x, offsetY := y }
    | _ => throw .missing

def hear (families : Font.Families) (p : Part) : Option Value → Act Unit
  | some v => apply families p v
  | none =>
    match p with
    | .transform => settle
    | _ => throw .wrongKind

def select (v : Bool) : Act Unit := changeBox fun b => { b with visible := v || b.selected }

/-- The attributes that a layer follows, in the order in which it joins their channels before and after it is placed. -/
def following : List (String × Part) × List (String × Part) :=
  ([("Layer", .order), ("X", .moveX), ("Y", .moveY), ("Skew X", .skewX), ("Skew Y", .skewY),
    ("Rotation", .rotate), ("Opacity", .opacity), ("Display", .display),
    ("Skew X", .transform), ("Skew Y", .transform), ("Rotation", .transform)],
   [("Text", .text), ("Font", .font), ("Text size", .size), ("Color", .color),
    ("Alignment", .alignment), ("Font", .transform), ("Text size", .transform),
    ("Alignment", .transform)])

def larger (a b : Float) : Float := if a < b then b else a

/-- What pulling a handle asks for: a new size and a shift that keeps the opposite handle in place. -/
structure Pull where
  size : Int
  dx : Float
  dy : Float
  deriving Repr

/-- Pulls a handle by a distance on the scene; one that is not there is a fault. The size grows in proportion; less than
    a whole step is kept for later. -/
def pull (d : Option Direction) (dx dy : Float) : Act (Option Pull) := do
  let l ← get
  let w := l.box.width + (← require (opposite l.skewX))
  let h := l.box.height + (← require (opposite l.skewY))
  if w <= 0 || h <= 0 then return none
  let some d := d | throw .noEntry
  let (hx, hy) := d.offset
  let (c, s) ← require (do circle (← l.rotation.measure))
  let size ← require (Value.int l.fontSize).toFloat
  let localX := dx * c + dy * s
  let localY := -dx * s + dy * c
  let (step, extent) :=
    if hy != 0 then (localY * (if hy > 0 then 1 else -1), h)
    else (localX * (if hx > 0 then 1 else -1), w)
  let change := step * size / extent
  let start := match l.pulled with
    | some p => if (p - size).abs > 1.0 then size else p
    | none => size
  let pulled := larger 1.0 (start + change)
  modify fun l => { l with pulled := some pulled }
  let whole ← require (Value.float pulled).toInt
  let new := if whole < 1 then 1 else whole
  if new = l.fontSize then return none
  let ratio ← require (Number.Quantity.divided (.whole new) (.whole l.fontSize))
  let px := (l.offsetX + hx) * (w * (ratio - 1))
  let py := (l.offsetY + hy) * (h * (ratio - 1))
  return some ⟨new, px * c - py * s, px * s + py * c⟩
where
  /-- The tangent of the opposite of a number. -/
  opposite (v : Value) : Except Fault Float := do
    let x ← v.measure
    if x.isInf then .error .badValue else .ok (-x).tan

end Layer

end WatchFace
