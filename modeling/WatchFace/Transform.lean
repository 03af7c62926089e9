import WatchFace.Fault
import WatchFace.Number.Exact

/-!
# Plane transforms

Affine maps as three by three matrices that act on row vectors, over any scalars: the program works with doubles, the
theory with exact numbers. A step collects elementary maps, and becomes part of the whole when the next step begins or
when it is pushed.
-/

namespace WatchFace.Transform

structure Matrix (α : Type) where
  m11 : α
  m12 : α
  m13 : α
  m21 : α
  m22 : α
  m23 : α
  m31 : α
  m32 : α
  m33 : α
  deriving Repr, DecidableEq

namespace Matrix

variable {α : Type}

/-- The product; the left factor acts first. -/
def mul [Add α] [Mul α] (a b : Matrix α) : Matrix α where
  m11 := a.m11 * b.m11 + a.m12 * b.m21 + a.m13 * b.m31
  m12 := a.m11 * b.m12 + a.m12 * b.m22 + a.m13 * b.m32
  m13 := a.m11 * b.m13 + a.m12 * b.m23 + a.m13 * b.m33
  m21 := a.m21 * b.m11 + a.m22 * b.m21 + a.m23 * b.m31
  m22 := a.m21 * b.m12 + a.m22 * b.m22 + a.m23 * b.m32
  m23 := a.m21 * b.m13 + a.m22 * b.m23 + a.m23 * b.m33
  m31 := a.m31 * b.m11 + a.m32 * b.m21 + a.m33 * b.m31
  m32 := a.m31 * b.m12 + a.m32 * b.m22 + a.m33 * b.m32
  m33 := a.m31 * b.m13 + a.m32 * b.m23 + a.m33 * b.m33

variable [Zero α] [One α]

def one : Matrix α where
  m11 := 1
  m12 := 0
  m13 := 0
  m21 := 0
  m22 := 1
  m23 := 0
  m31 := 0
  m32 := 0
  m33 := 1

def shifting (dx dy : α) : Matrix α := { (one : Matrix α) with m31 := dx, m32 := dy }

def scaling (sx sy : α) : Matrix α := { (one : Matrix α) with m11 := sx, m22 := sy }

def shearing (sh sv : α) : Matrix α := { (one : Matrix α) with m12 := sv, m21 := sh }

def rotation [Neg α] (c s : α) : Matrix α :=
  { (one : Matrix α) with m11 := c, m12 := s, m21 := -s, m22 := c }

def image [Add α] [Mul α] (a : Matrix α) (x y : α) : α × α :=
  (x * a.m11 + y * a.m21 + a.m31, x * a.m12 + y * a.m22 + a.m32)

end Matrix

structure Staged (α : Type) where
  whole : Matrix α
  pending : Option (Matrix α) := none
  deriving Repr, DecidableEq

namespace Staged

variable {α : Type} [Zero α] [One α] [Add α] [Mul α]

def start (inherited : Option (Matrix α)) : Staged α :=
  ⟨match inherited with
    | some m => Matrix.one.mul m
    | none => Matrix.one, none⟩

def push (t : Staged α) : Except Fault (Staged α) :=
  match t.pending with
  | some m => .ok ⟨t.whole.mul m, none⟩
  | none => .error .wrongKind

def nextWith (t : Staged α) (m : Matrix α) : Staged α :=
  match t.pending with
  | some p => ⟨t.whole.mul p, some m⟩
  | none => ⟨t.whole, some m⟩

def next (t : Staged α) : Staged α := t.nextWith Matrix.one

/-- Changes the pending step, or the whole if no step is pending. -/
def change (t : Staged α) (f : Matrix α → Matrix α) : Staged α :=
  match t.pending with
  | some p => { t with pending := some (f p) }
  | none => { t with whole := f t.whole }

def add (t : Staged α) (m : Matrix α) : Staged α := t.change (·.mul m)

end Staged

def pi : Float := 3.141592653589793

def radians (degrees : Float) : Float := degrees * (pi / 180.0)

def degrees (radians : Float) : Float := radians * (180.0 / pi)

/-- The cosine and the sine of an angle in degrees; an infinite angle has none. -/
def circle (angle : Float) : Except Fault (Float × Float) :=
  let r := radians angle
  if r.isInf then .error .badValue else .ok (r.cos, r.sin)

def turn (angle : Float) : Except Fault (Matrix Float) :=
  (circle angle).map fun (c, s) => Matrix.rotation c s

def remainder (x : Float) (n : Nat) : Float :=
  match Number.Exact.ofFloat? x with
  | none => 0.0 / 0.0
  | some v =>
    let r :=
      if 0 ≤ v.e then Float.ofNat (v.m * Nat.pow 2 v.e.toNat % n)
      else (Float.ofNat (v.m % (n * Nat.pow 2 (-v.e).toNat))).scaleB v.e
    if v.negative && r != 0 then Float.ofNat n - r else r

end WatchFace.Transform
