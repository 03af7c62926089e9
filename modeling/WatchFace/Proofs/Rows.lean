import Mathlib.Algebra.Order.Ring.Cast
import Mathlib.Data.List.Chain
import Mathlib.Data.Rat.Cast.Order
import Mathlib.Order.CompletePartialOrder
import Mathlib.Order.Interval.Set.Basic
import WatchFace.Flow

/-!
# The rows of a flow layout

Each place lies beside or below all that were placed before it. A row ends as soon as the next item and the spacing
behind it would go past the right margin; the spacing alone can be what is too much.
-/

namespace WatchFace

namespace Rect

variable {p q : Rect}

def size (r : Rect) : Int × Int := (r.width, r.height)

def translate (r : Rect) (dx dy : Int) : Rect := { r with x := r.x + dx, y := r.y + dy }

def offset (r : Rect) (x y : Int) : Int × Int := (r.x - x, r.y - y)

theorem offset_translate (r : Rect) (x y : Int) : (r.translate x y).offset x y = r.offset 0 0 := by
  simp [offset, translate]

def interior (r : Rect) : Set (ℚ × ℚ) := Set.Ioo (r.x : ℚ) r.right ×ˢ Set.Ioo (r.y : ℚ) r.bottom

def Apart (p q : Rect) : Prop := Disjoint p.interior q.interior

theorem apart_of_right_le (h : p.right ≤ q.x) : p.Apart q := by
  refine Set.disjoint_left.mpr fun a hp hq => ?_
  have hle : (p.right : ℚ) ≤ q.x := Int.cast_le.mpr h
  exact absurd (hp.1.2.trans_le hle) hq.1.1.not_gt

theorem apart_of_bottom_le (h : p.bottom ≤ q.y) : p.Apart q := by
  refine Set.disjoint_left.mpr fun a hp hq => ?_
  have hle : (p.bottom : ℚ) ≤ q.y := Int.cast_le.mpr h
  exact absurd (hp.2.2.trans_le hle) hq.2.1.not_gt

end Rect

namespace Flow

open List

variable {m : Margins} {spacing : Int} {r : Rect} {c : Cursor} {p q : Rect} {sizes : List (Int × Int)} {w h : Int}

/-! ### One item -/

namespace Cursor

def past (c : Cursor) (spacing w h : Int) : Cursor := { c with x := c.x + w + spacing, row := max c.row h }

def bottom (c : Cursor) : Int := c.y + c.row

/-- A place that is still free at the cursor: on its row and not to the left of it, or below the row. -/
def Frees (c : Cursor) (p : Rect) : Prop := p.y = c.y ∧ c.x ≤ p.x ∨ c.bottom ≤ p.y

theorem left_le_wrap (hc : r.x + m.left ≤ c.x) (spacing w : Int) : r.x + m.left ≤ (wrap m spacing r c w).x := by
  unfold wrap
  split
  · exact le_refl _
  · exact hc

theorem left_le_past (hc : r.x + m.left ≤ c.x) (hs : 0 ≤ spacing) (hw : 0 ≤ w) (h : Int) :
    r.x + m.left ≤ (c.past spacing w h).x := by
  simp only [past]
  omega

theorem Frees.of_wrap (hs : 0 ≤ spacing) (hp : (wrap m spacing r c w).Frees p) : c.Frees p := by
  unfold Flow.wrap at hp
  split at hp
  · -- what is free in the new row lies below the old one
    right
    simp only [Frees, bottom] at hp ⊢
    omega
  · exact hp

theorem Frees.of_past (hs : 0 ≤ spacing) (hw : 0 ≤ w) (hp : (c.past spacing w h).Frees p) :
    c.Frees p ∧ (Rect.mk c.x c.y w h).Apart p := by
  obtain ⟨hy, hx⟩ | hbelow := hp
  · simp only [past] at hy hx
    refine ⟨.inl ⟨hy, by omega⟩, Rect.apart_of_right_le ?_⟩
    simp only [Rect.right]
    omega
  · simp only [past, bottom] at hbelow
    refine ⟨.inr ?_, Rect.apart_of_bottom_le ?_⟩
    · simp only [bottom]
      omega
    · simp only [Rect.bottom]
      omega

theorem max_bottom_wrap (hs : 0 ≤ spacing) (hh : 0 ≤ h) (c : Cursor) (w : Int) :
    let c' := wrap m spacing r c w
    (c'.past spacing w h).bottom = max c.bottom (Rect.mk c'.x c'.y w h).bottom := by
  unfold Flow.wrap
  split <;> simp only [past, bottom, Rect.bottom] <;> omega

end Cursor

/-! ### All items -/

theorem rowsFrom_cons (m : Margins) (spacing : Int) (r : Rect) (c : Cursor) (s : Int × Int) (rest : List (Int × Int)) :
    rowsFrom m spacing r c (s :: rest) =
      let c' := wrap m spacing r c s.1
      let placed := rowsFrom m spacing r (c'.past spacing s.1 s.2) rest
      (⟨c'.x, c'.y, s.1, s.2⟩ :: placed.1, placed.2) := rfl

theorem map_size_rowsFrom (m : Margins) (spacing : Int) (r : Rect) (c : Cursor) (sizes : List (Int × Int)) :
    (rowsFrom m spacing r c sizes).1.map Rect.size = sizes := by
  induction sizes generalizing c with
  | nil => rfl
  | cons s rest ih => rw [rowsFrom_cons, map_cons, ih]; rfl

section

variable (hs : 0 ≤ spacing) (hsizes : ∀ s ∈ sizes, 0 ≤ s.1 ∧ 0 ≤ s.2)

include hs hsizes

theorem frees_of_mem_rowsFrom (hc : r.x + m.left ≤ c.x) :
    ∀ p ∈ (rowsFrom m spacing r c sizes).1, c.Frees p ∧ r.x + m.left ≤ p.x := by
  induction sizes generalizing c with
  | nil => exact fun _ hp => absurd hp not_mem_nil
  | cons s rest ih =>
    obtain ⟨⟨hw, -⟩, hrest⟩ := forall_mem_cons.mp hsizes
    have hc' := Cursor.left_le_wrap hc spacing s.1
    refine forall_mem_cons.mpr ⟨⟨Cursor.Frees.of_wrap hs (.inl ⟨rfl, le_refl _⟩), hc'⟩, fun p hp => ?_⟩
    obtain ⟨hfree, hleft⟩ := ih hrest (Cursor.left_le_past hc' hs hw s.2) p hp
    exact ⟨(hfree.of_past hs hw).1.of_wrap hs, hleft⟩

theorem pairwise_rowsFrom (hc : r.x + m.left ≤ c.x) :
    (rowsFrom m spacing r c sizes).1.Pairwise Rect.Apart := by
  induction sizes generalizing c with
  | nil => exact .nil
  | cons s rest ih =>
    obtain ⟨⟨hw, -⟩, hrest⟩ := forall_mem_cons.mp hsizes
    have hc' := Cursor.left_le_past (Cursor.left_le_wrap hc spacing s.1) hs hw s.2
    refine .cons (fun q hq => ?_) (ih hrest hc')
    exact ((frees_of_mem_rowsFrom hs hrest hc' q hq).1.of_past hs hw).2

theorem bottom_rowsFrom (c : Cursor) :
    (rowsFrom m spacing r c sizes).2.bottom = ((rowsFrom m spacing r c sizes).1.map Rect.bottom).foldl max c.bottom := by
  induction sizes generalizing c with
  | nil => rfl
  | cons s rest ih =>
    obtain ⟨⟨-, hh⟩, hrest⟩ := forall_mem_cons.mp hsizes
    rw [rowsFrom_cons, map_cons, foldl_cons, ← Cursor.max_bottom_wrap hs hh c s.1]
    exact ih hrest _

def start (m : Margins) (r : Rect) : Cursor := { x := r.x + m.left, y := r.y + m.top }

theorem corner_of_mem_rows : ∀ p ∈ (rows m spacing r sizes).1, r.x + m.left ≤ p.x ∧ r.y + m.top ≤ p.y := by
  intro p hp
  obtain ⟨hfree, hleft⟩ := frees_of_mem_rowsFrom hs hsizes (c := start m r) (le_refl _) p hp
  refine ⟨hleft, ?_⟩
  obtain ⟨hy, -⟩ | hbelow := hfree
  · exact hy.ge
  · exact (add_zero _).symm.trans_le hbelow

theorem height_rows : (rows m spacing r sizes).2 =
    ((rows m spacing r sizes).1.map Rect.bottom).max?.getD (r.y + m.top) - r.y + m.bottom := by
  have hstart : (start m r).bottom = r.y + m.top := add_zero _
  have hlow : r.y + m.top ≤ ((rows m spacing r sizes).1.map Rect.bottom).max?.getD (r.y + m.top) := by
    cases hmax : ((rows m spacing r sizes).1.map Rect.bottom).max? with
    | none => exact le_refl _
    | some b =>
      obtain ⟨p, hp, rfl⟩ := mem_map.mp (max?_mem hmax)
      have hsize : p.size ∈ sizes := map_size_rowsFrom m spacing r (start m r) sizes ▸ mem_map_of_mem hp
      have htop := (corner_of_mem_rows hs hsizes p hp).2
      have hheight : 0 ≤ p.height := (hsizes _ hsize).2
      simp only [Option.getD_some, Rect.bottom]
      omega
  have hbottom := bottom_rowsFrom (m := m) (r := r) hs hsizes (start m r)
  rw [foldl_max, hstart] at hbottom
  exact congrArg (· - r.y + m.bottom) (hbottom.trans (max_eq_right hlow))

end

/-- How a place is followed by the next one: beside it, or in a new row if the next item and the spacing behind it do
    not fit there. -/
def Next (m : Margins) (spacing : Int) (r : Rect) (p q : Rect) : Prop :=
  if r.right - m.right < p.right + spacing + q.width + spacing then q.x = r.x + m.left ∧ p.bottom ≤ q.y
  else q.x = p.right + spacing ∧ q.y = p.y

theorem next_wrap (hs : 0 ≤ spacing) (hh : 0 < h) (c : Cursor) (w' h' : Int) :
    let c' := wrap m spacing r (c.past spacing w h) w'
    Next m spacing r ⟨c.x, c.y, w, h⟩ ⟨c'.x, c'.y, w', h'⟩ := by
  have hrow : max c.row h > 0 := lt_max_of_lt_right hh
  unfold wrap Next
  simp only [Cursor.past, hrow, and_true, Rect.right, Rect.bottom, gt_iff_lt]
  split <;> dsimp only
  · exact ⟨rfl, by omega⟩
  · exact ⟨rfl, rfl⟩

theorem isChain_rowsFrom (hs : 0 ≤ spacing) (hsizes : ∀ s ∈ sizes, 0 < s.2) (c : Cursor) :
    (rowsFrom m spacing r c sizes).1.IsChain (Next m spacing r) := by
  induction sizes generalizing c with
  | nil => exact .nil
  | cons s rest ih =>
    obtain ⟨hh, hrest⟩ := forall_mem_cons.mp hsizes
    refine (ih hrest _).cons fun q hq => ?_
    cases rest with
    | nil => cases hq
    | cons s' rest =>
      obtain rfl := Option.some.inj hq
      exact next_wrap hs hh _ s'.1 s'.2

/-! ### Rectangles elsewhere -/

def Cursor.translate (c : Cursor) (x y : Int) : Cursor := { c with x := c.x + x, y := c.y + y }

section

variable (m : Margins) (spacing x y w h : Int)

theorem wrap_translate (c : Cursor) (width : Int) :
    wrap m spacing ⟨x, y, w, h⟩ (c.translate x y) width = (wrap m spacing ⟨0, 0, w, 0⟩ c width).translate x y := by
  have hiff : x + w - m.right < c.x + x + width + spacing ↔ 0 + w - m.right < c.x + width + spacing := by omega
  simp only [wrap, Cursor.translate, Rect.right, gt_iff_lt, hiff]
  split
  · simp only [Cursor.mk.injEq, and_true]
    omega
  · rfl

theorem rowsFrom_translate (c : Cursor) (sizes : List (Int × Int)) :
    rowsFrom m spacing ⟨x, y, w, h⟩ (c.translate x y) sizes =
      (rowsFrom m spacing ⟨0, 0, w, 0⟩ c sizes).map (map (·.translate x y)) (·.translate x y) := by
  induction sizes generalizing c with
  | nil => rfl
  | cons s rest ih =>
    have hpast : ∀ c : Cursor, (c.translate x y).past spacing s.1 s.2 = (c.past spacing s.1 s.2).translate x y := by
      intro c
      simp only [Cursor.past, Cursor.translate, Cursor.mk.injEq, and_true]
      omega
    simp only [rowsFrom_cons, wrap_translate, hpast, ih]
    rfl

/-- **A rectangle of the same width elsewhere gets the same rows.** -/
theorem rows_translate (sizes : List (Int × Int)) :
    rows m spacing ⟨x, y, w, h⟩ sizes = (rows m spacing ⟨0, 0, w, 0⟩ sizes).map (map (·.translate x y)) id := by
  have hstart : ({ x := x + m.left, y := y + m.top } : Cursor) =
      Cursor.translate { x := 0 + m.left, y := 0 + m.top } x y := by
    simp only [Cursor.translate, Cursor.mk.injEq, and_true]
    omega
  have hheight : ∀ c : Cursor, (c.translate x y).bottom - y + m.bottom = c.bottom - 0 + m.bottom := by
    intro c
    simp only [Cursor.bottom, Cursor.translate]
    omega
  unfold rows
  rw [hstart, rowsFrom_translate]
  exact Prod.ext rfl (hheight _)

end

/-! ### The items of a layout -/

theorem map_place_arrange (f : Flow) (r : Rect) :
    (f.arrange r).items.map Item.place = (rows f.margins f.spacing r f.sizes).1.map some := by
  have hlength : (rows f.margins f.spacing r f.sizes).1.length ≤ f.items.length :=
    (length_rowsFrom ..).trans_le (by simp [sizes])
  show (zipWith _ f.items _).map Item.place = _
  rw [map_zipWith, ← map_uncurry_zip_eq_zipWith, ← map_snd_zip hlength, map_map]
  rfl

/-- **The items of a layout do not overlap**, and the height is that down to the lowest item with the margin below. -/
theorem arrange_apart (f : Flow) (r : Rect) (hs : 0 ≤ f.spacing)
    (hsizes : ∀ i ∈ f.items, 0 ≤ i.width ∧ 0 ≤ i.height) :
    ∃ places : List Rect, (f.arrange r).items.map Item.place = places.map some ∧ places.map Rect.size = f.sizes ∧
      places.Pairwise Rect.Apart ∧
      (∀ p ∈ places, r.x + f.margins.left ≤ p.x ∧ r.y + f.margins.top ≤ p.y) ∧
      (f.arrange r).height =
        (places.map Rect.bottom).max?.getD (r.y + f.margins.top) - r.y + f.margins.bottom := by
  have hsizes' : ∀ s ∈ f.sizes, 0 ≤ s.1 ∧ 0 ≤ s.2 := by simpa [sizes] using hsizes
  exact ⟨_, f.map_place_arrange r, map_size_rowsFrom .., pairwise_rowsFrom hs hsizes' (le_refl _),
    corner_of_mem_rows hs hsizes', height_rows hs hsizes'⟩

def trio : Flow where
  items := [⟨0, 10, 10, none⟩, ⟨1, 20, 0, none⟩, ⟨2, 5, 8, none⟩]
  margins := ⟨1, 2, 3, 4⟩

theorem arrange_apart_trio : (0 ≤ trio.spacing ∧ ∀ i ∈ trio.items, 0 ≤ i.width ∧ 0 ≤ i.height) ∧
    ∃ places : List Rect, (trio.arrange ⟨-5, 7, 40, 9⟩).items.map Item.place = places.map some ∧
      places.Pairwise Rect.Apart := by
  have hsizes : ∀ i ∈ trio.items, 0 ≤ i.width ∧ 0 ≤ i.height := by decide
  obtain ⟨places, hplaces, -, hapart, -⟩ := arrange_apart trio ⟨-5, 7, 40, 9⟩ (by decide) hsizes
  exact ⟨⟨by decide, hsizes⟩, places, hplaces, hapart⟩

/-- **To measure a layout is to arrange it**, wherever the rectangle lies and however high it is: the height is the
    same, and so is the offset of each item from the corner of the rectangle. -/
theorem arrange_offsets (f : Flow) (w : Int) : ∃ offsets : List (Int × Int), offsets.length = f.items.length ∧
    ∀ x y h : Int, (f.arrange ⟨x, y, w, h⟩).height = (f.measure w).2 ∧
      (f.arrange ⟨x, y, w, h⟩).items.map (fun i => i.place.map (·.offset x y)) = offsets.map some := by
  refine ⟨(rows f.margins f.spacing ⟨0, 0, w, 0⟩ f.sizes).1.map (·.offset 0 0), ?_, fun x y h => ?_⟩
  · rw [length_map]
    exact (length_rowsFrom ..).trans (by simp [sizes])
  · have hrows := rows_translate f.margins f.spacing x y w h f.sizes
    have hplaces := f.map_place_arrange ⟨x, y, w, h⟩
    refine ⟨congrArg Prod.snd hrows, ?_⟩
    rw [hrows] at hplaces
    have hoffsets := congrArg (map (Option.map (·.offset x y))) hplaces
    simpa [map_map, Function.comp_def, Rect.offset_translate] using hoffsets

/-- Rows that end only where the next item would go past the right margin. -/
def Frugal (m : Margins) (spacing : Int) (r : Rect) (places : List Rect) : Prop :=
  places.IsChain fun p q => p.y < q.y → r.right - m.right < p.right + spacing + q.width

/-- **A row ends exactly where the next item and the spacing behind it would go past the right margin.** So it ends
    only where the item itself would, exactly if no item comes to end within one spacing of the margin. -/
theorem arrange_frugal_iff (f : Flow) (r : Rect) (hs : 0 ≤ f.spacing)
    (hsizes : ∀ i ∈ f.items, 0 < i.width ∧ 0 < i.height) :
    ∃ places : List Rect, (f.arrange r).items.map Item.place = places.map some ∧ places.map Rect.size = f.sizes ∧
      places.IsChain (Next f.margins f.spacing r) ∧
      (Frugal f.margins f.spacing r places ↔
        places.IsChain fun p q => ¬ (p.right + f.spacing + q.width ≤ r.right - f.margins.right ∧
          r.right - f.margins.right < p.right + f.spacing + q.width + f.spacing)) := by
  have hsizes' : ∀ s ∈ f.sizes, 0 < s.2 := by simpa [sizes] using fun i hi => (hsizes i hi).2
  have hplaces : (rows f.margins f.spacing r f.sizes).1.map Rect.size = f.sizes := map_size_rowsFrom ..
  have hchain : (rows f.margins f.spacing r f.sizes).1.IsChain (Next f.margins f.spacing r) :=
    isChain_rowsFrom hs hsizes' _
  refine ⟨_, f.map_place_arrange r, hplaces, hchain, ?_⟩
  rw [isChain_iff_forall_rel_of_append_cons_cons] at hchain
  rw [Frugal, isChain_iff_forall_rel_of_append_cons_cons, isChain_iff_forall_rel_of_append_cons_cons]
  refine forall₄_congr fun p q before after => forall_congr' fun hsplit => ?_
  have hheight : 0 < p.height := hsizes' p.size (hplaces ▸ mem_map_of_mem (hsplit ▸ by simp))
  have hnext := hchain hsplit
  unfold Next Rect.bottom at hnext
  split at hnext <;> omega

def pair : Flow where
  items := [⟨0, 10, 10, none⟩, ⟨1, 10, 10, none⟩]

theorem arrange_frugal_iff_pair : (0 ≤ pair.spacing ∧ ∀ i ∈ pair.items, 0 < i.width ∧ 0 < i.height) ∧
    ∃ places : List Rect, (pair.arrange ⟨0, 0, 30, 0⟩).items.map Item.place = places.map some ∧
      places.IsChain (Next {} 5 ⟨0, 0, 30, 0⟩) := by
  have hsizes : ∀ i ∈ pair.items, 0 < i.width ∧ 0 < i.height := by decide
  obtain ⟨places, hplaces, -, hchain, -⟩ := arrange_frugal_iff pair ⟨0, 0, 30, 0⟩ (by decide) hsizes
  exact ⟨⟨by decide, hsizes⟩, places, hplaces, hchain⟩

/-- The second item would end right at the margin, and is put into a new row. -/
theorem not_frugal_pair : ∃ places : List Rect,
    (pair.arrange ⟨0, 0, 25, 0⟩).items.map Item.place = places.map some ∧ ¬ Frugal {} 5 ⟨0, 0, 25, 0⟩ places :=
  ⟨[⟨0, 0, 10, 10⟩, ⟨0, 15, 10, 10⟩], by decide, by simp [Frugal, Rect.right]⟩

/-! ### Asking for the height -/

def measured (f : Flow) (widths : List Int) : Flow := widths.foldl (fun f w => (f.measure w).1) f

theorem measured_eq (f : Flow) (widths : List Int) :
    f.measured widths = { f with height := (widths.getLast?.map fun w => (f.measure w).2).getD f.height } := by
  induction widths generalizing f with
  | nil => rfl
  | cons w widths ih =>
    have hcons : f.measured (w :: widths) = (f.measure w).1.measured widths := rfl
    rw [hcons, ih, getLast?_cons]
    cases widths.getLast? <;> rfl

/-- **To ask for heights moves no item and changes no later layout**, and the least size stays exactly if the last answer
    is the height that was computed before, or there are no items. -/
theorem least_measured_iff (f : Flow) (widths : List Int) :
    (f.measured widths).items = f.items ∧ (∀ r, (f.measured widths).arrange r = f.arrange r) ∧
      ((f.measured widths).least = f.least ↔ f.items = [] ∨ ∀ w ∈ widths.getLast?, (f.measure w).2 = f.height) := by
  rw [measured_eq]
  refine ⟨rfl, fun _ => rfl, ?_⟩
  unfold least
  dsimp only
  cases f.items with
  | nil => simp
  | cons i items => cases widths.getLast? <;> simp

/-- A layout of one row needs more room once it was asked for its height in two rows. -/
theorem least_measured_pair :
    ((pair.arrange ⟨0, 0, 100, 0⟩).measured [15]).least ≠ (pair.arrange ⟨0, 0, 100, 0⟩).least := by
  decide

end Flow

end WatchFace
