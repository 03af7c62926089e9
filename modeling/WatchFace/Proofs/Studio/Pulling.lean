import WatchFace.Proofs.Number.Exactness
import WatchFace.Proofs.Studio.Wiring

/-!
# Pulling a handle by nothing

What a pull comes to beyond a whole size is kept for the next one, which starts from there unless the size of the font
is more than one off. So a pull by nothing changes the size if another one has been set in the meantime that is close.
-/

namespace WatchFace

open EStateM List
open Number (whole? Vanishes exists_ofInt?_of_whole?)

namespace Layer

/-! ### One pull -/

/-- What a pull finds: the extents of the box, how the layer is turned, and the size of the font. -/
structure Hold where
  w : Float
  h : Float
  c : Float
  s : Float
  size : Float

/-- What a pull finds, unless the box has no extent. -/
def hold (x : Layer) : Except Fault (Option Hold) := do
  let w := x.box.width + (← pull.opposite x.skewX)
  let h := x.box.height + (← pull.opposite x.skewY)
  if w <= 0 || h <= 0 then return none
  let (c, s) ← (do Transform.circle (← x.rotation.measure))
  return some ⟨w, h, c, s, ← (Value.int x.fontSize).toFloat⟩

/-- The size that a pull starts from. -/
def resumed (x : Layer) (size : Float) : Float :=
  match x.pulled with
  | some p => if (p - size).abs > 1.0 then size else p
  | none => size

namespace Hold

variable (g : Hold) (x : Layer) (d : Direction) (dx dy : Float)

/-- How far a handle is pulled along its side, and the extent of the box there. -/
def pace : Float × Float :=
  if d.offset.2 != 0 then ((-dx * g.s + dy * g.c) * (if d.offset.2 > 0 then 1 else -1), g.h)
  else ((dx * g.c + dy * g.s) * (if d.offset.1 > 0 then 1 else -1), g.w)

/-- The size that a layer is pulled to. -/
def reach : Float := larger 1.0 (x.resumed g.size + (g.pace d dx dy).1 * g.size / (g.pace d dx dy).2)

/-- The rest of a pull. -/
def ask : Act (Option Pull) := do
  modify fun l => { l with pulled := some (g.reach x d dx dy) }
  let whole ← require (Value.float (g.reach x d dx dy)).toInt
  let new := if whole < 1 then 1 else whole
  if new = x.fontSize then return none
  let ratio ← require (Number.Quantity.divided (.whole new) (.whole x.fontSize))
  let px := (x.offsetX + d.offset.1) * (g.w * (ratio - 1))
  let py := (x.offsetY + d.offset.2) * (g.h * (ratio - 1))
  return some ⟨new, px * g.c - py * g.s, px * g.s + py * g.c⟩

/-- Nothing that is infinite or not a number gets into a pull. -/
def level : Bool := g.c.isFinite && g.s.isFinite && !(g.pace d 0 0).2.isNaN

end Hold

/-- A layer that has been pulled to a size makes this its new size. -/
def Asks (x : Layer) (p : Float) (n : Int) : Prop :=
  whole? p = some n ∧ n ≠ x.fontSize ∧ (Number.Quantity.divided (.whole n) (.whole x.fontSize)).isOk

/-- The next pull starts from the size of the font, as far as it is whole. -/
def InStep (x : Layer) : Prop :=
  ∀ g, x.hold = .ok (some g) → whole? (larger 1.0 (x.resumed g.size)) = some x.fontSize

variable {x : Layer} {g : Hold} {d : Direction} {p : Float} {n : Int} {families : Font.Families}

theorem of_hold (h : x.hold = .ok (some g)) : ¬g.w ≤ 0 ∧ ¬g.h ≤ 0 ∧ Number.ofInt? x.fontSize = some g.size := by
  obtain ⟨a, -, h⟩ := exists_of_bind_eq_ok h
  obtain ⟨b, -, h⟩ := exists_of_bind_eq_ok h
  dsimp only at h
  split at h
  case isTrue => cases h
  case isFalse hlarge =>
    obtain ⟨cs, -, h⟩ := exists_of_bind_eq_ok h
    obtain ⟨size, hsize, h⟩ := exists_of_bind_eq_ok h
    cases h
    simp only [Bool.or_eq_true, decide_eq_true_eq, not_or] at hlarge
    refine ⟨hlarge.1, hlarge.2, ?_⟩
    simp only [Value.toFloat, Value.quantity?, Number.Quantity.toFloat?] at hsize
    split at hsize <;> cases hsize
    assumption

/-- Where a pull by nothing ends. -/
theorem Hold.reach_zero (h : x.hold = .ok (some g)) (d : Direction) :
    g.reach x d 0 0 = if g.level d then larger 1.0 (x.resumed g.size) else 1.0 := by
  obtain ⟨hw, hh, hsize⟩ := of_hold h
  have hzero := Number.vanishes_zero
  have hunit : ∀ q : Prop, [Decidable q] → (if q then 1 else -1 : Float).isFinite = true := fun q _ => by split <;> rfl
  have hpace : Vanishes (g.c.isFinite && g.s.isFinite) (g.pace d 0 0).1 ∧ ¬(g.pace d 0 0).2 ≤ 0 := by
    unfold pace
    split
    · refine ⟨?_, hh⟩
      have h := ((hzero.neg.mul g.s).add (hzero.mul g.c)).mul (if d.offset.2 > 0 then 1 else -1)
      simpa only [hunit, Bool.true_and, Bool.and_true, Bool.and_comm] using h
    · refine ⟨?_, hw⟩
      have h := ((hzero.mul g.c).add (hzero.mul g.s)).mul (if d.offset.1 > 0 then 1 else -1)
      simpa only [hunit, Bool.true_and, Bool.and_true] using h
  have hchange := (hpace.1.mul g.size).div hpace.2
  rw [Number.isFinite_of_ofInt? hsize, Bool.and_true] at hchange
  exact hchange.larger_add _

/-- A layer is in step once the size that it has been pulled to is the size of its font. -/
theorem inStep_of_whole? (hpulled : x.pulled = some (larger 1.0 p)) (h : whole? (larger 1.0 p) = some x.fontSize) :
    x.InStep := by
  intro g hg
  unfold resumed
  rw [hpulled]
  dsimp only
  split
  · obtain ⟨a, ha, -, hlarger, -⟩ := exists_ofInt?_of_whole? h
    rwa [Option.some.inj ((of_hold hg).2.2.symm.trans ha)]
  · have hlarger : larger 1.0 (larger 1.0 p) = larger 1.0 p := by
      unfold larger
      split <;> simp
    rwa [hlarger]

theorem run_pull (x : Layer) (d : Direction) (dx dy : Float) : (pull (some d) dx dy).run x = match x.hold with
    | .error e => .error e x
    | .ok none => .ok none x
    | .ok (some g) => (g.ask x d dx dy).run x := by
  have hrequire : ∀ {α : Type} (a : α) (m : Layer), (require (.ok a)).run m = .ok a m := fun _ _ => rfl
  unfold pull hold
  rw [run_bind_ok (run_get x)]
  cases pull.opposite x.skewX with
  | error e => rfl
  | ok a =>
    cases pull.opposite x.skewY with
    | error e => rfl
    | ok b =>
      rw [run_bind_ok (hrequire _ _), run_bind_ok (hrequire _ _)]
      show run (if (x.box.width + a <= 0 || x.box.height + b <= 0) = true then _ else _) x = match
        (if (x.box.width + a <= 0 || x.box.height + b <= 0) = true then _ else _ : Except Fault (Option Hold)) with
        | .error e => _
        | .ok none => _
        | .ok (some g) => _
      by_cases hsmall : (x.box.width + a <= 0 || x.box.height + b <= 0) = true
      · rw [if_pos hsmall, if_pos hsmall]
        rfl
      rw [if_neg hsmall, if_neg hsmall]
      cases x.rotation.measure >>= Transform.circle with
      | error e => rfl
      | ok cs => cases (Value.int x.fontSize).toFloat <;> rfl

/-- All that can come of a pull: the layer asks for no size, and is in step if nothing fails, or it asks for one. -/
def Comes (x : Layer) (d : Direction) (dx dy : Float) (r : Result Fault Layer (Option Pull)) : Prop :=
  (∃ p, (r = .ok none { x with pulled := p } ∧ InStep { x with pulled := p } ∨ ∃ e, r = .error e { x with pulled := p }) ∧
      ∀ g n, x.hold = .ok (some g) → ¬x.Asks (g.reach x d dx dy) n) ∨
    ∃ g a, x.hold = .ok (some g) ∧ x.Asks (g.reach x d dx dy) a.size ∧
      r = .ok (some a) { x with pulled := some (g.reach x d dx dy) }

theorem Hold.comes_ask (h : x.hold = .ok (some g)) (d : Direction) (dx dy : Float) :
    x.Comes d dx dy ((g.ask x d dx dy).run x) := by
  have hnone : (∀ n, ¬x.Asks (g.reach x d dx dy) n) → ∀ g' n, x.hold = .ok (some g') → ¬x.Asks (g'.reach x d dx dy) n := by
    intro hnot g' n hg'
    cases h.symm.trans hg'
    exact hnot n
  unfold ask
  rw [run_bind_ok (run_modify _ x)]
  generalize hy : ({ x with pulled := some (g.reach x d dx dy) } : Layer) = y
  cases hcut : Number.truncate? (g.reach x d dx dy) with
  | none =>
    obtain ⟨e, he⟩ : ∃ e, (Value.float (g.reach x d dx dy)).toInt = .error e := ⟨_, by rw [Value.toInt, hcut]⟩
    rw [he]
    refine .inl ⟨_, .inr ⟨e, congrArg (Result.error e) hy.symm⟩, hnone fun n hasks => ?_⟩
    rw [Asks, whole?, hcut] at hasks
    cases hasks.1
  | some k =>
    have htoInt : (require (Value.float (g.reach x d dx dy)).toInt).run y = .ok k y := by
      rw [Value.toInt, hcut]
      rfl
    obtain ⟨n, hn⟩ : ∃ n, n = if k < 1 then 1 else k := ⟨_, rfl⟩
    have hwhole : whole? (g.reach x d dx dy) = some n := by rw [whole?, hcut, Option.map_some, hn]
    rw [run_bind_ok htoInt]
    dsimp only
    rw [← hn]
    by_cases hsame : n = x.fontSize
    · rw [if_pos hsame]
      refine .inl ⟨_, .inl ⟨congrArg (Result.ok none) hy.symm, inStep_of_whole? rfl (hsame ▸ hwhole)⟩, hnone fun m hm => ?_⟩
      exact hm.2.1 (Option.some.inj (hm.1.symm.trans (hsame ▸ hwhole)))
    · rw [if_neg hsame]
      cases hratio : Number.Quantity.divided (.whole n) (.whole x.fontSize) with
      | error e =>
        refine .inl ⟨_, .inr ⟨e, congrArg (Result.error e) hy.symm⟩, hnone fun m hm => ?_⟩
        rw [Asks, Option.some.inj (hm.1.symm.trans hwhole), hratio] at hm
        exact Bool.false_ne_true hm.2.2
      | ok ratio => exact .inr ⟨g, _, h, ⟨hwhole, hsame, hratio ▸ rfl⟩, congrArg (Result.ok _) hy.symm⟩

/-- **What comes of a pull.** -/
theorem comes_pull (x : Layer) (d : Direction) (dx dy : Float) : x.Comes d dx dy ((pull (some d) dx dy).run x) := by
  rw [run_pull]
  cases hhold : x.hold with
  | error e => exact .inl ⟨x.pulled, .inr ⟨e, rfl⟩, fun g n hg => by cases hhold.symm.trans hg⟩
  | ok o =>
    cases o with
    | none =>
      have hnone : ∀ g, x.hold ≠ .ok (some g) := fun g hg => by cases hhold.symm.trans hg
      exact .inl ⟨x.pulled, .inl ⟨rfl, fun g hg => absurd hg (hnone g)⟩, fun g n hg => absurd hg (hnone g)⟩
    | some g => exact Hold.comes_ask hhold d dx dy

/-! ### Sizes -/

theorem sizeOf_float {a : Float} (h : Number.truncate? a = some n) (hn : 1 ≤ n) : sizeOf (.float a) = .ok n := by
  have htruthy : (Value.float a).truthy = true := by
    show (!(a == 0)) = true
    rw [Bool.not_eq_true', Bool.eq_false_iff]
    intro hzero
    have hcut : Number.truncate? a = some 0 := by
      obtain ⟨-, -, rfl | ⟨rfl, -⟩ | ⟨rfl, -⟩⟩ := Float.beq_iff_ne_nan_and_eq.mp hzero <;> decide +kernel
    have := Option.some.inj (hcut.symm.trans h)
    omega
  unfold sizeOf
  rw [if_pos htruthy, Value.toInt, h]
  exact congrArg Except.ok (if_neg (by omega))

def sized (x : Layer) : Int × Option Float := (x.size, x.pulled)

theorem keeps_announce_sized {parts : List Part} (hparts : ∀ q ∈ parts, q ∉ [Part.size, .font]) (v : Value) :
    Within (Keeps sized) (announce (hear families) v parts) := by
  have hhear : ∀ q ∈ parts, ∀ o, Within (Keeps sized) (hear families q o) := by
    intro q hq o
    have hne := hparts q hq
    refine within_hear (fun v m l _ => ?_) (fun _ => keeps_fit fun _ _ _ _ _ => rfl)
      fun _ => keeps_settle fun _ _ _ _ _ => rfl
    cases q
    case size | font => simp at hne
    all_goals rfl
  exact within_announce (fun q hq => hhear q hq _) fun q hq => hhear q hq _

/-- A layer takes on the size that it asks for. -/
theorem sized_take (h : whole? p = some n) (x : Layer) :
    (take families x ("Text size", .int n)).sized = (n, x.pulled) := by
  obtain ⟨a, ha, hcut, -, hn⟩ := exists_ofInt?_of_whole? h
  have hheard : (Value.int n).heard? = some (.float a) := by simp [Value.heard?, ha]
  have happly : (hear families .size (some (.float a))).run x = .ok () { x with size := n } := by
    show (require (sizeOf (.float a)) >>= fun n => modify fun l => { l with size := n } : Act PUnit).run x = _
    rw [sizeOf_float hcut hn]
    rfl
  unfold take
  rw [hheard]
  show ((announce (hear families) (.float a) [.size, .transform]).after x).sized = _
  rw [after_announce_cons, attempt, after_of_ok (run_tryCatch_ok happly)]
  exact keeps_announce_sized (by decide) _ _

end Layer

namespace Studio

open Layer (Hold partsOf)

/-! ### Pulls on channels -/

/-- Nothing comes of a pull by nothing, but that the layer may keep the size that it has been pulled to. -/
def Rests (l : Nat) (d : Layer.Direction) (s : Studio) : Prop :=
  ∃ x p, s.layers[l]? = some x ∧ (pullHandle l (some d) 0 0).after s = s.withLayer l { x with pulled := p }

/-- A layer on its channels, with a size and the size that it has been pulled to. -/
def Sized (l : Nat) (table : List (String × Nat)) (a : Int × Option Float) (s : Studio) : Prop :=
  ∃ x, Wired l table partsOf x s ∧ x.sized = a

/-- A handle of a layer is pulled, or its size is edited. -/
inductive Nudge where
  | pull (d : Layer.Direction) (dx dy : Float)
  | edit (v : Value)

def Nudge.act (l : Nat) : Nudge → Act Unit
  | pull d dx dy => pullHandle l (some d) dx dy
  | edit v => emitOn l "Text size" v

def nudged (l : Nat) (s : Studio) (ns : List Nudge) : Studio := ns.foldl (fun s n => (n.act l).after s) s

section

variable {l : Nat} {x y : Layer} {s : Studio} {table : List (String × Nat)} {title : String}

theorem Wired.emitOn_cases (h : Wired l table partsOf x s) (title : String) (v : Value) :
    ∃ y, Wired l table partsOf y ((Studio.emitOn l title v).after s) ∧
      (y = Layer.take s.families x (title, v) ∨ table.lookup title = none ∧ y = x) := by
  cases hlookup : table.lookup title with
  | some c => exact ⟨_, (h.emitOn hlookup v).1, .inl rfl⟩
  | none =>
    have hrun : (channelOf l title).run s = .error .noEntry s := by
      unfold channelOf
      rw [run_bind_ok (run_part h.layer), h.channels, hlookup]
      rfl
    rw [Studio.emitOn, after_bind_error hrun]
    exact ⟨x, h, .inr ⟨rfl, rfl⟩⟩

theorem Wired.withLayer (h : Wired l table partsOf x s) (hy : y.channels = x.channels) :
    Wired l table partsOf y (s.withLayer l y) :=
  h.becomes ⟨getElem?_set_self (List.getElem?_eq_some_iff.mp h.layer).1, rfl, rfl⟩ hy

theorem upholds_sized_emitOn (a : Int × Option Float) (htitle : title ∈ ["X", "Y"]) (v : Value) :
    Within (Upholds (Sized l table a)) (emitOn l title v) := by
  have hparts : ∀ title ∈ ["X", "Y"], ∀ q ∈ partsOf title, q ∉ [Layer.Part.size, .font] := by decide
  rintro s ⟨x, hx, hsized⟩
  obtain ⟨y, hy, rfl | ⟨-, rfl⟩⟩ := hx.emitOn_cases title v
  · refine ⟨_, hy, Eq.trans ?_ hsized⟩
    unfold Layer.take
    split
    · exact Layer.keeps_announce_sized (hparts title htitle) _ x
    · rfl
  · exact ⟨_, hy, hsized⟩

theorem upholds_sized_fit (a : Int × Option Float) : Within (Upholds (Sized l table a)) (onLayer l Layer.fit) := by
  rintro s ⟨x, hx, hsized⟩
  have hkeeps : Within (Keeps fun x : Layer => (x.channels, x.sized)) Layer.fit := Layer.keeps_fit fun _ _ _ _ _ => rfl
  obtain ⟨hchannels, hfit⟩ := Prod.ext_iff.mp (hkeeps x)
  rw [after_onLayer, modify_eq_set hx.layer]
  exact ⟨_, hx.withLayer hchannels, hfit.trans hsized⟩

variable (h : Wired l table partsOf x s) (hsize : (table.lookup "Text size").isSome)

include h hsize

/-- **One pull.** The layer stays on its channels, and it is in step unless the pull has failed. Nothing else changes,
    or the layer takes on the size that it asks for. -/
theorem Wired.pullHandle_cases (d : Layer.Direction) (dx dy : Float) :
    ∃ z, Wired l table partsOf z ((pullHandle l (some d) dx dy).after s) ∧
      (∀ t, (pullHandle l (some d) dx dy).run s = .ok () t → z.InStep) ∧
      ((∃ p, z = { x with pulled := p } ∧ (pullHandle l (some d) dx dy).after s = s.withLayer l z) ∧
          (∀ g n, x.hold = .ok (some g) → ¬x.Asks (g.reach x d dx dy) n) ∨
        ∃ g, x.hold = .ok (some g) ∧ x.Asks (g.reach x d dx dy) z.size) := by
  have hpull := run_onLayer h.layer (Layer.pull (some d) dx dy)
  obtain ⟨p, ⟨hrun, hstep⟩ | ⟨e, hrun⟩, hnot⟩ | ⟨g, a, hg, hasks, hrun⟩ := x.comes_pull d dx dy
  · rw [hrun] at hpull
    have hrest : (pullHandle l (some d) dx dy).after s = _ := after_of_ok (run_bind_ok hpull)
    exact ⟨_, hrest ▸ h.withLayer rfl, fun _ _ => hstep, .inl ⟨⟨p, rfl, hrest⟩, hnot⟩⟩
  · rw [hrun] at hpull
    have herror : (pullHandle l (some d) dx dy).run s = _ := run_bind_error hpull
    have hrest := after_of_error herror
    refine ⟨_, hrest ▸ h.withLayer rfl, fun t ht => ?_, .inl ⟨⟨p, rfl, hrest⟩, hnot⟩⟩
    cases herror.symm.trans ht
  · rw [hrun] at hpull
    obtain ⟨z, hz, hsized⟩ : Sized l table (a.size, some (g.reach x d dx dy)) ((pullHandle l (some d) dx dy).after s) := by
      unfold pullHandle
      rw [after_bind_ok hpull]
      -- the size comes first, and neither the position nor the box changes it
      refine after_bind_upholds ?_ fun _ => ?_
      · have hwired := h.withLayer (y := { x with pulled := some (g.reach x d dx dy) }) rfl
        obtain ⟨y, hy, rfl | ⟨hnone, -⟩⟩ := hwired.emitOn_cases "Text size" (.int a.size)
        · exact ⟨_, hy, Layer.sized_take hasks.1 _⟩
        · rw [hnone] at hsize
          cases hsize
      · refine (within_part _ _).bind fun _ => (upholds_sized_emitOn _ (by decide) _).bind fun _ => ?_
        exact (within_part _ _).bind fun _ => (upholds_sized_emitOn _ (by decide) _).bind fun _ => upholds_sized_fit _
    obtain ⟨hzsize, hpulled⟩ : z.size = a.size ∧ z.pulled = some (g.reach x d dx dy) := Prod.ext_iff.mp hsized
    obtain ⟨-, -, -, -, hone⟩ := exists_ofInt?_of_whole? hasks.1
    have hfont : z.fontSize = a.size := by
      rw [Layer.fontSize, hzsize, if_neg (by omega)]
    exact ⟨z, hz, fun _ _ => Layer.inStep_of_whole? hpulled (hfont ▸ hasks.1), .inr ⟨g, hg, hzsize ▸ hasks⟩⟩

/-- **A pull by nothing** has no effect unless the layer asks for another size. -/
theorem Wired.rests_iff (d : Layer.Direction) : Rests l d s ↔ ∀ g n, x.hold = .ok (some g) →
      ¬x.Asks (if g.level d then Layer.larger 1.0 (x.resumed g.size) else 1.0) n := by
  obtain ⟨z, hz, -, ⟨⟨p, rfl, hrest⟩, hnot⟩ | ⟨g, hg, hasks⟩⟩ := h.pullHandle_cases hsize d 0 0
  · refine iff_of_true ⟨x, p, h.layer, hrest⟩ fun g n hg => ?_
    rw [← Hold.reach_zero hg]
    exact hnot g n hg
  · refine iff_of_false ?_ fun hall => hall g z.size hg (Hold.reach_zero hg d ▸ hasks)
    rintro ⟨x', p, hx', hrest⟩
    obtain rfl := Option.some.inj (h.layer.symm.trans hx')
    have hlayer := hz.layer
    rw [hrest, (h.withLayer (y := { x with pulled := p }) rfl).layer] at hlayer
    have hzsize : x.size = z.size := Option.some.inj (congrArg (Option.map Layer.size) hlayer)
    obtain ⟨-, -, -, -, hone⟩ := exists_ofInt?_of_whole? hasks.1
    refine hasks.2.1 ?_
    rw [Layer.fontSize, if_neg (by omega), hzsize]

/-! ### Pulls and edits -/

theorem Wired.nudged (ns : List Nudge) : ∃ y, Wired l table partsOf y (s.nudged l ns) := by
  induction ns generalizing x s with
  | nil => exact ⟨x, h⟩
  | cons n ns ih =>
    have hnext : ∃ y, Wired l table partsOf y ((n.act l).after s) := by
      cases n with
      | edit v => exact (h.emitOn_cases "Text size" v).imp fun _ hy => hy.1
      | pull d dx dy => exact (h.pullHandle_cases hsize d dx dy).imp fun _ hz => hz.1
    obtain ⟨y, hy⟩ := hnext
    exact ih hy

/-- **When a pull by nothing has no effect.** After whatever pulls and edits of the size, it has none if and only if the
    size from which it starts is the size of the font, as far as it is whole. After one more pull this is so, if all
    that it finds are numbers. -/
theorem rests_nudged_iff (ns : List Nudge) (d : Layer.Direction) : ∃ y, (s.nudged l ns).layers[l]? = some y ∧
      (Rests l d (s.nudged l ns) ↔ ∀ g n, y.hold = .ok (some g) →
        ¬y.Asks (if g.level d then Layer.larger 1.0 (y.resumed g.size) else 1.0) n) ∧
      ∀ d' dx dy t, (pullHandle l (some d') dx dy).run (s.nudged l ns) = .ok () t →
        ∀ z, t.layers[l]? = some z → (∀ g, z.hold = .ok (some g) → g.level d) → Rests l d t := by
  obtain ⟨y, hy⟩ := h.nudged hsize ns
  refine ⟨y, hy.layer, hy.rests_iff hsize d, fun d' dx dy t ht z hz hlevel => ?_⟩
  obtain ⟨w, hw, hstep, -⟩ := hy.pullHandle_cases hsize d' dx dy
  rw [after_of_ok ht] at hw
  obtain rfl := Option.some.inj (hz.symm.trans hw.layer)
  refine (hw.rests_iff hsize d).mpr fun g n hg hasks => ?_
  rw [if_pos (hlevel g hg)] at hasks
  exact hasks.2.1 (Option.some.inj (hasks.1.symm.trans (hstep t ht g hg)))

end

theorem exists_wired {x : Layer} (hx : x.channels = Console.layerAttributes.zipIdx) :
    ∃ s, Wired 0 Console.layerAttributes.zipIdx partsOf x s := by
  obtain ⟨s, hmade⟩ := exists_made_layerAttributes
  obtain ⟨y, -, hy, -⟩ := wired_makeLayer (P := fun _ => True) (Q := fun _ => True) (Console.apart_zipIdx _)
    (Console.prepared_channels {} _).attends hmade trivial (fun _ _ _ _ _ => trivial) (fun _ _ _ _ => trivial)
    fun _ _ _ _ _ => trivial
  exact ⟨_, hy.withLayer (hx.trans hy.channels.symm)⟩

/-- A layer of a size, with a box without end, that has been pulled to another size. -/
def pulledTo (p : Float) (n : Int) : Layer :=
  { pulled := some p, size := n, box := { width := 1.0 / 0.0, height := 1.0 / 0.0 }
    channels := Console.layerAttributes.zipIdx }

theorem rests_nudged_iff_smallest : ∃ s : Studio, Rests 0 .bottom s ∧ ∀ d dx dy t,
    (pullHandle 0 (some d) dx dy).run s = .ok () t → ∀ z, t.layers[0]? = some z →
      (∀ g, z.hold = .ok (some g) → g.level .bottom) → Rests 0 .bottom t := by
  obtain ⟨s, hs⟩ := exists_wired (x := pulledTo 1.5 1) rfl
  obtain ⟨x, hx, hiff, hnext⟩ := rests_nudged_iff hs (by decide) [] .bottom
  refine ⟨s, hiff.mpr fun g n hg hasks => hasks.2.1 ?_, hnext⟩
  obtain rfl := Option.some.inj (hs.layer.symm.trans hx)
  have hlevel : ((Number.ofInt? 1).bind fun a =>
      whole? (Layer.larger 1.0 (if (1.5 - a).abs > 1.0 then a else 1.5))) = some 1 := by decide +kernel
  rw [show Number.ofInt? 1 = some g.size from (Layer.of_hold hg).2.2] at hlevel
  have hwhole := hasks.1
  split at hwhole
  · exact Option.some.inj (hwhole.symm.trans hlevel)
  · exact Option.some.inj (hwhole.symm.trans (by decide +kernel : whole? 1.0 = some 1))

theorem not_infinite_add_le_zero (a : Float) : ¬1.0 / 0.0 + a ≤ 0 := by
  have hsum : ∀ u, Float.Model.UnpackedFloat.add .binary64 (.infinity .positive) u = .notANumber ∨
      Float.Model.UnpackedFloat.add .binary64 (.infinity .positive) u = .infinity .positive := by
    intro u
    cases u
    case infinity s => cases s <;> simp [Float.Model.UnpackedFloat.add]
    all_goals simp [Float.Model.UnpackedFloat.add]
  intro h
  have hle : (Float.Model.pack (.add .binary64 (.infinity .positive) a.toModel.unpack)).unpack.le
    (0 : Float).toModel.unpack = true := of_decide_eq_true h
  obtain hsum | hsum := hsum a.toModel.unpack <;> rw [hsum] at hle <;> exact Bool.false_ne_true hle

theorem exists_hold_pulledTo (p : Float) : ∃ g, (pulledTo p 13).hold = .ok (some g) := by
  obtain ⟨a, ha⟩ := Except.exists_of_isOk (x := Layer.pull.opposite (.int 0)) (by decide +kernel)
  obtain ⟨r, cs, hr, hcs⟩ := Layer.turns_zero.exists_circle
  obtain ⟨b, hb⟩ := Except.exists_of_isOk (x := (Value.int 13).toFloat) (by decide +kernel)
  have hlarge : ¬(1.0 / 0.0 + a <= 0 || 1.0 / 0.0 + a <= 0) = true := by simp [not_infinite_add_le_zero]
  have hskew : ∀ {β : Type} (f : Float → Except Fault β), Layer.pull.opposite (.int 0) >>= f = f a := fun f => by rw [ha]; rfl
  have hcircle : ((Value.int 0).measure >>= Transform.circle) = .ok cs := by rw [hr]; exact hcs
  refine ⟨⟨1.0 / 0.0 + a, 1.0 / 0.0 + a, cs.1, cs.2, b⟩, ?_⟩
  unfold Layer.hold
  refine (hskew _).trans ((hskew _).trans ((if_neg hlarge).trans ?_))
  show (((Value.int 0).measure >>= Transform.circle) >>= fun cs => (Value.int 13).toFloat >>= fun size => _) = _
  rw [hcircle, hb]
  rfl

/-- A layer that has been pulled to twelve, and whose size is thirteen now, asks for another size if it is pulled by
    nothing. -/
theorem not_forall_rests : ¬∀ s x d, Wired 0 Console.layerAttributes.zipIdx partsOf x s → Rests 0 d s := by
  intro hall
  obtain ⟨s, hs⟩ := exists_wired (x := pulledTo 12 13) rfl
  have hnot := (hs.rests_iff (by decide) .bottom).mp (hall s _ .bottom hs)
  obtain ⟨g, hg⟩ := exists_hold_pulledTo 12
  have hlevel : ((Number.ofInt? 13).bind fun a =>
      whole? (Layer.larger 1.0 (if (12 - a).abs > 1.0 then a else 12))) = some 12 := by decide +kernel
  rw [show Number.ofInt? 13 = some g.size from (Layer.of_hold hg).2.2] at hlevel
  by_cases h : g.level .bottom
  · exact hnot g 12 hg ⟨by rw [if_pos h]; exact hlevel, by decide, by decide +kernel⟩
  · exact hnot g 1 hg ⟨by rw [if_neg h]; decide +kernel, by decide, by decide +kernel⟩

end Studio

end WatchFace
