import WatchFace.Proofs.Actions
import WatchFace.Studio.Drag
import WatchFace.Studio.Items

/-!
# What carrying a value leaves alone

Listeners that hear a value carry further values. Fields that are no choices only show what they hear, so in all this no
field changes its value and nothing is recorded in the history.
-/

namespace WatchFace

open EStateM List

variable {α β : Type} {v w : Value} {s t u : Studio} {c f i n : Nat} {x : Field} {k l : Studio.Listener}
  {g : Studio.Item → Studio.Item} {ch : Channel Studio.Listener} {item : Studio.Item}

/-! ### Layers keep their channels -/

namespace Layer

theorem within_require {R : Layer → Layer → Prop} [IsPreorder Layer R] (x : Except Fault α) :
    Within R (require x) := by
  cases x
  case ok a => exact within_pure a
  case error e => exact within_throw e

section

variable {β : Type} {g : Layer → β}
  (hg : ∀ l m v b r, g { l with matrix := m, vague := v, box := b, rotation := r } = g l)

include hg

theorem keeps_setMatrix (m : Option (Transform.Matrix Float)) : Within (Keeps g) (setMatrix m) := by
  refine keeps_modify fun l => ?_
  cases m with
  | none => exact hg l l.matrix true l.box l.rotation
  | some m => exact hg l (some m) false l.box l.rotation

theorem keeps_place : Within (Keeps g) place :=
  within_get.bind fun _ => (within_require _).bind fun _ => keeps_setMatrix hg _

theorem keeps_fit : Within (Keeps g) fit := by
  have hbox : ∀ f, Within (Keeps g) (changeBox f) := fun f =>
    keeps_modify fun l => hg l l.matrix l.vague (f l.box) l.rotation
  have hrotation : ∀ r, Within (Keeps g) (modify fun l => { l with rotation := r } : Act PUnit) := fun r =>
    keeps_modify fun l => hg l l.matrix l.vague l.box r
  unfold fit
  refine within_get.bind fun l => ?_
  split
  · exact within_pure _
  · refine (hbox _).bind fun _ => (hrotation _).bind fun _ => (keeps_place hg).bind fun _ => ?_
    refine (hbox _).bind fun _ => (hbox _).bind fun _ => (hrotation _).bind fun _ => ?_
    exact (keeps_place hg).bind fun _ => hbox _

theorem keeps_settle : Within (Keeps g) settle := (keeps_place hg).bind fun _ => keeps_fit hg

end

/-- A layer into which a part has written a value, or what another layer has in its place. -/
def Part.enter (v : Value) (m l : Layer) : Part → Layer
  | .order => { l with depth := m.depth }
  | .moveX => { l with x := m.x }
  | .moveY => { l with y := m.y }
  | .skewX => { l with skewX := v }
  | .skewY => { l with skewY := v }
  | .rotate => { l with rotation := v }
  | .opacity => { l with opacity := m.opacity }
  | .display | .transform => l
  | .text => { l with plain := v }
  | .font => { l with family := m.family, size := m.size }
  | .size => { l with size := m.size }
  | .color => { l with color := m.color }
  | .alignment => { l with offsetX := m.offsetX, offsetY := m.offsetY }

/-- All that a part does: it writes, it fits the box to a text, or it settles the layer. -/
theorem within_hear {R : Layer → Layer → Prop} [IsPreorder Layer R] {families : Font.Families} {p : Part}
    {o : Option Value} (hwrite : ∀ v m l, o = some v → R l (p.enter v m l)) (hfit : p = .text → Within R fit)
    (hsettle : p = .transform → Within R settle) : Within R (hear families p o) := by
  cases o with
  | none =>
    cases p
    case transform => exact hsettle rfl
    all_goals exact within_throw _
  | some v =>
    have hwrite' := fun m l => hwrite v m l rfl
    show Within R (apply families p v)
    unfold apply
    cases p
    case display => exact within_pure _
    case transform => exact hsettle rfl
    case text => exact Within.bind (within_modify fun l => hwrite' l l) fun _ => hfit rfl
    case skewX | skewY | rotate => exact within_modify fun l => hwrite' l l
    case order => exact (within_require _).bind fun d => within_modify fun l => hwrite' { l with depth := d } l
    case moveX => exact (within_require _).bind fun a => within_modify fun l => hwrite' { l with x := a } l
    case moveY => exact (within_require _).bind fun a => within_modify fun l => hwrite' { l with y := a } l
    case opacity =>
      exact (within_require _).bind fun a => within_modify fun l => hwrite' { l with opacity := some (a / 100) } l
    case font =>
      exact (within_require _).bind fun f => within_modify fun l => hwrite' { l with family := f, size := l.fontSize } l
    case size => exact (within_require _).bind fun n => within_modify fun l => hwrite' { l with size := n } l
    case color => exact (within_require _).bind fun a => within_modify fun l => hwrite' { l with color := some a } l
    case alignment =>
      cases v
      case text s =>
        exact within_modify fun l =>
          let o := alignTo (-0.5) 0 0.5 s l.offsetX l.offsetY
          hwrite' { l with offsetX := o.1, offsetY := o.2 } l
      all_goals exact within_throw _

theorem keeps_hear_of_ne (families : Font.Families) {p : Part} (hp : p ≠ .order) (o : Option Value) :
    Within (Keeps fun l => (l.channels, l.depth)) (hear families p o) := by
  refine within_hear (fun v m l _ => ?_) (fun _ => keeps_fit fun _ _ _ _ _ => rfl)
    fun _ => keeps_settle fun _ _ _ _ _ => rfl
  cases p
  case order => exact absurd rfl hp
  all_goals rfl

theorem keeps_hear (families : Font.Families) (p : Part) (o : Option Value) :
    Within (Keeps Layer.channels) (hear families p o) :=
  within_hear (fun v m l _ => by cases p <;> rfl) (fun _ => keeps_fit fun _ _ _ _ _ => rfl)
    fun _ => keeps_settle fun _ _ _ _ _ => rfl

end Layer

/-! ### Fields -/

namespace Field

def bare (x : Field) : Field := { x with text := "", checked := .bool false }

def withValue (x : Field) (v : Value) : Field := { x with value := v }

def shell (x : Field) : Field := (x.withValue .none).bare

@[simp] theorem shell_kind (x : Field) : x.shell.kind = x.kind := rfl
@[simp] theorem shell_channel (x : Field) : x.shell.channel = x.channel := rfl
@[simp] theorem shell_settled (x : Field) : x.shell.settled = x.settled := rfl
@[simp] theorem shell_recorded (x : Field) : x.shell.recorded = x.recorded := rfl

theorem present_snd (x : Field) (v : Value) (hk : x.kind.isChoice = false) : (x.present v).2 = none := by
  unfold present
  split
  · rfl
  · cases hkind : x.kind <;> simp_all [Catalog.Kind.isChoice]

theorem bare_present (x : Field) (v : Value) (hk : x.kind.isChoice = false) :
    ((x.present v).1.withValue x.value).bare = x.bare := by
  unfold present withValue
  split
  · rfl
  · cases hkind : x.kind <;> simp_all [Catalog.Kind.isChoice, bare]

end Field

/-! ### Channels -/

/-- A value as a channel carries it: whole numbers become doubles, if there is one. -/
def Value.carried : Value → Value
  | .int n => ((Number.ofInt? n).map .float).getD (.int n)
  | v => v

@[simp] theorem Value.carried_carried (v : Value) : v.carried.carried = v.carried := by
  cases v
  case int n => cases hn : Number.ofInt? n <;> simp [carried, hn]
  all_goals rfl

namespace Channel

variable {L : Type}

def listeners (c : Channel L) : List L := c.numbers ++ c.texts ++ c.flags

def hushed (c : Channel L) : Channel L := { c with last := .none }

@[simp] theorem hushed_emit (c : Channel L) (v : Value) : (c.emit v).1.hushed = c.hushed := rfl

@[simp] theorem last_emit (c : Channel L) (v : Value) : (c.emit v).1.last = v := rfl

theorem listeners_of_hushed {c d : Channel L} (h : c.hushed = d.hushed) : c.listeners = d.listeners := by
  have hnumbers := congrArg Channel.numbers h
  have htexts := congrArg Channel.texts h
  have hflags := congrArg Channel.flags h
  simp only [hushed] at hnumbers htexts hflags
  rw [listeners, listeners, hnumbers, htexts, hflags]

theorem emit_eq_ok {c : Channel L} {ls : List L} (h : (c.emit v).2 = .ok (ls, w)) :
    (∀ l ∈ ls, l ∈ c.listeners) ∧ w = v.carried := by
  simp only [emit, route] at h
  simp only [listeners, mem_append]
  cases v
  case int n =>
    simp only [Value.carried]
    cases hn : Number.ofInt? n <;> simp_all
  all_goals simp_all [Value.carried]

end Channel

theorem mem_of_lookup {table : List (String × α)} {name : String} {a : α} (h : table.lookup name = some a) :
    (name, a) ∈ table := by
  obtain ⟨l₁, l₂, rfl, -⟩ := lookup_eq_some_iff.mp h
  simp

namespace Studio

/-! ### Looking parts up -/

section

variable {α : Type} {parts : Studio → List α} {n : Nat} {s : Studio}

theorem run_part {a : α} (h : (parts s)[n]? = some a) : (part parts n).run s = .ok a s := by
  simp only [part, run_bind, run_get, h, run_pure]

theorem run_part_none (h : (parts s)[n]? = none) : (part parts n).run s = .error .missing s := by
  simp only [part, run_bind, run_get, h]
  rfl

theorem after_part_of {p : Studio → Prop} {g : α → Act β} (hs : p s)
    (h : ∀ a, (parts s)[n]? = some a → p ((g a).after s)) : p ((part parts n >>= g).after s) := by
  cases ha : (parts s)[n]? with
  | none => rwa [after_bind_error (run_part_none ha)]
  | some a =>
    rw [after_bind_ok (run_part ha)]
    exact h a ha

theorem eq_of_run_part {a : α} (h : (part parts n).run s = .ok a t) : (parts s)[n]? = some a ∧ t = s := by
  cases ha : (parts s)[n]? with
  | none =>
    rw [run_part_none ha] at h
    cases h
  | some b =>
    rw [run_part ha] at h
    cases h
    exact ⟨rfl, rfl⟩

theorem run_require_ok (a : α) (s : Studio) : (require (.ok a)).run s = .ok a s := rfl

variable {R : Studio → Studio → Prop} [IsPreorder Studio R]

theorem within_part (parts : Studio → List α) (n : Nat) : Within R (part parts n) := by
  refine within_get.bind fun s => ?_
  cases (parts s)[n]?
  case none => exact within_throw _
  case some a => exact within_pure a

theorem within_require (x : Except Fault α) : Within R (require x) := by
  cases x
  case ok a => exact within_pure a
  case error e => exact within_throw e

end

theorem run_calmly (act : Act Unit) (s : Studio) : (calmly act).run s = .ok () (act.after s) := by
  cases hrun : act.run s with
  | ok a t =>
    rw [after_of_ok hrun]
    exact run_tryCatch_ok hrun
  | error e t =>
    rw [after_of_error hrun]
    exact run_tryCatch_error hrun

/-! ### What stays the same -/

def last? (s : Studio) (c : Nat) : Option Value := s.channels[c]?.map Channel.last

def Item.ports (i : Item) : Nat × Nat := (i.levels, i.names)

/-- Everyone listens where they did: fields differ in values and what they show, and channels in what they carried. -/
structure Kin (s t : Studio) : Prop where
  shells : t.fields.map Field.shell = s.fields.map Field.shell
  listeners : t.channels.map Channel.hushed = s.channels.map Channel.hushed
  ports : t.items.map Item.ports = s.items.map Item.ports
  tables : t.layers.map Layer.channels = s.layers.map Layer.channels

theorem Kin.refl (s : Studio) : Kin s s := ⟨rfl, rfl, rfl, rfl⟩

theorem Kin.trans (hst : Kin s t) (htu : Kin t u) : Kin s u :=
  ⟨htu.shells.trans hst.shells, htu.listeners.trans hst.listeners, htu.ports.trans hst.ports,
    htu.tables.trans hst.tables⟩

theorem Kin.symm (h : Kin s t) : Kin t s :=
  ⟨h.shells.symm, h.listeners.symm, h.ports.symm, h.tables.symm⟩

/-- Nothing is edited or recorded, and everyone listens where they did: fields differ in what they show only. -/
structure Calm (s t : Studio) : Prop where
  fields : t.fields.map Field.bare = s.fields.map Field.bare
  history : t.history = s.history
  listeners : t.channels.map Channel.hushed = s.channels.map Channel.hushed
  ports : t.items.map Item.ports = s.items.map Item.ports
  tables : t.layers.map Layer.channels = s.layers.map Layer.channels

theorem Calm.refl (s : Studio) : Calm s s := ⟨rfl, rfl, rfl, rfl, rfl⟩

theorem Calm.trans (hst : Calm s t) (htu : Calm t u) : Calm s u :=
  ⟨htu.fields.trans hst.fields, htu.history.trans hst.history, htu.listeners.trans hst.listeners,
    htu.ports.trans hst.ports, htu.tables.trans hst.tables⟩

theorem Calm.kin (h : Calm s t) : Kin s t := by
  refine ⟨?_, h.listeners, h.ports, h.tables⟩
  have hmap : ∀ l : List Field, l.map Field.shell = (l.map Field.bare).map fun x => (x.withValue .none).bare := by
    intro l
    rw [map_map]
    rfl
  rw [hmap, hmap, h.fields]

theorem getElem?_of_map_eq {f : α → β} {l m : List α} (h : m.map f = l.map f) {a : α} (ha : m[n]? = some a) :
    ∃ b, l[n]? = some b ∧ f a = f b := by
  have hn := congrArg (fun k => k[n]?) h
  simp only [getElem?_map, ha, Option.map_some] at hn
  obtain ⟨b, hb, hab⟩ := Option.map_eq_some_iff.mp hn.symm
  exact ⟨b, hb, hab.symm⟩

theorem map_getElem?_of_eq {f : α → β} {l m : List α} (h : m.map f = l.map f) (n : Nat) :
    m[n]?.map f = l[n]?.map f := by
  rw [← getElem?_map, h, getElem?_map]

theorem length_of_map_eq {f : α → β} {l m : List α} (h : m.map f = l.map f) : m.length = l.length := by
  simpa only [length_map] using congrArg List.length h

theorem lt_of_getElem? {l : List α} {a : α} (h : l[n]? = some a) : n < l.length :=
  (List.getElem?_eq_some_iff.mp h).1

theorem getElem?_set_some {l : List α} {a b : α} (h : l[n]? = some a) : (l.set n b)[n]? = some b :=
  getElem?_set_self (lt_of_getElem? h)

theorem getElem?_concat_cases {l : List α} {a b : α} (h : (l ++ [a])[n]? = some b) : l[n]? = some b ∨ b = a := by
  obtain hn | hn := Nat.lt_or_ge n l.length
  · exact .inl ((getElem?_append_left hn).symm.trans h)
  · have hlast : [a][n - l.length]? = some b := (getElem?_append_right hn).symm.trans h
    exact .inr (mem_singleton.mp (mem_of_getElem? hlast))

theorem modify_eq_set {l : List α} {a : α} (h : l[n]? = some a) (g : α → α) : l.modify n g = l.set n (g a) := by
  apply ext_getElem?
  intro m
  rw [getElem?_modify, getElem?_set]
  by_cases hm : n = m
  · subst hm
    obtain ⟨hn, rfl⟩ := List.getElem?_eq_some_iff.mp h
    simp [hn]
  · simp [hm]

theorem set_eq_self {l : List α} {a : α} (h : l[n]? = some a) : l.set n a = l := by
  obtain ⟨hn, rfl⟩ := List.getElem?_eq_some_iff.mp h
  exact set_getElem_self hn

theorem map_set_of_eq {f : α → β} {l : List α} {a b : α} (ha : l[n]? = some a) (hab : f b = f a) :
    (l.set n b).map f = l.map f := by
  rw [map_set, hab]
  exact set_eq_self (by simp [ha])

theorem map_modify_of_eq {f : α → β} {g : α → α} (hg : ∀ a, f (g a) = f a) (l : List α) (n : Nat) :
    (l.modify n g).map f = l.map f := by
  cases ha : l[n]? with
  | none => rw [modify_eq_self (List.getElem?_eq_none_iff.mp ha)]
  | some a =>
    rw [modify_eq_set ha]
    exact map_set_of_eq ha (hg a)

theorem run_field (h : s.fields[f]? = some x) : (field f).run s = .ok x s := run_part h

theorem run_changeField (h : s.fields[f]? = some x) (g : Field → Field) :
    (changeField f g).run s = .ok () { s with fields := s.fields.set f (g x) } := by
  rw [changeField, run_modify, modify_eq_set h]

theorem run_changeItem (h : s.items[i]? = some item) (g : Item → Item) :
    (changeItem i g).run s = .ok () { s with items := s.items.set i (g item) } := by
  rw [changeItem, run_modify, modify_eq_set h]

def withLevel (s : Studio) (i : Nat) (item : Item) (v : Value) : Studio :=
  { s with items := s.items.set i { item with level := v } }

theorem run_setLevel (r : Reactions) (hi : s.items[i]? = some item) (v : Value) :
    (setLevel r i v).run s =
      if (v == item.level) = true then .ok () s else (r.emit item.levels v).run (s.withLevel i item v) := by
  unfold setLevel
  rw [run_bind_ok (run_part hi)]
  split
  · rfl
  · exact run_bind_ok (run_changeItem hi _)

def Listener.On (s : Studio) (c : Nat) (l : Listener) : Prop :=
  ∃ ch, s.channels[c]? = some ch ∧ l ∈ ch.listeners

def Listener.Quiet (s : Studio) : Listener → Prop
  | .field f => ∀ x, s.fields[f]? = some x → x.kind.isChoice = false
  | .level _ | .title _ => False
  | _ => True

def Listener.Joined (s : Studio) (c : Nat) : Listener → Prop
  | .level i => ∀ item, s.items[i]? = some item → item.levels = c
  | .title i => ∀ item, s.items[i]? = some item → item.names = c
  | _ => False

/-- A listener of a channel that is no choice, and no item of another channel. -/
def Listener.Plain (s : Studio) (c : Nat) (l : Listener) : Prop := l.Quiet s ∨ l.Joined s c

def Tame (s : Studio) (c : Nat) : Prop := ∀ l : Listener, l.On s c → l.Plain s c

def Unnamed (s : Studio) (c : Nat) : Prop := ∀ i, ¬ (Listener.title i).On s c

def Leveled (s : Studio) (c : Nat) : Prop := ∃ i, (Listener.level i).On s c

section

variable {s t : Studio} (h : Kin s t) {c : Nat}

include h

theorem Kin.getElem?_fields_none (hf : s.fields[f]? = none) : t.fields[f]? = none := by
  have hlength := length_of_map_eq h.shells
  rw [List.getElem?_eq_none_iff] at hf ⊢
  omega

theorem Kin.on (hl : l.On s c) : l.On t c := by
  obtain ⟨ch, hch, hmem⟩ := hl
  obtain ⟨ch', hch', heq⟩ := getElem?_of_map_eq h.listeners.symm hch
  exact ⟨ch', hch', Channel.listeners_of_hushed heq ▸ hmem⟩

theorem Kin.exists_item (hi : t.items[i]? = some item) :
    ∃ old, s.items[i]? = some old ∧ item.levels = old.levels ∧ item.names = old.names := by
  obtain ⟨old, hold, heq⟩ := getElem?_of_map_eq h.ports hi
  exact ⟨old, hold, congrArg Prod.fst heq, congrArg Prod.snd heq⟩

omit c in
theorem Kin.quiet (hl : l.Quiet s) : l.Quiet t := by
  cases l
  case field f =>
    intro y hy
    obtain ⟨x, hx, hxy⟩ := getElem?_of_map_eq h.shells hy
    have hkind : y.kind = x.kind := by simpa using congrArg Field.kind hxy
    rw [hkind]
    exact hl x hx
  all_goals exact hl

theorem Kin.joined (hl : l.Joined s c) : l.Joined t c := by
  cases l
  case level i =>
    intro item hi
    obtain ⟨old, hold, hlevels, -⟩ := h.exists_item hi
    exact hlevels.trans (hl old hold)
  case title i =>
    intro item hi
    obtain ⟨old, hold, -, hnames⟩ := h.exists_item hi
    exact hnames.trans (hl old hold)
  all_goals exact hl

theorem Kin.plain (hl : l.Plain s c) : l.Plain t c := hl.imp h.quiet h.joined

theorem Kin.tame (hc : s.Tame c) : t.Tame c := fun l hl => h.plain (hc l (h.symm.on hl))

theorem Kin.unnamed (hc : s.Unnamed c) : t.Unnamed c := fun i hi => hc i (h.symm.on hi)

theorem Kin.leveled (hc : s.Leveled c) : t.Leveled c := hc.imp fun _ hi => h.on hi

end

/-- All is calm, and channels remember what they carried, but for items that repeat `w` on `c` or name themselves. -/
structure Steady (c : Nat) (w : Value) (s t : Studio) : Prop where
  calm : Calm s t
  others : ∀ c', c' ≠ c → t.last? c' = s.last? c'
  own : s.Unnamed c → t.last? c = s.last? c ∨ s.Leveled c ∧ t.last? c = some w

theorem Steady.of_calm (h : Calm s t) (hchannels : t.channels = s.channels) : Steady c w s t := by
  have hlast : ∀ d, t.last? d = s.last? d := fun d => by rw [last?, hchannels, last?]
  exact ⟨h, fun d _ => hlast d, fun _ => .inl (hlast c)⟩

theorem Steady.trans (hst : Steady c w s t) (htu : Steady c w t u) : Steady c w s u := by
  refine ⟨hst.calm.trans htu.calm, fun c' hc' => (htu.others c' hc').trans (hst.others c' hc'), ?_⟩
  intro hc
  obtain hlast | ⟨hlevel, hlast⟩ := htu.own (hst.calm.kin.unnamed hc)
  · rw [hlast]
    exact hst.own hc
  · exact .inr ⟨hst.calm.kin.symm.leveled hlevel, hlast⟩

/-- Listeners of a tame channel `c` that hear `w` leave all steady. -/
def Undisturbed (ls : List Listener) (c : Nat) (w : Value) (s t : Studio) : Prop :=
  s.Tame c → (∀ l ∈ ls, l.On s c) → Steady c w s t

instance (ls : List Listener) (c : Nat) (w : Value) : IsPreorder Studio (Undisturbed ls c w) where
  refl s _ _ := Steady.of_calm (Calm.refl s) rfl
  trans s t u hst htu hs hls := by
    have h := hst hs hls
    exact h.trans (htu (h.calm.kin.tame hs) fun l hl => h.calm.kin.on (hls l hl))

theorem undisturbed_modify {ls : List Listener} {g : Studio → Studio} (hcalm : ∀ s, Calm s (g s))
    (hchannels : ∀ s, (g s).channels = s.channels) :
    Within (Undisturbed ls c w) (modify g : Act PUnit) :=
  within_modify fun s _ _ => Steady.of_calm (hcalm s) (hchannels s)

/-! ### What listeners do -/

def setField (s : Studio) (f : Nat) (x : Field) (v : Value) : Studio :=
  { s with fields := s.fields.set f (x.present v).1 }

theorem getElem?_setField (hx : s.fields[f]? = some x) (v : Value) :
    (s.setField f x v).fields[f]? = some (x.present v).1 := getElem?_set_some hx

theorem run_setValue (r : Reactions) (hx : s.fields[f]? = some x) (hk : x.kind.isChoice = false) (v : Value) :
    (setValue r f v).run s = .ok () (s.setField f x v) := by
  unfold setValue setField
  rw [run_bind_ok (run_field hx)]
  have hnone := x.present_snd v hk
  generalize x.present v = y at hnone ⊢
  obtain ⟨y, option⟩ := y
  obtain rfl : option = none := hnone
  rw [run_bind_ok (run_changeField hx _)]
  rfl

theorem run_receive {r : Reactions} (hx : s.fields[f]? = some x) {v : Value}
    (hset : (setValue r f v).run s = .ok () (s.setField f x v)) : (receive r f v false).run s = .ok ()
      { s with fields := s.fields.set f ((x.present v).1.withValue x.value) } := by
  unfold receive
  rw [run_bind_ok (run_field hx)]
  dsimp only
  rw [run_bind_ok hset, if_neg Bool.false_ne_true, run_changeField (getElem?_setField hx v)]
  show Result.ok () { s with fields := (s.fields.set f _).set f _ } = _
  rw [set_set]
  rfl

theorem after_receive_none (r : Reactions) (hx : s.fields[f]? = none) (v : Value) :
    (receive r f v false).after s = s := after_bind_error (run_part_none hx)

def Aside (s t : Studio) : Prop := t.channels = s.channels ∧ t.items = s.items ∧ t.explorer = s.explorer

theorem calm_receive (r : Reactions) (v : Value) (hf : ∀ x, s.fields[f]? = some x → x.kind.isChoice = false) :
    Calm s ((receive r f v false).after s) ∧ Aside s ((receive r f v false).after s) := by
  cases hx : s.fields[f]? with
  | none =>
    rw [after_receive_none r hx]
    exact ⟨Calm.refl s, rfl, rfl, rfl⟩
  | some x =>
    have hk : x.kind.isChoice = false := hf x hx
    rw [after_of_ok (run_receive hx (run_setValue r hx hk v))]
    exact ⟨⟨map_set_of_eq hx (x.bare_present v hk), rfl, rfl, rfl, rfl⟩, rfl, rfl, rfl⟩

theorem after_onLayer (l : Nat) (act : Layer.Act α) (s : Studio) :
    (onLayer l act).after s = { s with layers := s.layers.modify l act.after } := by
  cases hx : s.layers[l]? with
  | none =>
    rw [modify_eq_self (List.getElem?_eq_none_iff.mp hx)]
    exact after_bind_error (run_part_none hx)
  | some x =>
    rw [modify_eq_set hx, onLayer, after_bind_ok (run_part hx)]
    cases hrun : act.run x with
    | ok a y => rw [after_of_ok hrun]; rfl
    | error e y => rw [after_of_error hrun]; rfl

theorem after_connect_none (hch : s.channels[c]? = none) (l : Listener) :
    (connect c l).after s = s := after_bind_error (run_part_none hch)

theorem after_enter_none (r : Reactions) (hx : s.fields[f]? = none) (v : Value) (finish : Bool) :
    (enter r f v finish).after s = s := after_bind_error (run_part_none hx)

theorem calm_onLayer (s : Studio) (l : Nat) {act : Layer.Act α} (hact : Within (Keeps Layer.channels) act) :
    Calm s ((onLayer l act).after s) ∧ Aside s ((onLayer l act).after s) := by
  rw [after_onLayer]
  exact ⟨⟨rfl, rfl, rfl, rfl, map_modify_of_eq hact s.layers l⟩, rfl, rfl, rfl⟩

theorem calm_changeField (s : Studio) (f : Nat) {g : Field → Field} (hg : ∀ x, (g x).bare = x.bare) :
    Calm s ((changeField f g).after s) :=
  ⟨map_modify_of_eq hg s.fields f, rfl, rfl, rfl, rfl⟩

theorem calm_changeItem (s : Studio) (i : Nat) (hg : ∀ x, (g x).ports = x.ports) :
    Calm s ((changeItem i g).after s) :=
  ⟨rfl, rfl, rfl, map_modify_of_eq hg s.items i, rfl⟩

theorem calm_hear (r : Reactions) (hl : l.Quiet s) (o : Option Value) :
    Calm s ((hear r l o).after s) ∧ Aside s ((hear r l o).after s) := by
  cases l <;> cases o
  case field.some f v => exact calm_receive r v hl
  case caption.some f v => exact ⟨calm_changeField s f fun _ => rfl, rfl, rfl, rfl⟩
  case observer.some n v => exact ⟨⟨rfl, rfl, rfl, rfl, rfl⟩, rfl, rfl, rfl⟩
  case layer.some n p v => exact calm_onLayer s n (Layer.keeps_hear s.families p (some v))
  case layer.none n p => exact calm_onLayer s n (Layer.keeps_hear s.families p none)
  case level.some | level.none | title.some | title.none => exact absurd hl id
  all_goals exact ⟨Calm.refl s, rfl, rfl, rfl⟩

/-- Reactions that are calm on tame channels and leave others alone. The channel remembers at most the value, or the
    value as it is carried if an item repeats it. -/
structure Reactions.Gentle (r : Reactions) : Prop where
  calm : ∀ c v s, s.Tame c → Calm s ((r.emit c v).after s)
  others : ∀ c v s, s.Tame c → ∀ c', c' ≠ c → ((r.emit c v).after s).last? c' = s.last? c'
  own : ∀ c v s, s.Tame c → s.Unnamed c → ((r.emit c v).after s).last? c = s.last? c ∨
    ((r.emit c v).after s).last? c = some v ∨ s.Leveled c ∧ ((r.emit c v).after s).last? c = some v.carried

def remember (s : Studio) (c : Nat) (ch : Channel Listener) (v : Value) : Studio :=
  { s with channels := s.channels.set c (ch.emit v).1 }

theorem calm_remember (hch : s.channels[c]? = some ch) (v : Value) : Calm s (s.remember c ch v) := by
  refine ⟨rfl, rfl, ?_, rfl, rfl⟩
  exact map_set_of_eq hch (ch.hushed_emit v)

theorem last?_remember_self (hch : s.channels[c]? = some ch) (v : Value) : (s.remember c ch v).last? c = some v := by
  simp [remember, last?, lt_of_getElem? hch]

theorem last?_remember_of_ne (s : Studio) {c' : Nat} (ch : Channel Listener) (v : Value) (hne : c' ≠ c) :
    (s.remember c ch v).last? c' = s.last? c' := by
  simp [remember, last?, getElem?_set_ne (Ne.symm hne)]

theorem run_emit_next (r : Reactions) (hch : s.channels[c]? = some ch) : (r.next.emit c v).run s =
    (require (ch.emit v).2 >>= fun heard => announce (hear r) heard.2 heard.1).run (s.remember c ch v) := by
  show (part Studio.channels c >>= fun ch => deliver r c (ch.emit v)).run s = _
  rw [run_bind_ok (run_part hch)]
  rfl

theorem run_emit_heard (r : Reactions) (hch : s.channels[c]? = some ch) {ls : List Listener}
    (hheard : (ch.emit v).2 = .ok (ls, w)) :
    (r.next.emit c v).run s = (announce (hear r) w ls).run (s.remember c ch v) := by
  rw [run_emit_next r hch, hheard, run_bind_ok (run_require_ok _ _)]

theorem exists_after_emit_next (r : Reactions) (hch : s.channels[c]? = some ch) (v : Value) :
    ∃ ls, (∀ l ∈ ls, l ∈ ch.listeners) ∧
      (r.next.emit c v).after s = (announce (hear r) v.carried ls).after (s.remember c ch v) := by
  rw [after_congr (run_emit_next r hch)]
  cases hheard : (ch.emit v).2 with
  | error e => exact ⟨[], forall_mem_nil _, rfl⟩
  | ok heard =>
    obtain ⟨ls, w⟩ := heard
    obtain ⟨hls, rfl⟩ := Channel.emit_eq_ok hheard
    exact ⟨ls, hls, rfl⟩

theorem after_emit_next_none (r : Reactions) (hch : s.channels[c]? = none) : (r.next.emit c v).after s = s :=
  after_bind_error (run_part_none hch)

theorem within_rename {R : Studio → Studio → Prop} [IsPreorder Studio R] {r : Reactions} {name : Value}
    (hshown : Within R (changeItem i fun x => { x with shown := name }))
    (hnames : ∀ g : List Value → List Value, Within R (changeExplorer fun e => { e with names := g e.names }))
    (hsettle : ∀ new, new = name ∨ (∃ text, new = .text text) → Within R (settleName r i new)) :
    Within R (rename r i name) := by
  have hclaim : ∀ old, Within R (claimName r i name old) := by
    intro old
    refine (hnames (·.erase old)).bind fun _ => within_get.bind fun s => ?_
    dsimp only
    split
    · split
      · rw [pure_bind]
        exact (hnames (· ++ _)).bind fun _ => hsettle _ (.inr ⟨_, rfl⟩)
      · exact within_throw _
    · rw [pure_bind]
      exact (hnames (· ++ _)).bind fun _ => hsettle _ (.inl rfl)
  -- what goes wrong in taking the name is passed over
  refine (within_part _ i).bind fun item => ?_
  split
  · exact within_pure _
  · exact hshown.bind fun _ => (hclaim _).tryCatch fun _ => within_pure _

section

variable {r : Reactions} (hr : r.Gentle) {ls : List Listener} {c : Nat} {w : Value}

include hr

theorem undisturbed_tell (i : Nat) (hg : ∀ x, (g x).ports = x.ports)
    (hv : s.Unnamed c → v = w ∧ w.carried = w ∧ s.Leveled c) :
    Undisturbed ls c w s ((changeItem i g >>= fun _ => r.emit c v).after s) := by
  intro hs _
  have hchange : (changeItem i g).run s = .ok () ((changeItem i g).after s) := rfl
  rw [after_bind_ok hchange]
  have hcalm : Calm s ((changeItem i g).after s) := calm_changeItem s i hg
  have htame := hcalm.kin.tame hs
  refine ⟨hcalm.trans (hr.calm c v _ htame), hr.others c v _ htame, fun hunnamed => ?_⟩
  obtain ⟨rfl, hcarried, hleveled⟩ := hv hunnamed
  -- the value was carried once already, so carrying it again does not change its form
  obtain hlast | hlast | ⟨-, hlast⟩ := hr.own c v _ htame (hcalm.kin.unnamed hunnamed)
  · exact .inl hlast
  · exact .inr ⟨hleveled, hlast⟩
  · rw [hcarried] at hlast
    exact .inr ⟨hleveled, hlast⟩

theorem undisturbed_setLevel (hl : .level i ∈ ls) (hw : w.carried = w) :
    Within (Undisturbed ls c w) (setLevel r i w) := by
  intro s hs hls
  have hsame : Steady c w s s := Steady.of_calm (Calm.refl s) rfl
  refine after_part_of hsame fun item hi => ?_
  obtain rfl : item.levels = c := (hs _ (hls _ hl)).resolve_left id item hi
  split
  · exact hsame
  · refine undisturbed_tell hr i ?_ (fun _ => ⟨rfl, hw, i, hls _ hl⟩) hs hls
    exact fun _ => rfl

theorem undisturbed_settleName (hl : .title i ∈ ls) (name : Value) :
    Within (Undisturbed ls c w) (settleName r i name) := by
  intro s hs hls
  have hsame : Steady c w s s := Steady.of_calm (Calm.refl s) rfl
  refine after_part_of hsame fun item hi => ?_
  obtain rfl : item.names = c := (hs _ (hls _ hl)).resolve_left id item hi
  split
  · exact hsame
  · -- the item takes its name from the channel, so nothing is said about what it remembers
    refine undisturbed_tell hr i ?_ (fun hunnamed => absurd (hls _ hl) (hunnamed i)) hs hls
    exact fun _ => rfl

theorem undisturbed_rename (hl : .title i ∈ ls) (name : Value) : Within (Undisturbed ls c w) (rename r i name) :=
  within_rename (undisturbed_modify (fun s => calm_changeItem s i fun _ => rfl) fun _ => rfl)
    (fun _ => undisturbed_modify (fun _ => ⟨rfl, rfl, rfl, rfl, rfl⟩) fun _ => rfl)
    fun new _ => undisturbed_settleName hr hl new

/-- A listener of a tame channel leaves all steady when it hears the value, or is called without. -/
theorem undisturbed_hear (hl : l ∈ ls) (hw : w.carried = w) {o : Option Value} (ho : ∀ v, o = some v → v = w) :
    Within (Undisturbed ls c w) (hear r l o) := by
  intro s hs hls
  obtain hquiet | hjoined := hs l (hls l hl)
  · obtain ⟨hcalm, hchannels, -⟩ := calm_hear r hquiet o
    exact Steady.of_calm hcalm hchannels
  · -- an item that is called without a value does nothing
    cases l <;> cases o
    case level.some i v =>
      obtain rfl : v = w := ho v rfl
      exact undisturbed_setLevel hr hl hw s hs hls
    case title.some i v => exact undisturbed_rename hr hl v s hs hls
    case level.none | title.none => exact Steady.of_calm (Calm.refl s) rfl
    all_goals exact absurd hjoined id

theorem steady_emit_next (hch : s.channels[c]? = some ch) (hc : s.Tame c) (v : Value) :
    Steady c v.carried (s.remember c ch v) ((r.next.emit c v).after s) := by
  have hkin : Kin s (s.remember c ch v) := (calm_remember hch v).kin
  obtain ⟨ls, hls, hafter⟩ := exists_after_emit_next r hch v
  rw [hafter]
  have hall : Within (Undisturbed ls c v.carried) (announce (hear r) v.carried ls) :=
    within_announce (fun l hl => undisturbed_hear hr hl v.carried_carried fun _ hv => (Option.some.inj hv).symm)
      fun l hl => undisturbed_hear hr hl v.carried_carried nofun
  exact hall _ (hkin.tame hc) fun l hl => hkin.on ⟨ch, hch, hls l hl⟩

theorem last?_emit_next (hlt : c < s.channels.length) (hc : s.Tame c) (hunnamed : s.Unnamed c) (v : Value) :
    ((r.next.emit c v).after s).last? c = some v ∨
      s.Leveled c ∧ ((r.next.emit c v).after s).last? c = some v.carried := by
  have hch := getElem?_eq_getElem hlt
  have hkin := (calm_remember hch v).kin
  obtain hlast | ⟨hleveled, hlast⟩ := (steady_emit_next hr hch hc v).own (hkin.unnamed hunnamed)
  · exact .inl (hlast.trans (last?_remember_self hch v))
  · exact .inr ⟨hkin.symm.leveled hleveled, hlast⟩

theorem Reactions.Gentle.next : r.next.Gentle where
  calm c v s hc := by
    cases hch : s.channels[c]? with
    | none =>
      rw [after_emit_next_none r hch]
      exact Calm.refl s
    | some ch => exact (calm_remember hch v).trans (steady_emit_next hr hch hc v).calm
  others c v s hc c' hne := by
    cases hch : s.channels[c]? with
    | none => rw [after_emit_next_none r hch]
    | some ch =>
      rw [(steady_emit_next hr hch hc v).others c' hne, last?_remember_of_ne s ch v hne]
  own c v s hc hunnamed := by
    cases hch : s.channels[c]? with
    | none =>
      rw [after_emit_next_none r hch]
      exact .inl rfl
    | some ch =>
      exact .inr (last?_emit_next hr (lt_of_getElem? hch) hc hunnamed v)

end

/-- **Carrying a value is calm**, however deep the reactions nest. -/
theorem gentle_upTo (n : Nat) : (Reactions.upTo n).Gentle := by
  induction n with
  | zero =>
    -- at the limit a reaction fails before it does anything
    constructor
    · exact fun c v s _ => Calm.refl s
    · exact fun c v s _ c' _ => rfl
    · exact fun c v s _ _ => .inl rfl
  | succ n ih => exact ih.next

theorem last?_emit (hlt : c < s.channels.length) (hc : s.Tame c) (hunnamed : s.Unnamed c) (v : Value) :
    ((emit c v).after s).last? c = some v ∨ s.Leveled c ∧ ((emit c v).after s).last? c = some v.carried :=
  last?_emit_next (gentle_upTo (depth - 1)) hlt hc hunnamed v

/-! ### Joining a channel -/

def join (s : Studio) (c : Nat) (ch : Channel Listener) (l : Listener) : Studio :=
  { s with channels := s.channels.set c (ch.register l) }

theorem getElem?_join (hch : s.channels[c]? = some ch) (l : Listener) :
    (s.join c ch l).channels[c]? = some (ch.register l) := getElem?_set_some hch

theorem on_join {d : Nat} (hch : s.channels[c]? = some ch) (hk : k.On (s.join c ch l) d) :
    k.On s d ∨ d = c ∧ k = l := by
  obtain ⟨ch', hch', hmem⟩ := hk
  by_cases hdc : d = c
  · subst hdc
    cases (getElem?_join hch l).symm.trans hch'
    have hold : k = l ∨ k ∈ ch.listeners := by
      simp only [Channel.listeners, Channel.register, mem_append, mem_singleton] at hmem ⊢
      grind
    exact hold.elim (fun h => .inr ⟨rfl, h⟩) fun h => .inl ⟨ch, hch, h⟩
  · rw [join, getElem?_set_ne (Ne.symm hdc)] at hch'
    exact .inl ⟨ch', hch', hmem⟩

theorem last?_join (hch : s.channels[c]? = some ch) (l : Listener) (d : Nat) :
    (s.join c ch l).last? d = s.last? d :=
  map_getElem?_of_eq (f := Channel.last) (map_set_of_eq (b := ch.register l) hch rfl) d

/-- Who joins a channel that has carried a value makes it carry the value once more. -/
theorem run_connect (hch : s.channels[c]? = some ch) (l : Listener) :
    (connect c l).run s = if ch.last.isNone then .ok () (s.join c ch l) else
      ((Reactions.upTo (depth + 1)).emit c ch.last).run (s.join c ch l) := by
  unfold connect
  rw [run_bind_ok (run_part hch), Channel.connect]
  show run (deliver reactions c (if ch.last.isNone then _ else (ch.register l).emit ch.last)) s = _
  split
  · rfl
  · have hremember : (s.join c ch l).remember c (ch.register l) ch.last =
        { s with channels := s.channels.set c ((ch.register l).emit ch.last).1 } := by
      simp [remember, join]
    show _ = run (part Studio.channels c >>= fun ch' => deliver reactions c (ch'.emit ch.last)) _
    rw [run_bind_ok (run_part (getElem?_join hch l))]
    show run (require _ >>= _) _ = run (require _ >>= _) ((s.join c ch l).remember c _ _)
    rw [hremember]

theorem after_connect (hch : s.channels[c]? = some ch) (l : Listener) :
    (connect c l).after s = if ch.last.isNone then s.join c ch l else
      ((Reactions.upTo (depth + 1)).emit c ch.last).after (s.join c ch l) := by
  rw [EStateM.after, run_connect hch]
  cases ch.last.isNone <;> rfl

/-! ### Layers and items -/

section

variable {table : List (String × Nat)} {parts : List (String × Layer.Part)} {layer : String} {id : Value} {l : Nat}

theorem within_follow {R : Studio → Studio → Prop} [IsPreorder Studio R]
    (h : ∀ e ∈ parts, ∀ d, table.lookup e.1 = some d → Within R (connect d (.layer l e.2))) :
    Within R (follow l table parts) := by
  refine Within.forM fun e he => ?_
  dsimp only
  cases hlookup : table.lookup e.1 with
  | none => exact within_pure _
  | some d => exact h e he d hlookup

def withLayerOn (s : Studio) (table : List (String × Nat)) : Studio :=
  { s with layers := s.layers ++ [{ channels := table }] }

/-- A new layer joins its channels, and settles before it joins the last of them. -/
theorem run_makeLayer (table : List (String × Nat)) (s : Studio) : (makeLayer table).run s = (do
      follow s.layers.length table Layer.following.1
      onLayer s.layers.length Layer.settle
      follow s.layers.length table Layer.following.2
      pure s.layers.length).run (s.withLayerOn table) := rfl

def withItem (s : Studio) (item : Item) : Studio := { s with items := s.items ++ [item] }

theorem getElem?_withItem (s : Studio) (item : Item) : (s.withItem item).items[s.items.length]? = some item :=
  getElem?_concat_length

def Explorer.listing (e : Explorer) (id : String) (i : Nat) : Explorer :=
  { e with items := if e.items.any (·.1 == id) then e.items.map fun x => if x.1 == id then (x.1, i) else x
      else e.items ++ [(id, i)] }

theorem run_addItem {names levels : Nat} (hnames : table.lookup "Name" = some names)
    (hlevels : table.lookup "Layer" = some levels) (layer : String) (id : Value) (s : Studio) :
    (addItem layer table id).run s = (do
      connect levels (.level s.items.length)
      connect names (.title s.items.length)
      changeExplorer (·.listing id.shown s.items.length)
      pure s.items.length).run (s.withItem { id := id.shown, layer := layer, levels := levels, names := names }) := by
  unfold addItem
  rw [hnames, hlevels]
  rfl

end

end Studio

end WatchFace
