import WatchFace.Proofs.Studio.Growing
import WatchFace.Proofs.Studio.Naming

/-!
# Nameplates

The field and the item listen on the channel of a name, the field first, and nobody else does.
-/

namespace WatchFace

open EStateM

variable {c f i : Nat} {name : String} {item : Studio.Item}

/-! ### Fields that take texts as they are -/

/-- The kinds of fields that take any text as it is: for words, or a choice from nothing. -/
def Catalog.Kind.isVerbatim : Kind → Bool
  | .words | .options [] => true
  | _ => false

theorem Catalog.Kind.isVerbatim_iff {k : Kind} : k.isVerbatim = true ↔ k = .words ∨ k = .options [] := by
  constructor
  · unfold isVerbatim
    split
    · exact fun _ => .inl rfl
    · exact fun _ => .inr rfl
    · exact fun h => absurd h Bool.false_ne_true
  · rintro (rfl | rfl)
    · rfl
    · rfl

theorem Catalog.Kind.options_of_isVerbatim {k : Kind} (h : k.isVerbatim = true) (families : List String) :
    Field.optionsOf families k = [] := by
  obtain rfl | rfl := isVerbatim_iff.mp h
  · rfl
  · rfl

namespace Field

structure Verbatim (x : Field) : Prop where
  kind : x.kind.isVerbatim = true
  options : x.options = []

variable {x y : Field}

theorem Verbatim.of_plate (hx : x.Verbatim) (h : y.plate = x.plate) : y.Verbatim := by
  refine ⟨?_, ?_⟩
  · rw [plate_kind h]
    exact hx.kind
  · exact (congrArg Field.options h : y.plate.options = x.plate.options).trans hx.options

theorem Verbatim.rests (hx : x.Verbatim) (v : Value) : x.Rests v := x.rests_of_options hx.options v

theorem Verbatim.read (hx : x.Verbatim) (name : String) :
    x.read (.text name) = (true, .text name) ∧ x.convert (.text name) = .ok (.text name) := by
  obtain hkind | hkind := Catalog.Kind.isVerbatim_iff.mp hx.kind
  · rw [Field.read, Field.convert, hkind]
    exact ⟨rfl, rfl⟩
  · rw [Field.read, Field.convert, hkind]
    exact ⟨rfl, rfl⟩

theorem Verbatim.present (hx : x.Verbatim) (hsettled : x.settled = true) (v : Value) :
    (x.present v).1.value = v ∧ (x.present v).1.settled = true ∧ (x.present v).1.plate = x.plate := by
  obtain hkind | hkind := Catalog.Kind.isVerbatim_iff.mp hx.kind
  · simp [Field.present, hkind, hsettled, plate, shell, bare, withValue]
  · simp [Field.present, hkind, hsettled, plate, shell, bare, withValue]

end Field

namespace Studio

/-! ### How the parts are joined -/

/-- The parts that the name of a component goes through: a channel, and the field and the item that listen on it. -/
structure Nameplate where
  channel : Nat
  field : Nat
  item : Nat

def roll (s : Studio) : List Item × Explorer := (s.items, s.explorer)

theorem roll_eq {s t : Studio} : t.roll = s.roll ↔ t.items = s.items ∧ t.explorer = s.explorer := Prod.ext_iff

namespace Nameplate

def blank (p : Nameplate) : Channel Listener :=
  (({} : Channel Listener).register (.field p.field)).register (.title p.item)

structure Fixed (p : Nameplate) (s : Studio) : Prop where
  channel : ∃ ch, s.channels[p.channel]? = some ch ∧ ch.hushed = p.blank
  field : ∃ x, s.fields[p.field]? = some x ∧ x.Verbatim ∧ x.channel = p.channel
  item : ∃ item, s.items[p.item]? = some item ∧ item.names = p.channel

variable {p q : Nameplate} {s t : Studio}

theorem Fixed.on_iff (h : p.Fixed s) (l : Listener) : l.On s p.channel ↔ l = .field p.field ∨ l = .title p.item := by
  obtain ⟨ch, hch, hblank⟩ := h.channel
  have hmem : l ∈ ch.listeners ↔ l = .field p.field ∨ l = .title p.item := by
    rw [Channel.listeners_of_hushed (d := p.blank) hblank]
    simp only [blank, Channel.register, Channel.listeners, List.nil_append, List.mem_append, List.mem_singleton]
    tauto
  constructor
  · rintro ⟨ch', hch', hl⟩
    rw [hch] at hch'
    exact hmem.mp (Option.some.inj hch' ▸ hl)
  · exact fun hl => ⟨ch, hch, hmem.mpr hl⟩

theorem Fixed.of_parts (h : p.Fixed s) (hlisteners : t.channels.map Channel.hushed = s.channels.map Channel.hushed)
    (hplates : t.fields.map Field.plate = s.fields.map Field.plate)
    (hports : t.items.map Item.ports = s.items.map Item.ports) : p.Fixed t := by
  obtain ⟨ch, hch, hblank⟩ := h.channel
  obtain ⟨x, hx, hverbatim, hchannel⟩ := h.field
  obtain ⟨item, hitem, hnames⟩ := h.item
  obtain ⟨ch', hch', hhushed⟩ := getElem?_of_map_eq hlisteners.symm hch
  obtain ⟨x', hx', hplate⟩ := getElem?_of_map_eq hplates.symm hx
  obtain ⟨item', hitem', hport⟩ := getElem?_of_map_eq hports.symm hitem
  refine ⟨⟨ch', hch', hhushed.symm.trans hblank⟩, ⟨x', hx', ?_, ?_⟩, item', hitem', ?_⟩
  · exact hverbatim.of_plate hplate.symm
  · exact (Field.plate_channel hplate.symm).trans hchannel
  · exact (congrArg Prod.snd hport).symm.trans hnames

theorem Fixed.of_kin (h : p.Fixed s) (hst : Kin s t) : p.Fixed t := by
  refine h.of_parts hst.listeners ?_ hst.ports
  have hmap := congrArg (List.map fun x : Field => { x with settled := true, index := -1 }) hst.shells
  rwa [List.map_map, List.map_map] at hmap

theorem Fixed.of_ripple {o : Option (Nat × Value)} (h : p.Fixed s) (hst : Ripple o c s t) : p.Fixed t :=
  h.of_parts hst.listeners hst.plates hst.ports

theorem Fixed.attempt_field (h : p.Fixed s) (r : Reactions) (v : Value) :
    let t := (attempt (hear r) v (.field p.field)).after s
    Kin s t ∧ t.roll = s.roll := by
  intro t
  obtain ⟨x, hx, hverbatim, -⟩ := h.field
  have hrun := run_receive hx (run_setValue_of_rests r hx (hverbatim.rests v))
  have hattempt : t = _ := after_of_ok (run_tryCatch_ok hrun)
  rw [hattempt]
  refine ⟨⟨map_set_of_eq hx ?_, rfl, rfl, rfl⟩, rfl⟩
  exact congrArg (Field.withValue · .none) (x.present_cases v).2.1

theorem Fixed.after_emit (h : p.Fixed s) (r : Reactions) (name : String) : ∃ s', Kin s s' ∧ s'.roll = s.roll ∧
      (r.next.emit p.channel (.text name)).after s = (attempt (hear r) (.text name) (.title p.item)).after s' := by
  obtain ⟨ch, hch, hblank⟩ := h.channel
  have htexts : ch.texts = [.field p.field, .title p.item] := congrArg Channel.texts hblank
  have hkin : Kin s (s.remember p.channel ch (.text name)) := (calm_remember hch _).kin
  obtain ⟨hkin', hroll⟩ := (h.of_kin hkin).attempt_field r (.text name)
  refine ⟨_, hkin.trans hkin', hroll, ?_⟩
  rw [after_congr (run_emit_heard r hch rfl), htexts, after_announce_cons, after_announce_cons]
  rfl

theorem after_attempt_title {r : Reactions} (hrun : (rename r i (.text name)).run s = .ok () t) :
    (attempt (hear r) (.text name) (.title i)).after s = t := after_of_ok (run_tryCatch_ok hrun)

theorem Fixed.roll_emit_self (h : p.Fixed s) (hi : s.items[p.item]? = some item) (hname : item.name = .text name)
    (n : Nat) :
    let t := ((Reactions.upTo n).emit p.channel (.text name)).after s
    Kin s t ∧ t.roll = s.roll := by
  cases n with
  | zero => exact ⟨.refl s, rfl⟩
  | succ n =>
    obtain ⟨s', hkin, hroll, hafter⟩ := h.after_emit (.upTo n) name
    have hi' : s'.items[p.item]? = some item := (roll_eq.mp hroll).1 ▸ hi
    show Kin s (((Reactions.upTo n).next.emit p.channel (.text name)).after s) ∧ _ = _
    rw [show (Reactions.upTo (n + 1)).emit = (Reactions.upTo n).next.emit from rfl, hafter,
      after_attempt_title (run_rename_same hi' _ hname)]
    exact ⟨hkin, hroll⟩

theorem roll_listing (hroll : t.roll = s.roll) (i : Nat) (item : Item) (name : String) :
    (t.listing i item name).roll = (s.listing i item name).roll := by
  obtain ⟨hitems, hexplorer⟩ := roll_eq.mp hroll
  simp only [roll, listing, othersOf, newName, hitems, hexplorer]

theorem roll_naming (hroll : t.roll = s.roll) (i : Nat) (item : Item) (name : String) :
    (t.naming i item name).roll = (s.naming i item name).roll := by
  obtain ⟨hitems, hexplorer⟩ := roll_eq.mp hroll
  simp only [roll, naming, listing, othersOf, newName, hitems, hexplorer]

theorem newName_of_roll (hroll : t.roll = s.roll) (item : Item) (name : String) :
    t.newName item name = s.newName item name := by
  rw [newName, newName, othersOf, othersOf, (roll_eq.mp hroll).2]

/-- An item is asked for a name: it has the name already; it gets its own name again, and the one asked for is shown;
    or it takes the name that it gets. -/
def Renames (i : Nat) (item : Item) (name : String) (s t : Studio) : Prop :=
  let new := Value.text (s.newName item name)
  item.name = .text name ∧ t.roll = s.roll ∨
    item.name ≠ .text name ∧ (item.name = new ∧ t.roll = (s.listing i item name).roll ∨
      item.name ≠ new ∧ t.roll = (s.naming i item name).roll)

theorem Renames.of_roll {s' t' : Studio} (h : Renames i item name s t) (hs : s'.roll = s.roll) (ht : t'.roll = t.roll) :
    Renames i item name s' t' := by
  simp only [Renames, newName_of_roll hs, roll_listing hs, roll_naming hs, hs, ht] at h ⊢
  exact h

theorem Renames.tidy (h : Renames i item name s t) (hi : s.items[i]? = some item) (hs : s.Tidy) : t.Tidy := by
  have hof : ∀ {u : Studio}, u.Tidy → t.roll = u.roll → t.Tidy := by
    intro u hu hroll
    obtain ⟨hitems, hexplorer⟩ := roll_eq.mp hroll
    exact hu.of_names (by rw [itemNames, hitems, itemNames]) (by rw [hexplorer])
  obtain ⟨-, hroll⟩ | ⟨-, ⟨hsame, hroll⟩ | ⟨-, hroll⟩⟩ := h
  · exact hof hs hroll
  · exact hof (hs.listing hi hsame) hroll
  · exact hof (hs.naming hi name) hroll

/-- **Carrying a name asks the item for it.** -/
theorem Fixed.renames_emit (h : p.Fixed s) (hi : s.items[p.item]? = some item) (n : Nat) (name : String) :
    let t := ((Reactions.upTo (n + 1)).emit p.channel (.text name)).after s
    Kin s t ∧ Renames p.item item name s t := by
  intro t
  obtain ⟨s', hkin, hroll, hafter⟩ := h.after_emit (.upTo n) name
  have hi' : s'.items[p.item]? = some item := (roll_eq.mp hroll).1 ▸ hi
  have hnew' := newName_of_roll hroll item name
  have ht : t = _ := hafter
  rw [ht]
  by_cases hname : item.name = .text name
  · rw [after_attempt_title (run_rename_same hi' _ hname)]
    exact ⟨hkin, .inl ⟨hname, hroll⟩⟩
  · by_cases hnew : item.name = .text (s.newName item name)
    · rw [after_attempt_title (run_rename_listing hi' _ hname (hnew' ▸ hnew))]
      refine ⟨hkin.trans ⟨rfl, rfl, map_set_of_eq hi' rfl, rfl⟩, .inr ⟨hname, .inl ⟨hnew, ?_⟩⟩⟩
      exact roll_listing hroll p.item item name
    · -- the item tells its new name on the channel, which by then is its own
      let named := s'.naming p.item item name
      have hnaming : Kin s' named := ⟨rfl, rfl, map_set_of_eq hi' rfl, rfl⟩
      have hnamed : p.Fixed named := (h.of_kin hkin).of_kin hnaming
      have hi'' : ∃ item', named.items[p.item]? = some item' ∧ item'.name = .text (s'.newName item name) := by
        let new' := Value.text (s'.newName item name)
        refine ⟨{ item with shown := new', name := new' }, ?_, rfl⟩
        exact getElem?_set_some hi'
      obtain ⟨item', hitem', hname'⟩ := hi''
      obtain ⟨item'', hitem'', hchannel⟩ := h.item
      cases hi.symm.trans hitem''
      rw [after_attempt_title (run_rename_naming hi' _ hname (hnew'.symm ▸ hnew)), hchannel]
      obtain ⟨hkin', hroll'⟩ := hnamed.roll_emit_self hitem' hname' n
      refine ⟨(hkin.trans hnaming).trans hkin', .inr ⟨hname, .inr ⟨hnew, ?_⟩⟩⟩
      rw [hroll']
      exact roll_naming hroll p.item item name

/-! ### Entering a name -/

theorem exists_run_push_change (r : Reactions) {x : Field} (hx : s.fields[f]? = some x) (hverbatim : x.Verbatim)
    (new old : Value) : ∃ panel history,
      (push r (.change f new old)).run s = .ok () { s.setField f x new with panel := panel, history := history } := by
  let s₁ := s.readied (.change f new old)
  have hset : (carryOut r (.change f new old)).run s₁ = .ok () (s₁.setField f x new) :=
    run_setValue_of_rests r (s := s₁) hx (hverbatim.rests new)
  refine ⟨s.cleared, s₁.history.advance, ?_⟩
  rw [run_push, run_bind_ok hset]
  rfl

theorem exists_run_keep (r : Reactions) {x : Field} (hx : s.fields[f]? = some x) (hverbatim : x.Verbatim)
    (hsettled : x.settled = true) (new old : Value) :
    ∃ t y, (keep r f new old).run s = .ok () t ∧ t.roll = s.roll ∧ t.fields[f]? = some y ∧ y.Verbatim ∧
      y.settled = true := by
  unfold keep
  rw [run_bind_ok (run_field hx)]
  split
  · obtain ⟨panel, history, hpush⟩ := exists_run_push_change r hx hverbatim new old
    obtain ⟨-, hsettled', hplate⟩ := hverbatim.present hsettled new
    exact ⟨_, (x.present new).1, run_tryCatch_ok hpush, rfl, getElem?_setField hx new, hverbatim.of_plate hplate,
      hsettled'⟩
  · exact ⟨s, x, rfl, rfl, hx, hverbatim, hsettled⟩

/-- **A name that is entered is carried**, which asks the item for it, and the field holds it as it was entered. -/
theorem Fixed.exists_run_enter (h : p.Fixed s) (hi : s.items[p.item]? = some item) (name : String) :
    ∃ t, (enter reactions p.field (.text name) true).run s = .ok () t ∧ Renames p.item item name s t ∧
      ∃ y, t.fields[p.field]? = some y ∧ y.value = .text name := by
  obtain ⟨x, hx, hverbatim, hchannel⟩ := h.field
  obtain ⟨hread, hconvert⟩ := hverbatim.read name
  -- the edit ends
  let x₁ : Field := { x with settled := true }
  let s₁ : Studio := { s with fields := s.fields.set p.field x₁ }
  have hsettle : (changeField p.field fun x => { x with settled := true }).run s = .ok () s₁ := run_changeField hx _
  have h₁ : p.Fixed s₁ := h.of_parts rfl (map_set_of_eq hx rfl) rfl
  -- the channel carries the name, and that goes well
  obtain ⟨ch, hch, -⟩ := h₁.channel
  obtain ⟨s₂, hemit⟩ : ∃ s₂, (reactions.emit p.channel (.text name)).run s₁ = .ok () s₂ := by
    obtain ⟨s₂, hs₂⟩ := exists_run_announce (hear (.upTo (depth - 1))) (.text name) ch.texts
      (s₁.remember p.channel ch (.text name))
    exact ⟨s₂, (run_emit_heard _ hch rfl).trans hs₂⟩
  obtain ⟨hkin, hrenames⟩ := h₁.renames_emit hi (depth - 1) name
  rw [show ((Reactions.upTo (depth - 1 + 1)).emit p.channel (.text name)).after s₁ = s₂ from after_of_ok hemit]
    at hkin hrenames
  -- the field is there still, and shows something else at the most
  have hx₁ : s₁.fields[p.field]? = some x₁ := getElem?_set_some hx
  obtain ⟨y, hy, hshell⟩ := getElem?_of_map_eq hkin.shells.symm hx₁
  have hyplate : y.plate = x.plate :=
    congrArg (fun x : Field => { x with settled := true, index := -1 }) hshell.symm
  have hysettled : y.settled = true := (congrArg Field.settled hshell).symm
  -- the edit is kept if the field has a history, and then the field gets the name once more
  obtain ⟨s₃, z, hkeep, hroll, hz, hzverbatim, hzsettled⟩ :=
    exists_run_keep (s := s₂) reactions hy (hverbatim.of_plate hyplate) hysettled (.text name) y.value
  have hset : (setValue reactions p.field (.text name)).run s₃ = .ok () (s₃.setField p.field z (.text name)) :=
    run_setValue_of_rests reactions hz (hzverbatim.rests _)
  refine ⟨s₃.setField p.field z (.text name), ?_, hrenames.of_roll rfl hroll, _, getElem?_setField hz _,
    (hzverbatim.present hzsettled _).1⟩
  unfold enter
  rw [run_bind_ok (run_field hx)]
  simp only [hread]
  rw [run_bind_ok hsettle]
  simp only [hconvert, if_true, hchannel]
  rw [run_bind_ok (run_require_ok _ s₁), run_bind_ok hemit, run_bind_ok (run_field hy), run_bind_ok hkeep]
  exact hset

end Nameplate

end Studio

end WatchFace
