import Mathlib.Data.List.Find
import Mathlib.Data.List.Infix
import WatchFace.Proofs.Studio.Engraving
import WatchFace.Proofs.Studio.Texts

/-!
# Labels

The item of a component is given a name that no other item has, while the field on its form keeps the name that was
asked for. So the two are the same as long as no name is asked for that is in use.
-/

namespace WatchFace.Studio

open EStateM Catalog
open List hiding lookup

variable {names others : List String} {i : Nat} {name type : String} {c : Component} {item : Item}

/-! ### Labels and what is done to them -/

/-- The name of a component: as it was entered, as its item has it, and as the tree shows it. -/
structure Label where
  entered : String
  name : String
  shown : String
  deriving Repr, DecidableEq

namespace Label

def new (others : List String) (name : String) : Label :=
  let given := freshName (others.map .text) name
  ⟨name, given, given⟩

/-- A name is entered. An item that gets its own name again keeps it, and the tree shows what was entered. -/
def enter (others : List String) (l : Label) (name : String) : Label :=
  let given := freshName (others.map .text) name
  if l.name = name then { l with entered := name }
  else if l.name = given then { l with entered := name, shown := name }
  else ⟨name, given, given⟩

/-- The name is the same in all three places. -/
def Agrees (l : Label) : Prop := l.name = l.entered ∧ l.shown = l.entered

variable {others : List String} {l : Label} {name : String}

theorem enter_same (h : l.name = name) : l.enter others name = { l with entered := name } := if_pos h

theorem enter_again (h : l.name ≠ name) (hgiven : l.name = freshName (others.map .text) name) :
    l.enter others name = { l with entered := name, shown := name } := (if_neg h).trans (if_pos hgiven)

theorem enter_other (h : l.name ≠ name) (hgiven : l.name ≠ freshName (others.map .text) name) :
    l.enter others name = .new others name := (if_neg h).trans (if_neg hgiven)

theorem entered_enter (others : List String) (l : Label) (name : String) : (l.enter others name).entered = name := by
  simp only [enter]
  split
  · rfl
  · split <;> rfl

theorem agrees_new (h : name ∉ others) : (new others name).Agrees := by
  have hgiven : freshName (others.map .text) name = name := freshName_of_not_mem h
  exact ⟨hgiven, hgiven⟩

theorem Agrees.enter (hl : l.Agrees) (h : name ∉ others) : (l.enter others name).Agrees := by
  obtain ⟨hname, hshown⟩ := hl
  by_cases hsame : l.name = name
  · rw [enter_same hsame]
    exact ⟨hsame, hshown.trans (hname.symm.trans hsame)⟩
  · rw [enter_other hsame]
    · exact agrees_new h
    · rwa [freshName_of_not_mem h]

end Label

/-- Something that is done to names: a component with a name is asked for, or a name is entered for an item. -/
inductive Labelling where
  | add (q : Request) (name : String)
  | enter (i : Nat) (name : String)

variable {e : Labelling} {es : List Labelling}

namespace Labelling

def label (ls : List Label) : Labelling → List Label
  | .add _ name => ls ++ [.new (ls.map Label.name) name]
  | .enter i name => ls.modify i fun l => l.enter ((ls.map Label.name).eraseIdx i) name

def ask (names : List String) : Labelling → List String
  | .add _ name => names ++ [name]
  | .enter i name => names.set i name

end Labelling

def labels (es : List Labelling) : List Label := es.foldl Labelling.label []

def asked (es : List Labelling) : List String := es.foldl Labelling.ask []

theorem map_entered_label (ls : List Label) (e : Labelling) :
    (e.label ls).map Label.entered = e.ask (ls.map Label.entered) := by
  cases e with
  | add q name => simp [Labelling.label, Labelling.ask, Label.new]
  | enter i name =>
    refine ext_getElem? fun j => ?_
    rw [Labelling.label, Labelling.ask, getElem?_map, getElem?_modify]
    by_cases hij : i = j
    · subst hij
      rw [getElem?_set_self']
      cases hl : ls[i]? with
      | none => simp [hl]
      | some l => simp [hl, Label.entered_enter]
    · rw [getElem?_set_ne hij, getElem?_map]
      simp [hij]

theorem not_mem_eraseIdx_of_nodup_set (hi : i < names.length) (h : (names.set i name).Nodup) :
    name ∉ names.eraseIdx i :=
  (nodup_cons.mp ((set_perm_cons_eraseIdx hi name).nodup_iff.mp h)).1

theorem agrees_label {ls : List Label} (h : ∀ l ∈ ls, l.Agrees) {e : Labelling}
    (hnodup : (e.ask (ls.map Label.entered)).Nodup) : ∀ l ∈ e.label ls, l.Agrees := by
  have hnames : ls.map Label.name = ls.map Label.entered := map_congr_left fun l hl => (h l hl).1
  intro l hl
  cases e with
  | add q name =>
    rw [Labelling.label, hnames] at hl
    rcases mem_append.mp hl with hl | hl
    · exact h l hl
    · rw [mem_singleton.mp hl]
      refine Label.agrees_new fun hmem => ?_
      exact (nodup_append.mp hnodup).2.2 name hmem name (.head _) rfl
  | enter i name =>
    rw [Labelling.label, hnames] at hl
    obtain ⟨j, hj⟩ := mem_iff_getElem?.mp hl
    rw [getElem?_modify] at hj
    obtain ⟨l', hl', rfl⟩ := Option.map_eq_some_iff.mp hj
    have hagrees := h l' (mem_of_getElem? hl')
    by_cases hij : i = j
    · subst hij
      rw [if_pos rfl]
      refine hagrees.enter (not_mem_eraseIdx_of_nodup_set ?_ hnodup)
      rw [length_map]
      exact lt_of_getElem? hl'
    · rwa [if_neg hij]

theorem labels_concat (es : List Labelling) (e : Labelling) : labels (es ++ [e]) = e.label (labels es) := by
  rw [labels, foldl_concat, labels]

theorem map_entered_labels (es : List Labelling) : (labels es).map Label.entered = asked es := by
  induction es using reverseRecOn with
  | nil => rfl
  | append_singleton es e ih => rw [labels_concat, map_entered_label, ih, asked, asked, foldl_concat]

/-- **All labels agree if no name was ever asked for that was in use.** -/
theorem agrees_labels {es : List Labelling} (h : ∀ p, p <+: es → (asked p).Nodup) : ∀ l ∈ labels es, l.Agrees := by
  induction es using reverseRecOn with
  | nil => exact fun l hl => absurd hl not_mem_nil
  | append_singleton es e ih =>
    rw [labels_concat]
    refine agrees_label (ih fun p hp => h p (hp.trans (prefix_append es [e]))) ?_
    rw [← map_entered_label, ← labels_concat, map_entered_labels]
    exact h _ (prefix_refl _)

/-! ### Names in the studio -/

def itemForm? (s : Studio) (i : Nat) : Option Nat := do
  let item ← s.items[i]?
  (s.panel.pages.registry.find? (·.1.shown == item.id)).map (·.2)

def nameField? (s : Studio) (i : Nat) : Option Nat := do
  let form ← s.itemForm? i
  let x ← s.forms[form]?
  x.fields.lookup "Name"

/-- The name of an item: as the tree shows it, as the item has it, and as it is in the field for it. -/
def view? (s : Studio) (i : Nat) : Option (Value × Value × Value) := do
  let item ← s.items[i]?
  let f ← s.nameField? i
  let x ← s.fields[f]?
  return (item.shown, item.name, x.value)

def views (s : Studio) : List (Option (Value × Value × Value)) := (List.range s.items.length).map s.view?

def Agreed (s : Studio) : Prop := ∀ v ∈ s.views, ∃ name : String, v = some (.text name, .text name, .text name)

def Labelling.act : Labelling → Act Unit
  | .add q _ => q.act
  | .enter i name => do
    let some f := (← get).nameField? i | throw .missing
    Studio.enter reactions f (.text name) true

def labelled (s : Studio) (es : List Labelling) : Studio := es.foldl (fun s e => e.act.after s) s

/-- A component is asked for that has the name and is listed, or the item is there for which a name is entered. -/
def Labelling.Proper (s : Studio) : Labelling → Prop
  | .add q name => ∃ id c, q.Asks s id c ∧ Nameable name c
  | .enter i _ => i < s.items.length

def Proper (s : Studio) : List Labelling → Prop
  | [] => True
  | e :: es => e.Proper s ∧ (e.act.after s).Proper es

def Label.view (l : Label) : Value × Value × Value := (.text l.shown, .text l.name, .text l.entered)

/-! ### Labels that are on their components -/

/-- A label is on its component: the parts of its name are joined, and the form is under the id of its item. -/
structure Nameplate.Bears (p : Nameplate) (l : Label) (s : Studio) : Prop extends p.Fixed s where
  entered : ∃ y, s.fields[p.field]? = some y ∧ y.value = .text l.entered
  owner : ∃ (id : Int) (n : Nat) (x : Form), s.sign? p.item = some ((Value.int id).shown, .text l.name, .text l.shown) ∧
    s.panel.pages.find? (.int id) = some n ∧ s.forms[n]? = some x ∧ x.fields.lookup "Name" = some p.field

variable {p q : Nameplate} {l : Label} {b s t : Studio}

theorem find?_shown {pages : Pages Value Nat} (h : ∀ e ∈ pages.registry, ∃ n : Int, e.1 = .int n) (id : Int) :
    (pages.registry.find? (·.1.shown == (Value.int id).shown)).map (·.2) = pages.find? (.int id) := by
  rw [Pages.find?, find?_congr]
  intro e he
  obtain ⟨n, hn⟩ := h e he
  rw [hn, Bool.eq_iff_iff, beq_iff_eq, shown_int_inj, int_beq, decide_eq_true_eq]

theorem Nameplate.Bears.nameField? (h : p.Bears l s) (hs : Grown b s) : s.nameField? p.item = some p.field := by
  obtain ⟨id, n, x, hsign, hfind, hx, hlookup⟩ := h.owner
  obtain ⟨item, hitem, heq⟩ := Option.map_eq_some_iff.mp hsign
  have hid : item.id = (Value.int id).shown := congrArg Prod.fst heq
  have hform : s.itemForm? p.item = some n := by
    rw [itemForm?, hitem, Option.bind_eq_bind, Option.bind_some, hid, find?_shown hs.numbered, hfind]
  rw [Studio.nameField?, hform, Option.bind_eq_bind, Option.bind_some, hx]
  exact hlookup

theorem Nameplate.Bears.view? (h : p.Bears l s) (hs : Grown b s) : s.view? p.item = some l.view := by
  obtain ⟨id, n, x, hsign, -⟩ := h.owner
  obtain ⟨item, hitem, heq⟩ := Option.map_eq_some_iff.mp hsign
  obtain ⟨-, hname, hshown⟩ : item.id = _ ∧ item.name = .text l.name ∧ item.shown = .text l.shown := by
    simpa only [Item.sign, Prod.mk.injEq] using heq
  obtain ⟨y, hy, hvalue⟩ := h.entered
  simp only [Studio.view?, hitem, h.nameField? hs, hy, Option.bind_eq_bind, Option.bind_some, hname, hshown, hvalue]
  rfl

theorem Nameplate.Bears.of_grown (h : p.Bears l s) (hst : Grown s t)
    (hfields : ∀ (f : Nat) (x : Field), s.fields[f]? = some x → ∃ y, t.fields[f]? = some y ∧ y.held = x.held)
    (hforms : ∀ n < s.forms.length, t.forms[n]? = s.forms[n]?)
    (hpages : ∀ key n, s.panel.pages.find? key = some n → t.panel.pages.find? key = some n) : p.Bears l t := by
  obtain ⟨ch, hch, hblank⟩ := h.channel
  obtain ⟨x, hx, hverbatim, hchannel⟩ := h.field
  obtain ⟨item, hitem, hnames⟩ := h.item
  obtain ⟨x', hx', hvalue⟩ := h.entered
  cases hx.symm.trans hx'
  obtain ⟨id, n, form, hsign, hfind, hform, hlookup⟩ := h.owner
  obtain ⟨y, hy, hheld⟩ := hfields _ x hx
  obtain ⟨hplate, hvalue'⟩ := Field.held_eq.mp hheld
  have hlt : p.item < s.items.length := lt_of_getElem? hitem
  obtain ⟨item', hitem', hports⟩ := getElem?_of_map_getElem? (hst.ports _ hlt) hitem
  refine ⟨⟨⟨ch, ?_, hblank⟩, ⟨y, hy, hverbatim.of_plate hplate, ?_⟩, item', hitem', ?_⟩, ⟨y, hy, hvalue'.trans hvalue⟩,
    id, n, form, (hst.signs _ hlt).trans hsign, hpages _ n hfind, ?_, hlookup⟩
  · exact (hst.channels _ (lt_of_getElem? hch)).trans hch
  · exact (Field.plate_channel hplate).trans hchannel
  · exact (congrArg Prod.snd hports).trans hnames
  · exact (hforms n (lt_of_getElem? hform)).trans hform

theorem Nameplate.Bears.of_ripple (h : p.Bears l s) (hs : Grown {} s) {o : Option (Nat × Value)} {c : Nat}
    (hst : Ripple o c s t) (hne : p.channel ≠ c) (ho : ∀ v, o ≠ some (p.field, v)) : p.Bears l t := by
  have hhoused := hs.housed (Nat.zero_le c)
  obtain ⟨y, hy, hvalue⟩ := h.entered
  obtain ⟨id, n, x, hsign, hfind, hx, hlookup⟩ := h.owner
  obtain ⟨z, hz, -⟩ := hst.exists_field hy
  refine ⟨h.toFixed.of_ripple hst, ⟨z, hz, ?_⟩, id, n, x, ?_, ?_, hst.forms ▸ hx, hlookup⟩
  · obtain hsame | ⟨v, hv, -⟩ := hst.values _ y z hy hz
    · exact hsame.trans hvalue
    · exact absurd hv (ho v)
  · -- the item listens on its own channel only
    refine (hst.signs hhoused p.item fun hon => ?_).trans hsign
    obtain ⟨item, hitem, hnames⟩ := h.item
    obtain ⟨item', hitem', hnames'⟩ := hhoused _ hon
    cases hitem.symm.trans hitem'
    exact hne (hnames.symm.trans hnames')
  · rw [(hst.tranquil hs.tranquil).2]
    exact hfind

theorem Nameplate.Renames.sign {id : String} (h : Renames i item name s t) (hi : s.items[i]? = some item)
    (hsign : item.sign = (id, .text l.name, .text l.shown))
    (hnew : s.newName item name = freshName (others.map .text) name) :
    t.sign? i = some (id, .text (l.enter others name).name, .text (l.enter others name).shown) := by
  obtain ⟨hid, hname, hshown⟩ : item.id = id ∧ item.name = .text l.name ∧ item.shown = .text l.shown := by
    simpa only [Item.sign, Prod.mk.injEq] using hsign
  have hlt := lt_of_getElem? hi
  rw [Renames, hnew, hname] at h
  simp only [Value.text.injEq, ne_eq] at h
  obtain ⟨hsame, hroll⟩ | ⟨hother, ⟨hgiven, hroll⟩ | ⟨hgiven, hroll⟩⟩ := h
  · rw [Label.enter_same hsame, sign?, (roll_eq.mp hroll).1, hi]
    exact congrArg some hsign
  · rw [Label.enter_again hother hgiven, sign?, (roll_eq.mp hroll).1, listing, getElem?_set_self hlt, ← hid,
      ← hname]
    rfl
  · rw [Label.enter_other hother hgiven, sign?, (roll_eq.mp hroll).1, naming, getElem?_set_self hlt, ← hid, hnew]
    rfl

/-- **A name that is entered changes the label of its component.** -/
theorem Nameplate.Bears.exists_run_enter (h : p.Bears l s) (hs : Grown {} s) (htidy : s.Tidy)
    (hnew : ∀ item, s.items[p.item]? = some item → s.newName item name = freshName (others.map .text) name) :
    ∃ t, (Studio.enter reactions p.field (.text name) true).run s = .ok () t ∧ p.Bears (l.enter others name) t ∧
      t.Tidy ∧ Ripple (some (p.field, .text name)) p.channel s t := by
  obtain ⟨item, hitem, -⟩ := h.item
  obtain ⟨t, hrun, hrenames, hentered⟩ := h.toFixed.exists_run_enter hitem name
  obtain ⟨x, hx, hverbatim, hchannel⟩ := h.field
  have hripple := (surge_enter (rippling_upTo depth) hx (.text name) true).toRipple
  rw [hchannel, (hverbatim.read name).1, show (enter (.upTo depth) p.field (.text name) true).after s = t from
    after_of_ok hrun] at hripple
  obtain ⟨id, n, form, hsign, hfind, hform, hlookup⟩ := h.owner
  rw [sign?, hitem] at hsign
  refine ⟨t, hrun, ⟨h.toFixed.of_ripple hripple, ?_, id, n, form, ?_, ?_, hripple.forms ▸ hform, hlookup⟩,
    hrenames.tidy hitem htidy, hripple⟩
  · rw [Label.entered_enter]
    exact hentered
  · exact hrenames.sign hitem (Option.some.inj hsign) (hnew item hitem)
  · rw [(hripple.tranquil hs.tranquil).2]
    exact hfind

/-! ### Studios in which all labels are on their components -/

structure Labelled (ls : List Label) (s : Studio) : Prop where
  grown : Grown {} s
  orderly : ∃ live, s.Orderly live
  tidy : s.Tidy
  items : s.items.length = ls.length
  bears : ∀ (i : Nat) (l : Label), ls[i]? = some l → ∃ p : Nameplate, p.item = i ∧ p.Bears l s

variable {ls : List Label}

theorem Labelled.itemNames (h : Labelled ls s) : s.itemNames = (ls.map Label.name).map .text := by
  refine ext_getElem? fun i => ?_
  rw [Studio.itemNames, getElem?_map, getElem?_map, getElem?_map]
  cases hl : ls[i]? with
  | none =>
    have hnone : s.items[i]? = none := getElem?_eq_none (h.items ▸ getElem?_eq_none_iff.mp hl)
    rw [hnone]
    rfl
  | some l =>
    obtain ⟨p, rfl, hp⟩ := h.bears i l hl
    obtain ⟨id, n, x, hsign, -⟩ := hp.owner
    obtain ⟨item, hitem, heq⟩ := Option.map_eq_some_iff.mp hsign
    rw [hitem]
    exact congrArg (some ·.2.1) heq

theorem filterMap_text (names : List String) : (names.map Value.text).filterMap Value.text? = names := by
  rw [filterMap_map]
  exact filterMap_some

theorem Labelled.titles (h : Labelled ls s) : s.titles = ls.map Label.name := by
  rw [Studio.titles, h.itemNames, filterMap_text]

theorem Labelled.newName (h : Labelled ls s) (hi : s.items[i]? = some item) (name : String) :
    s.newName item name = freshName (((ls.map Label.name).eraseIdx i).map .text) name := by
  obtain ⟨os, hos, hperm⟩ := h.tidy.exists_others hi
  rw [h.itemNames, eraseIdx_map, filterMap_text] at hperm
  rw [Studio.newName, hos]
  exact freshName_congr hperm name

theorem Labelled.freshName_names (h : Labelled ls s) (name : String) :
    freshName s.explorer.names name = freshName ((ls.map Label.name).map .text) name := by
  obtain ⟨ns, hns, hperm⟩ := h.tidy.listed
  rw [hns]
  exact freshName_congr (h.titles ▸ hperm) name

theorem Labelled.nodup (h : Labelled ls s) : (ls.map Label.name).Nodup := h.titles ▸ h.tidy.nodup

theorem Labelled.views (h : Labelled ls s) : s.views = ls.map fun l => some l.view := by
  refine ext_getElem? fun i => ?_
  rw [Studio.views, h.items, getElem?_map, getElem?_map]
  cases hl : ls[i]? with
  | none =>
    rw [getElem?_eq_none]
    · rfl
    · rw [length_range]
      exact getElem?_eq_none_iff.mp hl
  | some l =>
    obtain ⟨p, rfl, hp⟩ := h.bears i l hl
    rw [getElem?_range (lt_of_getElem? hl), Option.map_some, hp.view? h.grown]
    rfl

theorem Labelled.agreed_iff (h : Labelled ls s) : s.Agreed ↔ ∀ l ∈ ls, l.Agrees := by
  simp only [Agreed, h.views, mem_map, forall_exists_index, and_imp, forall_apply_eq_imp_iff₂, Label.view,
    Option.some.injEq, Prod.mk.injEq, Value.text.injEq]
  refine forall_congr' fun l => forall_congr' fun _ => ⟨?_, fun hl => ⟨l.entered, hl.2, hl.1, rfl⟩⟩
  rintro ⟨name, hshown, hname, hentered⟩
  exact ⟨hname.trans hentered.symm, hshown.trans hentered.symm⟩

/-! ### Names that are entered -/

theorem Nameplate.Bears.apart {l' : Label} (hp : p.Bears l s) (hq : q.Bears l' s) (hne : q.item ≠ p.item) :
    q.channel ≠ p.channel ∧ q.field ≠ p.field := by
  have hchannel : q.channel ≠ p.channel := by
    intro heq
    have hon : (Listener.title q.item).On s p.channel := heq ▸ (hq.on_iff _).mpr (.inr rfl)
    rcases (hp.on_iff _).mp hon with h | h
    · cases h
    · exact hne (Listener.title.inj h)
  refine ⟨hchannel, fun heq => hchannel ?_⟩
  obtain ⟨x, hx, -, hpc⟩ := hp.field
  obtain ⟨y, hy, -, hqc⟩ := hq.field
  cases hx.symm.trans (heq ▸ hy)
  exact hqc.symm.trans hpc

/-- **A name that is entered changes one label**, and all are on their components still. -/
theorem Labelled.enter (h : Labelled ls s) (hi : i < s.items.length) (name : String) :
    Labelled ((Labelling.enter i name).label ls) ((Labelling.enter i name).act.after s) := by
  obtain ⟨l, hl⟩ : ∃ l, ls[i]? = some l := ⟨_, getElem?_eq_getElem (h.items ▸ hi)⟩
  obtain ⟨p, rfl, hp⟩ := h.bears i l hl
  obtain ⟨t, hrun, hbears, htidy, hripple⟩ := hp.exists_run_enter h.grown h.tidy fun _ hitem => h.newName hitem name
  have hafter : (Labelling.enter p.item name).act.after s = t := by
    unfold Labelling.act
    rw [after_bind_ok (run_get s), hp.nameField? h.grown]
    exact after_of_ok hrun
  obtain ⟨live, hlive⟩ := h.orderly
  have hpanel : t.panel = s.panel := (hripple.tranquil h.grown.tranquil).2
  rw [hafter]
  have horderly := (hlive.filed.of_panel hpanel).orderly hlive (by rw [hripple.preview]) hripple.listed
  refine ⟨h.grown.of_ripple hripple (Nat.zero_le _), ⟨live, horderly⟩, htidy, ?_, fun j l' hj => ?_⟩
  · rw [Labelling.label, length_modify, ← h.items]
    exact length_of_map_eq hripple.ports
  · rw [Labelling.label, getElem?_modify] at hj
    obtain ⟨l₀, hl₀, rfl⟩ := Option.map_eq_some_iff.mp hj
    by_cases hij : p.item = j
    · subst hij
      cases hl.symm.trans hl₀
      rw [if_pos rfl]
      exact ⟨p, rfl, hbears⟩
    · rw [if_neg hij]
      obtain ⟨q, rfl, hq⟩ := h.bears j l₀ hl₀
      obtain ⟨hchannel, hfield⟩ := hp.apart hq (Ne.symm hij)
      refine ⟨q, rfl, hq.of_ripple h.grown hripple hchannel fun v hv => hfield ?_⟩
      exact (congrArg Prod.fst (Option.some.inj hv)).symm

/-! ### Components that are added -/

theorem exists_bears_build (hs : Grown {} s) (htidy : s.Tidy) {live : List Int} (hlive : s.Orderly live) {id : Int}
    (hid : id ∈ live) (hfree : ¬ s.HasForm id) (hc : Nameable name c) :
    let t := (Studio.build id (.component c)).after s
    Grown s t ∧ t.Tidy ∧ t.items.length = s.items.length + 1 ∧ (∀ (q : Nameplate) l, q.Bears l s → q.Bears l t) ∧
      ∃ p : Nameplate, p.item = s.items.length ∧
        p.Bears ⟨name, freshName s.explorer.names name, freshName s.explorer.names name⟩ t := by
  obtain ⟨u, hopen, hu⟩ := exists_run_openForm_int hfree c.layer true
  have horderly : u.Orderly live := hu.orderly hlive fun m hm => mem_of_int_beq hm hid
  have hform : s.forms.length < u.forms.length := by simp [hu.forms]
  obtain ⟨table, v, p, hfill, hfiled, hlaid, hplace, hfurnishes⟩ :=
    exists_filed hc (hs.self.of_opened hu) (by rw [hu.items]) horderly hform
  -- the preview may show it, and then the explorer lists it
  let w := (showLayer c.layer table (.int id)).after v
  have hshown : p.Waits s name w := hfiled.toWaits.showLayer hs hfiled.charts c.layer (.int id)
  obtain ⟨hlaid', -⟩ := laid_showLayer hlaid id
  have hname : "Name" ∈ titlesOf table := mem_map.mpr ⟨_, mem_of_lookup hfiled.charts.own, rfl⟩
  have hanswer := answers_addItem hlaid' c.layer id
  rw [decide_eq_true ⟨hname, hplace⟩] at hanswer
  obtain ⟨i, r, hrun, -⟩ := hanswer
  have hengraved := hshown.addItem hs htidy hfiled.new hfiled.item hfiled.charts hplace hrun
  have hafter : (Studio.build id (.component c)).after s = { r with groups := r.groups - 1 } := by
    rw [after_build hfree hopen hfill, after_introduce, after_of_ok hrun]
  -- the form is filled, and nothing else changes on forms
  have hretains : ∀ k, Retains k v r := by
    intro k
    rw [← after_of_ok hrun]
    exact trans_of (Retains k) (retains_showLayer c.layer table (.int id) v) (retains_addItem c.layer table (.int id) w)
  have hkept : Furnishes (s.forms.length + 1) s.forms.length u r := hfurnishes.trans ((hretains _).furnishes _ _)
  obtain ⟨x, hx, hlookup⟩ := hfiled.form
  have hbears : p.Bears ⟨name, freshName s.explorer.names name, freshName s.explorer.names name⟩ r := by
    refine ⟨hengraved.toFixed, hengraved.entered, id, s.forms.length, x, hengraved.sign, ?_, ?_, hlookup⟩
    · exact hkept.pages hu.tranquil _ _ (hu.find?_self hfree)
    · rw [(hretains 0).forms]
      exact hx
  have hothers : ∀ (q : Nameplate) l, q.Bears l s → q.Bears l r := by
    intro q l hq
    refine hq.of_grown hengraved.grown (fun f y hy => hkept.fields f y (hu.fields ▸ hy)) (fun n hn => ?_)
      fun key n hn => ?_
    · rw [hkept.forms n (by omega) (by omega), hu.forms]
      exact getElem?_append_left hn
    · exact hkept.pages hu.tranquil key n (hu.find?_of hs.tranquil hn)
  rw [hafter]
  exact ⟨{ hengraved.grown with }, { hengraved.tidy with }, hengraved.items, fun q l hq => { hothers q l hq with },
    p, hfiled.item, { hbears with }⟩

/-- **A component that is added has a new label**, and all others are on their components still. -/
theorem Labelled.add (h : Labelled ls s) {q : Request} (hq : (Labelling.add q name).Proper s) :
    Labelled ((Labelling.add q name).label ls) ((Labelling.add q name).act.after s) := by
  obtain ⟨live, hlive⟩ := h.orderly
  obtain ⟨id, c, hasks, hc⟩ := hq
  obtain ⟨ids, hafter, hfree, horderly⟩ := hasks.exists_after_act hlive
  obtain ⟨hgrown, htidy, hitems, hothers, p, hp, hbears⟩ :=
    exists_bears_build (s := s.withIds ids) { h.grown with } { h.tidy with } horderly mem_cons_self hfree hc
  rw [← hafter] at hgrown htidy hitems hothers hbears
  have hold : Grown s (q.act.after s) := { hgrown with }
  refine ⟨h.grown.trans hold, hasks.exists_orderly hc.regular hlive, htidy, ?_, fun i l hl => ?_⟩
  · rw [Labelling.label, length_append, ← h.items]
    exact hitems
  · rw [Labelling.label] at hl
    rcases Nat.lt_or_ge i ls.length with hlt | hge
    · rw [getElem?_append_left hlt] at hl
      obtain ⟨p', hp', hbears'⟩ := h.bears i l hl
      exact ⟨p', hp', hothers p' l { hbears' with }⟩
    · obtain rfl : i = ls.length := by
        have hlt := lt_of_getElem? hl
        rw [length_append, length_singleton] at hlt
        omega
      rw [getElem?_concat_length] at hl
      cases hl
      refine ⟨p, hp.trans h.items, ?_⟩
      have hname : freshName (s.withIds ids).explorer.names name = _ := h.freshName_names name
      rw [hname] at hbears
      exact hbears

/-! ### All that is done -/

theorem Labelled.step (h : Labelled ls s) (he : e.Proper s) :
    Labelled (e.label ls) (e.act.after s) := by
  cases e with
  | add q name => exact h.add he
  | enter i name => exact h.enter he name

/-- **All labels are on their components**, whatever is added and entered. -/
theorem Labelled.labelled (h : Labelled ls s) (hes : s.Proper es) :
    Labelled (es.foldl Labelling.label ls) (s.labelled es) := by
  induction es generalizing ls s with
  | nil => exact h
  | cons e es ih => exact ih (h.step hes.1) hes.2

theorem Proper.of_prefix {p : List Labelling} (hp : p <+: es) (h : s.Proper es) : s.Proper p := by
  obtain ⟨rest, rfl⟩ := hp
  induction p generalizing s with
  | nil => trivial
  | cons e p ih => exact ⟨h.1, ih h.2⟩

theorem labelled_opened : Labelled [] opened := by
  obtain ⟨live, haccounted⟩ := reached_opened.accounted
  have hlength : opened.items.length = 0 := by decide +kernel
  have hnames : opened.explorer.names = [] := grown_opened.names hlength
  have htitles : opened.itemNames = [] := by rw [Studio.itemNames, length_eq_zero_iff.mp hlength, map_nil]
  refine ⟨grown_opened, ⟨live, haccounted.orderly⟩, ⟨?_, ?_, [], hnames, ?_⟩, hlength, ?_⟩
  · rw [htitles]
    exact fun _ hv => absurd hv not_mem_nil
  · rw [Studio.titles, htitles]
    exact nodup_nil
  · rw [Studio.titles, htitles]
    exact .nil
  · exact fun i l hl => absurd hl (by simp)

/-- **The names of components are seen as their labels say**, after each of the things that are done to a new watch
    face. All three places agree throughout if and only if no name is ever asked for that another component was asked
    to have. -/
theorem views_labelled_iff (es : List Labelling) (hes : opened.Proper es) :
    (∀ p, p <+: es → (opened.labelled p).views = (labels p).map fun l => some l.view) ∧
      ((∀ p, p <+: es → (opened.labelled p).Agreed) ↔ ∀ p, p <+: es → (asked p).Nodup) := by
  have hlabelled : ∀ p, p <+: es → Labelled (labels p) (opened.labelled p) :=
    fun p hp => labelled_opened.labelled (hes.of_prefix hp)
  refine ⟨fun p hp => (hlabelled p hp).views, fun h p hp => ?_, fun h p hp => ?_⟩
  · -- items have different names, and these are the names asked for
    have hagrees := (hlabelled p hp).agreed_iff.mp (h p hp)
    rw [← map_entered_labels, ← List.map_congr_left fun l hl => (hagrees l hl).1]
    exact (hlabelled p hp).nodup
  · exact (hlabelled p hp).agreed_iff.mpr (agrees_labels fun p' hp' => h p' (hp'.trans hp))

/-! ### Components of the catalog -/

def isNamed (schema : Schema) (name : String) : List Attribute → Bool
  | [] => false
  | .value title (.text n) _ :: as =>
    title == "Name" && n == name && !(as.flatMap (titlesIn schema)).contains "Name" || isNamed schema name as
  | _ :: as => isNamed schema name as

theorem exists_place_of_isNamed {schema : Schema} {as : List Attribute} (h : isNamed schema name as = true) :
    ∃ before description after,
      as = before ++ .value "Name" (.text name) description :: after ∧ "Name" ∉ after.flatMap (titlesIn schema) := by
  fun_induction isNamed schema name as with
  | case1 => cases h
  | case2 title n description as ih =>
    simp only [Bool.or_eq_true, Bool.and_eq_true, beq_iff_eq, Bool.not_eq_true', contains_eq_mem,
      decide_eq_false_iff_not] at h
    obtain ⟨⟨rfl, rfl⟩, hafter⟩ | h := h
    · exact ⟨[], description, as, rfl, hafter⟩
    · obtain ⟨before, description', after, rfl, hafter⟩ := ih h
      exact ⟨_ :: before, description', after, rfl, hafter⟩
  | case3 a as _ ih =>
    obtain ⟨before, description, after, rfl, hafter⟩ := ih h
    exact ⟨a :: before, description, after, rfl, hafter⟩

theorem nameable_components : ∀ e ∈ components, (isComplete e.2 && isListed e.2) = true → Nameable "Layer" e.2 := by
  have hnamed : ∀ e ∈ components, (isComplete e.2 && isListed e.2) = true →
      ((schemaOf e.2.layer).kindOf "Name").isVerbatim = true ∧
        isNamed (schemaOf e.2.layer) "Layer" e.2.attributes = true := by
    decide +kernel
  intro e he hlisted
  obtain ⟨hkind, hplace⟩ := hnamed e he hlisted
  rw [Bool.and_eq_true] at hlisted
  exact ⟨isRegular_components e he, hlisted.1, hlisted.2, hkind, exists_place_of_isNamed hplace⟩

theorem Labelled.proper_click (h : Labelled ls s) (hlookup : lookup type = .ok (.component c))
    (hc : (isComplete c && isListed c) = true) :
    (Labelling.add (.click (.text type)) "Layer").Proper s := by
  have hfree := h.grown.find?_text type
  obtain ⟨live, hlive⟩ := h.orderly
  obtain ⟨id, ids, htake, -⟩ := hlive.take
  exact ⟨id, c, Request.asks_click hfree hlookup htake,
    nameable_components (type, c) (mem_components_of_lookup hlookup) hc⟩

theorem Labelled.proper_enter (h : Labelled ls s) (hi : i < ls.length) (name : String) :
    (Labelling.enter i name).Proper s := Nat.lt_of_lt_of_eq hi h.items.symm

def renamedPair : List Labelling :=
  [.add (.click (.text "shape")) "Layer", .enter 0 "Dial", .add (.click (.text "text")) "Layer", .enter 1 "Hand"]

theorem proper_renamedPair : opened.Proper renamedPair := by
  have h₁ := labelled_opened.proper_click (show lookup "shape" = .ok (.component shape) from rfl) (by decide +kernel)
  have h₂ := (labelled_opened.step h₁).proper_enter (i := 0) (by decide) "Dial"
  have h₃ := ((labelled_opened.step h₁).step h₂).proper_click (show lookup "text" = .ok (.component text) from rfl)
    (by decide +kernel)
  have h₄ := (((labelled_opened.step h₁).step h₂).step h₃).proper_enter (i := 1) (by decide) "Hand"
  exact ⟨h₁, h₂, h₃, h₄, trivial⟩

theorem agreed_renamedPair : opened.Proper renamedPair ∧ ∀ p, p <+: renamedPair → (opened.labelled p).Agreed := by
  have hnodup : ∀ p ∈ renamedPair.inits, (asked p).Nodup := by decide
  refine ⟨proper_renamedPair, (views_labelled_iff renamedPair proper_renamedPair).2.mpr fun p hp => ?_⟩
  exact hnodup p ((List.mem_inits p renamedPair).mpr hp)

def twins : List Labelling := [.add (.click (.text "shape")) "Layer", .add (.click (.text "shape")) "Layer"]

/-- The second of two shapes gets another name, which the tree shows, while the field on its form keeps the first. -/
theorem not_agreed_twins : opened.Proper twins ∧
    (opened.labelled twins).views = [some (.text "Layer", .text "Layer", .text "Layer"),
      some (.text "Layer 1", .text "Layer 1", .text "Layer")] ∧ ¬ (opened.labelled twins).Agreed := by
  have hshape : lookup "shape" = .ok (.component shape) := rfl
  have h₁ := labelled_opened.proper_click hshape (by decide +kernel)
  have h₂ := (labelled_opened.step h₁).proper_click hshape (by decide +kernel)
  have hlabels : labels twins = [⟨"Layer", "Layer", "Layer"⟩, ⟨"Layer", "Layer 1", "Layer 1"⟩] := by decide +kernel
  have hlabelled : Labelled (labels twins) (opened.labelled twins) := labelled_opened.labelled ⟨h₁, h₂, trivial⟩
  rw [hlabels] at hlabelled
  refine ⟨⟨h₁, h₂, trivial⟩, hlabelled.views, fun hagreed => ?_⟩
  have hsecond := (hlabelled.agreed_iff.mp hagreed _ (.tail _ (.head _))).1
  revert hsecond
  decide

end WatchFace.Studio
