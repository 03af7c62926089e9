import WatchFace.Proofs.Studio.Recording

/-!
# How far reactions reach

Whatever comes of a value that is carried, some things stay as they are: the forms and the open groups, who listens
where, and the values of all fields.
-/

namespace WatchFace

open EStateM List

variable {x y : Field} {v w : Value} {text : String} {c d f i j n : Nat} {s : Studio} {l : Studio.Listener}
  {K K' P : Prop} {α β : Type} {ch : Channel Studio.Listener}

/-! ### Fields -/

namespace Field

def plate (x : Field) : Field := { x.shell with settled := true, index := -1 }

section

variable {x y : Field} (h : y.plate = x.plate)

include h

theorem plate_kind : y.kind = x.kind := by
  show y.plate.kind = x.plate.kind
  rw [h]

theorem plate_channel : y.channel = x.channel := by
  show y.plate.channel = x.plate.channel
  rw [h]

end

/-- What a field can have once it is given a value: the value, nothing in a nested form, or the text of an option. -/
def Takes (x : Field) (v w : Value) : Prop :=
  w = v ∨ x.kind = .nested ∧ w = .none ∨ x.kind.isChoice = true ∧ ∃ text, w = .text text

theorem Takes.of_plate (hy : y.Takes v w) (h : y.plate = x.plate) : x.Takes v w := by
  rwa [Takes, plate_kind h] at hy

theorem Takes.of_choice (h : x.Takes (.text text) w) (hchoice : x.kind.isChoice = true) (v : Value) :
    x.Takes v w := by
  obtain rfl | ⟨hkind, -⟩ | htext := h
  · exact .inr (.inr ⟨hchoice, text, rfl⟩)
  · rw [hkind] at hchoice
    cases hchoice
  · exact .inr (.inr htext)

theorem value_present (x : Field) (v : Value) :
    (x.present v).1.value = x.value ∨ x.Takes v (x.present v).1.value := by
  unfold present
  split
  · exact .inl rfl
  · cases hkind : x.kind <;> simp [Takes, hkind]

theorem plate_present (x : Field) (v : Value) : (x.present v).1.plate = x.plate := by
  unfold present
  split
  · rfl
  · cases hkind : x.kind <;> simp_all [plate, shell, withValue, bare]

theorem isChoice_of_present (h : (x.present v).2 = some i) : x.kind.isChoice = true := by
  cases hchoice : x.kind.isChoice with
  | true => rfl
  | false =>
    rw [x.present_snd v hchoice] at h
    cases h

end Field

namespace Studio

/-! ### What stays the same -/

def Listener.Housed (s : Studio) (c : Nat) : Listener → Prop
  | .field f => ∃ x, s.fields[f]? = some x ∧ x.channel = c
  | .level i => ∃ item, s.items[i]? = some item ∧ item.levels = c
  | .title i => ∃ item, s.items[i]? = some item ∧ item.names = c
  | _ => True

theorem Listener.Housed.of_kept {t : Studio} (hl : l.Housed s d)
    (hfields : ∀ (f : Nat) (x : Field), s.fields[f]? = some x → ∃ y, t.fields[f]? = some y ∧ y.channel = x.channel)
    (hitems : ∀ (i : Nat) (x : Item), s.items[i]? = some x → ∃ y, t.items[i]? = some y ∧ y.ports = x.ports) :
    l.Housed t d := by
  cases l
  case field f =>
    obtain ⟨x, hx, rfl⟩ := hl
    exact hfields f x hx
  case level i =>
    obtain ⟨x, hx, rfl⟩ := hl
    obtain ⟨y, hy, heq⟩ := hitems i x hx
    exact ⟨y, hy, congrArg Prod.fst heq⟩
  case title i =>
    obtain ⟨x, hx, rfl⟩ := hl
    obtain ⟨y, hy, heq⟩ := hitems i x hx
    exact ⟨y, hy, congrArg Prod.snd heq⟩
  all_goals exact trivial

def Housed (s : Studio) (c : Nat) : Prop := ∀ l : Listener, l.On s c → l.Housed s c

def depth? (s : Studio) (l : Nat) : Option Value := s.layers[l]?.map Layer.depth

def level? (s : Studio) (i : Nat) : Option Value := s.items[i]?.map Item.level

def Item.sign (x : Item) : String × Value × Value := (x.id, x.name, x.shown)

def sign? (s : Studio) (i : Nat) : Option (String × Value × Value) := s.items[i]?.map Item.sign

def pile (s : Studio) : Studio :=
  { channels := s.channels, fields := s.fields, items := s.items, layers := s.layers }

/-- What reactions to a value on the channel `c` leave alone, if `o` is a field and what it is given meanwhile. -/
structure Ripple (o : Option (Nat × Value)) (c : Nat) (s t : Studio) : Prop where
  groups : t.groups = s.groups
  families : t.families = s.families
  forms : t.forms = s.forms
  preview : t.preview = s.preview
  listed : t.explorer.items = s.explorer.items
  plates : t.fields.map Field.plate = s.fields.map Field.plate
  values : ∀ f x y, s.fields[f]? = some x → t.fields[f]? = some y →
    y.value = x.value ∨ ∃ v, o = some (f, v) ∧ x.Takes v y.value
  listeners : t.channels.map Channel.hushed = s.channels.map Channel.hushed
  ports : t.items.map Item.ports = s.items.map Item.ports
  types : t.items.map Item.layer = s.items.map Item.layer
  ids : t.items.map Item.id = s.items.map Item.id
  tables : t.layers.map Layer.channels = s.layers.map Layer.channels
  tranquil : s.Tranquil → t.Tranquil ∧ t.panel = s.panel
  lasts : s.Housed c → ∀ d, d ≠ c → t.last? d = s.last? d
  depths : s.Housed c → ∀ l, ¬ (Listener.layer l .order).On s c → t.depth? l = s.depth? l
  levels : s.Housed c → ∀ i, ¬ (Listener.level i).On s c → t.level? i = s.level? i
  signs : s.Housed c → ∀ i, ¬ (Listener.title i).On s c → t.sign? i = s.sign? i
  names : s.Housed c → s.Unnamed c → t.explorer.names = s.explorer.names
  upright : s.Housed c → ∀ l, (∀ p, (Listener.layer l p).On s c → ∀ v, p.Suits v) → s.Upright l → t.Upright l

/-- Channels that can carry once more what they carried last still can. -/
def Sustains (s t : Studio) : Prop :=
  ∀ c, (∀ v, s.last? c = some v → v.Carries) → ∀ v, t.last? c = some v → v.Carries

instance : IsPreorder Studio Sustains where
  refl _ _ h := h
  trans _ _ _ hst htu c h := htu c (hst c h)

/-- What reactions to a value leave alone. If `K`, it can be carried, and channels can carry again what they carried.
    -/
structure Surge (K : Prop) (o : Option (Nat × Value)) (c : Nat) (s t : Studio) : Prop extends Ripple o c s t where
  sustains : K → Sustains s t

section

variable {K : Prop} {o : Option (Nat × Value)} {c : Nat} {s t u : Studio}

theorem Ripple.refl (o : Option (Nat × Value)) (c : Nat) (s : Studio) : Ripple o c s s where
  groups := rfl
  families := rfl
  forms := rfl
  preview := rfl
  listed := rfl
  plates := rfl
  values _ _ _ hx hy := .inl (congrArg Field.value (Option.some.inj (hy.symm.trans hx)))
  listeners := rfl
  ports := rfl
  types := rfl
  ids := rfl
  tables := rfl
  tranquil h := ⟨h, rfl⟩
  lasts _ _ _ := rfl
  depths _ _ _ := rfl
  levels _ _ _ := rfl
  signs _ _ _ := rfl
  names _ _ := rfl
  upright _ _ _ := id

theorem Ripple.exists_field (h : Ripple o c s t) (hx : s.fields[f]? = some x) :
    ∃ y, t.fields[f]? = some y ∧ y.plate = x.plate := by
  obtain ⟨y, hy, heq⟩ := getElem?_of_map_eq h.plates.symm hx
  exact ⟨y, hy, heq.symm⟩

theorem Ripple.on (h : Ripple o c s t) (hl : l.On s d) : l.On t d :=
  on_of_listeners h.listeners.symm hl

theorem Ripple.housed (h : Ripple o c s t) (hd : s.Housed d) : t.Housed d := by
  intro l hl
  refine (hd l (on_of_listeners h.listeners hl)).of_kept (fun f x hx => ?_) fun i x hx => ?_
  · obtain ⟨y, hy, hplate⟩ := h.exists_field hx
    exact ⟨y, hy, Field.plate_channel hplate⟩
  · obtain ⟨y, hy, heq⟩ := getElem?_of_map_eq h.ports.symm hx
    exact ⟨y, hy, heq.symm⟩

theorem Ripple.not_on (h : Ripple o c s t) (hl : ¬ l.On s d) : ¬ l.On t d :=
  fun hon => hl (on_of_listeners h.listeners hon)

theorem Ripple.trans (hst : Ripple o c s t) (htu : Ripple o c t u) : Ripple o c s u where
  groups := htu.groups.trans hst.groups
  families := htu.families.trans hst.families
  forms := htu.forms.trans hst.forms
  preview := htu.preview.trans hst.preview
  listed := htu.listed.trans hst.listed
  plates := htu.plates.trans hst.plates
  values f x z hx hz := by
    obtain ⟨y, hy, hplate⟩ := hst.exists_field hx
    obtain hsame | ⟨v, ho, htakes⟩ := htu.values f y z hy hz
    · rw [hsame]
      exact hst.values f x y hx hy
    · exact .inr ⟨v, ho, htakes.of_plate hplate⟩
  listeners := htu.listeners.trans hst.listeners
  ports := htu.ports.trans hst.ports
  types := htu.types.trans hst.types
  ids := htu.ids.trans hst.ids
  tables := htu.tables.trans hst.tables
  tranquil hs := by
    obtain ⟨ht, hpanel⟩ := hst.tranquil hs
    exact ⟨(htu.tranquil ht).1, (htu.tranquil ht).2.trans hpanel⟩
  lasts hc d hd := (htu.lasts (hst.housed hc) d hd).trans (hst.lasts hc d hd)
  depths hc l hl := (htu.depths (hst.housed hc) l (hst.not_on hl)).trans (hst.depths hc l hl)
  levels hc i hi := (htu.levels (hst.housed hc) i (hst.not_on hi)).trans (hst.levels hc i hi)
  signs hc i hi := (htu.signs (hst.housed hc) i (hst.not_on hi)).trans (hst.signs hc i hi)
  names hc hi := (htu.names (hst.housed hc) fun i => hst.not_on (hi i)).trans (hst.names hc hi)
  upright hc l hl hs := htu.upright (hst.housed hc) l (fun p hp => hl p (on_of_listeners hst.listeners hp))
    (hst.upright hc l hl hs)

theorem Ripple.value_eq (h : Ripple o c s t) (hf : ∀ v, o ≠ some (f, v)) (hx : s.fields[f]? = some x)
    (hy : t.fields[f]? = some y) : y.value = x.value := by
  obtain hsame | ⟨v, ho, -⟩ := h.values f x y hx hy
  · exact hsame
  · exact absurd ho (hf v)

theorem Ripple.surge (h : Ripple o c s t) (hchannels : t.channels = s.channels) : Surge K o c s t := by
  refine { h with sustains := fun _ d hs v hv => hs v ?_ }
  rwa [last?, hchannels] at hv

theorem Surge.refl (K : Prop) (o : Option (Nat × Value)) (c : Nat) (s : Studio) : Surge K o c s s :=
  (Ripple.refl o c s).surge rfl

theorem Surge.trans (hst : Surge K o c s t) (htu : Surge K o c t u) : Surge K o c s u :=
  { hst.toRipple.trans htu.toRipple with
    sustains := fun hK => trans_of Sustains (hst.sustains hK) (htu.sustains hK) }

theorem Surge.of_imp (h : Surge K o c s t) (hK : K' → K) : Surge K' o c s t :=
  { h with sustains := h.sustains ∘ hK }

theorem Surge.loosen (h : Surge K none c s t) (o : Option (Nat × Value)) : Surge K o c s t :=
  { h with values := fun _ _ _ hx hy => .inl (h.value_eq (fun _ ho => by cases ho) hx hy) }

theorem Surge.of_choice (h : Surge K (some (f, .text text)) c s t) (hx : s.fields[f]? = some x)
    (hchoice : x.kind.isChoice = true) (v : Value) : Surge K (some (f, v)) c s t := by
  refine { h with values := fun g y z hy hz => ?_ }
  obtain hsame | ⟨w, ho, htakes⟩ := h.values g y z hy hz
  · exact .inl hsame
  · cases ho
    cases hx.symm.trans hy
    exact .inr ⟨v, rfl, htakes.of_choice hchoice v⟩

theorem Surge.rebase (h : Surge K o d s t) (hd : s.Housed c → d = c) : Surge K o c s t := by
  by_cases hc : s.Housed c
  · exact hd hc ▸ h
  · exact { h with
      lasts := (absurd · hc), depths := (absurd · hc), levels := (absurd · hc)
      signs := (absurd · hc), names := (absurd · hc), upright := (absurd · hc) }

theorem Surge.bind {x : Act α} {g : α → Act β} (hx : Surge K o c s (x.after s))
    (hg : ∀ a t, x.run s = .ok a t → Surge K o c s t → Surge K o c t ((g a).after t)) :
    Surge K o c s ((x >>= g).after s) := by
  refine after_bind_of hx fun a t ht => ?_
  rw [after_of_ok ht] at hx
  exact hx.trans (hg a t ht hx)

end

/-! ### Changes of parts -/

section

variable {o : Option (Nat × Value)} {c : Nat} {s : Studio}

theorem ripple_setField (hx : s.fields[f]? = some x) (hplate : y.plate = x.plate)
    (hvalue : y.value = x.value ∨ ∃ v, o = some (f, v) ∧ x.Takes v y.value) :
    Ripple o c s { s with fields := s.fields.set f y } := by
  refine { Ripple.refl o c s with plates := map_set_of_eq hx hplate, values := fun g u v hu hv => ?_ }
  by_cases hgf : g = f
  · subst hgf
    cases hx.symm.trans hu
    have hlt := lt_of_getElem? hx
    have hv' : (s.fields.set g y)[g]? = some v := hv
    rw [getElem?_set_self hlt] at hv'
    exact Option.some.inj hv' ▸ hvalue
  · have hv' : (s.fields.set f y)[g]? = some v := hv
    rw [getElem?_set_ne (Ne.symm hgf), hu] at hv'
    exact .inl (congrArg Field.value (Option.some.inj hv').symm)

theorem ripple_changeField (hx : s.fields[f]? = some x) {g : Field → Field} (hplate : (g x).plate = x.plate)
    (hvalue : (g x).value = x.value ∨ ∃ v, o = some (f, v) ∧ x.Takes v (g x).value) :
    Ripple o c s ((changeField f g).after s) := by
  rw [after_of_ok (run_changeField hx g)]
  exact ripple_setField hx hplate hvalue

theorem getElem?_modify_map {p : Item → α} {g : Item → Item} (hg : (∀ x, p (g x) = p x) ∨ P) (items : List Item)
    (hj : j = i → ¬ P) :
    (items.modify i g)[j]?.map p = items[j]?.map p := by
  obtain hg | hP := hg
  · exact map_getElem?_of_eq (map_modify_of_eq hg items i) j
  · have hij : i ≠ j := by
      rintro rfl
      exact hj rfl hP
    rw [getElem?_modify]
    simp [hij]

theorem ripple_changeItem (i : Nat) {g : Item → Item} (hports : ∀ x, (g x).ports = x.ports)
    (htype : ∀ x, (g x).layer = x.layer) (hid : ∀ x, (g x).id = x.id)
    (hlevel : (∀ x, (g x).level = x.level) ∨ (Listener.level i).On s c)
    (hsign : (∀ x, (g x).sign = x.sign) ∨ (Listener.title i).On s c) : Ripple o c s ((changeItem i g).after s) :=
  { Ripple.refl o c s with
    ports := map_modify_of_eq hports s.items i
    types := map_modify_of_eq htype s.items i
    ids := map_modify_of_eq hid s.items i
    levels := fun _ _ hj => getElem?_modify_map hlevel s.items fun heq => heq ▸ hj
    signs := fun _ _ hj => getElem?_modify_map hsign s.items fun heq => heq ▸ hj }

theorem ripple_changeExplorer {g : Explorer → Explorer} (hitems : (g s.explorer).items = s.explorer.items)
    (hnames : (g s.explorer).names = s.explorer.names ∨ ∃ i, (Listener.title i).On s c) :
    Ripple o c s ((changeExplorer g).after s) :=
  { Ripple.refl o c s with
    listed := hitems
    names := fun _ hunnamed => hnames.resolve_right fun hi => hi.elim hunnamed }

theorem ripple_changeHistory {g : History Command → History Command}
    (ht : s.Tranquil → (s.withHistory (g s.history)).Tranquil) :
    Ripple o c s ((changeHistory g).after s) :=
  { Ripple.refl o c s with tranquil := fun hs => ⟨ht hs, rfl⟩ }

theorem surge_calmly {act : Act Unit} (h : Surge K o c s (act.after s)) : Surge K o c s ((calmly act).after s) := by
  rwa [after_of_ok (run_calmly act s)]

theorem upright_onLayer (families : Font.Families) {k l : Nat} {p : Layer.Part} {v : Option Value}
    (hsuits : k = l → ∀ w, v = some w → p.Suits w) (hk : s.Upright k) :
    ((onLayer l (Layer.hear families p v)).after s).Upright k := by
  rw [after_onLayer]
  obtain ⟨y, hy, hupright⟩ := hk
  by_cases hkl : k = l
  · subst hkl
    exact ⟨_, by rw [getElem?_modify_eq, hy]; rfl, hupright.hear families (hsuits rfl)⟩
  · exact ⟨y, (getElem?_modify_ne _ _ (Ne.symm hkl)).trans hy, hupright⟩

theorem surge_onLayer {l : Nat} (families : Font.Families) {p : Layer.Part} (hp : (Listener.layer l p).On s c)
    (v : Option Value) :
    Surge K o c s ((onLayer l (Layer.hear families p v)).after s) := by
  have hdepths : ∀ k, ¬ (Listener.layer k .order).On s c →
      (s.layers.modify l (Layer.hear families p v).after)[k]?.map Layer.depth = s.layers[k]?.map Layer.depth := by
    intro k hk
    by_cases hkl : k = l
    · -- the layer keeps its depth unless it hears for its order, and then it listens on the channel
      have hne : p ≠ .order := by
        rintro rfl
        exact hk (hkl ▸ hp)
      refine map_getElem?_of_eq (map_modify_of_eq (fun x => ?_) s.layers l) k
      exact congrArg Prod.snd (Layer.keeps_hear_of_ne families hne v x)
    · rw [getElem?_modify_ne _ _ (Ne.symm hkl)]
  have hupright := fun k => @upright_onLayer s families k l p v
  rw [after_onLayer] at hupright ⊢
  exact { Surge.refl K o c s with
    tables := map_modify_of_eq (Layer.keeps_hear families p v) s.layers l
    depths := fun _ => hdepths
    upright := fun _ k hk hs => hupright k (fun heq w _ => hk p (heq ▸ hp) w) hs }

theorem ripple_remember (hch : s.channels[c]? = some ch) (v : Value) : Ripple o c s (s.remember c ch v) :=
  { Ripple.refl o c s with
    listeners := (calm_remember hch v).listeners, lasts := fun _ _ hd => last?_remember_of_ne s ch v hd }

theorem surge_remember (hch : s.channels[c]? = some ch) (v : Value) : Surge v.Carries o c s (s.remember c ch v) := by
  refine { ripple_remember hch v with sustains := fun hv d hs w hw => ?_ }
  by_cases hd : d = c
  · rw [hd, last?_remember_self hch] at hw
    exact Option.some.inj hw ▸ hv
  · rw [last?_remember_of_ne s ch v hd] at hw
    exact hs w hw

theorem surge_readied {cmd : Command} (hcmd : giveUp cmd = pure ()) : Surge K o c s (s.readied cmd) :=
  { Surge.refl K o c s with tranquil := fun hs => ⟨tranquil_add (s := s.readied cmd) hcmd, cleared_of_tranquil hs⟩ }

end

/-! ### What fields do -/

structure Reactions.Rippling (r : Reactions) : Prop where
  emit : ∀ c v, Within (Surge v.Carries Option.none c) (r.emit c v)
  chosen : ∀ f x s, s.fields[f]? = some x → x.kind.isChoice = true → ∀ v,
    Surge True (some (f, v)) x.channel s ((r.chosen f).after s)

section

variable {r : Reactions} (hr : r.Rippling) {f : Nat} {s : Studio} {x : Field} (hx : s.fields[f]? = some x)

include hr hx

theorem surge_selectOption (hchoice : x.kind.isChoice = true) (i : Int) (v : Value) :
    Surge True (some (f, v)) x.channel s ((selectOption r f i).after s) := by
  unfold selectOption
  rw [after_bind_ok (run_field hx)]
  split
  · exact Surge.refl _ _ _ s
  · have hchange : Ripple (some (f, v)) x.channel s ((changeField f fun x => { x with index := i }).after s) :=
      ripple_changeField hx rfl (.inl rfl)
    refine (hchange.surge rfl).bind fun _ t hrun _ => ?_
    rw [run_changeField hx] at hrun
    cases hrun
    refine surge_calmly (hr.chosen f { x with index := i } _ ?_ hchoice v)
    exact getElem?_set_some hx

theorem surge_setValue (v : Value) : Surge True (some (f, v)) x.channel s ((setValue r f v).after s) := by
  have hplate := x.plate_present v
  have hvalue := x.value_present v
  have hpresent : ∀ i, (x.present v).2 = some i → x.kind.isChoice = true := fun i => Field.isChoice_of_present
  unfold setValue
  rw [after_bind_ok (run_field hx)]
  generalize x.present v = y at hplate hvalue hpresent
  obtain ⟨y, option⟩ := y
  have hset : Ripple (some (f, v)) x.channel s ((changeField f fun _ => y).after s) :=
    ripple_changeField hx hplate (hvalue.imp_right fun htakes => ⟨v, rfl, htakes⟩)
  refine (hset.surge rfl).bind fun _ t hrun _ => ?_
  rw [run_changeField hx] at hrun
  cases hrun
  cases option with
  | none => exact Surge.refl _ _ _ _
  | some i =>
    have hy : (s.fields.set f y)[f]? = some y := getElem?_set_some hx
    have hchoice : y.kind.isChoice = true := by
      rw [Field.plate_kind hplate]
      exact hpresent i rfl
    have hselect := surge_selectOption (s := { s with fields := s.fields.set f y }) hr hy hchoice i v
    rwa [Field.plate_channel hplate] at hselect

theorem surge_push (new old : Value) :
    Surge True (some (f, new)) x.channel s ((push r (.change f new old)).after s) := by
  rw [after_congr (run_push r (.change f new old) s)]
  -- the field is there still, and on its channel
  have hset := surge_setValue (s := s.readied (.change f new old)) hr hx new
  have hadvance := hset.bind fun _ t _ _ => (ripple_changeHistory (s := t) tranquil_advance).surge rfl
  exact (surge_readied rfl).trans hadvance

theorem surge_keep (new old : Value) : Surge True (some (f, new)) x.channel s ((keep r f new old).after s) := by
  unfold keep
  rw [after_bind_ok (run_field hx)]
  split
  · exact surge_calmly (surge_push hr hx new old)
  · exact Surge.refl _ _ _ _

/-- **An edit changes the value of its field**, and beyond that no more than carrying a value does. -/
theorem surge_enter (v : Value) (finish : Bool) :
    Surge (∀ said, x.convert (x.read v).2 = .ok said → said.Carries) (some (f, (x.read v).2)) x.channel s
      ((enter r f v finish).after s) := by
  unfold enter
  rw [after_bind_ok (run_field hx)]
  generalize x.read v = entry
  obtain ⟨accepted, new⟩ := entry
  let K : Prop := ∀ said, x.convert new = .ok said → said.Carries
  let o := some (f, new)
  have hset : ∀ t, Surge K o x.channel s t → Surge K o x.channel t ((setValue r f new).after t) := by
    intro t hst
    obtain ⟨y, hy, hplate⟩ := hst.exists_field hx
    have hset := surge_setValue hr hy new
    rw [Field.plate_channel hplate] at hset
    exact hset.of_imp fun _ => trivial
  -- what follows once the channel has carried the value
  have hend : ∀ t, Surge K o x.channel s t → Surge K o x.channel t (after (do
      if finish then
        if accepted then keep r f new (← field f).value
        setValue r f new : Act Unit) t) := by
    intro t hst
    cases finish with
    | false => exact Surge.refl _ _ _ _
    | true =>
      cases accepted with
      | false => exact hset t hst
      | true =>
        obtain ⟨y, hy, hplate⟩ := hst.exists_field hx
        have hkeep := (surge_keep hr hy new y.value).of_imp fun _ : K => trivial
        rw [Field.plate_channel hplate] at hkeep
        show Surge _ _ _ t ((field f >>= fun y => keep r f new y.value >>= fun _ => setValue r f new).after t)
        rw [after_bind_ok (run_field hy)]
        exact hkeep.bind fun _ u _ htu => hset u (hst.trans htu)
  have hsettled : Ripple o x.channel s ((changeField f fun x => { x with settled := finish }).after s) :=
    ripple_changeField hx rfl (.inl rfl)
  refine (hsettled.surge rfl).bind fun _ t _ hst => ?_
  cases accepted with
  | false => exact hend t hst
  | true =>
    show Surge _ _ _ t (after (require (x.convert new) >>= fun said => r.emit x.channel said >>= fun _ => _) t)
    cases hsaid : x.convert new with
    | error e => exact Surge.refl _ _ _ _
    | ok said =>
      rw [after_bind_ok (run_require_ok said t)]
      have hemit := ((hr.emit x.channel said t).loosen o).of_imp fun hK : K => hK said hsaid
      rw [← hsaid]
      exact hemit.bind fun _ u _ htu => hend u (hst.trans htu)

omit hr in
theorem exists_run_setValue (v : Value) : ∃ t, (setValue r f v).run s = .ok () t := by
  unfold setValue
  rw [run_bind_ok (run_field hx)]
  generalize x.present v = y
  obtain ⟨y, option⟩ := y
  rw [run_bind_ok (run_changeField hx _)]
  cases option with
  | none => exact ⟨_, rfl⟩
  | some i =>
    have hy : (s.fields.set f y)[f]? = some y := getElem?_set_some hx
    exact ⟨_, run_selectOption r (s := { s with fields := s.fields.set f y }) hy i⟩

theorem surge_receive (v : Value) : Surge True none x.channel s ((receive r f v false).after s) := by
  obtain ⟨t, hrun⟩ := exists_run_setValue (r := r) hx v
  have hset := surge_setValue hr hx v
  rw [after_of_ok hrun] at hset
  obtain ⟨y, hy, hplate⟩ := hset.exists_field hx
  unfold receive
  rw [after_bind_ok (run_field hx)]
  dsimp only
  rw [after_bind_ok hrun, if_neg Bool.false_ne_true, after_of_ok (run_changeField hy _)]
  have hback : (t.fields.set f { y with value := x.value }).map Field.plate = t.fields.map Field.plate :=
    map_set_of_eq hy rfl
  -- the field gets its own value back
  refine { hset with plates := hback.trans hset.plates, values := fun g u w hu hw => .inl ?_ }
  have hw' : (t.fields.set f { y with value := x.value })[g]? = some w := hw
  by_cases hgf : g = f
  · subst hgf
    rw [getElem?_set_some hy] at hw'
    rw [← Option.some.inj hw', ← Option.some.inj (hx.symm.trans hu)]
  · rw [getElem?_set_ne (Ne.symm hgf)] at hw'
    exact hset.value_eq (fun _ ho => hgf (congrArg Prod.fst (Option.some.inj ho)).symm) hu hw'

end

/-! ### What items do -/

def Told (K : Prop) (ls : List Listener) (c : Nat) (s t : Studio) : Prop := (∀ l ∈ ls, l.On s c) → Surge K none c s t

instance (K : Prop) (ls : List Listener) (c : Nat) : IsPreorder Studio (Told K ls c) where
  refl s _ := Surge.refl K none c s
  trans _ _ _ hst htu hls := (hst hls).trans (htu fun l hl => (hst hls).on (hls l hl))

section

variable {r : Reactions} (hr : r.Rippling) {c i : Nat} {s : Studio}

include hr

theorem surge_setLevel (hi : (Listener.level i).On s c) (v : Value) :
    Surge v.Carries none c s ((setLevel r i v).after s) := by
  unfold setLevel
  refine after_part_of (.refl _ none c s) fun item hitem => ?_
  split
  · exact Surge.refl _ none c s
  · have hchange : Ripple none c s ((changeItem i fun x => { x with level := v }).after s) :=
      ripple_changeItem i (fun _ => rfl) (fun _ => rfl) (fun _ => rfl) (.inr hi) (.inl fun _ => rfl)
    refine (hchange.surge rfl).bind fun _ t _ hst => ?_
    refine (hr.emit item.levels v t).rebase fun hc => ?_
    -- the item is where it was, so it tells the channel on which it listens
    obtain ⟨now, hnow, hlevels⟩ := hc _ (hst.on hi)
    obtain ⟨old, hold, heq⟩ := getElem?_of_map_eq hst.ports hnow
    cases hitem.symm.trans hold
    exact (congrArg Prod.fst heq).symm.trans hlevels

theorem surge_settleName (hi : (Listener.title i).On s c) (name : Value) :
    Surge name.Carries none c s ((settleName r i name).after s) := by
  unfold settleName
  refine after_part_of (.refl _ none c s) fun item hitem => ?_
  split
  · exact Surge.refl _ none c s
  · have hchange : Ripple none c s ((changeItem i fun x => { x with shown := name, name := name }).after s) :=
      ripple_changeItem i (fun _ => rfl) (fun _ => rfl) (fun _ => rfl) (.inl fun _ => rfl) (.inr hi)
    refine (hchange.surge rfl).bind fun _ t _ hst => ?_
    refine (hr.emit item.names name t).rebase fun hc => ?_
    obtain ⟨now, hnow, hnames⟩ := hc _ (hst.on hi)
    obtain ⟨old, hold, heq⟩ := getElem?_of_map_eq hst.ports hnow
    cases hitem.symm.trans hold
    exact (congrArg Prod.snd heq).symm.trans hnames

theorem surge_rename (hi : (Listener.title i).On s c) (name : Value) :
    Surge name.Carries none c s ((rename r i name).after s) := by
  refine within_rename (R := Told name.Carries [.title i] c) (fun s hs => ?_) (fun g s hs => ?_) (fun new hnew s hs => ?_) s
    (by simpa using hi)
  all_goals have hi := hs _ mem_cons_self
  · have hchange : Ripple none c s ((changeItem i fun x => { x with shown := name }).after s) :=
      ripple_changeItem i (fun _ => rfl) (fun _ => rfl) (fun _ => rfl) (.inl fun _ => rfl) (.inr hi)
    exact hchange.surge rfl
  · exact (ripple_changeExplorer rfl (.inr ⟨i, hi⟩)).surge rfl
  · refine (surge_settleName hr hi new).of_imp fun hname => ?_
    obtain rfl | ⟨text, rfl⟩ := hnew
    · exact hname
    · exact Value.carries_text text

/-! ### What listeners do -/

theorem surge_hear (hl : l.On s c) (v : Option Value) :
    Surge (∀ w, v = some w → w.Carries) none c s ((hear r l v).after s) := by
  cases l <;> cases v
  case field.some f v =>
    cases hx : s.fields[f]? with
    | none =>
      have hafter : (hear r (.field f) (some v)).after s = s := after_receive_none r hx v
      rw [hafter]
      exact Surge.refl _ none c s
    | some x =>
      refine ((surge_receive hr hx v).of_imp fun _ => trivial).rebase fun hc => ?_
      obtain ⟨y, hy, hchannel⟩ := hc _ hl
      rwa [← Option.some.inj (hx.symm.trans hy)] at hchannel
  case caption.some f v =>
    cases hx : s.fields[f]? with
    | none =>
      have hsame : s.fields.modify f (fun x => { x with text := v.shown }) = s.fields :=
        modify_eq_self (List.getElem?_eq_none_iff.mp hx)
      show Surge _ none c s { s with fields := s.fields.modify f _ }
      rw [hsame]
      exact Surge.refl _ none c s
    | some x => exact (ripple_changeField hx rfl (.inl rfl)).surge rfl
  case level.some i v => exact (surge_setLevel hr hl v).of_imp fun hv => hv v rfl
  case title.some i v => exact (surge_rename hr hl v).of_imp fun hv => hv v rfl
  case observer.some n v => exact { Surge.refl _ none c s with }
  case layer.some n p v => exact surge_onLayer s.families hl (some v)
  case layer.none n p => exact surge_onLayer s.families hl none
  all_goals exact Surge.refl _ none c s

theorem Reactions.Rippling.next : r.next.Rippling where
  emit c v s := by
    cases hch : s.channels[c]? with
    | none =>
      rw [after_emit_next_none r hch]
      exact Surge.refl _ Option.none c s
    | some ch =>
      have hremember : Surge v.Carries Option.none c s (s.remember c ch v) := surge_remember hch v
      obtain ⟨ls, hls, hafter⟩ := exists_after_emit_next r hch v
      rw [hafter]
      have hall : Within (Told v.Carries ls c) (announce (hear r) v.carried ls) :=
        within_announce
          (fun l hl s hs => (surge_hear hr (hs l hl) _).of_imp fun hv w hw => Option.some.inj hw ▸ hv.carried)
          fun l hl s hs => (surge_hear hr (hs l hl) _).of_imp fun _ w hw => by cases hw
      exact hremember.trans (hall _ fun l hl => hremember.on ⟨ch, hch, hls l hl⟩)
  chosen f x s hx hchoice v := by
    show Surge True (some (f, v)) x.channel s ((do enter r f (.text (← field f).chosen) true).after s)
    have henter := surge_enter hr hx (.text x.chosen) true
    rw [(x.read_of_choice _ hchoice).1] at henter
    rw [after_bind_ok (run_field hx)]
    refine (henter.of_choice hx hchoice v).of_imp fun _ said hsaid => ?_
    rw [(x.read_of_choice _ hchoice).2] at hsaid
    cases hsaid
    exact Value.carries_text _

end

/-- **Reactions leave alone what can be left alone**, however deep they nest. -/
theorem rippling_upTo (n : Nat) : (Reactions.upTo n).Rippling := by
  induction n with
  | zero => exact ⟨fun c _ s => Surge.refl _ Option.none c s, fun _ x s _ _ _ => Surge.refl _ _ x.channel s⟩
  | succ n ih => exact ih.next

/-! ### Joining a channel -/

theorem ripple_connect (hch : s.channels[c]? = some ch) (l : Listener) :
    Ripple none c (s.join c ch l) ((connect c l).after s) := by
  rw [after_connect hch]
  split
  · exact Ripple.refl none c _
  · exact ((rippling_upTo _).emit c ch.last _).toRipple

theorem Housed.join (h : s.Housed c) (hch : s.channels[c]? = some ch) (hl : l.Housed s c) :
    (s.join c ch l).Housed c := by
  intro k hk
  obtain hk | ⟨-, rfl⟩ := on_join hch hk
  · exact h k hk
  · exact hl

end Studio

end WatchFace
