import WatchFace.Proofs.Studio.Ids
import WatchFace.Proofs.Studio.Ripples

/-!
# Building on sound channels

As long as fields and items are joined to the channel on which they listen, a value that is carried there reaches no
other channel. A new form adds channels and fields, and disturbs nothing that is there already.
-/

namespace WatchFace

open EStateM List

variable {s t u : Studio} {c d f : Nat} {l : Studio.Listener} {ch : Channel Studio.Listener}

/-- The field `y` is `x` after values were carried: only a choice has another value, and it can be carried if `x`
    could. -/
structure Field.Same (x y : Field) : Prop where
  plate : y.plate = x.plate
  value : x.kind.isChoice = false → y.value = x.value
  carries : x.value.Carries → y.value.Carries

theorem Field.Same.refl (x : Field) : x.Same x := ⟨rfl, fun _ => rfl, id⟩

theorem Field.Same.trans {x y z : Field} (hxy : x.Same y) (hyz : y.Same z) : x.Same z where
  plate := hyz.plate.trans hxy.plate
  value h := (hyz.value (Field.plate_kind hxy.plate ▸ h)).trans (hxy.value h)
  carries := hyz.carries ∘ hxy.carries

def Field.site (x : Field) : Catalog.Kind × Nat := (x.kind, x.channel)

theorem Field.map_site_of_plates {xs ys : List Field} (h : ys.map Field.plate = xs.map Field.plate) :
    ys.map Field.site = xs.map Field.site := by
  have hmap : ∀ zs : List Field, zs.map Field.site = (zs.map Field.plate).map Field.site := fun zs => by
    rw [map_map]
    exact map_congr_left fun z _ => rfl
  rw [hmap, h, ← hmap]

namespace Studio

/-! ### Listeners at home -/

/-- A listener that carries values on the channel only: a field of the channel, an item joined to it, or a layer. -/
def Listener.Home (s : Studio) (c : Nat) : Listener → Prop
  | .field f => ∃ x, s.fields[f]? = some x ∧ x.channel = c ∧ x.value.Carries
  | .level i => ∃ item, s.items[i]? = some item ∧ item.levels = c
  | .title i => ∃ item, s.items[i]? = some item ∧ item.names = c
  | .layer l _ => l < s.layers.length
  | _ => True

theorem Listener.Home.housed (h : l.Home s c) : l.Housed s c := by
  cases l
  case field f =>
    obtain ⟨x, hx, hc, -⟩ := h
    exact ⟨x, hx, hc⟩
  case level | title => exact h
  all_goals exact trivial

def FieldKept (t : Studio) (f : Nat) (x : Field) : Prop := ∃ y, t.fields[f]? = some y ∧ x.Same y

theorem FieldKept.trans {x : Field} (hst : t.FieldKept f x) (htu : ∀ f y, t.fields[f]? = some y → u.FieldKept f y) :
    u.FieldKept f x := by
  obtain ⟨y, hy, hxy⟩ := hst
  obtain ⟨z, hz, hyz⟩ := htu f y hy
  exact ⟨z, hz, hxy.trans hyz⟩

/-- Nobody moves: fields and items keep their channels, what could be carried still can be, and layers stay. -/
structure Houses (s t : Studio) : Prop where
  fields : ∀ (f : Nat) (x : Field), s.fields[f]? = some x → ∃ y, t.fields[f]? = some y ∧ y.kind = x.kind ∧
    y.channel = x.channel ∧ (x.value.Carries → y.value.Carries)
  items : ∀ (i : Nat) (item : Item), s.items[i]? = some item →
    ∃ item', t.items[i]? = some item' ∧ item'.ports = item.ports
  layers : s.layers.length ≤ t.layers.length

theorem Listener.Home.of_houses (hl : l.Home s c) (h : Houses s t) : l.Home t c := by
  have hhoused : l.Housed t c :=
    hl.housed.of_kept (fun f x hx => (h.fields f x hx).imp fun _ hy => ⟨hy.1, hy.2.2.1⟩) h.items
  cases l
  case field f =>
    obtain ⟨x, hx, rfl, hcarries⟩ := hl
    obtain ⟨y, hy, -, hchannel, hy'⟩ := h.fields f x hx
    exact ⟨y, hy, hchannel, hy' hcarries⟩
  case level | title => exact hhoused
  case layer n p => exact Nat.lt_of_lt_of_le hl h.layers
  all_goals exact trivial

theorem houses_of_kept (hfields : ∀ f x, s.fields[f]? = some x → t.FieldKept f x)
    (hports : t.items.map Item.ports = s.items.map Item.ports) (hlayers : t.layers.length = s.layers.length) :
    Houses s t := by
  refine ⟨fun f x hx => ?_, fun i item hi => ?_, Nat.le_of_eq hlayers.symm⟩
  · obtain ⟨y, hy, hsame⟩ := hfields f x hx
    exact ⟨y, hy, Field.plate_kind hsame.plate, Field.plate_channel hsame.plate, hsame.carries⟩
  · obtain ⟨item', hi', heq⟩ := getElem?_of_map_eq hports.symm hi
    exact ⟨item', hi', heq.symm⟩

theorem houses_of_fields (hfields : t.fields = s.fields) (hports : t.items.map Item.ports = s.items.map Item.ports)
    (hlayers : t.layers.length = s.layers.length) : Houses s t :=
  houses_of_kept (fun _ x hx => ⟨x, hfields ▸ hx, .refl x⟩) hports hlayers

def Homely (s : Studio) (c : Nat) : Prop := ∀ l : Listener, l.On s c → l.Home s c

theorem Homely.housed (h : s.Homely c) : s.Housed c := fun l hl => (h l hl).housed

/-! ### Sound channels -/

/-- A homely channel that can carry once more what it carried last. -/
structure Sound (s : Studio) (c : Nat) : Prop where
  lt : c < s.channels.length
  homely : s.Homely c
  carries : ∀ v, s.last? c = some v → v.Carries

theorem Sound.of_houses (h : s.Sound c) (hst : Houses s t) (hc : t.channels[c]? = s.channels[c]?) : t.Sound c := by
  refine ⟨?_, fun l hl => (h.homely l ?_).of_houses hst, fun v hv => h.carries v ?_⟩
  · rw [getElem?_eq_getElem h.lt] at hc
    exact lt_of_getElem? hc
  · rwa [Listener.On, hc] at hl
  · rwa [last?, hc] at hv

theorem Sound.exists_channel (h : s.Sound c) : ∃ ch, s.channels[c]? = some ch :=
  ⟨_, getElem?_eq_getElem h.lt⟩

theorem Channel.eq_of_hushed {L : Type} {c d : Channel L} (h : c.hushed = d.hushed)
    (hlast : c.last = d.last) : c = d := by
  cases c
  cases d
  simp_all [Channel.hushed]

theorem getElem?_channels_of_eq (hhushed : t.channels.map Channel.hushed = s.channels.map Channel.hushed)
    (hlast : t.last? d = s.last? d) : t.channels[d]? = s.channels[d]? := by
  have hd := map_getElem?_of_eq hhushed d
  unfold last? at hlast
  cases hs : s.channels[d]? with
  | none => rwa [hs, Option.map_none, Option.map_eq_none_iff] at hd
  | some ch =>
    rw [hs, Option.map_some, Option.map_eq_some_iff] at hd
    obtain ⟨ch', hch', heq⟩ := hd
    rw [hs, hch', Option.map_some, Option.map_some] at hlast
    rw [hch', Channel.eq_of_hushed heq (Option.some.inj hlast)]

/-- What acting at a channel comes to: fields are the same, and what can be carried can be carried once more. -/
structure Stay (o : Option (Nat × Value)) (c : Nat) (s t : Studio) : Prop extends Ripple o c s t where
  kept : ∀ f x, s.fields[f]? = some x → t.FieldKept f x
  sustains : Sustains s t

theorem Surge.stay {K : Prop} {o : Option (Nat × Value)} (h : Surge K o c s t) (hK : K)
    (ho : ∀ f v x, o = some (f, v) → s.fields[f]? = some x → x.kind.isChoice = true ∧ v.Carries) : Stay o c s t := by
  refine { h with kept := fun f x hx => ?_, sustains := h.sustains hK }
  obtain ⟨y, hy, hplate⟩ := h.exists_field hx
  obtain hsame | ⟨v, hv, htakes⟩ := h.values f x y hx hy
  · exact ⟨y, hy, hplate, fun _ => hsame, fun hcarries => hsame ▸ hcarries⟩
  · obtain ⟨hchoice, hcarries⟩ := ho f v x hv hx
    refine ⟨y, hy, hplate, fun hplain => ?_, fun _ => ?_⟩
    · rw [hplain] at hchoice
      cases hchoice
    · obtain hw | ⟨-, hw⟩ | ⟨-, text, hw⟩ := htakes
      · exact hw ▸ hcarries
      · rw [hw]
        exact fun _ hn => by cases hn
      · exact hw ▸ Value.carries_text text

theorem Stay.refl (c : Nat) (s : Studio) : Stay none c s s :=
  (Surge.refl True none c s).stay trivial fun _ _ _ ho => by cases ho

section

variable {o : Option (Nat × Value)} {c d : Nat} {s t : Studio} (h : Stay o c s t)

include h

theorem Stay.houses : Houses s t :=
  houses_of_kept h.kept h.ports (length_of_map_eq h.tables)

theorem Stay.length : t.channels.length = s.channels.length := length_of_map_eq h.listeners

theorem Stay.sound (hs : s.Sound d) : t.Sound d where
  lt := h.length ▸ hs.lt
  homely l hl := (hs.homely l (on_of_listeners h.listeners hl)).of_houses h.houses
  carries := h.sustains d hs.carries

end

section

variable {s : Studio} {c : Nat} (h : s.Sound c)

include h

theorem exists_run_emit (n : Nat) {v : Value} (hv : v.Carries) :
    ∃ t, ((Reactions.upTo (n + 1)).emit c v).run s = .ok () t ∧ Stay none c s t := by
  obtain ⟨ch, hch⟩ := h.exists_channel
  obtain ⟨t, hemit⟩ := exists_run_emit_next (.upTo n) hch hv
  refine ⟨t, hemit, ?_⟩
  rw [← after_of_ok hemit]
  exact ((rippling_upTo (n + 1)).emit c v s).stay hv fun _ _ _ ho => by cases ho

variable {l : Listener} (hl : l.Home s c)

include hl

theorem Sound.join (hch : s.channels[c]? = some ch) : (s.join c ch l).Sound c := by
  refine ⟨?_, fun k hk => ?_, fun v hv => ?_⟩
  · simpa [Studio.join] using h.lt
  · obtain hk | ⟨-, rfl⟩ := on_join hch hk
    · exact h.homely k hk
    · exact hl
  · rw [last?_join hch] at hv
    exact h.carries v hv

theorem exists_run_connect :
    ∃ ch t, s.channels[c]? = some ch ∧ (connect c l).run s = .ok () t ∧ Stay none c (s.join c ch l) t := by
  obtain ⟨ch, hch⟩ := h.exists_channel
  refine ⟨ch, ?_⟩
  rw [run_connect hch]
  split
  · exact ⟨_, hch, rfl, Stay.refl c _⟩
  · have hlast : ch.last.Carries := h.carries ch.last (by rw [last?, hch]; rfl)
    obtain ⟨t, hrun, hstay⟩ := exists_run_emit (h.join hl hch) depth hlast
    exact ⟨t, hch, hrun, hstay⟩

end

end Studio

end WatchFace

namespace WatchFace.Studio

open EStateM Catalog List

variable {c d f : Nat} {ls : List Listener} {s t u : Studio} {l : Listener} {v : Value} {x : Field}

/-! ### Joining sound channels -/

/-- What acting at a channel leaves alone, where the listeners `ls` may join it. -/
structure Joins (c : Nat) (ls : List Listener) (s t : Studio) : Prop where
  plates : t.fields.map Field.plate = s.fields.map Field.plate
  kept : ∀ f x, s.fields[f]? = some x → t.FieldKept f x
  length : t.channels.length = s.channels.length
  others : ∀ d, d ≠ c → t.channels[d]? = s.channels[d]?
  joined : ∀ l : Listener, l.On t c → l.On s c ∨ l ∈ ls
  ports : t.items.map Item.ports = s.items.map Item.ports
  layers : t.layers.length = s.layers.length
  forms : t.forms = s.forms
  panel : t.panel = s.panel
  preview : t.preview = s.preview
  listed : t.explorer.items = s.explorer.items
  tranquil : t.Tranquil
  sound : (∀ l ∈ ls, l.Home s c) → s.Sound c → t.Sound c

theorem Joins.houses (h : Joins c ls s t) : Houses s t :=
  houses_of_kept h.kept h.ports h.layers

theorem Joins.trans (hst : Joins c ls s t) (htu : Joins c ls t u) : Joins c ls s u where
  plates := htu.plates.trans hst.plates
  kept f x hx := (hst.kept f x hx).trans htu.kept
  length := htu.length.trans hst.length
  others d hd := (htu.others d hd).trans (hst.others d hd)
  joined l hl := (htu.joined l hl).elim (hst.joined l) .inr
  ports := htu.ports.trans hst.ports
  layers := htu.layers.trans hst.layers
  forms := htu.forms.trans hst.forms
  panel := htu.panel.trans hst.panel
  preview := htu.preview.trans hst.preview
  listed := htu.listed.trans hst.listed
  tranquil := htu.tranquil
  sound hhome hs := htu.sound (fun l hl => (hhome l hl).of_houses hst.houses) (hst.sound hhome hs)

theorem Stay.joins {o : Option (Nat × Value)} (h : Stay o c s t) (hc : s.Homely c) (ht : s.Tranquil)
    (ls : List Listener) : Joins c ls s t where
  plates := h.plates
  kept := h.kept
  length := h.length
  others d hd := getElem?_channels_of_eq h.listeners (h.lasts hc.housed d hd)
  joined _ hl := .inl (on_of_listeners h.listeners hl)
  ports := h.ports
  layers := length_of_map_eq h.tables
  forms := h.forms
  panel := (h.tranquil ht).2
  preview := h.preview
  listed := h.listed
  tranquil := (h.tranquil ht).1
  sound _ hs := h.sound hs

theorem joins_join (hl : l.Home s c) (hmem : l ∈ ls) (ht : s.Tranquil) {ch : Channel Listener}
    (hch : s.channels[c]? = some ch) : Joins c ls s (s.join c ch l) where
  plates := rfl
  kept _ x hx := ⟨x, hx, .refl x⟩
  length := by simp [Studio.join]
  others d hd := by simp [Studio.join, getElem?_set_ne (Ne.symm hd)]
  joined k hk := by
    obtain hk | ⟨-, rfl⟩ := on_join hch hk
    · exact .inl hk
    · exact .inr hmem
  ports := rfl
  layers := rfl
  forms := rfl
  panel := rfl
  preview := rfl
  listed := rfl
  tranquil := ht
  sound _ hs := hs.join hl hch

theorem Stay.joins_join (h : s.Sound c) (ht : s.Tranquil) (hl : l.Home s c) (hmem : l ∈ ls) {ch : Channel Listener}
    (hch : s.channels[c]? = some ch) (hstay : Stay none c (s.join c ch l) t) : Joins c ls s t :=
  (Studio.joins_join hl hmem ht hch).trans (hstay.joins (h.join hl hch).homely ht ls)

theorem Joins.sound_of_sound (h : Joins c ls s t) (hls : ∀ l ∈ ls, l.Home s c) (hd : s.Sound d) : t.Sound d := by
  by_cases hdc : d = c
  · subst hdc
    exact h.sound hls hd
  · exact hd.of_houses h.houses (h.others d hdc)

/-! ### Making fields -/

def withField (s : Studio) (x : Field) : Studio := { s with fields := s.fields ++ [x] }

theorem getElem?_withField (s : Studio) (x : Field) : (s.withField x).fields[s.fields.length]? = some x := by
  simp [withField]

theorem houses_withField (s : Studio) (x : Field) : Houses s (s.withField x) := by
  refine ⟨fun f y hy => ⟨y, ?_, rfl, rfl, id⟩, fun i item hi => ⟨item, hi, rfl⟩, Nat.le_refl _⟩
  show (s.fields ++ [x])[f]? = some y
  rwa [getElem?_append_left (lt_of_getElem? hy)]

theorem Sound.withField (h : s.Sound c) (x : Field) : (s.withField x).Sound c :=
  h.of_houses (houses_withField s x) rfl

section

variable {s t : Studio} {c : Nat} {ls : List Listener} (hs : s.Sound c) (hls : ∀ l ∈ ls, l.Home s c)
  (h : Joins c ls s t)

include hs hls h

theorem Joins.connect (hl : l ∈ ls) : ∃ u, (connect c l).run t = .ok () u ∧ Joins c ls s u := by
  have hhome := (hls l hl).of_houses h.houses
  obtain ⟨ch, u, hch, hrun, hstay⟩ := exists_run_connect (h.sound hls hs) hhome
  exact ⟨u, hrun, h.trans (hstay.joins_join (h.sound hls hs) h.tranquil hhome hl hch)⟩

theorem Joins.emit (hv : v.Carries) : ∃ u, (emit c v).run t = .ok () u ∧ Joins c ls s u := by
  obtain ⟨u, hrun, hstay⟩ := exists_run_emit (h.sound hls hs) (depth - 1) hv
  exact ⟨u, hrun, h.trans (hstay.joins (h.sound hls hs).homely h.tranquil ls)⟩

theorem Joins.selectOption (hx : t.fields[f]? = some x) (hc : x.channel = c) (hchoice : x.kind.isChoice = true)
    (i : Int) :
    ∃ u, (selectOption reactions f i).run t = .ok () u ∧ Joins c ls s u := by
  have hsurge := surge_selectOption (rippling_upTo depth) hx hchoice i (.text "")
  have hstay := hsurge.stay trivial fun g v y ho hy => by
    cases ho
    cases hx.symm.trans hy
    exact ⟨hchoice, Value.carries_text _⟩
  rw [hc] at hstay
  exact ⟨_, run_selectOption reactions hx i, h.trans (hstay.joins (h.sound hls hs).homely h.tranquil ls)⟩

end

def tellOf (kind : Kind) (c f : Nat) : Act Nat :=
  match kind with
  | .nested => do
    connect c (.caption f)
    emit c (← field f).value
    pure f
  | _ => do
    emit c (← field f).value
    pure f

/-- A field is made: with its caption it joined the channel, which carried its value, the default if it is no choice
    and was alone. -/
structure Made (c : Nat) (x : Field) (s t : Studio) : Prop where
  joins : Joins c [.field s.fields.length, .caption s.fields.length] (s.withField x) t
  last : x.kind.isChoice = false → (∀ l : Listener, ¬ l.On s c) → t.last? c = some x.value

section

variable {s : Studio} {c : Nat} (h : s.Sound c) {x : Field} (hx : x.channel = c)
  (hv : x.value.Carries)

include hx hv

theorem home_of_mem (hl : l ∈ [Listener.field s.fields.length, Listener.caption s.fields.length]) :
    l.Home (s.withField x) c := by
  simp only [mem_cons, not_mem_nil, or_false] at hl
  obtain rfl | rfl := hl
  · exact ⟨x, getElem?_withField s x, hx, hv⟩
  · exact trivial

include h

theorem exists_run_finish (ht : Joins c [.field s.fields.length, .caption s.fields.length] (s.withField x) t) :
    ∃ u, (do emit c (← field s.fields.length).value; pure s.fields.length : Act Nat).run t =
      .ok s.fields.length u ∧ Made c x s u := by
  obtain ⟨y, hy, hsame⟩ := ht.kept _ x (getElem?_withField s x)
  obtain ⟨u, hrun, hu⟩ := Joins.emit (h.withField x) (fun _ => home_of_mem hx hv) ht (hsame.carries hv)
  refine ⟨u, ?_, hu, fun hchoice hbare => ?_⟩
  · rw [run_bind_ok (run_field hy), run_bind_ok hrun]
    rfl
  · have hkind : y.kind = x.kind := Field.plate_kind hsame.plate
    have hvalue : y.value = x.value := hsame.value hchoice
    -- nobody listens but the field, which only shows what it hears
    have hquiet : ∀ l : Listener, l.On t c → l.Quiet t := by
      intro l hl
      obtain hold | hnew := ht.joined l hl
      · exact absurd hold (hbare l)
      · simp only [mem_cons, not_mem_nil, or_false] at hnew
        obtain rfl | rfl := hnew
        · intro z hz
          cases hy.symm.trans hz
          rw [hkind, hchoice]
        · exact trivial
    have hlast := last?_emit (ht.length ▸ h.lt) (fun l hl => .inl (hquiet l hl))
      (fun i hi => absurd (hquiet _ hi) id) y.value
    rw [after_of_ok hrun, hvalue] at hlast
    exact hlast.resolve_right fun hleveled => hleveled.1.elim fun i hi => hquiet _ hi

theorem exists_run_captioned (ht : Joins c [.field s.fields.length, .caption s.fields.length] (s.withField x) t)
    (kind : Kind) :
    ∃ u, (tellOf kind c s.fields.length).run t = .ok s.fields.length u ∧ Made c x s u := by
  unfold tellOf
  split
  · obtain ⟨u, hrun, hu⟩ := Joins.connect (h.withField x) (fun _ => home_of_mem hx hv) ht
      (mem_cons_of_mem _ mem_cons_self : Listener.caption s.fields.length ∈ _)
    rw [run_bind_ok hrun]
    exact exists_run_finish h hx hv hu
  · exact exists_run_finish h hx hv ht

end

theorem exists_run_makeField (h : s.Sound c) (ht : s.Tranquil) (hv : v.Carries) (name description : String)
    (kind : Kind) :
    ∃ t, (makeField name v description kind c).run s = .ok s.fields.length t ∧
      Made c (.start name kind v description c s.families.names) s t := by
  generalize hx : Field.start name kind v description c s.families.names = x
  have hchannel : x.channel = c := by rw [← hx]; rfl
  have hvalue : x.value.Carries := by rw [← hx]; exact hv
  have hkind : x.kind = kind := by rw [← hx]; rfl
  let ls : List Listener := [.field s.fields.length, .caption s.fields.length]
  have hs : (s.withField x).Sound c := h.withField x
  have hls : ∀ l ∈ ls, l.Home (s.withField x) c := fun _ => home_of_mem hchannel hvalue
  have ht' : (s.withField x).Tranquil := ht
  obtain ⟨t₁, hrun₁, h₁⟩ := Joins.connect hs hls ((Stay.refl c _).joins hs.homely ht' ls)
    (mem_cons_self : Listener.field s.fields.length ∈ ls)
  unfold makeField
  rw [run_bind_ok (run_get s)]
  dsimp only
  rw [hx]
  show ∃ t, run (set (s.withField x) >>= _) s = _ ∧ _
  rw [run_bind_ok (run_set _ s), run_bind_ok hrun₁]
  split
  case isTrue hchoice =>
    split
    case h_1 i hi =>
      -- a choice chooses the option for its default, and carries its text
      obtain ⟨y, hy, hsame⟩ := h₁.kept _ x (getElem?_withField s x)
      have hyc : y.channel = c := (Field.plate_channel hsame.plate).trans hchannel
      have hyk : y.kind.isChoice = true := by rw [Field.plate_kind hsame.plate, hkind, hchoice]
      obtain ⟨t₂, hrun₂, h₂⟩ := Joins.selectOption hs hls h₁ hy hyc hyk i
      obtain ⟨t₃, hrun₃, h₃⟩ := Joins.emit hs hls h₂ (Value.carries_text v.shown)
      rw [run_bind_ok hrun₂, run_bind_ok hrun₃]
      exact exists_run_captioned h hchannel hvalue h₃ kind
    case h_2 => exact exists_run_captioned h hchannel hvalue h₁ kind
  case isFalse => exact exists_run_captioned h hchannel hvalue h₁ kind

/-! ### Adding channels and fields -/

def HasForm (s : Studio) (id : Int) : Prop := (s.panel.pages.find? (.int id)).isSome

def HasLayer (s : Studio) (id : Int) : Prop := s.preview.table.any (·.1 == .int id)

def HasItem (s : Studio) (id : Int) : Prop := s.explorer.items.any (·.1 == (Value.int id).shown)

/-- The ids `live` were taken, and all forms, layers and items are under them, but for the form of the settings. -/
structure Orderly (s : Studio) (live : List Int) : Prop where
  stocked : ∃ next free, Stocked s.panel.ids live next free
  forms : ∀ id, s.HasForm id → id = 1 ∨ id ∈ live
  layers : ∀ id, s.HasLayer id → id ∈ live
  items : ∀ id, s.HasItem id → id ∈ live

/-- Channels and fields are added to those that there are, and forms. -/
structure Adds (s t : Studio) : Prop where
  length : s.channels.length ≤ t.channels.length
  channels : ∀ d < s.channels.length, t.channels[d]? = s.channels[d]?
  fields : ∀ f x, s.fields[f]? = some x → t.FieldKept f x
  ports : t.items.map Item.ports = s.items.map Item.ports
  layers : t.layers.length = s.layers.length
  preview : t.preview = s.preview
  listed : t.explorer.items = s.explorer.items
  tranquil : t.Tranquil
  forms : ∀ id, s.HasForm id → t.HasForm id
  orderly : ∀ live, s.Orderly live → ∃ more, t.Orderly (more ++ live)

theorem Adds.refl (ht : s.Tranquil) : Adds s s where
  length := Nat.le_refl _
  channels _ _ := rfl
  fields _ x hx := ⟨x, hx, .refl x⟩
  ports := rfl
  layers := rfl
  preview := rfl
  listed := rfl
  tranquil := ht
  forms _ := id
  orderly _ h := ⟨[], h⟩

theorem Adds.trans (hst : Adds s t) (htu : Adds t u) : Adds s u where
  length := Nat.le_trans hst.length htu.length
  channels d hd := (htu.channels d (Nat.lt_of_lt_of_le hd hst.length)).trans (hst.channels d hd)
  fields f x hx := (hst.fields f x hx).trans htu.fields
  ports := htu.ports.trans hst.ports
  layers := htu.layers.trans hst.layers
  preview := htu.preview.trans hst.preview
  listed := htu.listed.trans hst.listed
  tranquil := htu.tranquil
  forms id := htu.forms id ∘ hst.forms id
  orderly live h := by
    obtain ⟨more, h⟩ := hst.orderly live h
    obtain ⟨more', h⟩ := htu.orderly _ h
    exact ⟨more' ++ more, by rwa [append_assoc]⟩

section

variable {s t : Studio} (h : Adds s t)

include h

theorem Adds.on_iff (hd : d < s.channels.length) : l.On t d ↔ l.On s d := by
  rw [Listener.On, Listener.On, h.channels d hd]

theorem Adds.houses : Houses s t := houses_of_kept h.fields h.ports h.layers

theorem Adds.last? (hd : d < s.channels.length) : t.last? d = s.last? d := by
  rw [Studio.last?, h.channels d hd, Studio.last?]

theorem Adds.sound (hs : s.Sound d) : t.Sound d := hs.of_houses h.houses (h.channels d hs.lt)

end

def withChannel (s : Studio) : Studio := { s with channels := s.channels ++ [{}] }

theorem run_addChannel (s : Studio) : addChannel.run s = .ok s.channels.length s.withChannel := rfl

theorem adds_withChannel (ht : s.Tranquil) : Adds s s.withChannel where
  length := by simp [withChannel]
  channels d hd := getElem?_append_left hd
  fields _ x hx := ⟨x, hx, .refl x⟩
  ports := rfl
  layers := rfl
  preview := rfl
  listed := rfl
  tranquil := ht
  forms _ := id
  orderly _ h := ⟨[], h.stocked, h.forms, h.layers, h.items⟩

theorem Adds.of_kept (h : Adds u s) (hlength : t.channels.length = s.channels.length)
    (hchannels : ∀ d < u.channels.length, t.channels[d]? = s.channels[d]?)
    (hfields : ∀ f x, u.fields[f]? = some x → t.FieldKept f x) (hports : t.items.map Item.ports = s.items.map Item.ports)
    (hlayers : t.layers.length = s.layers.length) (hpreview : t.preview = s.preview)
    (hlisted : t.explorer.items = s.explorer.items) (htranquil : t.Tranquil) (hpanel : t.panel = s.panel) : Adds u t where
  length := hlength ▸ h.length
  channels d hd := (hchannels d hd).trans (h.channels d hd)
  fields := hfields
  ports := hports.trans h.ports
  layers := hlayers.trans h.layers
  preview := hpreview.trans h.preview
  listed := hlisted.trans h.listed
  tranquil := htranquil
  forms id hid := by rw [HasForm, hpanel]; exact h.forms id hid
  orderly live hlive := by
    obtain ⟨more, hstocked, hforms, hlayers, hitems⟩ := h.orderly live hlive
    refine ⟨more, hpanel ▸ hstocked, fun id hid => hforms id ?_, fun id hid => hlayers id ?_,
      fun id hid => hitems id ?_⟩
    · rwa [HasForm, hpanel] at hid
    · rwa [HasLayer, hpreview] at hid
    · rwa [HasItem, hlisted] at hid

theorem Made.adds (h : Made c x s t) (hu : Adds u s) (hc : u.channels.length ≤ c) : Adds u t := by
  have hkept : ∀ f y, s.fields[f]? = some y → t.FieldKept f y := by
    intro f y hy
    have hy' : (s.withField x).fields[f]? = some y := by
      show (s.fields ++ [x])[f]? = some y
      rwa [getElem?_append_left (lt_of_getElem? hy)]
    exact h.joins.kept f y hy'
  exact hu.of_kept h.joins.length (fun d hd => h.joins.others d (by omega)) (fun f y hy => (hu.fields f y hy).trans hkept)
    h.joins.ports h.joins.layers h.joins.preview h.joins.listed h.joins.tranquil h.joins.panel

/-! ### Adding fields to forms -/

theorem Adds.fields_length (h : Adds s t) : s.fields.length ≤ t.fields.length := by
  refine Nat.le_of_not_lt fun hlt => ?_
  obtain ⟨y, hy, -⟩ := h.fields t.fields.length _ (getElem?_eq_getElem hlt)
  simp at hy

structure Fielded (form : Nat) (title : String) (v : Value) (kind : Kind) (c : Nat) (s t : Studio) :
    Prop where
  adds : ∀ u, Adds u s → u.channels.length ≤ c → Adds u t
  length : t.channels.length = s.channels.length
  sound : ∀ d, s.Sound d → t.Sound d
  tranquil : t.Tranquil
  plain : kind.isChoice = false → (∀ l : Listener, ¬ l.On s c) →
    t.last? c = some v ∧ ∀ l : Listener, l.On t c → l.Quiet t
  forms : t.forms = s.forms.modify form fun x =>
    { x with fields := assign x.fields title s.fields.length }
  field : ∃ y, t.fields[s.fields.length]? = some y ∧ y.channel = c
  sites : t.fields.map Field.site = s.fields.map Field.site ++ [(kind, c)]
  panel : t.panel = s.panel

theorem Made.exists_field (h : Made c x s t) :
    ∃ y, t.fields[s.fields.length]? = some y ∧ y.kind = x.kind ∧ y.channel = x.channel := by
  obtain ⟨y, hy, hsame⟩ := h.joins.kept _ x (getElem?_withField s x)
  exact ⟨y, hy, Field.plate_kind hsame.plate, Field.plate_channel hsame.plate⟩

theorem exists_run_addField (h : s.Sound c) (ht : s.Tranquil) (hv : v.Carries) (form : Nat)
    (title description : String) (kind : Kind) :
    ∃ t, (addField form title v description kind c).run s = .ok () t ∧ Fielded form title v kind c s t := by
  obtain ⟨t, hrun, hmade⟩ := exists_run_makeField h ht hv title description kind
  obtain ⟨y, hy, hkind, hchannel⟩ := hmade.exists_field
  let u : Studio := { t with fields := t.fields.set s.fields.length { y with recorded := true } }
  let g : Form → Form := fun x => { x with fields := assign x.fields title s.fields.length }
  have hform : (changeForm form g).run u = .ok () { u with forms := u.forms.modify form g } := rfl
  have hself := getElem?_set_self (a := { y with recorded := true }) (lt_of_getElem? hy)
  refine ⟨{ u with forms := u.forms.modify form g }, ?_, ?_, hmade.joins.length, fun d hd => ?_,
    hmade.joins.tranquil, fun hchoice hbare => ⟨hmade.last hchoice hbare, fun l hl => ?_⟩, ?_,
    ⟨_, hself, hchannel⟩, ?_, hmade.joins.panel⟩
  · unfold addField
    rw [run_bind_ok hrun, run_bind_ok (run_changeField hy _)]
    exact hform
  · intro w hw hc
    have hadds := hmade.adds hw hc
    refine hadds.of_kept rfl (fun _ _ => rfl) (fun f x hx => ?_) rfl rfl rfl rfl hmade.joins.tranquil rfl
    have hlt := Nat.lt_of_lt_of_le (lt_of_getElem? hx) hw.fields_length
    show ∃ z, (t.fields.set _ _)[f]? = some z ∧ _
    rw [getElem?_set_ne (by omega)]
    exact hadds.fields f x hx
  · have hd' : t.Sound d := hmade.joins.sound_of_sound (fun _ => home_of_mem rfl hv) (hd.withField _)
    refine hd'.of_houses ⟨fun f x hx => ?_, fun i item hi => ⟨item, hi, rfl⟩, Nat.le_refl _⟩ rfl
    by_cases hf : f = s.fields.length
    · subst hf
      cases hy.symm.trans hx
      exact ⟨_, hself, rfl, rfl, id⟩
    · exact ⟨x, (getElem?_set_ne (Ne.symm hf)).trans hx, rfl, rfl, id⟩
  · -- only the field and its caption can have joined
    obtain hold | hnew := hmade.joins.joined l hl
    · exact absurd hold (hbare l)
    · simp only [mem_cons, not_mem_nil, or_false] at hnew
      obtain rfl | rfl := hnew
      · intro z hz
        cases hself.symm.trans hz
        exact (congrArg Kind.isChoice hkind).trans hchoice
      · exact trivial
  · exact congrArg (·.modify form g) hmade.joins.forms
  · have hrecorded : u.fields.map Field.site = t.fields.map Field.site := map_set_of_eq hy rfl
    rw [hrecorded, Field.map_site_of_plates hmade.joins.plates]
    exact map_append

end WatchFace.Studio
