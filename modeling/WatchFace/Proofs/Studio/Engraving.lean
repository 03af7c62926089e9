import WatchFace.Proofs.Studio.Nameplates
import WatchFace.Proofs.Studio.Stacks

/-!
# Names of new components

The field for the name of a new component carries the name at once. The item comes last: it hears the name when it
joins, and takes it if it is free.
-/

namespace WatchFace.Studio

open EStateM Catalog List

variable {d form i k : Nat} {id v : Value} {l : Listener}

/-- A component with a name, which the explorer lists. -/
structure Nameable (name : String) (c : Component) : Prop where
  regular : IsRegular c
  complete : isComplete c = true
  listed : isListed c = true
  kind : ((schemaOf c.layer).kindOf "Name").isVerbatim = true
  place : ∃ before description after, c.attributes = before ++ .value "Name" (.text name) description :: after ∧
    "Name" ∉ after.flatMap (titlesIn (schemaOf c.layer))

variable {b s t : Studio} {p : Nameplate} {name : String} {table : List (String × Nat)}

/-! ### The field for a name -/

theorem exists_hushed_addField {c : Nat} {title description : String} {kind : Kind} (hnested : kind ≠ .nested)
    (hoptions : Field.optionsOf s.families.names kind = []) (hch : s.channels[c]? = some {})
    (hrun : (addField form title v description kind c).run s = .ok () t) :
    ∃ ch, t.channels[c]? = some ch ∧ ch.hushed = ({} : Channel Listener).register (.field s.fields.length) ∧
      ch.last = v := by
  obtain ⟨f, s', hmake, hrest⟩ := exists_of_run_bind_ok hrun
  have hchannels : t.channels = s'.channels := by
    cases hrest
    rfl
  rw [hchannels]
  let x := Field.start title kind v description c s.families.names
  let j := (s.withField x).join c {} (.field s.fields.length)
  have hjoin : (connect c (.field s.fields.length)).run (s.withField x) = .ok () j :=
    run_connect (s := s.withField x) hch _
  have hoption : x.optionFor? v = none := by
    rw [Field.optionFor?, show x.options = [] from hoptions]
    rfl
  -- the field does not move, and its channel carries its value
  have hfinish : (do emit c (← field s.fields.length).value; pure s.fields.length : Act Nat).run j = .ok f s' := by
    unfold makeField at hmake
    rw [run_bind_ok (run_get s)] at hmake
    change run (set (s.withField x) >>= _) s = _ at hmake
    rw [run_bind_ok (run_set _ s), run_bind_ok hjoin] at hmake
    cases hchoice : kind.isChoice with
    | true =>
      rw [if_pos hchoice,
        show (Field.start title kind v description c s.families.names).optionFor? v = none from hoption] at hmake
      exact (run_told_choice kind c _ j hchoice).symm.trans hmake
    | false =>
      rw [if_neg (by rw [hchoice]; exact Bool.false_ne_true)] at hmake
      split at hmake
      · exact absurd rfl hnested
      · exact hmake
  have hx : j.fields[s.fields.length]? = some x := getElem?_withField s x
  have hjoined := getElem?_join (s := s.withField x) hch (.field s.fields.length)
  have hmoved := unmoved_emit (Reactions.upTo (depth - 1)) (s := j) hjoined (v := v) fun l hl => by
    obtain rfl : l = .field s.fields.length := by simpa [Channel.listeners, Channel.register] using hl
    exact ⟨x, hx, x.rests_of_options hoptions _⟩
  rw [run_bind_ok (run_field hx)] at hfinish
  obtain ⟨⟨⟩, s'', hemit, hpure⟩ := exists_of_run_bind_ok hfinish
  obtain ⟨-, rfl⟩ := Result.ok.inj hpure
  rw [show ((Reactions.upTo (depth - 1)).next.emit c v).after j = s'' from after_of_ok hemit] at hmoved
  let ch := ({} : Channel Listener).register (.field s.fields.length)
  refine ⟨(ch.emit v).1, ?_, rfl, rfl⟩
  rw [hmoved.1]
  exact getElem?_set_some hjoined

/-! ### Channels that wait for an item -/

/-- The name of a new component was carried on a channel where only its field listens; the item is still to come. -/
structure Nameplate.Waits (p : Nameplate) (b : Studio) (name : String) (s : Studio) : Prop where
  grown : Grown b s
  channel : ∃ ch, s.channels[p.channel]? = some ch ∧ ch.hushed = ({} : Channel Listener).register (.field p.field) ∧
    ch.last = .text name
  field : ∃ y, s.fields[p.field]? = some y ∧ y.Verbatim ∧ y.channel = p.channel ∧ y.value = .text name
  items : s.items.length = b.items.length

theorem Nameplate.exists_field_of_retains (h : Retains k s t) (hk : p.field < k)
    (hfield : ∃ y, s.fields[p.field]? = some y ∧ y.Verbatim ∧ y.channel = p.channel ∧ y.value = .text name) :
    ∃ y, t.fields[p.field]? = some y ∧ y.Verbatim ∧ y.channel = p.channel ∧ y.value = .text name := by
  obtain ⟨y, hy, hverbatim, hchannel, hvalue⟩ := hfield
  obtain ⟨z, hz, hplate, hvalue'⟩ := h.exists_field hk hy
  exact ⟨z, hz, hverbatim.of_plate hplate, (Field.plate_channel hplate).trans hchannel, hvalue'.trans hvalue⟩

theorem Nameplate.Waits.of_pile (h : p.Waits b name s) (hretains : Retains 0 s t) (hpile : t.pile = s.pile)
    (hexplorer : t.explorer = s.explorer) : p.Waits b name t := by
  have hgrown := h.grown.of_retains hretains hpile (congrArg Explorer.names hexplorer)
  cases s
  cases t
  simp only [pile, Studio.mk.injEq] at hpile
  obtain ⟨-, rfl, rfl, rfl, rfl, -⟩ := hpile
  exact ⟨hgrown, h.channel, h.field, h.items⟩

/-! ### Filling the form -/

/-- The form of a new component is filled, and its name waits for the item. -/
structure Nameplate.Filed (p : Nameplate) (b : Studio) (name : String) (form : Nat) (table : List (String × Nat))
    (s : Studio) : Prop extends p.Waits b name s where
  item : p.item = b.items.length
  new : b.channels.length ≤ p.channel
  charts : Charts "Name" b.channels.length p.channel table
  form : ∃ x, s.forms[form]? = some x ∧ x.fields.lookup "Name" = some p.field

/-- **The form of a component is filled**, and its name waits for the item. -/
theorem exists_filed {c : Component} (hc : Nameable name c) (h : Grown b s) (hitems : s.items.length = b.items.length)
    {live : List Int} (hlive : s.Orderly live) (hform : form < s.forms.length) :
    ∃ table t, ∃ p : Nameplate, (addAttributes form (schemaOf c.layer) [] c.attributes).run s = .ok table t ∧
      p.Filed b name form table t ∧ Laid (steeringOf c.layer) table t ∧ "Layer" ∈ titlesOf table ∧
        Furnishes (form + 1) form s t := by
  obtain ⟨before, description, after, hattributes, hother⟩ := hc.place
  obtain ⟨table₁, table₂, table, s₁, s₂, t, hspread⟩ :=
    exists_spread hc.regular hc.complete hattributes h hlive form
  obtain ⟨hfirst, -⟩ := hspread.grown h.self
  obtain ⟨h₁, h₂, hwhole⟩ := hspread.grown h
  -- the field for the name
  have hoptions := Kind.options_of_isVerbatim hc.kind
  have hnested : (schemaOf c.layer).kindOf "Name" ≠ .nested := by
    intro heq
    have hkind := heq ▸ hc.kind
    cases hkind
  obtain ⟨s₂', hrun, hfield, hlength, -⟩ :=
    exists_run_addValue (v := .text name) rfl hnested (fun _ h => by cases h) h₁ form table₁ description
  obtain ⟨htable, hstate⟩ := Result.ok.inj (hspread.second.symm.trans hrun)
  subst hstate htable
  have hlt : s₁.channels.length < s₂.channels.length := by omega
  have hempty : s₁.withChannel.channels[s₁.channels.length]? = some {} := getElem?_concat_length
  obtain ⟨ch, hch, hhushed, hlast⟩ := exists_hushed_addField hnested (hoptions _) hempty hfield
  obtain ⟨-, hforms, y, hy, hkind, hchannel, hlasting, hstarts⟩ :=
    exists_of_run_addField (fun _ => hempty) hfield (form + 1)
  have hverbatim : y.Verbatim := by
    refine ⟨hkind ▸ hc.kind, ?_⟩
    rw [hlasting.options, hkind]
    exact hoptions _
  have hvalue : y.value = .text name := by
    obtain ⟨hvalue, -⟩ | ⟨-, hmoves⟩ := hstarts
    · exact hvalue
    · exact absurd (Field.rests_of_options (hoptions _) _) hmoves
  -- it is on the form, and what comes after it has other titles
  obtain ⟨x, hx⟩ : ∃ x, s₁.forms[form]? = some x :=
    ⟨_, getElem?_eq_getElem (Nat.lt_of_lt_of_le hform hfirst.forms_le)⟩
  have hx₂ : s₂.forms[form]? = some { x with fields := assign x.fields "Name" s₁.fields.length } := by
    rw [hforms]
    exact getElem?_modify_eq .. |>.trans (congrArg _ hx)
  have hthird := (fills_addAttributes form _ _ after s₂ t table hspread.third).furnished (form + 1)
    (Nat.lt_succ_self _) (lt_of_getElem? hx₂)
  obtain ⟨x', hx', hlookup⟩ := hthird.lookup_of_not_mem hx₂ hother
  obtain ⟨z, hz, hheld⟩ := hthird.furnishes.fields _ y hy
  obtain ⟨hplate, hvalue'⟩ := Field.held_eq.mp hheld
  refine ⟨table, t, ⟨s₁.channels.length, s₁.fields.length, b.items.length⟩, hspread.whole,
    ⟨⟨hwhole, ?_, ?_, hspread.items.trans hitems⟩, rfl, h₁.channels_le, ?_, x', hx', ?_⟩, hspread.lays.laid, ?_, ?_⟩
  · exact ⟨ch, ((hspread.grown_third h₂).channels _ hlt).trans hch, hhushed, hlast⟩
  · exact ⟨z, hz, hverbatim.of_plate hplate, (Field.plate_channel hplate).trans hchannel, hvalue'.trans hvalue⟩
  · exact charts_of_lays h.channels_le hfirst.channels_le hlt hspread.before hspread.after hother
  · rw [hlookup, lookup_assign, if_pos rfl]
  · rw [hspread.lays.titles]
    right
    simpa [isListed] using (Bool.and_eq_true_iff.mp hc.listed).2
  · exact ((fills_addAttributes form _ [] c.attributes s t table hspread.whole).furnished (form + 1)
      (Nat.lt_succ_self _) hform).furnishes

theorem getElem?_connect_of_ne {c : Nat} (hhoused : s.Housed d) (hl : l.Housed s d) (hne : d ≠ c) :
    ((connect d l).after s).channels[c]? = s.channels[c]? := by
  cases hch : s.channels[d]? with
  | none => rw [after_connect_none hch]
  | some ch =>
    have hripple := ripple_connect hch l
    rw [getElem?_channels_of_eq hripple.listeners (hripple.lasts (hhoused.join hch hl) c hne.symm)]
    exact getElem?_set_ne hne

theorem Nameplate.Waits.connect (h : p.Waits b name s) (hb : Grown {} b) (hd : b.channels.length ≤ d)
    (hne : d ≠ p.channel) (hl : l.Housed s d) (hnew : l.NewTo b s) :
    p.Waits b name ((connect d l).after s) := by
  refine ⟨h.grown.connect hd hl hnew, ?_,
    exists_field_of_retains (retains_connect d l s) (Nat.lt_succ_self _) h.field, ?_⟩
  · rw [getElem?_connect_of_ne ((hb.trans h.grown).housed (Nat.zero_le _)) hl hne]
    exact h.channel
  · have hports := congrArg (List.length ∘ Prod.snd) (keeps_ranks_connect d l s)
    simp only [ranks, Function.comp_apply, length_map] at hports
    exact hports.trans h.items

theorem Nameplate.waits_follow (hb : Grown {} b) (htable : Charts "Name" b.channels.length p.channel table)
    {l : Nat} (hl : b.layers.length ≤ l) {parts : List (String × Layer.Part)} (hparts : ∀ e ∈ parts, e.1 ≠ "Name") :
    Within (Upholds fun s => p.Waits b name s ∧ l < s.layers.length) (follow l table parts) := by
  refine within_follow fun e he d hlookup s hs => ?_
  obtain ⟨h, hlt⟩ := hs
  have hmem := mem_of_lookup hlookup
  have hne : d ≠ p.channel := fun heq => hparts _ he (htable.sole _ hmem heq)
  refine ⟨h.connect hb (htable.new _ hmem) hne trivial ⟨hl, hlt⟩, ?_⟩
  rw [show ((Studio.connect d (.layer l e.2)).after s).layers.length = s.layers.length from
    congrArg Prod.fst (keeps_ranks_connect d _ s)]
  exact hlt

/-- **The preview shows the component**, or not; the channel waits for the item still. -/
theorem Nameplate.Waits.showLayer (h : p.Waits b name s) (hb : Grown {} b)
    (htable : Charts "Name" b.channels.length p.channel table) (layer : String) (id : Value) :
    p.Waits b name ((showLayer layer table id).after s) := by
  let l := s.layers.length
  let P : Studio → Prop := fun s => p.Waits b name s ∧ l < s.layers.length
  have h₁ : P (s.withLayerOn table) := ⟨{ h with grown := h.grown.withLayer _ }, by simp [withLayerOn, l]⟩
  have hfollow : ∀ {parts : List (String × Layer.Part)}, (∀ e ∈ parts, e.1 ≠ "Name") →
      Within (Upholds P) (follow l table parts) := fun hparts => waits_follow hb htable h.grown.layers_le hparts
  have hsettle : Within (Upholds P) (onLayer l Layer.settle) := by
    rintro u ⟨hu, hlt⟩
    have hgrown := hu.grown.onLayer h.grown.layers_le Layer.settle
    rw [after_onLayer] at hgrown ⊢
    exact ⟨{ hu with grown := hgrown }, (length_modify _ u.layers l).symm ▸ hlt⟩
  cases hlayer : Sketch.isOwnType layer with
  | true =>
    unfold Studio.showLayer createLayer
    rw [hlayer]
    exact h
  | false =>
    refine (after_showLayer (P := P) hlayer id (fun u v hretains hpile hexplorer hu => ?_) ?_ hsettle (hfollow ?_)).1
    · exact ⟨hu.1.of_pile hretains hpile hexplorer, Nat.lt_of_lt_of_eq hu.2 (congrArg (length ∘ layers) hpile).symm⟩
    · exact hfollow (by decide) _ h₁
    · decide

/-! ### The item of the component -/

/-- The item of the component is there. It has no name yet, and is still to join the channel of the name. -/
structure Nameplate.Awaited (p : Nameplate) (b : Studio) (id : Value) (name : String) (s : Studio) : Prop where
  grown : Grown b s
  channel : ∃ ch, s.channels[p.channel]? = some ch ∧ ch.hushed = ({} : Channel Listener).register (.field p.field) ∧
    ch.last = .text name
  field : ∃ y, s.fields[p.field]? = some y ∧ y.Verbatim ∧ y.channel = p.channel ∧ y.value = .text name
  items : s.items.length = b.items.length + 1
  item : ∃ item, s.items[p.item]? = some item ∧ item.names = p.channel ∧ item.sign = (id.shown, .none, .none)
  names : s.explorer.names = b.explorer.names

theorem Nameplate.Waits.connect_level (h : p.Waits b name s) (hb : Grown {} b) (hitem : p.item = b.items.length)
    {item : Item} (hsign : item.sign = (id.shown, .none, .none)) (hport : item.names = p.channel)
    (hlevels : b.channels.length ≤ item.levels) (hne : item.levels ≠ p.channel) :
    p.Awaited b id name ((Studio.connect item.levels (.level p.item)).after (s.withItem item)) := by
  let s₁ := s.withItem item
  have hat : s₁.items[p.item]? = some item := by
    rw [hitem, ← h.items]
    exact getElem?_withItem s item
  have hitems : s₁.items.length = b.items.length + 1 := length_append.trans (congrArg (· + 1) h.items)
  have h₁ : Grown b s₁ := h.grown.withItem item
  have hhoused : s₁.Housed item.levels := (hb.trans h₁).housed (Nat.zero_le _)
  have hl : (Listener.level p.item).Housed s₁ item.levels := ⟨item, hat, rfl⟩
  have hnames : s₁.explorer.names = b.explorer.names := h.grown.names h.items
  let t := (Studio.connect item.levels (.level p.item)).after s₁
  have hchannel : t.channels[p.channel]? = s.channels[p.channel]? := getElem?_connect_of_ne hhoused hl hne
  suffices hrest : t.items.length = b.items.length + 1 ∧ (∃ item, t.items[p.item]? = some item ∧
      item.names = p.channel ∧ item.sign = (id.shown, .none, .none)) ∧ t.explorer.names = b.explorer.names by
    exact ⟨h₁.connect hlevels hl (Nat.le_of_eq hitem.symm), hchannel ▸ h.channel,
      exists_field_of_retains (retains_connect _ _ s₁) (Nat.lt_succ_self _) h.field, hrest.1, hrest.2.1, hrest.2.2⟩
  cases hch : s₁.channels[item.levels]? with
  | none =>
    have ht : t = s₁ := after_connect_none hch _
    rw [ht]
    exact ⟨hitems, ⟨item, hat, hport, hsign⟩, hnames⟩
  | some ch =>
    have hripple : Ripple none item.levels (s₁.join item.levels ch (.level p.item)) t := ripple_connect hch _
    have hhoused' := hhoused.join hch hl
    -- no item takes its name from there
    have hunnamed : (s₁.join item.levels ch (.level p.item)).Unnamed item.levels := by
      intro i hi
      obtain hi | ⟨-, heq⟩ := on_join hch hi
      · exact h.grown.not_on_title h.items hlevels i hi
      · cases heq
    obtain ⟨item', hitem', hports⟩ := getElem?_of_map_eq hripple.ports.symm hat
    have hsign' := hripple.signs hhoused' p.item (hunnamed p.item)
    rw [sign?, hitem', sign?, show (s₁.join item.levels ch _).items[p.item]? = some item from hat] at hsign'
    refine ⟨?_, ⟨item', hitem', (congrArg Prod.snd hports).symm.trans hport, ?_⟩, ?_⟩
    · exact (length_of_map_eq hripple.ports).trans hitems
    · exact (Option.some.inj hsign').trans hsign
    · rw [hripple.names hhoused' hunnamed]
      exact hnames

theorem itemNames_of_signs (h : ∀ i < b.items.length, t.sign? i = b.sign? i)
    (hitems : t.items.length = b.items.length + 1) (hnew : t.itemNames[b.items.length]? = some .none) :
    t.itemNames = b.itemNames ++ [.none] := by
  have hname : ∀ (s : Studio) i, s.itemNames[i]? = (s.sign? i).map (·.2.1) := by
    intro s i
    rw [itemNames, getElem?_map, sign?, Option.map_map]
    rfl
  have hlength : ∀ s : Studio, s.itemNames.length = s.items.length := fun s => length_map _
  refine ext_getElem? fun i => ?_
  rcases Nat.lt_trichotomy i b.items.length with hlt | rfl | hgt
  · rw [getElem?_append_left (hlength b ▸ hlt), hname, hname, h i hlt]
  · rw [hnew, ← hlength b, getElem?_concat_length]
  · rw [getElem?_eq_none, getElem?_eq_none]
    · rw [length_append, hlength]
      exact hgt
    · rw [hlength, hitems]
      exact hgt

/-- What the explorer makes of a new component: its item has the name that it gets, and nothing else has changed. -/
structure Nameplate.Engraved (p : Nameplate) (b : Studio) (id : Value) (name : String) (s : Studio) : Prop
    extends p.Fixed s where
  grown : Grown b s
  entered : ∃ y, s.fields[p.field]? = some y ∧ y.value = .text name
  tidy : s.Tidy
  items : s.items.length = b.items.length + 1
  sign : s.sign? p.item =
    some (id.shown, .text (freshName b.explorer.names name), .text (freshName b.explorer.names name))

theorem Nameplate.Awaited.connect_title (h : p.Awaited b id name s) (htidy : b.Tidy)
    (hc : b.channels.length ≤ p.channel) (hitem : p.item = b.items.length) :
    p.Engraved b id name ((Studio.connect p.channel (.title p.item)).after s) := by
  obtain ⟨ch, hch, hhushed, hlast⟩ := h.channel
  obtain ⟨y, hy, hverbatim, hchannel, hvalue⟩ := h.field
  obtain ⟨item, hat, hport, hsign⟩ := h.item
  obtain ⟨hid, hname, -⟩ : item.id = id.shown ∧ item.name = .none ∧ item.shown = .none := by
    simpa only [Item.sign, Prod.mk.injEq] using hsign
  -- nobody but the field and the item listens
  let j := s.join p.channel ch (.title p.item)
  have hj : p.Fixed j := by
    refine ⟨⟨ch.register (.title p.item), getElem?_join hch _, ?_⟩, ⟨y, hy, hverbatim, hchannel⟩, item, hat, hport⟩
    exact congrArg (Channel.register · (.title p.item)) hhushed
  obtain ⟨-, hrenames⟩ := hj.renames_emit hat depth name
  have hafter : (Studio.connect p.channel (.title p.item)).after s =
      ((Reactions.upTo (depth + 1)).emit p.channel (.text name)).after j := by
    rw [after_connect hch, hlast]
    rfl
  -- the item has no name, so it takes the one that it gets
  have hothers : j.othersOf item = b.explorer.names := by
    obtain ⟨ns, hns, -⟩ := htidy.listed
    show s.explorer.names.erase item.name = _
    rw [h.names, hname, hns, Value.erase_none]
  have hnew : j.newName item name = freshName b.explorer.names name := by rw [newName, hothers]
  have hroll : ((Studio.connect p.channel (.title p.item)).after s).roll = (j.naming p.item item name).roll := by
    rw [hafter]
    obtain ⟨heq, -⟩ | ⟨-, ⟨heq, -⟩ | ⟨-, hroll⟩⟩ := hrenames
    · exact absurd (hname.symm.trans heq) (by simp)
    · exact absurd (hname.symm.trans heq) (by simp)
    · exact hroll
  have hatj : j.items[p.item]? = some item := hat
  have htidyj : j.Tidy := by
    have hsigns : ∀ i < b.items.length, j.sign? i = b.sign? i := h.grown.signs
    refine htidy.of_append (itemNames_of_signs hsigns h.items ?_) h.names
    rw [← hitem, getElem?_itemNames hatj, hname]
  obtain ⟨hitems, hexplorer⟩ := roll_eq.mp hroll
  have hripple := ripple_connect hch (.title p.item)
  obtain ⟨z, hz, -, -, hzvalue⟩ :=
    exists_field_of_retains (retains_connect p.channel (.title p.item) s) (Nat.lt_succ_self _) h.field
  refine ⟨hj.of_ripple hripple, h.grown.connect hc ⟨item, hat, hport⟩ (Nat.le_of_eq hitem.symm), ⟨z, hz, hzvalue⟩,
    (htidyj.naming hatj name).of_names ?_ ?_, ?_, ?_⟩
  · rw [itemNames, hitems, itemNames]
  · rw [hexplorer]
  · rw [hitems]
    show (s.items.set p.item _).length = _
    rw [length_set, h.items]
  · rw [sign?, hitems]
    show (s.items.set p.item _)[p.item]?.map Item.sign = _
    rw [getElem?_set_some hat, ← hnew, ← hid]
    rfl

/-- **The explorer lists the component**, under the name that is free for the one it has. -/
theorem Nameplate.Waits.addItem (h : p.Waits b name s) (hb : Grown {} b) (htidy : b.Tidy)
    (hc : b.channels.length ≤ p.channel) (hitem : p.item = b.items.length)
    (htable : Charts "Name" b.channels.length p.channel table) (hplace : "Layer" ∈ titlesOf table) {layer : String}
    (hrun : (addItem layer table id).run s = .ok i t) : p.Engraved b id name t := by
  obtain ⟨levels, hlookup, hmem⟩ := exists_lookup hplace
  have hne : levels ≠ p.channel := by
    intro heq
    have htitle : "Layer" = "Name" := htable.sole _ hmem heq
    revert htitle
    decide
  let item : Item := { id := id.shown, layer := layer, levels := levels, names := p.channel }
  have hawaited : p.Awaited b id name ((Studio.connect levels (.level p.item)).after (s.withItem item)) :=
    h.connect_level hb hitem (show item.sign = _ from rfl) rfl (htable.new _ hmem) hne
  have hexplorer : ∀ {g : Explorer → Explorer}, (∀ e, (g e).names = e.names) →
      Within (Upholds (p.Engraved b id name)) (changeExplorer g) := by
    intro g hg v hv
    exact { hv with
      grown := { hv.grown with names := fun heq => (hg v.explorer).trans (hv.grown.names heq) }
      tidy := hv.tidy.of_names rfl (hg v.explorer) }
  rw [run_addItem htable.own hlookup, h.items, ← hitem] at hrun
  obtain ⟨⟨⟩, u, hfirst, hrun⟩ := exists_of_run_bind_ok hrun
  rw [after_of_ok hfirst] at hawaited
  rw [← after_of_ok hrun]
  refine after_bind_upholds (hawaited.connect_title htidy hc hitem) fun _ =>
    Within.bind (hexplorer ?_) fun _ => within_pure _
  exact fun _ => rfl

end WatchFace.Studio
