import WatchFace.Proofs.Studio.Furnishing
import WatchFace.Proofs.Studio.Stacking
import WatchFace.Proofs.Studio.Summons

/-!
# Stacks of components

The layer and the item of a component take their places from what the channel of its place carried last, so that a new
component is one more row of a stack.
-/

namespace WatchFace.Studio

open EStateM Catalog List

variable {b s t : Studio} {parts : List (String × Layer.Part)}
variable {title : String} {c : Component} {table table' : List (String × Nat)}

/-! ### Adding one attribute -/

theorem exists_run_addValue {schema : Schema} {kind : Kind} (hkind : schema.kindOf title = kind)
    (hnested : kind ≠ .nested) {v : Value} (hv : v.Carries) (h : Grown b s) (form : Nat) (table : List (String × Nat))
    (description : String) :
    ∃ t, (addAttribute form schema table (.value title v description)).run s =
        .ok (assign table title s.channels.length) t ∧
      (addField form title v description kind s.channels.length).run s.withChannel = .ok () t ∧
      t.channels.length = s.channels.length + 1 ∧ (kind.isChoice = false → t.last? s.channels.length = some v) ∧
        ∀ (f : Nat) (y : Field), t.fields[f]? = some y → y.channel = s.channels.length → y.kind = kind := by
  obtain ⟨t, hrun, ht⟩ := exists_run_addField (sound_new s) h.withChannel.tranquil hv form title description kind
  refine ⟨t, ?_, hrun, ht.length.trans length_append, fun hchoice => (ht.plain hchoice (not_on_new s)).1,
    fun f y hy hc => ?_⟩
  · unfold addAttribute
    rw [run_bind_ok (run_addChannel s), hkind]
    split
    · exact absurd rfl hnested
    · rw [run_bind_ok hrun]
      rfl
  · -- the fields that were there before are on other channels
    have hsite : (s.fields.map Field.site ++ [(kind, s.channels.length)])[f]? = some y.site := by
      have hsites : t.fields.map Field.site = s.fields.map Field.site ++ [(kind, s.channels.length)] := ht.sites
      rw [← hsites, getElem?_map, hy, Option.map_some]
    obtain hsite | hsite := getElem?_concat_cases hsite
    · rw [getElem?_map, Option.map_eq_some_iff] at hsite
      obtain ⟨x, hx, heq⟩ := hsite
      have hsited := h.sited f x hx
      have hsame : x.channel = y.channel := congrArg Prod.snd heq
      omega
    · exact congrArg Prod.fst hsite

/-! ### Adding attributes around one of them -/

theorem addAttributes_append (form : Nat) (schema : Schema) (table : List (String × Nat)) (as bs : List Attribute) :
    addAttributes form schema table (as ++ bs) =
      addAttributes form schema table as >>= fun table' => addAttributes form schema table' bs := by
  induction as generalizing table with
  | nil => simp [addAttributes]
  | cons a as ih => simp [addAttributes, ih]

/-- The form of a component is filled with what comes before an attribute, with the attribute, and with what comes
    after. -/
structure Spread (form : Nat) (c : Component) (before : List Attribute) (a : Attribute) (after : List Attribute)
    (table₁ table₂ table : List (String × Nat)) (s s₁ s₂ t : Studio) : Prop where
  first : (addAttributes form (schemaOf c.layer) [] before).run s = .ok table₁ s₁
  second : (addAttribute form (schemaOf c.layer) table₁ a).run s₁ = .ok table₂ s₂
  third : (addAttributes form (schemaOf c.layer) table₂ after).run s₂ = .ok table t
  whole : (addAttributes form (schemaOf c.layer) [] c.attributes).run s = .ok table t
  before : Lays (steeringOf c.layer) (before.flatMap (titlesIn (schemaOf c.layer))) [] table₁ s s₁
  after : Lays (steeringOf c.layer) (after.flatMap (titlesIn (schemaOf c.layer))) table₂ table s₂ t
  lays : Lays (steeringOf c.layer) (c.attributes.flatMap (titlesIn (schemaOf c.layer))) [] table s t

section

variable {form : Nat} {c : Component} {before after : List Attribute} {a : Attribute} {s₁ s₂ : Studio}
  {table₁ table₂ table : List (String × Nat)}

theorem Spread.grown (h : Spread form c before a after table₁ table₂ table s s₁ s₂ t) (hs : Grown b s) :
    Grown b s₁ ∧ Grown b s₂ ∧ Grown b t := by
  have h₁ := (fills_addAttributes form _ [] before s s₁ table₁ h.first).grown b hs
  exact ⟨h₁, (fills_addAttribute form _ table₁ _ s₁ s₂ table₂ h.second).grown b h₁,
    (fills_addAttributes form _ [] c.attributes s t table h.whole).grown b hs⟩

theorem Spread.grown_third (h : Spread form c before a after table₁ table₂ table s s₁ s₂ t) (h₂ : Grown b s₂) :
    Grown s₂ t := (fills_addAttributes form _ _ after s₂ t table h.third).grown s₂ h₂.self

theorem Spread.items (h : Spread form c before a after table₁ table₂ table s s₁ s₂ t) :
    t.items.length = s.items.length := length_of_map_eq h.lays.adds.ports

end

theorem exists_spread (hregular : IsRegular c) (hcomplete : isComplete c = true) {before after : List Attribute}
    {a : Attribute} (hattributes : c.attributes = before ++ a :: after) (h : Grown b s) {live : List Int}
    (hlive : s.Orderly live) (form : Nat) :
    ∃ table₁ table₂ table s₁ s₂ t, Spread form c before a after table₁ table₂ table s s₁ s₂ t := by
  have hregular : ∀ a' ∈ before ++ a :: after, Regular (steeringOf c.layer) (schemaOf c.layer) a' :=
    fun a' ha' => hregular a' (hattributes ▸ ha')
  have hfits : (before ++ a :: after).all (fits (schemaOf c.layer)) = true := by
    rw [← hattributes]
    exact hcomplete
  simp only [all_append, all_cons, Bool.and_eq_true] at hfits
  obtain ⟨hbefore, hself, hafter⟩ := hfits
  -- what comes before
  have hlays₁ := answers_layout form (fun a' ha' => hregular a' (mem_append_left _ ha')) h.tranquil hlive []
  rw [hbefore] at hlays₁
  obtain ⟨table₁, s₁, hrun₁, hlays₁⟩ := hlays₁
  have h₁ := (fills_addAttributes form _ [] before s s₁ table₁ hrun₁).grown b h
  obtain ⟨more₁, horderly₁⟩ := hlays₁.adds.orderly live hlive
  -- the attribute itself
  have hlays₂ := @answers_addAttribute form _ _ _ _ _ (hregular _ (mem_append_right _ (.head _))) h₁.tranquil
    horderly₁ table₁
  rw [hself] at hlays₂
  obtain ⟨table₂, s₂, hrun₂, hlays₂⟩ := hlays₂
  have h₂ := (fills_addAttribute form _ table₁ _ s₁ s₂ table₂ hrun₂).grown b h₁
  obtain ⟨more₂, horderly₂⟩ := hlays₂.adds.orderly _ horderly₁
  -- what comes after
  have hlays₃ := answers_layout form (fun a' ha' => hregular a' (mem_append_right _ (.tail _ ha'))) h₂.tranquil
    horderly₂ table₂
  rw [hafter] at hlays₃
  obtain ⟨table, t, hrun₃, hlays₃⟩ := hlays₃
  refine ⟨table₁, table₂, table, s₁, s₂, t, hrun₁, hrun₂, hrun₃, ?_, hlays₁, hlays₃, ?_⟩
  · rw [hattributes, addAttributes_append, run_bind_ok hrun₁, addAttributes, run_bind_ok hrun₂, hrun₃]
  · have hlays := (hlays₁.trans hlays₂).trans hlays₃
    rwa [append_assoc, ← flatMap_cons, ← flatMap_append, ← hattributes] at hlays

/-! ### The channels by title -/

/-- The channels of a new component by title: all of them are new, and one is for the given title alone. -/
structure Charts (title : String) (k c : Nat) (table : List (String × Nat)) : Prop where
  own : table.lookup title = some c
  new : ∀ e ∈ table, k ≤ e.2
  sole : ∀ e ∈ table, e.2 = c → e.1 = title

theorem charts_of_lays {parts : List (String × Layer.Part)} {ts ts' : List String} {k : Nat} {u v : Studio}
    (hk : k ≤ s.channels.length) (hle : s.channels.length ≤ u.channels.length)
    (hlt : u.channels.length < v.channels.length) (hbefore : Lays parts ts [] table s u)
    (hafter : Lays parts ts' (assign table title u.channels.length) table' v t) (hother : title ∉ ts') :
    Charts title k u.channels.length table' := by
  have hentry : ∀ e ∈ table', e = (title, u.channels.length) ∨ k ≤ e.2 ∧ e.2 ≠ u.channels.length := by
    intro e he
    obtain he | ⟨hnew, -⟩ := hafter.entries e he
    · obtain he | rfl := mem_assign he
      · obtain hnil | ⟨hnew, hold, -⟩ := hbefore.entries e he
        · exact absurd hnil not_mem_nil
        · exact .inr (by omega)
      · exact .inl rfl
    · exact .inr (by omega)
  refine ⟨?_, fun e he => ?_, fun e he hn => ?_⟩
  · rw [hafter.kept _ hother, lookup_assign, if_pos rfl]
  · obtain rfl | ⟨hnew, -⟩ := hentry e he
    · exact Nat.le_trans hk hle
    · exact hnew
  · obtain rfl | ⟨-, hne⟩ := hentry e he
    · rfl
    · exact absurd hn hne

variable {r : Row} {u : Studio} {x : Float}

variable {ch : Channel Listener} {α β : Type} {layer : String}

/-! ### Joining other channels -/

/-- Nothing of a row changes: neither its channel nor its depth nor its place. -/
structure Row.Passed (r : Row) (s t : Studio) : Prop where
  channel : t.channels[r.channel]? = s.channels[r.channel]?
  on : ∀ d, (Listener.layer r.layer .order).On t d → (Listener.layer r.layer .order).On s d
  plates : t.fields.map Field.plate = s.fields.map Field.plate
  ports : t.items.map Item.ports = s.items.map Item.ports
  types : t.items.map Item.layer = s.items.map Item.layer
  layers : t.layers.length = s.layers.length
  depth : t.depth? r.layer = s.depth? r.layer
  level : t.level? r.item = s.level? r.item

theorem Row.Passed.trans (hst : r.Passed s t) (htu : r.Passed t u) : r.Passed s u where
  channel := htu.channel.trans hst.channel
  on d hd := hst.on d (htu.on d hd)
  plates := htu.plates.trans hst.plates
  ports := htu.ports.trans hst.ports
  types := htu.types.trans hst.types
  layers := htu.layers.trans hst.layers
  depth := htu.depth.trans hst.depth
  level := htu.level.trans hst.level

theorem Ripple.passed {d : Nat} (h : Ripple none d s t) (hhoused : s.Housed d) (hd : d ≠ r.channel)
    (hlayer : ¬ (Listener.layer r.layer .order).On s d) (hitem : ¬ (Listener.level r.item).On s d) : r.Passed s t where
  channel := getElem?_channels_of_eq h.listeners (h.lasts hhoused r.channel hd.symm)
  on _ he := on_of_listeners h.listeners he
  plates := h.plates
  ports := h.ports
  types := h.types
  layers := h.layers_length
  depth := h.depths hhoused r.layer hlayer
  level := h.levels hhoused r.item hitem

/-- **Whoever joins another channel passes a row.** -/
theorem Row.passed_connect {d : Nat} (hhoused : s.Housed d) (hd : d ≠ r.channel)
    (hlayer : ¬ (Listener.layer r.layer .order).On s d) (hitem : ¬ (Listener.level r.item).On s d) {l : Listener}
    (hl : l.Housed s d) (hl' : l ≠ .layer r.layer .order) (hl'' : l ≠ .level r.item) :
    r.Passed s ((connect d l).after s) := by
  cases hch : s.channels[d]? with
  | none =>
    rw [after_connect_none hch]
    exact ⟨rfl, fun _ => id, rfl, rfl, rfl, rfl, rfl, rfl⟩
  | some ch =>
    have hjoin : r.Passed s (s.join d ch l) := by
      refine ⟨getElem?_set_ne hd, fun e he => ?_, rfl, rfl, rfl, rfl, rfl, rfl⟩
      exact (on_join hch he).resolve_right fun h => hl' h.2.symm
    refine hjoin.trans ((ripple_connect hch l).passed (hhoused.join hch hl) hd ?_ ?_)
    · exact fun hon => (on_join hch hon).elim hlayer fun h => hl' h.2.symm
    · exact fun hon => (on_join hch hon).elim hitem fun h => hl'' h.2.symm

theorem Row.Sole.of_passed (h : r.Sole s) (hst : r.Passed s t) : r.Sole t := by
  have hon : ∀ l : Listener, l.On t r.channel → l.On s r.channel := by
    rintro l ⟨ch, hch, hmem⟩
    exact ⟨ch, hst.channel.symm.trans hch, hmem⟩
  refine ⟨fun l hl => ?_, hst.layers ▸ h.layer, fun l hl => h.layers l (hon _ hl), fun i hi => h.items i (hon _ hi),
    fun i hi => h.unnamed i (hon _ hi), fun f y hy hchannel => ?_⟩
  · refine (h.housed l (hon l hl)).of_kept (fun f x hx => ?_) fun i x hx => ?_
    · obtain ⟨y, hy, hplate⟩ := getElem?_of_map_eq hst.plates.symm hx
      exact ⟨y, hy, (Field.plate_channel hplate).symm⟩
    · obtain ⟨y, hy, hports⟩ := getElem?_of_map_eq hst.ports.symm hx
      exact ⟨y, hy, hports.symm⟩
  · obtain ⟨x, hx, hplate⟩ := getElem?_of_map_eq hst.plates hy
    rw [Field.plate_kind hplate]
    exact h.fields f x hx ((Field.plate_channel hplate).symm.trans hchannel)

theorem Row.Wired.of_passed (h : r.Wired s) (hst : r.Passed s t) : r.Wired t := by
  obtain ⟨item, hitem, hlevels, hgroup⟩ := h.item
  obtain ⟨item', hitem', hports⟩ := getElem?_of_map_eq hst.ports.symm hitem
  obtain ⟨item'', hitem'', htype⟩ := getElem?_of_map_eq hst.types.symm hitem
  cases hitem'.symm.trans hitem''
  refine ⟨h.toSole.of_passed hst, hst.channel ▸ h.channel, fun d hd => h.alone d (hst.on d hd), item', hitem', ?_, ?_⟩
  · exact (congrArg Prod.fst hports).symm.trans hlevels
  · rwa [Item.isGroup, ← htype]

/-! ### Joining the channel of a row -/

theorem Row.Sole.tame (h : r.Sole s) : s.Tame r.channel := by
  intro l hl
  have hhoused := h.housed l hl
  cases l with
  | field f =>
    obtain ⟨y, hy, hchannel⟩ := hhoused
    refine .inl fun z hz => ?_
    cases hy.symm.trans hz
    rw [h.fields f y hy hchannel]
    rfl
  | level i =>
    obtain ⟨item, hitem, hlevels⟩ := hhoused
    refine .inr fun item' hitem' => ?_
    cases hitem.symm.trans hitem'
    exact hlevels
  | title i => exact absurd hl (h.unnamed i)
  | _ => exact .inl trivial

theorem carried_of_carried {v : Value} (hv : v.carried = .float x) : v.carried.carried = .float x := by
  rw [hv]
  rfl

section

variable {l : Listener} (hl : (∃ p, l = .layer r.layer p) ∨ l = .level r.item)

include hl

theorem Row.Sole.join (h : r.Sole s) (hch : s.channels[r.channel]? = some ch) (hhoused : l.Housed s r.channel) :
    r.Sole (s.join r.channel ch l) := by
  refine ⟨h.housed.join hch hhoused, h.layer, fun k hk => ?_, fun i hi => ?_, fun i hi => ?_, h.fields⟩
  · obtain hk | ⟨-, rfl⟩ := on_join hch hk
    · exact h.layers k hk
    · obtain ⟨p, heq⟩ | heq := hl
      · exact (Listener.layer.inj heq).1
      · cases heq
  · obtain hi | ⟨-, rfl⟩ := on_join hch hi
    · exact h.items i hi
    · obtain ⟨p, heq⟩ | heq := hl
      · cases heq
      · exact Listener.level.inj heq
  · obtain hi | ⟨-, rfl⟩ := on_join hch hi
    · exact h.unnamed i hi
    · obtain ⟨p, heq⟩ | heq := hl <;> cases heq

/-- **Whoever joins the channel of a row takes its place from what the channel carried last.** -/
theorem Row.Sole.connect (h : r.Sole s) (hch : s.channels[r.channel]? = some ch) (hlast : ch.last.carried = .float x)
    (hx : (Value.float x).Ranks x) (hhoused : l.Housed s r.channel) :
    r.Settles x (ch.numbers ++ [l]) (s.join r.channel ch l) ((connect r.channel l).after s) ∧
      ∃ ch', ((connect r.channel l).after s).channels[r.channel]? = some ch' ∧ ch'.numbers = ch.numbers ++ [l] ∧
        ch'.last.carried = .float x := by
  have hjoin := h.join hl hch hhoused
  have hch' := getElem?_join hch l
  have hsome : ch.last.isNone = false := by
    cases hv : ch.last with
    | none =>
      rw [hv] at hlast
      cases hlast
    | _ => rfl
  have hsettles := Row.settles_emit hjoin hch' hlast hx depth
  have hor := last?_emit_next (gentle_upTo depth) (lt_of_getElem? hch') hjoin.tame hjoin.unnamed ch.last
  rw [after_connect hch, hsome, if_neg Bool.false_ne_true]
  refine ⟨hsettles, ?_⟩
  obtain ⟨ch'', hch'', heq⟩ := getElem?_of_map_eq hsettles.ripple.listeners.symm hch'
  have hlast'' : last? _ r.channel = some ch''.last := congrArg (Option.map Channel.last) hch''
  refine ⟨ch'', hch'', (congrArg Channel.numbers heq).symm, ?_⟩
  obtain hor | ⟨-, hor⟩ := hor
  · rw [Option.some.inj (hlast''.symm.trans hor)]
    exact hlast
  · rw [Option.some.inj (hlast''.symm.trans hor)]
    exact carried_of_carried hlast

end

/-! ### Layers of rows -/

theorem Row.passed_of_pile (h : t.pile = s.pile) : r.Passed s t := by
  cases s
  cases t
  simp only [pile, Studio.mk.injEq] at h
  obtain ⟨-, rfl, rfl, rfl, rfl, -⟩ := h
  exact ⟨rfl, fun _ => id, rfl, rfl, rfl, rfl, rfl, rfl⟩

theorem Row.passed_onLayer {act : Layer.Act α} (hact : Within (Keeps Layer.depth) act) (l : Nat) :
    r.Passed s ((onLayer l act).after s) := by
  refine ⟨?_, ?_, ?_, ?_, ?_, ?_, depth?_onLayer hact s l r.layer, level?_onLayer act s l r.item⟩
  all_goals simp [after_onLayer, Listener.On]

/-- The layer of a row is where the channel says, and the item is still to come. -/
structure Row.Rises (s : Studio) (r : Row) (x : Float) : Prop extends r.Sole s where
  channel : ∃ ch, s.channels[r.channel]? = some ch ∧ .layer r.layer .order ∈ ch.numbers ∧ ch.last.carried = .float x
  alone : ∀ d, (Listener.layer r.layer .order).On s d → d = r.channel
  drawn : r.Drawn s x
  newest : s.layers.length = r.layer + 1
  unlisted : r.item = s.items.length

theorem Row.Rises.of_passed (h : r.Rises s x) (hst : r.Passed s t) : r.Rises t x where
  toSole := h.toSole.of_passed hst
  channel := hst.channel ▸ h.channel
  alone d hd := h.alone d (hst.on d hd)
  drawn := hst.depth.trans h.drawn
  newest := hst.layers.trans h.newest
  unlisted := by
    rw [length_of_map_eq hst.ports]
    exact h.unlisted

/-- The channel carried a number last, and the fields that are on it hold places in the stacking order. -/
structure Awaits (s : Studio) (c : Nat) (x : Float) : Prop where
  channel : ∃ ch, s.channels[c]? = some ch ∧ ch.last.carried = .float x
  fields : ∀ (f : Nat) (y : Field), s.fields[f]? = some y → y.channel = c → y.kind = Catalog.order

def nextRow (s : Studio) (c : Nat) : Row := ⟨c, s.layers.length, s.items.length⟩

section

variable {b : Studio} {c : Nat} {table : List (String × Nat)}

theorem Row.rises_connect (h : Grown b s) (hc : b.channels.length ≤ r.channel) (hl : b.layers.length ≤ r.layer)
    (hsole : r.Sole s) (hch : s.channels[r.channel]? = some ch) (hlast : ch.last.carried = .float x)
    (hx : (Value.float x).Ranks x) (hfree : ∀ d, ¬ (Listener.layer r.layer .order).On s d)
    (hlayer : s.layers.length = r.layer + 1) (hitem : r.item = s.items.length) :
    Grown b ((connect r.channel (.layer r.layer .order)).after s) ∧
      r.Rises ((connect r.channel (.layer r.layer .order)).after s) x := by
  refine ⟨h.connect hc trivial ⟨hl, hsole.layer⟩, ?_⟩
  have hlisten : (∃ p, Listener.layer r.layer .order = .layer r.layer p) ∨
      Listener.layer r.layer .order = .level r.item := .inl ⟨_, rfl⟩
  obtain ⟨hsettles, ch', hch', hnumbers, hlast'⟩ := hsole.connect hlisten hch hlast hx trivial
  refine ⟨(hsole.join hlisten hch trivial).of_ripple hsettles.ripple, ⟨ch', hch', ?_, hlast'⟩, fun d hd => ?_,
    hsettles.drawn (.inr (by simp)), hsettles.ripple.layers_length.trans hlayer, ?_⟩
  · rw [hnumbers]
    simp
  · obtain hd | ⟨rfl, -⟩ := on_join hch (on_of_listeners hsettles.ripple.listeners hd)
    · exact absurd hd (hfree d)
    · rfl
  · rw [length_of_map_eq hsettles.ripple.ports]
    exact hitem

theorem Row.rises_follow (hb : Grown {} b) (hl : b.layers.length ≤ r.layer)
    (htable : Charts "Layer" b.channels.length r.channel table) {parts : List (String × Layer.Part)}
    (hparts : ∀ e ∈ parts, e.1 ≠ "Layer" ∧ e.2 ≠ .order) :
    Within (Upholds fun s => Grown b s ∧ r.Rises s x) (follow r.layer table parts) := by
  refine within_follow fun e he d hlookup s h => ?_
  obtain ⟨htitle, hp⟩ := hparts _ he
  have hmem := mem_of_lookup hlookup
  have hd : d ≠ r.channel := fun heq => htitle (htable.sole _ hmem heq)
  have hhoused : s.Housed d := (hb.trans h.1).housed (Nat.zero_le _)
  refine ⟨h.1.connect (htable.new _ hmem) trivial ⟨hl, h.2.layer⟩, h.2.of_passed ?_⟩
  refine passed_connect hhoused hd (fun hon => hd (h.2.alone d hon)) (fun hon => ?_) trivial ?_ (by simp)
  · -- the item is not there yet
    obtain ⟨item, hitem, -⟩ := hhoused _ hon
    have hlt := lt_of_getElem? hitem
    exact absurd h.2.unlisted (by omega)
  · exact fun heq => hp (Listener.layer.inj heq).2

/-- What holds of a new layer on its channels, and is not lost to changes that leave channels and listeners alone, holds
    once the layer is shown. -/
theorem after_showLayer {P : Studio → Prop} (hlayer : Sketch.isOwnType layer = false) (id : Value)
    (hkeeps : ∀ s t, Retains 0 s t → t.pile = s.pile → t.explorer = s.explorer → P s → P t)
    (hfirst : P ((follow s.layers.length table Layer.following.1).after (s.withLayerOn table)))
    (hsettle : Within (Upholds P) (onLayer s.layers.length Layer.settle))
    (hrest : Within (Upholds P) (follow s.layers.length table Layer.following.2)) :
    P ((showLayer layer table id).after s) := by
  have hmake : P ((makeLayer table).after s) := by
    rw [after_congr (run_makeLayer table s)]
    exact after_bind_upholds hfirst fun _ => hsettle.bind fun _ => hrest.bind fun _ => within_pure _
  have hpush : ∀ l, Within (Keeps fun s => (s.pile, s.explorer)) (push reactions (.addLayer l)) := fun l =>
    within_push (fun _ => rfl) (keeps_modify fun _ => rfl) (keeps_modify fun _ => rfl)
  unfold showLayer createLayer
  rw [hlayer, if_neg Bool.false_ne_true]
  refine after_bind_upholds hmake fun l => Within.bind (fun u => ?_) fun _ => within_modify fun u => ?_
  · exact hkeeps u _ (retains_pushLayer l u) (congrArg Prod.fst (hpush l u)) (congrArg Prod.snd (hpush l u))
  · exact hkeeps u _ { Retains.refl 0 u with } rfl rfl

theorem rises_showLayer (hb : Grown {} b) (h : Grown b s) (hlayers : s.layers.length = b.layers.length)
    (hitems : s.items.length = b.items.length) (hc : b.channels.length ≤ c) (hawaits : s.Awaits c x)
    (hx : (Value.float x).Ranks x) (htable : Charts "Layer" b.channels.length c table)
    (hlayer : Sketch.isOwnType layer = false) (id : Value) :
    Grown b ((showLayer layer table id).after s) ∧ (s.nextRow c).Rises ((showLayer layer table id).after s) x := by
  let r := s.nextRow c
  let s₁ := s.withLayerOn table
  have h₁ : Grown b s₁ := h.withLayer _
  -- those who listen on a new channel are new, and there is no new layer and no new item yet
  have hsole : r.Sole s₁ := by
    refine ⟨h₁.housed hc, by simp [r, s₁, nextRow, withLayerOn], fun l hl => ?_, fun i hi => ?_, fun i hi => ?_, hawaits.fields⟩
    · have hnew := (h.heard c _ hc hl).2
      exact absurd hnew.2 (by have := hnew.1; omega)
    · obtain ⟨⟨item, hitem, -⟩, hnew⟩ := h.heard c _ hc hi
      exact absurd (lt_of_getElem? hitem) (by simp only [Listener.NewTo] at hnew; omega)
    · obtain ⟨⟨item, hitem, -⟩, hnew⟩ := h.heard c _ hc hi
      exact absurd (lt_of_getElem? hitem) (by simp only [Listener.NewTo] at hnew; omega)
  have hfree : ∀ d, ¬ (Listener.layer r.layer .order).On s₁ d := fun d hd =>
    absurd ((hb.trans h).heard d _ (Nat.zero_le _) hd).2.2 (Nat.lt_irrefl _)
  obtain ⟨ch, hch, hlast⟩ := hawaits.channel
  have hjoined := Row.rises_connect h₁ (r := r) hc h.layers_le hsole hch hlast hx hfree length_append rfl
  have hfollow : ∀ {parts : List (String × Layer.Part)}, (∀ e ∈ parts, e.1 ≠ "Layer" ∧ e.2 ≠ .order) →
      Within (Upholds fun s => Grown b s ∧ r.Rises s x) (follow r.layer table parts) :=
    fun hparts => Row.rises_follow hb h.layers_le htable hparts
  have hsettle : Within (Upholds fun s => Grown b s ∧ r.Rises s x) (onLayer r.layer Layer.settle) :=
    fun t ht => ⟨ht.1.onLayer h.layers_le _,
      ht.2.of_passed (Row.passed_onLayer (Layer.keeps_settle fun _ _ _ _ _ => rfl) _)⟩
  refine after_showLayer (P := fun s => Grown b s ∧ r.Rises s x) hlayer id (fun u v hretains hpile hexplorer hu => ?_) ?_
    hsettle (hfollow (by decide))
  · exact ⟨hu.1.of_retains hretains hpile (congrArg Explorer.names hexplorer), hu.2.of_passed (Row.passed_of_pile hpile)⟩
  · rw [Layer.following, follow_cons, htable.own]
    exact after_bind_upholds hjoined fun _ => hfollow (by decide)

/-! ### Items of rows -/

theorem Row.Rises.connect (h : r.Rises s x) (hx : (Value.float x).Ranks x) {item : Item}
    (hlevels : item.levels = r.channel) (hgroup : item.isGroup = false) (hrank : item.level.IsRank) :
    let t := (connect r.channel (.level r.item)).after (s.withItem item)
    r.Wired t ∧ r.Agrees t := by
  intro t
  let s₁ := s.withItem item
  have hitem : s₁.items[r.item]? = some item := by
    rw [h.unlisted]
    exact getElem?_withItem s item
  have hsole : r.Sole s₁ := by
    refine ⟨fun l hl => ?_, h.layer, h.layers, h.items, h.unnamed, h.fields⟩
    refine (h.housed l hl).of_kept (fun f y hy => ⟨y, hy, rfl⟩) fun i y hy => ⟨y, ?_, rfl⟩
    exact (getElem?_append_left (lt_of_getElem? hy)).trans hy
  have hhoused : (Listener.level r.item).Housed s₁ r.channel := ⟨item, hitem, hlevels⟩
  obtain ⟨ch, hch, hlayer, hlast⟩ := h.channel
  obtain ⟨hsettles, ch', hch', hnumbers, -⟩ := hsole.connect (.inr rfl) hch hlast hx hhoused
  have hnew : (s₁.join r.channel ch (.level r.item)).level? r.item = some item.level := by
    show s₁.items[r.item]?.map Item.level = _
    rw [hitem, Option.map_some]
  obtain ⟨item', hitem', hports⟩ := getElem?_of_map_eq hsettles.ripple.ports.symm hitem
  obtain ⟨item'', hitem'', htype⟩ := getElem?_of_map_eq hsettles.ripple.types.symm hitem
  cases hitem'.symm.trans hitem''
  refine ⟨⟨(hsole.join (.inr rfl) hch hhoused).of_ripple hsettles.ripple, ⟨ch', hch', ?_, ?_⟩, fun d hd => ?_,
    item', hitem', (congrArg Prod.fst hports).symm.trans hlevels, ?_⟩,
    x, hsettles.drawn (.inl h.drawn), hsettles.placed (by simp), hsettles.ranked fun v hv => ?_⟩
  · rw [hnumbers]
    exact mem_append_left _ hlayer
  · rw [hnumbers]
    simp
  · obtain hd | ⟨-, heq⟩ := on_join (s := s₁) hch (on_of_listeners hsettles.ripple.listeners hd)
    · exact h.alone d hd
    · cases heq
  · rwa [Item.isGroup, ← htype]
  · rw [hnew] at hv
    exact Option.some.inj hv ▸ hrank

def ranks (s : Studio) : Nat × List (Nat × Nat) := (s.layers.length, s.items.map Item.ports)

theorem keeps_ranks_connect (c : Nat) (l : Listener) : Within (Keeps ranks) (connect c l) := by
  intro s
  cases hch : s.channels[c]? with
  | none =>
    rw [after_connect_none hch]
    rfl
  | some ch =>
    have hripple := ripple_connect hch l
    exact Prod.ext hripple.layers_length hripple.ports

/-- **The item of a new component takes the place of its layer.** -/
theorem wired_addItem (hb : Grown {} b) (h : Grown b s) (hc : b.channels.length ≤ r.channel) (hrises : r.Rises s x)
    (hx : (Value.float x).Ranks x) (htable : Charts "Layer" b.channels.length r.channel table)
    (hname : "Name" ∈ titlesOf table) (hlayer : layer ≠ groupLayer) (id : Value) :
    let t := (addItem layer table id).after s
    Grown b t ∧ (r.Wired t ∧ r.Agrees t) ∧ t.layers.length = r.layer + 1 ∧ t.items.length = r.item + 1 := by
  intro t
  obtain ⟨names, hnames, hmem⟩ := exists_lookup hname
  have hne : names ≠ r.channel := by
    intro heq
    have htitle : "Name" = "Layer" := htable.sole _ hmem heq
    revert htitle
    decide
  let item : Item := { id := id.shown, layer := layer, levels := r.channel, names := names }
  let s₁ := s.withItem item
  let P : Studio → Prop := fun t =>
    Grown b t ∧ (r.Wired t ∧ r.Agrees t) ∧ t.ranks = s₁.ranks
  have hitem : s₁.items[r.item]? = some item := by
    rw [hrises.unlisted]
    exact getElem?_withItem s item
  have hnew : b.items.length ≤ r.item := hrises.unlisted ▸ h.items_le
  have hfirst : P ((connect r.channel (.level r.item)).after s₁) := by
    refine ⟨(h.withItem item).connect hc ⟨item, hitem, rfl⟩ hnew, hrises.connect hx rfl ?_ ⟨0, Value.ranks_zero⟩,
      keeps_ranks_connect _ _ s₁⟩
    exact beq_false_of_ne hlayer
  have hsecond : Within (Upholds P) (connect names (.title r.item)) := by
    intro u hu
    obtain ⟨hgrown, ⟨hwired, hagrees⟩, hranks⟩ := hu
    have hhoused : ∀ d, u.Housed d := fun d => (hb.trans hgrown).housed (Nat.zero_le _)
    obtain ⟨item', hitem', hsame⟩ := getElem?_of_map_eq (congrArg Prod.snd hranks).symm hitem
    have hjoined : (Listener.title r.item).Housed u names := ⟨item', hitem', (congrArg Prod.snd hsame).symm⟩
    have hpassed : r.Passed u ((connect names (.title r.item)).after u) :=
      Row.passed_connect (hhoused names) hne (fun hon => hne (hwired.alone _ hon))
        (fun hon => hne (hwired.level_alone hhoused hon)) hjoined (by simp) (by simp)
    exact ⟨hgrown.connect (htable.new _ hmem) hjoined hnew,
      ⟨hwired.of_passed hpassed, hagrees.of_eq hpassed.depth hpassed.level⟩, (keeps_ranks_connect _ _ u).trans hranks⟩
  have hexplorer : ∀ {g : Explorer → Explorer}, (∀ e, (g e).names = e.names) →
      Within (Upholds P) (changeExplorer g) := by
    intro g hg u hu
    obtain ⟨hgrown, ⟨hwired, hagrees⟩, hranks⟩ := hu
    exact ⟨{ hgrown with names := fun heq => (hg u.explorer).trans (hgrown.names heq) }, ⟨{ hwired with }, hagrees⟩,
      hranks⟩
  have hadd : P ((addItem layer table id).after s) := by
    rw [after_congr (run_addItem hnames htable.own layer id s), ← hrises.unlisted]
    refine after_bind_upholds hfirst fun _ => hsecond.bind fun _ => Within.bind (hexplorer ?_) fun _ => within_pure _
    exact fun _ => rfl
  obtain ⟨hgrown, hrow, hranks⟩ := hadd
  have hitems := congrArg (List.length ∘ Prod.snd) hranks
  simp only [ranks, Function.comp_apply, length_map] at hitems
  refine ⟨hgrown, hrow, (congrArg Prod.fst hranks).trans hrises.newest, hitems.trans ?_⟩
  rw [hrises.unlisted]
  exact length_append

end

/-! ### More rows -/

section

variable {b : Studio} {rows : List Row}

theorem Row.Wired.of_grown (h : r.Wired b) (hb : Grown {} b) (hst : Grown b t) : r.Wired t := by
  obtain ⟨ch, hch, hmem⟩ := h.channel
  obtain ⟨item, hitem, hlevels, hgroup⟩ := h.item
  have hlt : r.channel < b.channels.length := lt_of_getElem? hch
  have hi : r.item < b.items.length := lt_of_getElem? hitem
  refine ⟨⟨(hb.trans hst).housed (Nat.zero_le _), Nat.lt_of_lt_of_le h.layer hst.layers_le,
    fun l hl => h.layers l (hst.on_of hlt hl), fun i hi => h.items i (hst.on_of hlt hi),
    fun i hi => h.unnamed i (hst.on_of hlt hi), fun f y hy hchannel => ?_⟩, ⟨ch, (hst.channels _ hlt).trans hch, hmem⟩,
    fun d hd => ?_, ?_⟩
  · -- new fields are on new channels
    obtain hf | hf := Nat.lt_or_ge f b.fields.length
    · obtain ⟨x, hx, hplate⟩ := getElem?_of_map_getElem? (hst.plates f hf).symm hy
      rw [← Field.plate_kind hplate]
      exact h.fields f x hx ((Field.plate_channel hplate).trans hchannel)
    · exact absurd (hst.fresh f y hf hy) (by omega)
  · obtain hd' | hd' := Nat.lt_or_ge d b.channels.length
    · exact h.alone d (hst.on_of hd' hd)
    · exact absurd (hst.heard d _ hd' hd).2.1 (Nat.not_le_of_lt h.layer)
  · obtain ⟨item', hitem', hports⟩ := getElem?_of_map_getElem? (hst.ports _ hi) hitem
    obtain ⟨item'', hitem'', htype⟩ := getElem?_of_map_getElem? (hst.types _ hi) hitem
    cases hitem'.symm.trans hitem''
    refine ⟨item', hitem', (congrArg Prod.fst hports).trans hlevels, ?_⟩
    rwa [Item.isGroup, htype]

theorem Stacked.grow (h : Stacked rows b) (hb : Grown {} b) (hst : Grown b t) (hc : b.channels.length ≤ r.channel)
    (hwired : r.Wired t) (hagrees : r.Agrees t) (hitem : r.item = b.items.length)
    (hitems : t.items.length = b.items.length + 1) : Stacked (r :: rows) t where
  housed d := (hb.trans hst).housed (Nat.zero_le _)
  wired q hq := by
    obtain rfl | hq := mem_cons.mp hq
    · exact hwired
    · exact (h.wired q hq).of_grown hb hst
  apart := by
    refine pairwise_cons.mpr ⟨fun q hq => ?_, h.apart⟩
    obtain ⟨ch, hch, -⟩ := (h.wired q hq).channel
    have hlt := lt_of_getElem? hch
    omega
  listed i hi := by
    obtain hlt | hge := Nat.lt_or_ge i b.items.length
    · obtain ⟨q, hq, hi⟩ := h.listed i hlt
      exact ⟨q, .tail _ hq, hi⟩
    · exact ⟨r, .head _, by omega⟩
  agrees q hq := by
    obtain rfl | hq := mem_cons.mp hq
    · exact hagrees
    · obtain ⟨item, hitem, -⟩ := (h.wired q hq).item
      exact (h.agrees q hq).of_eq (hst.depths _ (h.wired q hq).layer) (hst.levels _ (lt_of_getElem? hitem))

end

end WatchFace.Studio
