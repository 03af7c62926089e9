import WatchFace.Proofs.Studio.Layout
import WatchFace.Proofs.Studio.Retaining

/-!
# Studios that grow

New components come with channels, fields, forms, layers and items of their own. What is new listens on new
channels only, so that nothing of what was there before changes.
-/

namespace WatchFace.Studio

open EStateM Catalog List

variable {c d f form : Nat} {l : Listener}

def Listener.NewTo (b s : Studio) : Listener → Prop
  | .layer l _ => b.layers.length ≤ l ∧ l < s.layers.length
  | .level i | .title i => b.items.length ≤ i
  | _ => True

/-- The studio `s` has grown from `b`: old parts are as they were, new ones listen on new channels, and the names in
    use are the same as long as there are no new items. -/
structure Grown (b s : Studio) : Prop where
  tranquil : s.Tranquil
  numbered : ∀ e ∈ s.panel.pages.registry, ∃ n : Int, e.1 = .int n
  channels_le : b.channels.length ≤ s.channels.length
  fields_le : b.fields.length ≤ s.fields.length
  layers_le : b.layers.length ≤ s.layers.length
  items_le : b.items.length ≤ s.items.length
  forms_le : b.forms.length ≤ s.forms.length
  channels : ∀ d < b.channels.length, s.channels[d]? = b.channels[d]?
  plates : ∀ f < b.fields.length, s.fields[f]?.map Field.plate = b.fields[f]?.map Field.plate
  ports : ∀ i < b.items.length, s.items[i]?.map Item.ports = b.items[i]?.map Item.ports
  types : ∀ i < b.items.length, s.items[i]?.map Item.layer = b.items[i]?.map Item.layer
  depths : ∀ l < b.layers.length, s.depth? l = b.depth? l
  levels : ∀ i < b.items.length, s.level? i = b.level? i
  signs : ∀ i < b.items.length, s.sign? i = b.sign? i
  names : s.items.length = b.items.length → s.explorer.names = b.explorer.names
  forms : ∀ (n : Nat) (x : Form), b.forms.length ≤ n → s.forms[n]? = some x → ∀ e ∈ x.fields, b.fields.length ≤ e.2
  sited : ∀ (f : Nat) (x : Field), s.fields[f]? = some x → x.channel < s.channels.length
  fresh : ∀ (f : Nat) (x : Field), b.fields.length ≤ f → s.fields[f]? = some x → b.channels.length ≤ x.channel
  heard : ∀ (d : Nat) (l : Listener), b.channels.length ≤ d → l.On s d → l.Housed s d ∧ l.NewTo b s

variable {b s t : Studio}

theorem Grown.find?_text (h : Grown b s) (name : String) : s.panel.pages.find? (.text name) = none := by
  rw [Pages.find?, Option.map_eq_none_iff, find?_eq_none]
  intro e he
  obtain ⟨id, hid⟩ := h.numbered e he
  rw [hid]
  exact Bool.false_ne_true

theorem Grown.housed (h : Grown b s) (hd : b.channels.length ≤ d) : s.Housed d :=
  fun l hl => (h.heard d l hd hl).1

theorem Grown.not_on_title (h : Grown b s) (hitems : s.items.length = b.items.length) (hd : b.channels.length ≤ d)
    (i : Nat) : ¬ (Listener.title i).On s d := by
  intro hon
  obtain ⟨⟨item, hitem, -⟩, hnew⟩ := h.heard d _ hd hon
  have hlt := lt_of_getElem? hitem
  exact absurd hnew (by simp [Listener.NewTo]; omega)

/-- **Reactions on a new channel leave a studio grown.** -/
theorem Grown.of_ripple (h : Grown b s) {o : Option (Nat × Value)} (hst : Ripple o c s t) (hc : b.channels.length ≤ c) :
    Grown b t := by
  have hhoused := h.housed hc
  have hchannels := length_of_map_eq hst.listeners
  have hfields := length_of_map_eq hst.plates
  have hitems := length_of_map_eq hst.ports
  have hlayers := length_of_map_eq hst.tables
  obtain ⟨htranquil, hpanel⟩ := hst.tranquil h.tranquil
  refine ⟨htranquil, hpanel ▸ h.numbered, hchannels ▸ h.channels_le, hfields ▸ h.fields_le, hlayers ▸ h.layers_le,
    hitems ▸ h.items_le, hst.forms ▸ h.forms_le, fun d hd => ?_, fun f hf => ?_, fun i hi => ?_, fun i hi => ?_,
    fun l hl => ?_, fun i hi => ?_, fun i hi => ?_, fun heq => ?_, hst.forms ▸ h.forms, fun f y hy => ?_,
    fun f y hf hy => ?_, fun d l hd hl => ?_⟩
  · rw [getElem?_channels_of_eq hst.listeners (hst.lasts hhoused d (by omega))]
    exact h.channels d hd
  · exact (map_getElem?_of_eq hst.plates f).trans (h.plates f hf)
  · exact (map_getElem?_of_eq hst.ports i).trans (h.ports i hi)
  · exact (map_getElem?_of_eq hst.types i).trans (h.types i hi)
  · rw [hst.depths hhoused l fun hon => absurd (h.heard c _ hc hon).2.1 (by omega)]
    exact h.depths l hl
  · rw [hst.levels hhoused i fun hon => absurd (h.heard c _ hc hon).2 (by simp [Listener.NewTo]; omega)]
    exact h.levels i hi
  · rw [hst.signs hhoused i fun hon => absurd (h.heard c _ hc hon).2 (by simp [Listener.NewTo]; omega)]
    exact h.signs i hi
  · have hsame : s.items.length = b.items.length := hitems.symm.trans heq
    rw [hst.names hhoused fun i => h.not_on_title hsame hc i]
    exact h.names hsame
  · obtain ⟨x, hx, hplate⟩ := getElem?_of_map_eq hst.plates hy
    rw [Field.plate_channel hplate, hchannels]
    exact h.sited f x hx
  · obtain ⟨x, hx, hplate⟩ := getElem?_of_map_eq hst.plates hy
    rw [Field.plate_channel hplate]
    exact h.fresh f x hf hx
  · refine ⟨hst.housed (h.housed hd) l hl, ?_⟩
    have hnew := (h.heard d l hd (on_of_listeners hst.listeners hl)).2
    cases l
    case layer n p => exact ⟨hnew.1, hlayers ▸ hnew.2⟩
    all_goals exact hnew

/-! ### Joining channels -/

theorem grown_emit (hc : b.channels.length ≤ c) (n : Nat) (v : Value) :
    Within (Upholds (Grown b)) ((Reactions.upTo n).emit c v) :=
  fun s h => h.of_ripple ((rippling_upTo n).emit c v s).toRipple hc

theorem Grown.join (h : Grown b s) (hc : b.channels.length ≤ c) {ch : Channel Listener}
    (hch : s.channels[c]? = some ch) (hhoused : l.Housed s c) (hnew : l.NewTo b s) :
    Grown b (s.join c ch l) := by
  have hlength : (s.join c ch l).channels.length = s.channels.length := length_set
  refine { h with
    channels_le := hlength ▸ h.channels_le, channels := fun d hd => ?_
    sited := fun f x hx => hlength ▸ h.sited f x hx, heard := fun d k hd hk => ?_ }
  · show (s.channels.set c _)[d]? = _
    rw [getElem?_set_ne (by omega)]
    exact h.channels d hd
  · obtain hk | ⟨rfl, rfl⟩ := on_join hch hk
    · exact h.heard d k hd hk
    · exact ⟨hhoused, hnew⟩

/-- **A new part joins a new channel.** -/
theorem Grown.connect (h : Grown b s) (hc : b.channels.length ≤ c) (hhoused : l.Housed s c) (hnew : l.NewTo b s) :
    Grown b ((connect c l).after s) := by
  cases hch : s.channels[c]? with
  | none => rwa [after_connect_none hch]
  | some ch =>
    rw [after_connect hch]
    split
    · exact h.join hc hch hhoused hnew
    · exact grown_emit hc _ _ _ (h.join hc hch hhoused hnew)

/-! ### Making fields -/

theorem Grown.withField (h : Grown b s) {x : Field} (hle : b.channels.length ≤ x.channel)
    (hlt : x.channel < s.channels.length) : Grown b (s.withField x) := by
  have hfields := h.fields_le
  refine { h with
    fields_le := ?_, plates := fun f hf => ?_, sited := fun f y hy => ?_, fresh := fun f y hf hy => ?_
    heard := fun d l hd hl => ?_ }
  · show _ ≤ (s.fields ++ [x]).length
    rw [length_append]
    omega
  · show (s.fields ++ [x])[f]?.map _ = _
    rw [getElem?_append_left (by omega)]
    exact h.plates f hf
  · obtain hy | rfl := getElem?_concat_cases hy
    · exact h.sited f y hy
    · exact hlt
  · obtain hy | rfl := getElem?_concat_cases hy
    · exact h.fresh f y hf hy
    · exact hle
  · obtain ⟨hhoused, hnew⟩ := h.heard d l hd hl
    refine ⟨hhoused.of_kept (fun f y hy => ⟨y, ?_, rfl⟩) fun i y hy => ⟨y, hy, rfl⟩, hnew⟩
    show (s.fields ++ [x])[f]? = _
    rw [getElem?_append_left (lt_of_getElem? hy)]
    exact hy

theorem Grown.changeField (h : Grown b s) (hf : b.fields.length ≤ f) {g : Field → Field}
    (hg : ∀ x, (g x).channel = x.channel) : Grown b ((changeField f g).after s) := by
  have hcases : ∀ (e : Nat) (y : Field), (s.fields.modify f g)[e]? = some y →
      ∃ x, s.fields[e]? = some x ∧ y.channel = x.channel := by
    intro e y hy
    rw [getElem?_modify] at hy
    obtain ⟨x, hx, rfl⟩ := Option.map_eq_some_iff.mp hy
    refine ⟨x, hx, ?_⟩
    split
    · exact hg x
    · rfl
  refine { h with
    fields_le := ?_, plates := fun e he => ?_, sited := fun e y hy => ?_, fresh := fun e y he hy => ?_
    heard := fun d l hd hl => ?_ }
  · show _ ≤ (s.fields.modify f g).length
    rw [length_modify]
    exact h.fields_le
  · show (s.fields.modify f g)[e]?.map _ = _
    have hne : f ≠ e := by omega
    simpa [hne] using h.plates e he
  · obtain ⟨x, hx, heq⟩ := hcases e y hy
    rw [heq]
    exact h.sited e x hx
  · obtain ⟨x, hx, heq⟩ := hcases e y hy
    rw [heq]
    exact h.fresh e x he hx
  · obtain ⟨hhoused, hnew⟩ := h.heard d l hd hl
    refine ⟨hhoused.of_kept (fun e x hx => ?_) fun i y hy => ⟨y, hy, rfl⟩, hnew⟩
    refine ⟨if f = e then g x else x, ?_, ?_⟩
    · show (s.fields.modify f g)[e]? = _
      rw [getElem?_modify, hx]
      rfl
    · split
      · exact hg x
      · rfl

theorem grown_enter (hf : b.fields.length ≤ f) (n : Nat) (v : Value) (finish : Bool) :
    Within (Upholds (Grown b)) (enter (Reactions.upTo n) f v finish) := by
  intro s h
  cases hx : s.fields[f]? with
  | none => rwa [after_enter_none _ hx]
  | some x => exact h.of_ripple (surge_enter (rippling_upTo n) hx v finish).toRipple (h.fresh f x hf hx)

theorem Grown.makeField (h : Grown b s) (hc : b.channels.length ≤ c) (hlt : c < s.channels.length) (name : String)
    (v : Value) (description : String) (kind : Kind) :
    Grown b ((makeField name v description kind c).after s) := by
  have hf : b.fields.length ≤ s.fields.length := h.fields_le
  refine after_makeField_of (R := Upholds (Grown b)) (fun x hx h => h.withField (hx ▸ hc) (hx ▸ hlt)) (fun x hx h => ?_)
    (fun _ h => h.connect hc trivial trivial) (grown_emit hc depth) (fun _ _ h => h.changeField hf fun _ => rfl)
    (grown_enter hf _ · true) name v description kind h
  exact h.connect hc ⟨x, getElem?_withField s x, hx⟩ trivial

/-! ### Filling forms -/

theorem Grown.withChannel (h : Grown b s) : Grown b s.withChannel := by
  have hle := h.channels_le
  have hlength : s.withChannel.channels.length = s.channels.length + 1 := by simp [Studio.withChannel]
  refine { h with
    channels_le := by omega, channels := fun d hd => ?_
    sited := fun f x hx => hlength ▸ Nat.lt_succ_of_lt (h.sited f x hx), heard := fun d l hd hl => ?_ }
  · show (s.channels ++ [({} : Channel Listener)])[d]? = _
    rw [getElem?_append_left (by omega)]
    exact h.channels d hd
  · obtain ⟨ch, hch, hmem⟩ := hl
    obtain hch | rfl := getElem?_concat_cases hch
    · exact h.heard d l hd ⟨ch, hch, hmem⟩
    · -- nobody has joined the new channel
      exact absurd hmem not_mem_nil

theorem Grown.changeForm (h : Grown b s) (n : Nat) {g : Form → Form}
    (hg : ∀ x, ∀ e ∈ (g x).fields, e ∈ x.fields ∨ b.fields.length ≤ e.2) : Grown b ((changeForm n g).after s) := by
  refine { h with forms_le := ?_, forms := fun m x hm hx e he => ?_ }
  · show _ ≤ (s.forms.modify n g).length
    rw [length_modify]
    exact h.forms_le
  · have hx' : (s.forms.modify n g)[m]? = some x := hx
    rw [getElem?_modify] at hx'
    obtain ⟨y, hy, rfl⟩ := Option.map_eq_some_iff.mp hx'
    split at he
    · exact (hg y e he).elim (h.forms m y hm hy e) id
    · exact h.forms m y hm hy e he

theorem Grown.addField (h : Grown b s) (hc : b.channels.length ≤ c) (hlt : c < s.channels.length)
    {title description : String} {v : Value} {kind : Kind} (hown : kind.isChoice = true → s.channels[c]? = some {})
    (hrun : (addField form title v description kind c).run s = .ok () t) : Grown b t := by
  have hmade := h.makeField hc hlt title v description kind
  obtain ⟨f, s', hfield, hrest⟩ := exists_of_run_bind_ok hrun
  obtain ⟨rfl, -⟩ := exists_made hown hfield
  rw [after_of_ok hfield] at hmade
  rw [← after_of_ok hrest]
  have hrecorded := hmade.changeField (f := s.fields.length) (g := fun x => { x with recorded := true })
    h.fields_le fun _ => rfl
  refine hrecorded.changeForm form fun x e he => ?_
  refine (mem_assign he).imp_right fun heq => ?_
  rw [heq]
  exact h.fields_le

theorem Grown.of_pile (h : Grown b s) (hpile : t.pile = s.pile) (hnames : t.explorer.names = s.explorer.names)
    (htranquil : t.Tranquil)
    (hnumbered : ∀ e ∈ t.panel.pages.registry, ∃ n : Int, e.1 = .int n) (hle : b.forms.length ≤ t.forms.length)
    (hforms : ∀ (n : Nat) (x : Form), b.forms.length ≤ n → t.forms[n]? = some x →
      ∀ e ∈ x.fields, b.fields.length ≤ e.2) : Grown b t := by
  cases s
  cases t
  simp only [pile, Studio.mk.injEq] at hpile
  obtain ⟨-, rfl, rfl, rfl, rfl, -⟩ := hpile
  exact { h with
    tranquil := htranquil, numbered := hnumbered, forms_le := hle, forms := hforms
    names := fun heq => hnames.trans (h.names heq) }

theorem Grown.of_retains (h : Grown b s) (hst : Retains 0 s t) (hpile : t.pile = s.pile)
    (hnames : t.explorer.names = s.explorer.names) : Grown b t := by
  obtain ⟨htranquil, hpanel⟩ := hst.tranquil h.tranquil
  exact h.of_pile hpile hnames htranquil (hpanel ▸ h.numbered) (hst.forms ▸ h.forms_le) (hst.forms ▸ h.forms)

theorem Grown.of_opened {layer : String} {id : Int} (h : Grown b s) (hst : Opened layer (.int id) s t) : Grown b t := by
  obtain ⟨old, hregistry, hsub, -⟩ := hst.registry
  have hforms_le := h.forms_le
  have hpile : t.pile = s.pile := by rw [pile, pile, hst.channels, hst.fields, hst.items, hst.layers]
  refine h.of_pile hpile (by rw [hst.explorer]) hst.tranquil (fun e he => ?_) ?_ fun n x hn hx => ?_
  · rw [hregistry, mem_append, mem_singleton] at he
    obtain he | rfl := he
    · exact h.numbered e (hsub.subset he)
    · exact ⟨id, rfl⟩
  · rw [hst.forms, length_append]
    omega
  · rw [hst.forms] at hx
    obtain hx | rfl := getElem?_concat_cases hx
    · exact h.forms n x hn hx
    · exact fun e he => absurd he not_mem_nil

theorem Grown.channelUnder (h : Grown b s) {n : Nat} (hn : b.forms.length ≤ n) {title : Value}
    (hrun : (channelUnder n title).run s = .ok c t) :
    b.channels.length ≤ c ∧ c < s.channels.length := by
  cases title
  case text title =>
    change (part Studio.forms n >>= _).run s = _ at hrun
    obtain ⟨form, s', hform, hread⟩ := exists_of_run_bind_ok hrun
    obtain ⟨hform, rfl⟩ := eq_of_run_part hform
    cases hlookup : form.fields.lookup title with
    | none =>
      rw [hlookup] at hread
      cases hread
    | some f =>
      rw [hlookup] at hread
      obtain ⟨x, s'', hx, hpure⟩ := exists_of_run_bind_ok hread
      obtain ⟨hx, rfl⟩ := eq_of_run_part hx
      obtain ⟨rfl, -⟩ := Result.ok.inj hpure
      have hf : b.fields.length ≤ f := h.forms n form hn hform _ (mem_of_lookup hlookup)
      exact ⟨h.fresh f x hf hx, h.sited f x hx⟩
  case tuple xs =>
    unfold Studio.channelUnder at hrun
    dsimp only at hrun
    split at hrun <;> cases hrun
  all_goals cases hrun

/-! ### Adding layers and items -/

theorem Grown.withLayer (h : Grown b s) (x : Layer) : Grown b { s with layers := s.layers ++ [x] } := by
  have hle := h.layers_le
  refine { h with layers_le := ?_, depths := fun l hl => ?_, heard := fun d l hd hl => ?_ }
  · show _ ≤ (s.layers ++ [x]).length
    rw [length_append]
    omega
  · show (s.layers ++ [x])[l]?.map Layer.depth = _
    rw [getElem?_append_left (by omega)]
    exact h.depths l hl
  · obtain ⟨hhoused, hnew⟩ := h.heard d l hd hl
    refine ⟨hhoused, ?_⟩
    cases l
    case layer l p =>
      refine ⟨hnew.1, ?_⟩
      show l < (s.layers ++ [x]).length
      rw [length_append]
      exact Nat.lt_add_right _ hnew.2
    all_goals exact hnew

theorem Grown.withItem (h : Grown b s) (x : Item) : Grown b { s with items := s.items ++ [x] } := by
  have hle := h.items_le
  have hold : ∀ i < b.items.length, (s.items ++ [x])[i]? = s.items[i]? :=
    fun i hi => getElem?_append_left (by omega)
  refine { h with
    items_le := ?_, ports := fun i hi => ?_, types := fun i hi => ?_, levels := fun i hi => ?_, signs := fun i hi => ?_
    names := fun heq => ?_, heard := fun d l hd hl => ?_ }
  · show _ ≤ (s.items ++ [x]).length
    rw [length_append]
    omega
  · exact (congrArg _ (hold i hi)).trans (h.ports i hi)
  · exact (congrArg _ (hold i hi)).trans (h.types i hi)
  · exact (congrArg _ (hold i hi)).trans (h.levels i hi)
  · exact (congrArg _ (hold i hi)).trans (h.signs i hi)
  · have hlength : (s.items ++ [x]).length = b.items.length := heq
    rw [length_append, length_singleton] at hlength
    omega
  · obtain ⟨hhoused, hnew⟩ := h.heard d l hd hl
    refine ⟨hhoused.of_kept (fun f y hy => ⟨y, hy, rfl⟩) fun i y hy => ⟨y, ?_, rfl⟩, hnew⟩
    show (s.items ++ [x])[i]? = _
    rw [getElem?_append_left (lt_of_getElem? hy)]
    exact hy

theorem Grown.onLayer {α : Type} (h : Grown b s) {l : Nat} (hl : b.layers.length ≤ l) (act : Layer.Act α) :
    Grown b ((onLayer l act).after s) := by
  rw [after_onLayer]
  have hlength : (s.layers.modify l act.after).length = s.layers.length := length_modify ..
  refine { h with layers_le := ?_, depths := fun k hk => ?_, heard := fun d k hd hk => ?_ }
  · exact hlength ▸ h.layers_le
  · show (s.layers.modify l _)[k]?.map Layer.depth = _
    rw [getElem?_modify_ne _ _ (by omega)]
    exact h.depths k hk
  · obtain ⟨hhoused, hnew⟩ := h.heard d k hd hk
    refine ⟨hhoused, ?_⟩
    cases k
    case layer k p => exact ⟨hnew.1, hlength ▸ hnew.2⟩
    all_goals exact hnew

/-! ### Growing further -/

theorem Grown.self (h : Grown b s) : Grown s s := by
  refine ⟨h.tranquil, h.numbered, Nat.le_refl _, Nat.le_refl _, Nat.le_refl _, Nat.le_refl _, Nat.le_refl _,
    fun _ _ => rfl, fun _ _ => rfl, fun _ _ => rfl, fun _ _ => rfl, fun _ _ => rfl, fun _ _ => rfl, fun _ _ => rfl,
    fun _ => rfl, fun n x hn hx => ?_,
    h.sited, fun f x hf hx => ?_, fun d l hd hl => ?_⟩
  · exact absurd (lt_of_getElem? hx) (by omega)
  · exact absurd (lt_of_getElem? hx) (by omega)
  · obtain ⟨ch, hch, -⟩ := hl
    exact absurd (lt_of_getElem? hch) (by omega)

theorem getElem?_of_map_getElem? {α β : Type} {g : α → β} {xs ys : List α} {n : Nat} {x : α}
    (h : ys[n]?.map g = xs[n]?.map g) (hx : xs[n]? = some x) : ∃ y, ys[n]? = some y ∧ g y = g x := by
  rw [hx, Option.map_some, Option.map_eq_some_iff] at h
  exact h

theorem Grown.housed_of (h : Grown b s) (hl : l.Housed b d) : l.Housed s d := by
  refine hl.of_kept (fun f x hx => ?_) fun i x hx => ?_
  · obtain ⟨y, hy, hplate⟩ := getElem?_of_map_getElem? (h.plates f (lt_of_getElem? hx)) hx
    exact ⟨y, hy, Field.plate_channel hplate⟩
  · exact getElem?_of_map_getElem? (h.ports i (lt_of_getElem? hx)) hx

theorem Grown.on_of (h : Grown b s) (hd : d < b.channels.length) (hl : l.On s d) :
    l.On b d := by
  obtain ⟨ch, hch, hmem⟩ := hl
  exact ⟨ch, (h.channels d hd).symm.trans hch, hmem⟩

theorem grown_of_heard (htranquil : s.Tranquil) (hnumbered : ∀ e ∈ s.panel.pages.registry, ∃ n : Int, e.1 = .int n)
    (hnames : s.items.length = 0 → s.explorer.names = [])
    (hsited : ∀ (f : Nat) (x : Field), s.fields[f]? = some x → x.channel < s.channels.length)
    (hheard : ∀ (d : Nat) (l : Listener), l.On s d → l.Housed s d ∧ ∀ n p, l = .layer n p → n < s.layers.length) :
    Grown {} s := by
  refine ⟨htranquil, hnumbered, Nat.zero_le _, Nat.zero_le _, Nat.zero_le _, Nat.zero_le _, Nat.zero_le _, nofun, nofun,
    nofun, nofun, nofun, nofun, nofun, hnames, fun _ _ _ _ _ _ => Nat.zero_le _, hsited,
    fun _ _ _ _ => Nat.zero_le _, fun d l _ hl => ?_⟩
  obtain ⟨hhoused, hlayer⟩ := hheard d l hl
  refine ⟨hhoused, ?_⟩
  cases l
  case layer n p => exact ⟨Nat.zero_le _, hlayer n p rfl⟩
  case level | title => exact Nat.zero_le _
  all_goals exact trivial

/-- **What has grown from the beginning, and further, has grown from the beginning.** -/
theorem Grown.trans (hb : Grown {} b) (h : Grown b s) : Grown {} s := by
  refine grown_of_heard h.tranquil h.numbered (fun hnone => ?_) h.sited fun d l hl => ?_
  · have hitems_le := h.items_le
    have hb' : b.items.length = 0 := by omega
    rw [h.names (hnone.trans hb'.symm), hb.names hb']
  obtain hlt | hge := Nat.lt_or_ge d b.channels.length
  · obtain ⟨hhoused, hnew⟩ := hb.heard d l (Nat.zero_le _) (h.on_of hlt hl)
    refine ⟨h.housed_of hhoused, ?_⟩
    rintro n p rfl
    exact Nat.lt_of_lt_of_le hnew.2 h.layers_le
  · obtain ⟨hhoused, hnew⟩ := h.heard d l hge hl
    refine ⟨hhoused, ?_⟩
    rintro n p rfl
    exact hnew.2

theorem grown_empty : Grown {} {} :=
  grown_of_heard nofun nofun (fun _ => rfl) nofun fun _ _ ⟨_, hch, _⟩ => by cases hch

end WatchFace.Studio
