import WatchFace.Proofs.Number.Doubles
import WatchFace.Proofs.Studio.Ripples
import WatchFace.Studio.Forms

/-!
# The stacking order

The depth of a layer and the place of an item follow one channel, and whoever changes the place of an item tells the
channel, so that depth and place go together.
-/

namespace WatchFace

open EStateM List

variable {x : Float} {v : Value} {L α β : Type} {o : Option (Nat × Value)} {c d n : Nat} {k : Studio.Listener}
  {ch : Channel Studio.Listener}

/-! ### Ranks -/

/-- The value stands for the double in the stacking order: it is carried as the double, and equals it. -/
structure Value.Ranks (v : Value) (x : Float) : Prop where
  carried : v.carried = .float x
  same : (Value.float x == v) = true
  double : (Value.float x == Value.float x) = true
  own : (v == v) = true

def Value.IsRank (v : Value) : Prop := ∃ x, v.Ranks x

theorem Value.ranks_zero : (Value.int 0).Ranks 0 := by
  have hzero : Number.ofInt? 0 = some 0 := by decide +kernel
  refine ⟨?_, by decide +kernel, by decide +kernel, by decide +kernel⟩
  rw [carried, hzero]
  rfl

theorem Value.float_beq_self (h : (Number.Exact.ofFloat? x).isSome) : (Value.float x == Value.float x) = true := by
  show ((if x < x then some Ordering.lt else if x < x then some .gt else if x == x then some .eq else Option.none) ==
    some .eq) = true
  rw [if_neg (Number.lt_irrefl x), if_neg (Number.lt_irrefl x), if_pos (Number.beq_self h)]
  rfl

theorem Value.Ranks.float (h : v.Ranks x) : (Value.float x).Ranks x :=
  ⟨rfl, h.double, h.double, h.double⟩

theorem Value.emit_of_carried (hcarried : v.carried = .float x) (ch : Channel L) :
    (ch.emit v).2 = .ok (ch.numbers, .float x) := by
  cases v with
  | int n =>
    cases hn : Number.ofInt? n with
    | none => simp [Value.carried, hn] at hcarried
    | some y =>
      simp only [Value.carried, hn, Option.map_some, Option.getD_some, Value.float.injEq] at hcarried
      simp [Channel.emit, Channel.route, hn, hcarried]
  | float y =>
    obtain rfl := Value.float.inj hcarried
    rfl
  | _ => cases hcarried

theorem Field.exists_clamp_int (low high n : Int) (step : Value) :
    ∃ m : Int, clamp (.limits (.int low) (.int high) step) (.int n) = .ok (.int m) := by
  have hless : ∀ a b : Int, ∃ c, (Value.int a).less (.int b) = .ok c := fun _ _ => ⟨_, rfl⟩
  have hmost : ∃ m : Int, atMost (.int n) (.int high) = .ok (.int m) := by
    obtain ⟨c, hc⟩ := hless high n
    rw [atMost, hc]
    cases c <;> exact ⟨_, rfl⟩
  obtain ⟨m, hm⟩ := hmost
  obtain ⟨c, hc⟩ := hless m low
  show ∃ k : Int, (atMost (.int n) (.int high) >>= fun w => atLeast w (.int low)) = .ok (.int k)
  rw [hm]
  show ∃ k : Int, atLeast (.int m) (.int low) = .ok (.int k)
  rw [atLeast, hc]
  cases c <;> exact ⟨_, rfl⟩

theorem Field.exists_of_read_order {x : Field} (hkind : x.kind = Catalog.order) {new : Value}
    (h : x.read v = (true, new)) : ∃ n : Int, x.convert new = .ok (.int n) := by
  have hreading : x.kind.reading = .whole := by
    rw [hkind]
    decide +kernel
  have hconvert : ∀ w : Value, x.convert w = w.toInt.map .int := by
    intro w
    simp only [convert, hreading]
  unfold read at h
  rw [hconvert, hkind] at h
  cases hint : v.toInt with
  | error e =>
    rw [hint] at h
    cases h
  | ok n =>
    obtain ⟨m, hm⟩ := exists_clamp_int 0 5000 n (.int 1)
    have hclamp : (Except.map Value.int (.ok n) >>= clamp Catalog.order : Except Fault Value) = .ok (.int m) := hm
    rw [hint, hclamp] at h
    obtain ⟨-, rfl⟩ := Prod.mk.inj h
    exact ⟨m, hconvert _⟩

namespace Studio

/-! ### Rows -/

structure Row where
  channel : Nat
  layer : Nat
  item : Nat
  deriving Repr, DecidableEq

namespace Row

variable (s : Studio) (r : Row)

/-- Nobody else has a depth or a place from the channel of the row, and the fields on it hold places. -/
structure Sole : Prop where
  housed : s.Housed r.channel
  layer : r.layer < s.layers.length
  layers : ∀ l, (Listener.layer l .order).On s r.channel → l = r.layer
  items : ∀ i, (Listener.level i).On s r.channel → i = r.item
  unnamed : s.Unnamed r.channel
  fields : ∀ (f : Nat) (x : Field), s.fields[f]? = some x → x.channel = r.channel → x.kind = Catalog.order

def Drawn (x : Float) : Prop := s.depth? r.layer = some (.float (Float.ofInt Layer.ground + x))

def Placed (x : Float) : Prop := ∃ v, s.level? r.item = some v ∧ (Value.float x == v) = true

/-- The place of the item, should there be one, stands for a double. -/
def Ranked : Prop := ∀ v, s.level? r.item = some v → v.IsRank

end Row

variable {r : Row} {s t u : Studio}

theorem Ripple.layers_length (h : Ripple o c s t) : t.layers.length = s.layers.length := length_of_map_eq h.tables

theorem Row.Sole.of_ripple (h : r.Sole s) (hst : Ripple o c s t) : r.Sole t where
  housed := hst.housed h.housed
  layer := hst.layers_length ▸ h.layer
  layers l hl := h.layers l (on_of_listeners hst.listeners hl)
  items i hi := h.items i (on_of_listeners hst.listeners hi)
  unnamed i hi := h.unnamed i (on_of_listeners hst.listeners hi)
  fields f y hy hchannel := by
    obtain ⟨x, hx, hplate⟩ := getElem?_of_map_eq hst.plates hy
    rw [Field.plate_kind hplate]
    exact h.fields f x hx ((Field.plate_channel hplate).symm.trans hchannel)

/-! ### What a row makes of a value -/

/-- A double on the channel of a row was heard by those in the list: the layer and the item among them are where it
    says, and those that were there stay. -/
structure Row.Settles (r : Row) (x : Float) (ls : List Listener) (s t : Studio) : Prop where
  ripple : Ripple none r.channel s t
  drawn : r.Drawn s x ∨ .layer r.layer .order ∈ ls → r.Drawn t x
  placed : .level r.item ∈ ls → r.Placed t x
  stays : r.Placed s x → t.level? r.item = s.level? r.item
  ranked : r.Ranked s → r.Ranked t

theorem Row.Placed.of_eq (h : r.Placed s x) (hlevel : t.level? r.item = s.level? r.item) : r.Placed t x := by
  rwa [Row.Placed, hlevel]

variable {x : Float} {ls ks : List Listener}

theorem Row.settles_of_eq (hripple : Ripple none r.channel s t) (hdepth : t.depth? r.layer = s.depth? r.layer)
    (hlevel : t.level? r.item = s.level? r.item) (hlayer : .layer r.layer .order ∉ ls) (hitem : .level r.item ∉ ls) :
    r.Settles x ls s t where
  ripple := hripple
  drawn h := by
    rw [Row.Drawn, hdepth]
    exact h.resolve_right hlayer
  placed h := absurd h hitem
  stays _ := hlevel
  ranked h := by
    rw [Row.Ranked, hlevel]
    exact h

theorem Row.Settles.refl (r : Row) (x : Float) (s : Studio) : r.Settles x [] s s :=
  settles_of_eq (Ripple.refl _ _ s) rfl rfl not_mem_nil not_mem_nil

theorem Row.Settles.trans (hst : r.Settles x ls s t) (htu : r.Settles x ks t u) : r.Settles x (ls ++ ks) s u where
  ripple := hst.ripple.trans htu.ripple
  drawn h := by
    rw [mem_append, ← or_assoc] at h
    exact htu.drawn (h.imp_left hst.drawn)
  placed h := by
    obtain h | h := mem_append.mp h
    · exact (hst.placed h).of_eq (htu.stays (hst.placed h))
    · exact htu.placed h
  stays h := (htu.stays (h.of_eq (hst.stays h))).trans (hst.stays h)
  ranked h := htu.ranked (hst.ranked h)

theorem depth?_onLayer {act : Layer.Act α} (hact : Within (Keeps Layer.depth) act) (s : Studio) (l k : Nat) :
    ((onLayer l act).after s).depth? k = s.depth? k := by
  rw [after_onLayer]
  exact map_getElem?_of_eq (map_modify_of_eq hact s.layers l) k

theorem level?_onLayer (act : Layer.Act α) (s : Studio) (l i : Nat) :
    ((onLayer l act).after s).level? i = s.level? i := by
  rw [after_onLayer]
  rfl

theorem keeps_depth_hear (families : Font.Families) {p : Layer.Part} {o : Option Value}
    (h : p ≠ .order ∨ o = none) : Within (Keeps Layer.depth) (Layer.hear families p o) := by
  intro l
  by_cases hp : p = .order
  · obtain rfl := h.resolve_left fun hne => hne hp
    subst hp
    rfl
  · exact congrArg Prod.snd (Layer.keeps_hear_of_ne families hp o l)

theorem ripple_withLevel {item : Item} {i : Nat} (hi : s.items[i]? = some item) (hon : (Listener.level i).On s c)
    (v : Value) : Ripple none c s (s.withLevel i item v) ∧ (s.withLevel i item v).level? i = some v := by
  have hripple : Ripple none c s ((changeItem i fun x => { x with level := v }).after s) :=
    ripple_changeItem i (fun _ => rfl) (fun _ => rfl) (fun _ => rfl) (.inr hon) (.inl fun _ => rfl)
  rw [withLevel, ← modify_eq_set hi fun x => { x with level := v }]
  exact ⟨hripple, by simp [level?, hi]⟩

section

variable {n : Nat} (hsole : r.Sole s) (hx : (Value.float x).Ranks x)
  (hemit : ∀ t, r.Sole t → r.Settles x [] t (((Reactions.upTo n).emit r.channel (.float x)).after t))

include hsole hx hemit

theorem Row.settles_setLevel (hon : (Listener.level r.item).On s r.channel) :
    r.Settles x [.level r.item] s ((setLevel (Reactions.upTo n) r.item (.float x)).after s) := by
  obtain ⟨item, hitem, hlevels⟩ := hsole.housed _ hon
  have hlevel : s.level? r.item = some item.level := by rw [level?, hitem, Option.map_some]
  have hrun := run_setLevel (.upTo n) hitem (.float x)
  by_cases hsame : (Value.float x == item.level) = true
  · rw [if_pos hsame] at hrun
    rw [after_of_ok hrun]
    exact ⟨Ripple.refl _ _ s, fun h => h.resolve_right (by simp), fun _ => ⟨item.level, hlevel, hsame⟩,
      fun _ => rfl, id⟩
  · rw [if_neg hsame, hlevels] at hrun
    obtain ⟨hripple, hnew⟩ := ripple_withLevel hitem hon (.float x)
    have hst : r.Settles x [.level r.item] s (s.withLevel r.item item (.float x)) := by
      refine ⟨hripple, fun h => h.resolve_right (by simp), fun _ => ⟨_, hnew, hx.same⟩, fun h => ?_, fun _ v hv => ?_⟩
      · obtain ⟨v, hv, heq⟩ := h
        rw [hlevel] at hv
        exact absurd (Option.some.inj hv ▸ heq) hsame
      · rw [hnew] at hv
        exact ⟨x, Option.some.inj hv ▸ hx⟩
    rw [after_congr hrun]
    exact hst.trans (hemit _ (hsole.of_ripple hripple))

theorem Row.settles_hear (hk : k.On s r.channel) :
    r.Settles x [k] s ((hear (Reactions.upTo n) k (some (.float x))).after s) := by
  have hripple := (surge_hear (rippling_upTo n) hk (some (.float x))).toRipple
  cases k with
  | field f =>
    obtain ⟨y, hy, hchannel⟩ := hsole.housed _ hk
    have hkind := hsole.fields f y hy hchannel
    have hrun := run_receive hy (run_setValue (Reactions.upTo n) hy (by rw [hkind]; rfl) (.float x))
    have hafter : (hear (Reactions.upTo n) (.field f) (some (.float x))).after s = _ := after_of_ok hrun
    rw [hafter] at hripple ⊢
    exact settles_of_eq hripple rfl rfl (by simp) (by simp)
  | caption | observer => exact settles_of_eq hripple rfl rfl (by simp) (by simp)
  | title i => exact absurd hk (hsole.unnamed i)
  | level i =>
    obtain rfl := hsole.items i hk
    exact settles_setLevel hsole hx hemit hk
  | layer l p =>
    let act := Layer.hear s.families p (some (.float x))
    have hafter : (hear (Reactions.upTo n) (.layer l p) (some (.float x))).after s = (onLayer l act).after s := rfl
    have hlevel : ((onLayer l act).after s).level? r.item = s.level? r.item := level?_onLayer act s l r.item
    rw [hafter] at hripple ⊢
    by_cases hp : p = .order
    · subst hp
      obtain rfl := hsole.layers l hk
      obtain ⟨y, hy⟩ : ∃ y, s.layers[r.layer]? = some y := ⟨_, getElem?_eq_getElem hsole.layer⟩
      have hdepth : ((onLayer r.layer act).after s).depth? r.layer =
          some (.float (Float.ofInt Layer.ground + x)) := by
        rw [after_onLayer, modify_eq_set hy]
        show ((s.layers.set r.layer _)[r.layer]?).map Layer.depth = _
        rw [getElem?_set_self hsole.layer]
        rfl
      refine ⟨hripple, fun _ => hdepth, fun h => absurd h (by simp), fun _ => hlevel, fun h => ?_⟩
      rw [Row.Ranked, hlevel]
      exact h
    · refine settles_of_eq hripple (depth?_onLayer (keeps_depth_hear _ (.inl hp)) s l r.layer) hlevel ?_ (by simp)
      intro h
      cases mem_singleton.mp h
      exact hp rfl

end

theorem Row.settles_hear_none (hk : k.On s r.channel) :
    r.Settles x [] s ((hear (Reactions.upTo n) k none).after s) := by
  cases k with
  | layer l p =>
    let act := Layer.hear s.families p none
    have hdepth : ((onLayer l act).after s).depth? r.layer = s.depth? r.layer :=
      depth?_onLayer (keeps_depth_hear _ (.inr rfl)) s l r.layer
    have hlevel : ((onLayer l act).after s).level? r.item = s.level? r.item := level?_onLayer act s l r.item
    exact settles_of_eq (surge_hear (rippling_upTo n) hk none).toRipple hdepth hlevel not_mem_nil not_mem_nil
  | _ => exact .refl r x s

section

variable {n : Nat} (hsole : r.Sole s) (hx : (Value.float x).Ranks x)
  (hemit : ∀ t, r.Sole t → r.Settles x [] t (((Reactions.upTo n).emit r.channel (.float x)).after t))

include hsole hx hemit

theorem Row.settles_attempt (hk : k.On s r.channel) :
    r.Settles x [k] s ((attempt (hear (Reactions.upTo n)) (.float x) k).after s) := by
  have hheard := settles_hear hsole hx hemit hk
  unfold attempt
  cases hrun : (hear (Reactions.upTo n) k (some (.float x))).run s with
  | ok a t =>
    rw [after_of_ok hrun] at hheard
    rwa [after_of_ok (run_tryCatch_ok hrun)]
  | error e t =>
    rw [after_of_error hrun] at hheard
    rw [after_congr (run_tryCatch_error hrun)]
    split
    · have hnone : r.Settles x [] t ((hear (Reactions.upTo n) k none).after t) :=
        settles_hear_none (hheard.ripple.on hk)
      show r.Settles x [k] s ((calmly (hear (Reactions.upTo n) k none)).after t)
      rw [after_of_ok (run_calmly _ t)]
      exact hheard.trans hnone
    · exact hheard

theorem Row.settles_announce (hls : ∀ k ∈ ls, k.On s r.channel) :
    r.Settles x ls s ((announce (hear (Reactions.upTo n)) (.float x) ls).after s) := by
  induction ls generalizing s with
  | nil => exact .refl r x s
  | cons k ks ih =>
    have hfirst := settles_attempt hsole hx hemit (hls k mem_cons_self)
    obtain ⟨t, hrun⟩ := exists_run_attempt (hear (Reactions.upTo n)) (.float x) k s
    rw [after_of_ok hrun] at hfirst
    have hrest := ih (hsole.of_ripple hfirst.ripple) fun l hl => hfirst.ripple.on (hls l (mem_cons_of_mem k hl))
    show r.Settles x (k :: ks) s ((attempt _ _ k >>= fun _ => announce _ _ ks).after s)
    rw [after_bind_ok hrun]
    exact hfirst.trans hrest

end

theorem Row.settles_emit_next (hx : (Value.float x).Ranks x) (hemit : ∀ t, r.Sole t →
      r.Settles x [] t (((Reactions.upTo n).emit r.channel (.float x)).after t)) (hsole : r.Sole s)
    (hch : s.channels[r.channel]? = some ch) (hv : v.carried = .float x) :
    r.Settles x ch.numbers s (((Reactions.upTo (n + 1)).emit r.channel v).after s) := by
  have hripple : Ripple none r.channel s (s.remember r.channel ch v) := ripple_remember hch v
  have hremember : r.Settles x [] s (s.remember r.channel ch v) := { Settles.refl r x s with ripple := hripple }
  have hon : ∀ k ∈ ch.numbers, k.On (s.remember r.channel ch v) r.channel :=
    fun k hk => hripple.on ⟨ch, hch, by simp [Channel.listeners, hk]⟩
  have hall := settles_announce (hsole.of_ripple hripple) hx hemit hon
  show r.Settles x ch.numbers s (((Reactions.upTo n).next.emit r.channel v).after s)
  rw [after_congr (run_emit_heard _ hch (Value.emit_of_carried hv ch))]
  exact hremember.trans hall

/-- **What the channel of a row carries leaves a row that is settled so**, however deep the reactions nest. -/
theorem Row.settles_upTo (hx : (Value.float x).Ranks x) (n : Nat) (hsole : r.Sole s) :
    r.Settles x [] s (((Reactions.upTo n).emit r.channel (.float x)).after s) := by
  induction n generalizing s with
  | zero => exact .refl r x s
  | succ n ih =>
    cases hch : s.channels[r.channel]? with
    | none =>
      show r.Settles x [] s (((Reactions.upTo n).next.emit r.channel (.float x)).after s)
      rw [after_emit_next_none _ hch]
      exact .refl r x s
    | some ch =>
      have hall := settles_emit_next hx (fun _ => ih) hsole hch hx.carried
      exact { hall with
        drawn := fun h => hall.drawn (h.imp_right (absurd · not_mem_nil))
        placed := fun h => absurd h not_mem_nil }

/-- **A value that is carried as a double settles all who hear numbers on the channel.** -/
theorem Row.settles_emit (hsole : r.Sole s) (hch : s.channels[r.channel]? = some ch) (hv : v.carried = .float x)
    (hx : (Value.float x).Ranks x) (n : Nat) :
    r.Settles x ch.numbers s (((Reactions.upTo (n + 1)).emit r.channel v).after s) :=
  settles_emit_next hx (fun _ => settles_upTo hx n) hsole hch hv

/-! ### Stacks -/

structure Row.Wired (s : Studio) (r : Row) : Prop extends r.Sole s where
  channel : ∃ ch, s.channels[r.channel]? = some ch ∧ .layer r.layer .order ∈ ch.numbers ∧ .level r.item ∈ ch.numbers
  alone : ∀ d, (Listener.layer r.layer .order).On s d → d = r.channel
  item : ∃ item, s.items[r.item]? = some item ∧ item.levels = r.channel ∧ item.isGroup = false

def Row.Agrees (s : Studio) (r : Row) : Prop := ∃ x, r.Drawn s x ∧ r.Placed s x ∧ r.Ranked s

/-- All items of the studio are in rows, each on a channel of its own, and depths and places go together. -/
structure Stacked (rows : List Row) (s : Studio) : Prop where
  housed : ∀ c, s.Housed c
  wired : ∀ r ∈ rows, r.Wired s
  apart : rows.Pairwise fun a b => a.channel ≠ b.channel
  listed : ∀ i < s.items.length, ∃ r ∈ rows, r.item = i
  agrees : ∀ r ∈ rows, r.Agrees s

section

variable {o : Option (Nat × Value)} {c : Nat}

theorem Row.Wired.of_ripple (h : r.Wired s) (hst : Ripple o c s t) : r.Wired t where
  toSole := h.toSole.of_ripple hst
  channel := by
    obtain ⟨ch, hch, hlayer, hitem⟩ := h.channel
    obtain ⟨ch', hch', heq⟩ := getElem?_of_map_eq hst.listeners.symm hch
    have hnumbers : ch.numbers = ch'.numbers := by
      show ch.hushed.numbers = ch'.hushed.numbers
      rw [heq]
    exact ⟨ch', hch', hnumbers ▸ hlayer, hnumbers ▸ hitem⟩
  alone d hd := h.alone d (on_of_listeners hst.listeners hd)
  item := by
    obtain ⟨item, hitem, hlevels, hgroup⟩ := h.item
    obtain ⟨item', hitem', hports⟩ := getElem?_of_map_eq hst.ports.symm hitem
    have htype := congrArg (·[r.item]?) hst.types
    simp only [getElem?_map, hitem, hitem', Option.map_some, Option.some.injEq] at htype
    refine ⟨item', hitem', (congrArg Prod.fst hports).symm.trans hlevels, ?_⟩
    rwa [Item.isGroup, htype]

theorem Row.Wired.level_alone (h : r.Wired s) (hhoused : ∀ c, s.Housed c) (hd : (Listener.level r.item).On s d) :
    d = r.channel := by
  obtain ⟨item, hitem, hlevels, -⟩ := h.item
  obtain ⟨item', hitem', hlevels'⟩ := hhoused d _ hd
  cases hitem.symm.trans hitem'
  exact hlevels'.symm.trans hlevels

theorem Row.Agrees.of_eq (h : r.Agrees s) (hdepth : t.depth? r.layer = s.depth? r.layer)
    (hlevel : t.level? r.item = s.level? r.item) : r.Agrees t := by
  obtain ⟨x, hdrawn, hplaced, hranked⟩ := h
  refine ⟨x, hdepth.trans hdrawn, hplaced.of_eq hlevel, ?_⟩
  rwa [Row.Ranked, hlevel]

variable {rows : List Row}

/-- Reactions on a channel leave a stack, if they leave the row on the channel in order. -/
theorem Stacked.of_ripple (h : Stacked rows s) (hst : Ripple o c s t)
    (hown : ∀ r ∈ rows, r.channel = c → r.Agrees t) : Stacked rows t where
  housed d := hst.housed (h.housed d)
  wired r hr := (h.wired r hr).of_ripple hst
  apart := h.apart
  listed i hi := h.listed i (length_of_map_eq hst.ports ▸ hi)
  agrees r hr := by
    by_cases hc : r.channel = c
    · exact hown r hr hc
    · have hwired := h.wired r hr
      refine (h.agrees r hr).of_eq (hst.depths (h.housed c) _ fun hon => hc (hwired.alone c hon).symm) ?_
      exact hst.levels (h.housed c) _ fun hon => hc (hwired.level_alone h.housed hon).symm

theorem stacked_pile : Stacked rows s.pile ↔ Stacked rows s := by
  constructor
  · intro h
    exact ⟨h.housed, fun r hr => { h.wired r hr with }, h.apart, h.listed, h.agrees⟩
  · intro h
    exact ⟨h.housed, fun r hr => { h.wired r hr with }, h.apart, h.listed, h.agrees⟩

theorem upholds_of_keeps {act : Act α} (h : Within (Keeps pile) act) : Within (Upholds (Stacked rows)) act := by
  intro s hs
  rw [← stacked_pile, h s, stacked_pile]
  exact hs

end

/-! ### What users do -/

section

variable {rows : List Row}

theorem keeps_goBack : Within (Keeps pile) goBack := by
  unfold goBack
  refine within_get.bind fun s => ?_
  dsimp only
  split
  · exact within_throw _
  · refine Within.bind (keeps_modify fun _ => rfl) fun _ => ?_
    split
    · exact within_throw _
    · exact keeps_modify fun _ => rfl

theorem keeps_placeForm (form : Nat) (key : Value) (switch : Bool) :
    Within (Keeps pile) (placeForm form key switch) := by
  refine within_get.bind fun s => Within.bind (keeps_modify fun _ => rfl) fun _ => ?_
  split
  · exact keeps_modify fun _ => rfl
  · exact within_pure _

theorem stacked_setValue (f : Nat) (v : Value) : Within (Upholds (Stacked rows)) (setValue reactions f v) := by
  intro s h
  cases hx : s.fields[f]? with
  | none => rwa [show (setValue reactions f v).after s = s from after_bind_error (run_part_none hx)]
  | some x =>
    refine h.of_ripple (surge_setValue (rippling_upTo depth) hx v).toRipple fun r hr hc => ?_
    -- a field of the row is no choice, so it carries nothing
    have hkind := (h.wired r hr).fields f x hx hc.symm
    rw [after_of_ok (run_setValue reactions hx (by rw [hkind]; rfl) v)]
    exact (h.agrees r hr).of_eq rfl rfl

theorem stacked_takeBack (c : Command) : Within (Upholds (Stacked rows)) (takeBack reactions c) := by
  cases c with
  | change f new old => exact stacked_setValue f old
  | addLayer l => exact upholds_of_keeps (keeps_modify fun _ => rfl)
  | addForm form key switch cancelled =>
    refine upholds_of_keeps ?_
    cases switch with
    | false => exact within_pure _
    | true =>
      refine keeps_goBack.bind fun _ => within_get.bind fun s => ?_
      split
      · exact keeps_goBack
      · exact within_pure _

theorem stacked_carryOut (c : Command) : Within (Upholds (Stacked rows)) (carryOut reactions c) := by
  cases c with
  | change f new old => exact stacked_setValue f new
  | addLayer l => exact upholds_of_keeps (keeps_modify fun _ => rfl)
  | addForm form key switch cancelled => exact upholds_of_keeps (keeps_placeForm form key switch)

theorem stacked_changeHistory (g : History Command → History Command) :
    Within (Upholds (Stacked rows)) (changeHistory g) :=
  upholds_of_keeps (keeps_modify fun _ => rfl)

theorem stacked_undo : Within (Upholds (Stacked rows)) (undo reactions) := by
  refine within_get.bind fun s => ?_
  split
  · exact within_pure _
  · refine (stacked_changeHistory _).bind fun _ => within_get.bind fun t => ?_
    dsimp only
    split
    · exact within_throw _
    · exact (stacked_takeBack _).bind fun _ => stacked_changeHistory _

theorem stacked_redo : Within (Upholds (Stacked rows)) (redo reactions) := by
  refine within_get.bind fun s => ?_
  dsimp only
  split
  · exact within_pure _
  · exact (stacked_carryOut _).bind fun _ => (stacked_changeHistory _).bind fun _ => stacked_changeHistory _

end

structure Row.Serves (f : Nat) (r : Row) (s : Studio) : Prop where
  wired : r.Wired s
  agrees : r.Agrees s
  field : ∃ x, s.fields[f]? = some x ∧ x.channel = r.channel

section

variable {f : Nat} {r : Row}

theorem Row.Serves.of_ripple (h : r.Serves f s) (hst : Ripple o c s t) (hagrees : r.Agrees t) : r.Serves f t := by
  obtain ⟨x, hx, hchannel⟩ := h.field
  obtain ⟨y, hy, hplate⟩ := hst.exists_field hx
  exact ⟨h.wired.of_ripple hst, hagrees, y, hy, (Field.plate_channel hplate).trans hchannel⟩

theorem Row.serves_pile : r.Serves f s.pile ↔ r.Serves f s :=
  ⟨fun h => ⟨{ h.wired with }, h.agrees, h.field⟩, fun h => ⟨{ h.wired with }, h.agrees, h.field⟩⟩

theorem Row.serves_of_keeps {act : Act α} (h : Within (Keeps pile) act) : Within (Upholds (r.Serves f)) act := by
  intro s hs
  rw [← serves_pile, h s, serves_pile]
  exact hs

theorem Row.serves_setValue (v : Value) : Within (Upholds (r.Serves f)) (setValue reactions f v) := by
  intro s h
  obtain ⟨x, hx, hchannel⟩ := h.field
  have hkind := h.wired.fields f x hx hchannel
  refine h.of_ripple (surge_setValue (rippling_upTo depth) hx v).toRipple ?_
  rw [after_of_ok (run_setValue reactions hx (by rw [hkind]; rfl) v)]
  exact h.agrees.of_eq rfl rfl

theorem Row.serves_keep (new old : Value) : Within (Upholds (r.Serves f)) (keep reactions f new old) := by
  have hready : Within (Upholds (r.Serves f)) (modify (readied · (.change f new old))) :=
    serves_of_keeps (keeps_modify fun _ => rfl)
  have hpush : Within (Upholds (r.Serves f)) (push reactions (.change f new old)) :=
    within_push hready (serves_setValue new) (serves_of_keeps (keeps_modify fun _ => rfl))
  refine (within_part _ f).bind fun x => ?_
  split
  · exact hpush.tryCatch fun _ => within_pure _
  · exact within_pure _

theorem Row.serves_emit (n : Int) : Within (Upholds (r.Serves f)) (reactions.emit r.channel (.int n)) := by
  intro s h
  obtain ⟨ch, hch, hlayer, hitem⟩ := h.wired.channel
  cases hn : Number.ofInt? n with
  | none =>
    have hheard : (ch.emit (.int n)).2 = .error .overflow := by simp [Channel.emit, Channel.route, hn]
    have hafter : (reactions.emit r.channel (.int n)).after s = s.remember r.channel ch (.int n) := by
      show ((Reactions.upTo (depth - 1)).next.emit r.channel (.int n)).after s = _
      rw [after_congr (run_emit_next _ hch), hheard]
      rfl
    rw [hafter]
    exact h.of_ripple (ripple_remember (o := none) hch _) (h.agrees.of_eq rfl rfl)
  | some x =>
    have hcarried : (Value.int n).carried = .float x := by simp [Value.carried, hn]
    have hself : (Value.float x == Value.float x) = true := Value.float_beq_self (Number.isSome_of_ofInt? hn)
    have hsettles := settles_emit h.wired.toSole hch hcarried ⟨rfl, hself, hself, hself⟩ (depth - 1)
    obtain ⟨-, -, -, hranked⟩ := h.agrees
    exact h.of_ripple hsettles.ripple
      ⟨x, hsettles.drawn (.inr hlayer), hsettles.placed hitem, hsettles.ranked hranked⟩

/-- **An edit of a place in the stacking order leaves its row in order.** -/
theorem Row.serves_enter (v : Value) (finish : Bool) : Within (Upholds (r.Serves f)) (enter reactions f v finish) := by
  intro s h
  obtain ⟨x, hx, hchannel⟩ := h.field
  have hkind := h.wired.fields f x hx hchannel
  have hsettled : r.Serves f ((changeField f fun x => { x with settled := finish }).after s) :=
    h.of_ripple (o := none) (c := 0) (ripple_changeField hx rfl (.inl rfl)) (h.agrees.of_eq rfl rfl)
  have hend : ∀ accepted new, Within (Upholds (r.Serves f)) (do
      if finish then
        if accepted = true then keep reactions f new (← field f).value
        setValue reactions f new : Act Unit) := by
    intro accepted new
    cases finish with
    | false => exact within_pure _
    | true =>
      cases accepted with
      | false => exact serves_setValue new
      | true => exact (within_part _ f).bind fun y => (serves_keep new y.value).bind fun _ => serves_setValue new
  unfold enter
  rw [after_bind_ok (run_field hx)]
  cases hread : x.read v with
  | mk accepted new =>
    refine after_bind_of hsettled fun _ t hrun => ?_
    rw [after_of_ok hrun] at hsettled
    cases accepted with
    | false => exact hend false new t hsettled
    | true =>
      obtain ⟨n, hn⟩ := Field.exists_of_read_order hkind hread
      show r.Serves f (after (require (x.convert new) >>= fun said => reactions.emit x.channel said >>= fun _ => _) t)
      rw [hn, after_bind_ok (run_require_ok _ t), hchannel]
      exact (serves_emit n).bind (fun _ => hend true new) t hsettled

end

theorem stacked_enter {rows : List Row} (f : Nat) (v : Value) (finish : Bool) :
    Within (Upholds (Stacked rows)) (enter reactions f v finish) := by
  intro s h
  cases hx : s.fields[f]? with
  | none => rwa [after_enter_none _ hx]
  | some x =>
    refine h.of_ripple (surge_enter (rippling_upTo depth) hx v finish).toRipple fun r hr hc => ?_
    exact (Row.serves_enter v finish s ⟨h.wired r hr, h.agrees r hr, x, hx, hc.symm⟩).agrees

/-! ### Dropping -/

def dropOn (i ref : Nat) : Act Unit := do
  changeExplorer fun e => { e with reference := some ref }
  drop i

def refer (s : Studio) (ref : Nat) : Studio := { s with explorer := { s.explorer with reference := some ref } }

theorem run_dropOn (i ref : Nat) (s : Studio) : (dropOn i ref).run s = (if i = ref then pure () else do
    let target ← part Studio.items ref
    if !target.isGroup then
      let item ← part Studio.items i
      setLevel reactions ref item.level
      setLevel reactions i target.level : Act Unit).run (s.refer ref) := rfl

theorem Stacked.refer {rows : List Row} (h : Stacked rows s) (ref : Nat) : Stacked rows (s.refer ref) := by
  have hkeeps : Within (Keeps pile) (changeExplorer fun e => { e with reference := some ref }) :=
    keeps_modify fun _ => rfl
  exact upholds_of_keeps hkeeps s h

section

variable {rows : List Row} (h : Stacked rows s) {a b : Row} (ha : a ∈ rows) (hb : b ∈ rows)

include h ha

theorem Stacked.on_level : (Listener.level a.item).On s a.channel := by
  obtain ⟨ch, hch, -, hitem⟩ := (h.wired a ha).channel
  exact ⟨ch, hch, by simp [Channel.listeners, hitem]⟩

include hb in
theorem Stacked.eq_of_channel (hab : a.channel = b.channel) : a = b := by
  obtain ⟨ch, hch, hlayer, -⟩ := (h.wired a ha).channel
  have hon : (Listener.layer a.layer .order).On s b.channel := hab ▸ ⟨ch, hch, by simp [Channel.listeners, hlayer]⟩
  have hlayers := (h.wired b hb).layers _ hon
  have hitems := (h.wired b hb).items _ (hab ▸ h.on_level ha)
  cases a
  cases b
  simp_all

include hb in
theorem Stacked.eq_of_item (hab : a.item = b.item) : a = b :=
  h.eq_of_channel ha hb ((h.wired b hb).level_alone h.housed (hab ▸ h.on_level ha))

theorem Stacked.setLevel (hv : v.IsRank) : ∃ t, (setLevel reactions a.item v).run s = .ok () t ∧ Stacked rows t ∧
      (∃ w, t.level? a.item = some w ∧ (v == w) = true) ∧ ∀ j, j ≠ a.item → t.level? j = s.level? j := by
  have hwired := h.wired a ha
  obtain ⟨item, hitem, hlevels, -⟩ := hwired.item
  have hlevel : s.level? a.item = some item.level := by rw [level?, hitem, Option.map_some]
  rw [run_setLevel reactions hitem, hlevels]
  by_cases hsame : (v == item.level) = true
  · rw [if_pos hsame]
    exact ⟨s, rfl, h, ⟨item.level, hlevel, hsame⟩, fun _ _ => rfl⟩
  · rw [if_neg hsame]
    obtain ⟨x, hx⟩ := hv
    obtain ⟨ch, hch, hlayer, hnumber⟩ := hwired.channel
    let s' := s.withLevel a.item item v
    obtain ⟨hripple, hnew⟩ := ripple_withLevel hitem (h.on_level ha) v
    obtain ⟨t, hrun⟩ : ∃ t, (reactions.emit a.channel v).run s' = .ok () t :=
      exists_run_emit_next (s := s') (.upTo (depth - 1)) hch (Value.carries_of_carried hx.carried)
    have hsettles : a.Settles x ch.numbers s' ((reactions.emit a.channel v).after s') :=
      Row.settles_emit (hwired.toSole.of_ripple hripple) hch hx.carried hx.float (depth - 1)
    rw [after_of_ok hrun] at hsettles
    -- the item hears a number that equals its place, and stays
    have hkept : t.level? a.item = some v := (hsettles.stays ⟨v, hnew, hx.same⟩).trans hnew
    have hst := hripple.trans hsettles.ripple
    refine ⟨t, hrun, h.of_ripple hst fun r hr hc => ?_, ⟨v, hkept, hx.own⟩, fun j hj => ?_⟩
    · obtain rfl := h.eq_of_channel hr ha hc
      refine ⟨x, hsettles.drawn (.inr hlayer), hsettles.placed hnumber, fun w hw => ?_⟩
      rw [hkept] at hw
      exact ⟨x, Option.some.inj hw ▸ hx⟩
    · exact hst.levels (h.housed _) j fun hon => hj (hwired.items j hon)

include hb in
/-- **An item that is dropped on another exchanges places with it**, and all others stay where they are. -/
theorem Stacked.dropOn (hab : a ≠ b) {p q : Value} (hp : s.level? a.item = some p) (hq : s.level? b.item = some q) :
    let t := (Studio.dropOn a.item b.item).after s
    Stacked rows t ∧ (∃ p', t.level? a.item = some p' ∧ (q == p') = true) ∧
      (∃ q', t.level? b.item = some q' ∧ (p == q') = true) ∧
        ∀ j, j ≠ a.item → j ≠ b.item → t.level? j = s.level? j := by
  have hne : a.item ≠ b.item := fun heq => hab (h.eq_of_item ha hb heq)
  obtain ⟨-, -, -, hranked⟩ := h.agrees a ha
  obtain ⟨-, -, -, hranked'⟩ := h.agrees b hb
  obtain ⟨item, hitem, -, -⟩ := (h.wired a ha).item
  obtain ⟨target, htarget, -, hgroup⟩ := (h.wired b hb).item
  obtain rfl : item.level = p := by simpa [level?, hitem] using hp
  obtain rfl : target.level = q := by simpa [level?, htarget] using hq
  obtain ⟨t, hrun, ht, ⟨q', hq', hsame'⟩, hothers⟩ := (h.refer b.item).setLevel hb (hranked _ hp)
  obtain ⟨u, hrun', hu, ⟨p', hp', hsame⟩, hothers'⟩ := ht.setLevel ha (hranked' _ hq)
  have hdrop : (Studio.dropOn a.item b.item).run s = .ok () u := by
    rw [run_dropOn, if_neg hne, run_bind_ok (run_part (s := s.refer b.item) htarget), if_pos (by simp [hgroup]),
      run_bind_ok (run_part (s := s.refer b.item) hitem), run_bind_ok hrun, hrun']
  rw [after_of_ok hdrop]
  refine ⟨hu, ⟨p', hp', hsame⟩, ⟨q', ?_, hsame'⟩, fun j hj hj' => ?_⟩
  · rw [hothers' _ hne.symm, hq']
  · rw [hothers' j hj, hothers j hj']
    rfl

end

theorem stacked_dropOn {rows : List Row} (i ref : Nat) : Within (Upholds (Stacked rows)) (dropOn i ref) := by
  intro s h
  have href : Stacked rows (s.refer ref) := h.refer ref
  rw [after_congr (run_dropOn i ref s)]
  split
  · exact href
  refine after_part_of href fun target htarget => ?_
  split
  · refine after_part_of href fun item hitem => ?_
    obtain ⟨b, hb, rfl⟩ := href.listed ref (lt_of_getElem? htarget)
    obtain ⟨a, ha, rfl⟩ := href.listed i (lt_of_getElem? hitem)
    obtain ⟨-, -, -, hranked⟩ := href.agrees a ha
    obtain ⟨-, -, -, hranked'⟩ := href.agrees b hb
    obtain ⟨t, hrun, ht, -⟩ := href.setLevel hb (hranked item.level (by rw [level?, hitem, Option.map_some]))
    obtain ⟨u, hrun', hu, -⟩ := ht.setLevel ha (hranked' target.level (by rw [level?, htarget, Option.map_some]))
    rw [after_bind_ok hrun, after_of_ok hrun']
    exact hu
  · exact href

/-! ### Sequences -/

/-- What users do to the stacking order: they edit fields, drop items on others, undo and redo. -/
inductive Restack where
  | edit (f : Nat) (v : Value) (finish : Bool)
  | drop (i ref : Nat)
  | undo
  | redo

def Restack.act : Restack → Act Unit
  | edit f v finish => enter reactions f v finish
  | drop i ref => dropOn i ref
  | undo => Studio.undo reactions
  | redo => Studio.redo reactions

def restacked (s : Studio) (moves : List Restack) : Studio := moves.foldl (fun s m => m.act.after s) s

theorem stacked_act {rows : List Row} (m : Restack) : Within (Upholds (Stacked rows)) m.act := by
  cases m with
  | edit f v finish => exact stacked_enter f v finish
  | drop i ref => exact stacked_dropOn i ref
  | undo => exact stacked_undo
  | redo => exact stacked_redo

/-- **A stack stays one, whatever is edited, dropped, undone and redone.** -/
theorem stacked_restacked {rows : List Row} (h : Stacked rows s) (moves : List Restack) :
    Stacked rows (s.restacked moves) := by
  induction moves generalizing s with
  | nil => exact h
  | cons m ms ih => exact ih (stacked_act m s h)

end Studio

end WatchFace
