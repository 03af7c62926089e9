import WatchFace.Console.Panel
import WatchFace.Proofs.Studio.Resting
import WatchFace.Studio.Preview

/-!
# What stays while components are made

Each who joins a channel hears what it carried last, and so do all others on it. All the same, forms and groups stay as
they are, and so does what the fields that were there stand for.
-/

namespace WatchFace

open EStateM Catalog

variable {c f : Nat} {t : Studio} {v : Value}

/-- A field with its value, without what it shows, the option that is chosen, and whether an edit is in progress. -/
def Field.held (x : Field) : Field := x.plate.withValue x.value

theorem Field.held_eq {x y : Field} : y.held = x.held ↔ y.plate = x.plate ∧ y.value = x.value := by
  constructor
  · intro h
    have hvalue : y.held.value = x.held.value := by rw [h]
    exact ⟨congrArg (Field.withValue · .none) h, hvalue⟩
  · rintro ⟨hplate, hvalue⟩
    rw [held, held, hplate, hvalue]

namespace Studio

/-- The first `k` fields are held, forms, groups and fonts are the same, and so is the panel unless commands can be
    given up. -/
structure Retains (k : Nat) (s t : Studio) : Prop where
  groups : t.groups = s.groups
  families : t.families = s.families
  forms : t.forms = s.forms
  fields : ∀ f < k, t.fields[f]?.map Field.held = s.fields[f]?.map Field.held
  tranquil : s.Tranquil → t.Tranquil ∧ t.panel = s.panel

instance (k : Nat) : IsPreorder Studio (Retains k) where
  refl _ := ⟨rfl, rfl, rfl, fun _ _ => rfl, fun hs => ⟨hs, rfl⟩⟩
  trans _ _ _ hst htu := ⟨htu.groups.trans hst.groups, htu.families.trans hst.families, htu.forms.trans hst.forms,
    fun f hf => (htu.fields f hf).trans (hst.fields f hf), fun hs =>
      have ⟨ht, hpanel⟩ := hst.tranquil hs
      ⟨(htu.tranquil ht).1, (htu.tranquil ht).2.trans hpanel⟩⟩

section

variable {k : Nat} {s t : Studio}

theorem Retains.refl (k : Nat) (s : Studio) : Retains k s s := refl_of (Retains k) s

theorem Retains.exists_field (h : Retains k s t) (hf : f < k) {x : Field} (hx : s.fields[f]? = some x) :
    ∃ y, t.fields[f]? = some y ∧ y.plate = x.plate ∧ y.value = x.value := by
  have hheld := h.fields f hf
  rw [hx, Option.map_some, Option.map_eq_some_iff] at hheld
  obtain ⟨y, hy, heq⟩ := hheld
  exact ⟨y, hy, Field.held_eq.mp heq⟩

theorem Ripple.retains {o : Option (Nat × Value)} (h : Ripple o c s t) (ho : ∀ f v, o = some (f, v) → k ≤ f) :
    Retains k s t := by
  refine ⟨h.groups, h.families, h.forms, fun f hf => ?_, h.tranquil⟩
  cases hx : s.fields[f]? with
  | none =>
    have hout : t.fields[f]? = none := by
      rw [List.getElem?_eq_none_iff, length_of_map_eq h.plates]
      exact List.getElem?_eq_none_iff.mp hx
    rw [hout]
  | some x =>
    obtain ⟨y, hy, hplate⟩ := h.exists_field hx
    have hvalue : y.value = x.value := h.value_eq (fun v hov => by have := ho f v hov; omega) hx hy
    rw [hy, Option.map_some, Option.map_some, Field.held_eq.mpr ⟨hplate, hvalue⟩]

end

/-! ### Carrying values and joining channels -/

section

variable {k : Nat}

theorem retains_emit (n c : Nat) (v : Value) : Within (Retains k) ((Reactions.upTo n).emit c v) :=
  fun s => ((rippling_upTo n).emit c v s).retains fun _ _ h => by cases h

theorem retains_connect (c : Nat) (l : Listener) : Within (Retains k) (connect c l) := by
  intro s
  cases hch : s.channels[c]? with
  | none =>
    rw [after_connect_none hch]
    exact .refl k s
  | some ch =>
    have hjoin : Retains k s (s.join c ch l) := { Retains.refl k s with }
    rw [after_connect hch]
    split
    · exact hjoin
    · exact trans_of (Retains k) hjoin (retains_emit (depth + 1) c ch.last (s.join c ch l))

theorem retains_enter (hf : k ≤ f) (n : Nat) (v : Value) (finish : Bool) :
    Within (Retains k) (enter (Reactions.upTo n) f v finish) := by
  intro s
  cases hx : s.fields[f]? with
  | none =>
    rw [after_enter_none _ hx]
    exact .refl k s
  | some x =>
    refine (surge_enter (rippling_upTo n) hx v finish).retains fun g w h => ?_
    cases h
    exact hf

theorem retains_changeField (hf : k ≤ f) (g : Field → Field) : Within (Retains k) (changeField f g) := by
  intro s
  refine { Retains.refl k s with fields := fun e he => ?_ }
  have hne : f ≠ e := by omega
  show ((s.fields.modify f g)[e]?).map Field.held = _
  simp [hne]

end

/-! ### Making fields -/

section

variable {k : Nat} {s : Studio}

theorem retains_withField (hk : k ≤ s.fields.length) (x : Field) : Retains k s (s.withField x) := by
  refine { Retains.refl k s with fields := fun f hf => ?_ }
  show ((s.fields ++ [x])[f]?).map Field.held = _
  rw [List.getElem?_append_left (by omega)]

theorem after_makeField_of {R : Studio → Studio → Prop} [IsPreorder Studio R]
    (hfield : ∀ x : Field, x.channel = c → R s (s.withField x))
    (hjoin : ∀ x : Field, x.channel = c →
      R (s.withField x) ((connect c (.field s.fields.length)).after (s.withField x)))
    (hcaption : Within R (connect c (.caption s.fields.length))) (hemit : ∀ v, Within R (emit c v))
    (hchange : ∀ i, Within R (changeField s.fields.length fun x => { x with index := i }))
    (henter : ∀ v, Within R (enter (Reactions.upTo (depth - 1)) s.fields.length v true)) (name : String) (v : Value)
    (description : String) (kind : Kind) : R s ((makeField name v description kind c).after s) := by
  have hset : ∀ x, (set (s.withField x) : Act PUnit).run s = .ok ⟨⟩ (s.withField x) := fun _ => rfl
  have hchosen : Within R (reactions.chosen s.fields.length) := (within_part _ _).bind fun x => henter (.text x.chosen)
  have hselect : ∀ i, Within R (selectOption reactions s.fields.length i) := by
    refine fun i => (within_part _ _).bind fun x => ?_
    split
    · exact within_pure _
    · exact (hchange i).bind fun _ => hchosen.tryCatch fun _ => within_pure _
  have hsay : Within R (do emit c (← field s.fields.length).value; pure s.fields.length : Act Nat) :=
    (within_part _ _).bind fun x => (hemit x.value).bind fun _ => within_pure _
  have hfinish : Within R (tellOf kind c s.fields.length) := by
    unfold tellOf
    split
    · exact hcaption.bind fun _ => hsay
    · exact hsay
  unfold makeField
  rw [after_bind_ok (run_get s)]
  dsimp only
  generalize hx : Field.start name kind v description c s.families.names = x
  have hchannel : x.channel = c := by
    rw [← hx]
    rfl
  show R s (after (set (s.withField x) >>= _) s)
  rw [after_bind_ok (hset x)]
  refine trans_of R (hfield x hchannel) (within_bind_at (hjoin x hchannel) fun _ => ?_)
  split
  · cases x.optionFor? v with
    | none => exact hfinish
    | some i => exact (hselect i).bind fun _ => (hemit _).bind fun _ => hfinish
  · exact hfinish

/-- **Making a field leaves those alone that are there.** -/
theorem retains_makeField (hk : k ≤ s.fields.length) (name : String) (v : Value) (description : String)
    (kind : Kind) (c : Nat) : Retains k s ((makeField name v description kind c).after s) :=
  after_makeField_of (fun x _ => retains_withField hk x) (fun _ _ => retains_connect c _ _) (retains_connect c _)
    (retains_emit depth c) (fun _ => retains_changeField hk _) (retains_enter hk _ · true) name v description kind

theorem carries_of_run_emit {r : Reactions} (h : (r.next.emit c v).run s = .ok () t) :
    v.Carries := by
  obtain ⟨ch, s', -, hdeliver⟩ := exists_of_run_bind_ok h
  refine Decidable.byContradiction fun hv => ?_
  rw [deliver, (emit_of_not_carries hv ch).1] at hdeliver
  cases hdeliver

theorem exists_of_finish {g : Nat} (h : (do emit c (← field f).value; pure f : Act Nat).run s = .ok g t) :
    g = f ∧ ∃ x y, s.fields[f]? = some x ∧ t.fields[f]? = some y ∧ y.held = x.held ∧ x.value.Carries := by
  obtain ⟨x, s', hx, hrest⟩ := exists_of_run_bind_ok h
  obtain ⟨hx, rfl⟩ := eq_of_run_part hx
  obtain ⟨⟨⟩, t', hemit, hpure⟩ := exists_of_run_bind_ok hrest
  cases hpure
  have hretains : Retains (f + 1) s' t := by
    rw [← after_of_ok hemit]
    exact retains_emit depth c x.value s'
  obtain ⟨y, hy, hheld⟩ := hretains.exists_field (Nat.lt_succ_self f) hx
  exact ⟨rfl, x, y, hx, hy, Field.held_eq.mpr hheld, carries_of_run_emit hemit⟩

/-- **The value that a new field has**: its default, unless it is a choice that has to move. -/
theorem exists_made {name description : String} {kind : Kind}
    (hown : kind.isChoice = true → s.channels[c]? = some {})
    (h : (makeField name v description kind c).run s = .ok f t) :
    let x := Field.start name kind v description c s.families.names
    f = s.fields.length ∧ ∃ y, t.fields[f]? = some y ∧ y.plate = x.plate ∧ x.Starts y.value ∧ y.value.Carries := by
  intro x
  cases hchoice : kind.isChoice with
  | true =>
    obtain ⟨y, last, hrun, -, i, w, rfl, hstarts⟩ := run_makeField_choice name description hchoice (hown hchoice)
    rw [hrun] at h
    obtain ⟨rfl, y, z, hy, hz, hheld, hcarries⟩ := exists_of_finish h
    rw [getElem?_solo] at hy
    obtain ⟨hplate, hvalue⟩ := Field.held_eq.mp hheld
    cases hy
    exact ⟨rfl, z, hz, hplate, hvalue ▸ hstarts, hvalue ▸ hcarries⟩
  | false =>
    -- nothing moves a field that is no choice
    have hrests : x.Rests x.value := x.rests_of_options (Field.options_start hchoice ..) _
    unfold makeField at h
    rw [run_bind_ok (run_get s)] at h
    change run (set (s.withField x) >>= _) s = _ at h
    rw [run_bind_ok (run_set _ s)] at h
    obtain ⟨⟨⟩, t', hconnect, h⟩ := exists_of_run_bind_ok h
    have hjoined : Retains (s.fields.length + 1) (s.withField x) t' := by
      rw [← after_of_ok hconnect]
      exact retains_connect c _ _
    rw [if_neg (by rw [hchoice]; exact Bool.false_ne_true)] at h
    -- the button of a nested form joins before the end
    obtain ⟨t'', hcaptioned, h⟩ : ∃ t'', Retains (s.fields.length + 1) (s.withField x) t'' ∧
        (do emit c (← field s.fields.length).value; pure s.fields.length : Act Nat).run t'' = .ok f t := by
      split at h
      · obtain ⟨⟨⟩, t'', hcaption, h⟩ := exists_of_run_bind_ok h
        refine ⟨t'', trans_of (Retains _) hjoined ?_, h⟩
        rw [← after_of_ok hcaption]
        exact retains_connect c _ _
      · exact ⟨t', hjoined, h⟩
    obtain ⟨rfl, y, z, hy, hz, hheld, hcarries⟩ := exists_of_finish h
    obtain ⟨y', hy', hplate', hvalue'⟩ := hcaptioned.exists_field (Nat.lt_succ_self _) (getElem?_withField s x)
    cases hy.symm.trans hy'
    obtain ⟨hplate, hvalue⟩ := Field.held_eq.mp hheld
    refine ⟨rfl, z, hz, hplate.trans hplate', .inl ⟨hvalue.trans hvalue', hrests⟩, ?_⟩
    rwa [hvalue]

end

/-! ### Telling of new components -/

section

variable {k : Nat}

theorem retains_onLayer {α : Type} (l : Nat) (act : Layer.Act α) : Within (Retains k) (onLayer l act) := by
  intro s
  rw [after_onLayer]
  exact { Retains.refl k s with }

theorem retains_pushLayer (l : Nat) : Within (Retains k) (push reactions (.addLayer l)) := by
  refine within_push (fun s => ?_) (within_modify fun s => { Retains.refl k s with })
    (within_modify fun s => { Retains.refl k s with tranquil := fun hs => ⟨tranquil_advance hs, rfl⟩ })
  exact (surge_readied (K := True) (o := none) (c := 0) rfl).toRipple.retains fun _ _ h => by cases h

theorem retains_showLayer (layer : String) (channels : List (String × Nat)) (id : Value) :
    Within (Retains k) (showLayer layer channels id) := by
  have hfollow : ∀ l parts, Within (Retains k) (follow l channels parts) :=
    fun l parts => within_follow fun _ _ d _ => retains_connect d _
  have hcreate : Within (Retains k) (createLayer layer channels) := by
    unfold createLayer
    split
    · exact within_throw _
    · refine within_get.bind fun s => Within.bind (within_modify fun s => { Retains.refl k s with }) fun _ => ?_
      refine (hfollow _ _).bind fun _ => (retains_onLayer _ _).bind fun _ => ?_
      exact (hfollow _ _).bind fun _ => within_pure _
  exact hcreate.bind fun l => (retains_pushLayer l).bind fun _ => within_modify fun s => { Retains.refl k s with }

theorem retains_addItem (layer : String) (channels : List (String × Nat)) (id : Value) :
    Within (Retains k) (addItem layer channels id) := by
  unfold addItem
  split
  · split
    · refine within_get.bind fun s => Within.bind (within_modify fun s => { Retains.refl k s with }) fun _ => ?_
      refine (retains_connect _ _).bind fun _ => (retains_connect _ _).bind fun _ => ?_
      exact Within.bind (within_modify fun s => { Retains.refl k s with }) fun _ => within_pure _
    · exact within_throw _
  · exact within_throw _

/-- Who is told of a new component: in the editor preview and explorer, at the panel those outside. -/
inductive Audience where
  | editor
  | outside

def Audience.follow : Audience → String → List (String × Nat) → Value → Act Unit
  | editor => introduce
  | outside => Console.tellMade

/-- **Those who are told of a new component leave forms and fields alone.** -/
theorem retains_follow (w : Audience) (layer : String) (channels : List (String × Nat)) (id : Value) :
    Within (Retains k) (w.follow layer channels id) := by
  cases w with
  | outside => exact within_modify fun s => { Retains.refl k s with }
  | editor =>
    refine Within.bind ((retains_showLayer layer channels id).tryCatch fun _ => within_pure _) fun _ => ?_
    refine Within.tryCatch ?_ fun _ => within_pure _
    exact (retains_addItem layer channels id).bind fun _ => within_pure _

end

end Studio

end WatchFace
