import WatchFace.Proofs.Studio.Building

/-!
# Choices come to rest

A choice that hears a value stays where it is if it rests on the value: if it has no option for it, or is at that option
already. A new choice is alone on its channel, and comes to rest there before its edits are kept. Afterwards it hears
the last value of its channel again, or a list, which is the text of no option.
-/

namespace WatchFace

open EStateM List

variable {s t : Studio} {c f : Nat} {last v w : Value} {l : Studio.Listener} {ch new : Channel Studio.Listener}

namespace Field

variable {x y : Field} {v w : Value}

def Rests (x : Field) (v : Value) : Prop := ∀ i : Nat, x.optionFor? v = some i → x.index = i

/-- No option of the field is the text of a list. -/
def Unlisted (x : Field) : Prop := ∀ vs, x.optionFor? (.list vs) = none

theorem Unlisted.rests (h : x.Unlisted) (vs : List Value) : x.Rests (.list vs) := by
  intro i hi
  rw [h vs] at hi
  cases hi

theorem optionFor?_of_bare (h : y.bare = x.bare) (v : Value) : y.optionFor? v = x.optionFor? v := by
  have hoptions : y.bare.options = x.bare.options := congrArg Field.options h
  exact congrArg (fun os => os.findIdx? (· == v.shown)) hoptions

theorem Rests.of_bare (hx : x.Rests v) (h : y.bare = x.bare) : y.Rests v := by
  intro i hi
  rw [optionFor?_of_bare h] at hi
  have hindex : y.bare.index = x.bare.index := congrArg Field.index h
  exact hindex.trans (hx i hi)

theorem rests_of_options (h : x.options = []) (v : Value) : x.Rests v := by
  intro i hi
  rw [optionFor?, h] at hi
  cases hi

theorem present_cases (x : Field) (v : Value) :
    (x.present v).1.index = x.index ∧ ((x.present v).1.withValue x.value).bare = x.bare ∧
      ((x.present v).2 = none ∨ (x.present v).2 = x.optionFor? v) := by
  unfold present
  split
  · exact ⟨rfl, rfl, .inl rfl⟩
  · cases hkind : x.kind <;> simp [bare, withValue, hkind, optionFor?]

theorem present_of_choice (hchoice : x.kind.isChoice = true) (hsettled : x.settled = true) (v : Value) :
    x.present v = (x.withValue v, x.optionFor? v) := by
  unfold Field.present
  rw [hsettled]
  cases hkind : x.kind <;> simp_all [Catalog.Kind.isChoice, withValue, optionFor?]

end Field

theorem getElem?_of_findIdx? {texts : List String} {text : String} {n : Nat}
    (h : texts.findIdx? (· == text) = some n) : texts[n]? = some text := by
  obtain ⟨hlt, heq, -⟩ := findIdx?_eq_some_iff_getElem.mp h
  rw [getElem?_eq_getElem hlt, beq_iff_eq.mp heq]

/-! ### Hearing a value -/

namespace Studio

def Unmoved (s t : Studio) : Prop :=
  t = { s with fields := t.fields } ∧ t.fields.map Field.bare = s.fields.map Field.bare

instance : IsPreorder Studio Unmoved where
  refl _ := ⟨rfl, rfl⟩
  trans s t u hst htu := by
    refine ⟨?_, htu.2.trans hst.2⟩
    rw [htu.1, hst.1]

/-- A field that shows a value, or the button of a nested form. -/
def Listener.Eased (s : Studio) (v : Value) : Listener → Prop
  | .field f => ∃ x, s.fields[f]? = some x ∧ x.Rests v
  | .caption _ => True
  | _ => False

theorem Unmoved.exists_field (h : Unmoved s t) {x : Field} (hx : s.fields[f]? = some x) :
    ∃ y, t.fields[f]? = some y ∧ y.bare = x.bare := by
  obtain ⟨y, hy, hxy⟩ := getElem?_of_map_eq h.2.symm hx
  exact ⟨y, hy, hxy.symm⟩

theorem Unmoved.eased (h : Unmoved s t) (hl : l.Eased s v) : l.Eased t v := by
  cases l
  case field f =>
    obtain ⟨x, hx, hrests⟩ := hl
    obtain ⟨y, hy, hxy⟩ := h.exists_field hx
    exact ⟨y, hy, hrests.of_bare hxy⟩
  all_goals exact hl

section

variable (r : Reactions) {s : Studio} {f : Nat} {x : Field} (hx : s.fields[f]? = some x) {w : Value}

include hx

theorem run_setValue_of_rests (hw : x.Rests w) : (setValue r f w).run s = .ok () (s.setField f x w) := by
  obtain ⟨hindex, -, hoption⟩ := x.present_cases w
  unfold setValue setField
  rw [run_bind_ok (run_field hx)]
  generalize x.present w = y at hindex hoption ⊢
  obtain ⟨y, option⟩ := y
  rw [run_bind_ok (run_changeField hx _)]
  cases option with
  | none => rfl
  | some i =>
    have hi : y.index = i := hindex.trans (hw i (hoption.resolve_left nofun).symm)
    have hy : ({ s with fields := s.fields.set f y } : Studio).fields[f]? = some y := getElem?_set_some hx
    dsimp only
    rw [selectOption, run_bind_ok (run_field hy), if_pos hi]
    rfl

end

theorem unmoved_hear (r : Reactions) (hl : l.Eased s w) {o : Option Value} (ho : ∀ v, o = some v → v = w) :
    Unmoved s ((hear r l o).after s) := by
  cases l <;> cases o
  case field.some f v =>
    obtain rfl := ho v rfl
    obtain ⟨x, hx, hrests⟩ := hl
    obtain ⟨-, hbare, -⟩ := x.present_cases v
    show Unmoved s ((receive r f v false).after s)
    rw [after_of_ok (run_receive hx (run_setValue_of_rests r hx hrests))]
    exact ⟨rfl, map_set_of_eq hx hbare⟩
  case caption.some f v =>
    have hshown : ∀ x : Field, ({ x with text := v.shown } : Field).bare = x.bare := fun _ => rfl
    exact ⟨rfl, map_modify_of_eq hshown s.fields f⟩
  case field.none | caption.none => exact refl_of Unmoved s
  all_goals exact absurd hl id

/-- Listeners that rest on a value leave all unmoved. -/
def Quieted (ls : List Listener) (w : Value) (s t : Studio) : Prop :=
  (∀ l ∈ ls, l.Eased s w) → Unmoved s t

instance (ls : List Listener) (w : Value) : IsPreorder Studio (Quieted ls w) where
  refl s _ := refl_of Unmoved s
  trans _ _ _ hst htu hs :=
    have hmoved := hst hs
    trans_of Unmoved hmoved (htu fun l hl => hmoved.eased (hs l hl))

/-- **A value on which all rest moves nobody**; the channel remembers it, and fields may show something else. -/
theorem unmoved_emit (r : Reactions) (hch : s.channels[c]? = some ch) (h : ∀ l ∈ ch.listeners, l.Eased s v.carried) :
    Unmoved (s.remember c ch v) ((r.next.emit c v).after s) := by
  obtain ⟨ls, hls, hafter⟩ := exists_after_emit_next r hch v
  rw [hafter]
  have hall : Within (Quieted ls v.carried) (announce (hear r) v.carried ls) := by
    refine within_announce (fun l hl s hs => ?_) fun l hl s hs => ?_
    · exact unmoved_hear r (hs l hl) fun _ hv => (Option.some.inj hv).symm
    · exact unmoved_hear r (hs l hl) nofun
  exact hall _ fun l hl => h l (hls l hl)

/-! ### All at rest -/

/-- A listener rests on what its channel carried last, if anything. -/
def Listener.AtRest (s : Studio) (last : Value) : Listener → Prop
  | .field f => ∃ x, s.fields[f]? = some x ∧ x.Unlisted ∧ (last.isNone = false → x.Rests last.carried)
  | .caption _ => True
  | _ => False

/-- All who listen rest on what their channel carried last, and there is one font only. -/
structure Restful (s : Studio) : Prop where
  families : s.families = []
  listeners : ∀ (c : Nat) (ch : Channel Listener), s.channels[c]? = some ch → ∀ l ∈ ch.listeners, l.AtRest s ch.last

def EasedOn (s : Studio) (c : Nat) (v : Value) : Prop :=
  ∀ ch, s.channels[c]? = some ch → ∀ l ∈ ch.listeners, l.Eased s v

def Beside (s t : Studio) : Prop := t = { s with fields := t.fields, channels := t.channels }

instance : IsPreorder Studio Beside where
  refl _ := rfl
  trans s t u hst htu := by
    rw [Beside, htu, hst]

theorem Unmoved.beside (h : Unmoved s t) : Beside s t := by
  rw [Beside, h.1]

section

variable {s t : Studio}

theorem Restful.of_fields (hs : s.Restful) (hfamilies : t.families = s.families)
    (hchannels : t.channels = s.channels) (hfields : ∀ (f : Nat) (x : Field), s.fields[f]? = some x →
      ∃ y, t.fields[f]? = some y ∧ y.options = x.options ∧ y.index = x.index) : t.Restful := by
  refine ⟨hfamilies.trans hs.families, fun c ch hch l hl => ?_⟩
  rw [hchannels] at hch
  have hrest := hs.listeners c ch hch l hl
  cases l
  case field f =>
    obtain ⟨x, hx, hunlisted, hrests⟩ := hrest
    obtain ⟨y, hy, hoptions, hindex⟩ := hfields f x hx
    have hoption : y.optionFor? = x.optionFor? := by
      funext v
      rw [Field.optionFor?, Field.optionFor?, hoptions]
    refine ⟨y, hy, fun vs => ?_, fun hlast i hi => ?_⟩
    · rw [hoption]
      exact hunlisted vs
    · rw [hoption] at hi
      exact hindex.trans (hrests hlast i hi)
  all_goals exact hrest

theorem Restful.of_unmoved (hs : s.Restful) (h : Unmoved s t) : t.Restful := by
  refine hs.of_fields (by rw [h.1]) (by rw [h.1]) fun f x hx => ?_
  obtain ⟨y, hy, hxy⟩ := h.exists_field hx
  have hoptions : y.bare.options = x.bare.options := congrArg Field.options hxy
  have hindex : y.bare.index = x.bare.index := congrArg Field.index hxy
  exact ⟨y, hy, hoptions, hindex⟩

theorem Restful.withField (hs : s.Restful) (x : Field) : (s.withField x).Restful := by
  refine hs.of_fields rfl rfl fun f y hy => ⟨y, ?_, rfl, rfl⟩
  show (s.fields ++ [x])[f]? = some y
  rwa [getElem?_append_left (lt_of_getElem? hy)]

theorem Restful.withChannel (hs : s.Restful) : s.withChannel.Restful := by
  refine ⟨hs.families, fun c ch hch l hl => ?_⟩
  have hch' : (s.channels ++ [({} : Channel Listener)])[c]? = some ch := hch
  rw [getElem?_append] at hch'
  split at hch'
  · exact hs.listeners c ch hch' l hl
  · obtain rfl := mem_singleton.mp (mem_of_getElem? hch')
    cases hl

theorem Restful.setChannel (hs : s.Restful) (hnew : ∀ l ∈ new.listeners, l.AtRest s new.last) :
    ({ s with channels := s.channels.set c new } : Studio).Restful := by
  refine ⟨hs.families, fun d ch hch l hl => ?_⟩
  have hch' : (s.channels.set c new)[d]? = some ch := hch
  by_cases hdc : c = d
  · subst hdc
    obtain rfl : new = ch := by
      have hlt : c < s.channels.length := by simpa using (lt_of_getElem? hch')
      simpa [hlt] using hch'
    exact hnew l hl
  · rw [getElem?_set_ne hdc] at hch'
    exact hs.listeners d ch hch' l hl

/-- A listener that is at rest stays so when its channel carries a value on which it rests. -/
theorem Listener.Eased.atRest (h : l.Eased s v.carried) (hl : l.AtRest s last) : l.AtRest s v := by
  cases l
  case field f =>
    obtain ⟨x, hx, hunlisted, -⟩ := hl
    obtain ⟨y, hy, hrests⟩ := h
    cases hx.symm.trans hy
    exact ⟨x, hx, hunlisted, fun _ => hrests⟩
  all_goals exact h

theorem Listener.AtRest.eased (h : l.AtRest s last) (hlast : last.isNone = false) : l.Eased s last.carried := by
  cases l
  case field f =>
    obtain ⟨x, hx, -, hrests⟩ := h
    exact ⟨x, hx, hrests hlast⟩
  all_goals exact h

theorem Listener.AtRest.eased_list (h : l.AtRest s last) (vs : List Value) : l.Eased s (.list vs) := by
  cases l
  case field f =>
    obtain ⟨x, hx, hunlisted, -⟩ := h
    exact ⟨x, hx, hunlisted.rests vs⟩
  all_goals exact h

theorem Restful.emit (hs : s.Restful) (r : Reactions) (h : s.EasedOn c v.carried) :
    ((r.next.emit c v).after s).Restful ∧ Beside s ((r.next.emit c v).after s) := by
  cases hch : s.channels[c]? with
  | none =>
    rw [after_emit_next_none r hch]
    exact ⟨hs, refl_of Beside s⟩
  | some ch =>
    have hmoved := unmoved_emit r hch (h ch hch)
    have hremember : (s.remember c ch v).Restful :=
      hs.setChannel fun l hl => (h ch hch l hl).atRest (hs.listeners c ch hch l hl)
    have hbeside : Beside s (s.remember c ch v) := rfl
    exact ⟨hremember.of_unmoved hmoved, trans_of Beside hbeside hmoved.beside⟩

theorem Restful.connect (hs : s.Restful) (hl : ∀ ch, s.channels[c]? = some ch → l.AtRest s ch.last) :
    let t := (connect c l).after s
    t.Restful ∧ Beside s t ∧ t.fields.map Field.bare = s.fields.map Field.bare ∧
      ∀ v, s.EasedOn c v → l.Eased s v → t.EasedOn c v := by
  intro t
  cases hch : s.channels[c]? with
  | none =>
    have ht : t = s := after_connect_none hch l
    rw [ht]
    exact ⟨hs, refl_of Beside s, rfl, fun v hv _ => hv⟩
  | some ch =>
    have hnew : ∀ k ∈ (ch.register l).listeners, k ∈ ch.listeners ∨ k = l := by
      intro k hk
      simp only [Channel.listeners, Channel.register, mem_append, mem_singleton] at hk ⊢
      grind
    have hall : ∀ k ∈ (ch.register l).listeners, k.AtRest s ch.last := by
      intro k hk
      rcases hnew k hk with hk | rfl
      · exact hs.listeners c ch hch k hk
      · exact hl ch hch
    have hjoin : (s.join c ch l).Restful := hs.setChannel hall
    -- the channel carries its last value once more, if it has one, and all rest on it
    have hmoved : Unmoved (s.join c ch l) t := by
      have ht : t = if ch.last.isNone then s.join c ch l else
        ((Reactions.upTo (depth + 1)).emit c ch.last).after (s.join c ch l) := after_connect hch l
      rw [ht]
      split
      · exact refl_of Unmoved _
      · rename_i hlast
        have heased : ∀ k ∈ (ch.register l).listeners, k.Eased (s.join c ch l) ch.last.carried :=
          fun k hk => (hall k hk).eased (by simpa using hlast)
        have hremember : (s.join c ch l).remember c (ch.register l) ch.last = s.join c ch l := by
          simp [remember, join, Channel.emit, Channel.register]
        have hemit := unmoved_emit (Reactions.upTo depth) (getElem?_join hch l) heased
        rwa [hremember] at hemit
    have hbeside : Beside s (s.join c ch l) := rfl
    refine ⟨hjoin.of_unmoved hmoved, trans_of Beside hbeside hmoved.beside, hmoved.2, ?_⟩
    intro v hv hlv ch' hch' k hk
    rw [hmoved.1] at hch'
    cases (getElem?_join hch l).symm.trans hch'
    have hk' : k.Eased (s.join c ch l) v := by
      rcases hnew k hk with hk | rfl
      · exact hv ch hch k hk
      · exact hlv
    exact hmoved.eased hk'

end

end Studio

open Catalog

variable {kind : Kind} {n : Nat}

/-! ### Options of the catalog -/

def Text.opensList (s : String) : Bool := s.toList.head? == some '['

theorem opensList_list (vs : List Value) : Text.opensList (Value.list vs).shown = true := by
  have hshown : (Value.list vs).shown = "[" ++ ", ".intercalate (Value.quotedItems vs) ++ "]" := by
    simp only [Value.shown, Value.quoted]
  rw [Text.opensList, hshown, String.toList_append, String.toList_append]
  rfl

def Catalog.Kind.Unlisted (k : Kind) : Prop := ∀ o ∈ Field.optionsOf [] k, Text.opensList o = false

instance (k : Kind) : Decidable k.Unlisted :=
  inferInstanceAs (Decidable (∀ o ∈ Field.optionsOf [] k, Text.opensList o = false))

theorem unlisted_schemas : ∀ e ∈ schemas, ∀ k ∈ e.2, k.2.Unlisted := by
  decide +kernel

theorem unlisted_kindOf (layer title : String) : ((schemaOf layer).kindOf title).Unlisted := by
  unfold schemaOf Schema.kindOf
  cases hschema : schemas.lookup layer with
  | none => exact nofun
  | some schema =>
    cases hkind : schema.lookup title with
    | none =>
      rw [Option.getD_some, hkind]
      exact nofun
    | some kind =>
      rw [Option.getD_some, hkind]
      exact unlisted_schemas _ (mem_of_lookup hschema) _ (mem_of_lookup hkind)

theorem Field.unlisted_start (h : kind.Unlisted) (name : String) (v : Value) (description : String) (c : Nat) :
    (Field.start name kind v description c []).Unlisted := by
  intro vs
  refine List.findIdx?_eq_none_iff.mpr fun o ho => ?_
  rw [beq_eq_false_iff_ne]
  rintro rfl
  -- the text of a list opens like one, and no option does
  have hopens : Text.opensList (Value.list vs).shown = false := h _ ho
  rw [opensList_list] at hopens
  cases hopens

/-! ### A new choice -/

namespace Field

variable {x y : Field} {w : Value}

structure Loose (x : Field) (c : Nat) : Prop where
  choice : x.kind.isChoice = true
  settled : x.settled = true
  recorded : x.recorded = false
  channel : x.channel = c

theorem Loose.present (hx : x.Loose c) (v : Value) : x.present v = (x.withValue v, x.optionFor? v) :=
  present_of_choice hx.choice hx.settled v

def choosing (x : Field) (i : Int) : Field := { x with index := i }

theorem Loose.choosing (hx : x.Loose c) (i : Int) : (x.choosing i).Loose c :=
  ⟨hx.choice, hx.settled, hx.recorded, hx.channel⟩

theorem Loose.withValue (hx : x.Loose c) (v : Value) : (x.withValue v).Loose c :=
  ⟨hx.choice, hx.settled, hx.recorded, hx.channel⟩

section

variable (x : Field) {n : Nat} (hn : x.optionFor? w = some n)

include hn

theorem chosen_choosing : (x.choosing n).chosen = w.shown := by
  have hget : x.options[n]? = some w.shown := getElem?_of_findIdx? hn
  have hpos : ¬ (n : Int) < 0 := by omega
  simp [chosen, choosing, hpos, hget]

theorem rests_choosing : (x.choosing n).Rests (.text w.shown) := by
  intro m hm
  have hm' : x.optionFor? w = some m := hm
  rw [hn] at hm'
  rw [Option.some.inj hm']
  rfl

end

/-- The value of a new field: its default, or the text of the option for it if the choice has to move. -/
def Starts (x : Field) (v : Value) : Prop :=
  v = x.value ∧ x.Rests x.value ∨ v = .text x.value.shown ∧ ¬ x.Rests x.value

def Makes (x y : Field) : Prop := ∃ i v, y = (x.choosing i).withValue v ∧ x.Starts v

theorem makes_self (x : Field) (h : x.Rests x.value) : x.Makes x := ⟨x.index, x.value, rfl, .inl ⟨rfl, h⟩⟩

theorem Makes.options (h : x.Makes y) : y.options = x.options := by
  obtain ⟨i, v, rfl, -⟩ := h
  rfl

theorem Makes.loose (h : x.Makes y) (hx : x.Loose c) : y.Loose c := by
  obtain ⟨i, v, rfl, -⟩ := h
  exact (hx.choosing i).withValue v

end Field

namespace Studio

def ownChannel (f : Nat) (last : Value) : Channel Listener :=
  { Channel.register ({} : Channel Listener) (.field f) with last := last }

theorem emit_ownChannel (f : Nat) (last : Value) (hv : v.Carries) :
    ((ownChannel f last).emit v).2 = .ok ([.field f], v.carried) := by
  obtain ⟨ls, hls, hheard⟩ := (ownChannel f last).exists_emit hv
  obtain rfl : ls = [.field f] := by simpa [ownChannel, Channel.register] using hls
  exact hheard

theorem emit_of_not_carries (hv : ¬ v.Carries) (ch : Channel Listener) :
    (ch.emit v).2 = .error .overflow ∧ v.carried = v := by
  cases v
  case int n =>
    have hn : Number.ofInt? n = none := by
      rw [← Option.not_isSome_iff_eq_none]
      exact fun hsome => hv fun m hm => Value.int.inj hm ▸ hsome
    simp [Channel.emit, Channel.route, Value.carried, hn]
  all_goals exact absurd (fun n hn => by cases hn) hv

def solo (s : Studio) (c : Nat) (x : Field) (last : Value) : Studio :=
  { s.withField x with channels := s.channels.set c (ownChannel s.fields.length last) }

section

variable {s : Studio} {c : Nat} {x : Field} {v w : Value}

theorem getElem?_solo (s : Studio) (c : Nat) (x : Field) (v : Value) :
    (s.solo c x v).fields[s.fields.length]? = some x :=
  getElem?_withField s x

theorem getElem?_channels_solo (hc : c < s.channels.length) (x : Field) (v : Value) :
    (s.solo c x v).channels[c]? = some (ownChannel s.fields.length v) := by
  simp [solo, hc]

theorem set_solo (s : Studio) (c : Nat) (x y : Field) (v : Value) :
    ({ s.solo c x v with fields := (s.solo c x v).fields.set s.fields.length y } : Studio) = s.solo c y v := by
  simp [solo, withField]

theorem run_changeField_solo (g : Field → Field) :
    (changeField s.fields.length g).run (s.solo c x v) = .ok () (s.solo c (g x) v) := by
  rw [run_changeField (getElem?_solo s c x v), set_solo]

theorem remember_solo (s : Studio) (c : Nat) (x : Field) (v w : Value) :
    (s.solo c x v).remember c (ownChannel s.fields.length v) w = s.solo c x w := by
  simp [solo, remember, ownChannel, Channel.emit]

theorem run_emit_solo (r : Reactions) (hc : c < s.channels.length) (x : Field) (v w : Value) :
    (r.next.emit c w).run (s.solo c x v) = (require ((ownChannel s.fields.length v).emit w).2 >>= fun heard =>
        announce (hear r) heard.2 heard.1).run (s.solo c x w) := by
  rw [run_emit_next r (getElem?_channels_solo hc x v), remember_solo]

theorem run_emit_solo_of_receive {r : Reactions} (hc : c < s.channels.length) (v : Value) (hw : w.Carries)
    (ht : (receive r s.fields.length w.carried false).run (s.solo c x w) = .ok () t) :
    (r.next.emit c w).run (s.solo c x v) = .ok () t := by
  have hheard : (attempt (hear r) w.carried (.field s.fields.length)).run (s.solo c x w) = .ok () t :=
    run_tryCatch_ok ht
  rw [run_emit_solo r hc, emit_ownChannel _ _ hw, run_bind_ok (run_require_ok _ _)]
  show run (attempt (hear r) w.carried (.field s.fields.length) >>= fun _ => pure ()) _ = _
  rw [run_bind_ok hheard]
  rfl

variable (hc : c < s.channels.length) (hx : x.Loose c)

include hx

theorem run_setValue_solo (r : Reactions) (hw : x.Rests w) :
    (setValue r s.fields.length w).run (s.solo c x v) = .ok () (s.solo c (x.withValue w) v) := by
  rw [run_setValue_of_rests r (getElem?_solo s c x v) hw, setField, set_solo, hx.present]

theorem run_receive_solo (r : Reactions) (hw : x.Rests w) :
    (receive r s.fields.length w false).run (s.solo c x v) = .ok () (s.solo c x v) := by
  rw [run_receive (getElem?_solo s c x v) (run_setValue_of_rests r (getElem?_solo s c x v) hw), set_solo, hx.present]
  rfl

include hc

theorem run_emit_solo_of_rests (r : Reactions) (hcarries : w.Carries) (hw : x.Rests w.carried) :
    (r.next.emit c w).run (s.solo c x v) = .ok () (s.solo c x w) :=
  run_emit_solo_of_receive hc v hcarries (run_receive_solo hx r hw)

theorem run_enter_solo (r : Reactions) {text : String} (hw : x.Rests (.text text)) :
    (enter r.next s.fields.length (.text text) true).run (s.solo c x v) =
      .ok () (s.solo c (x.withValue (.text text)) (.text text)) := by
  obtain ⟨hread, hconvert⟩ : x.read (.text text) = (true, .text text) ∧
    x.convert (.text text) = .ok (.text text) := x.read_of_choice (.text text) hx.choice
  have hget := getElem?_solo s c x v
  have hget' := getElem?_solo s c x (.text text)
  have hkeep : ∀ old, (keep r.next s.fields.length (.text text) old).run (s.solo c x (.text text)) =
      .ok () (s.solo c x (.text text)) := by
    intro old
    rw [keep, run_bind_ok (run_field hget'), hx.recorded]
    rfl
  rw [run_enter_of_accepted r.next hget hx.settled hread, hconvert, run_bind_ok (run_require_ok _ _), hx.channel,
    run_bind_ok (run_emit_solo_of_rests hc hx r (Value.carries_text text) hw),
    run_bind_ok (run_field hget'), run_bind_ok (hkeep _)]
  exact run_setValue_solo hx r.next hw

theorem run_selectOption_solo (r : Reactions) (hn : x.optionFor? w = some n) (hne : x.index ≠ n) :
    (selectOption r.next.next s.fields.length n).run (s.solo c x v) =
      .ok () (s.solo c ((x.choosing n).withValue (.text w.shown)) (.text w.shown)) := by
  have hchosen : (r.next.next.chosen s.fields.length).run (s.solo c (x.choosing n) v) =
      .ok () (s.solo c ((x.choosing n).withValue (.text w.shown)) (.text w.shown)) := by
    show run (field s.fields.length >>= fun y => enter r.next s.fields.length (.text y.chosen) true) _ = _
    rw [run_bind_ok (run_field (getElem?_solo s c _ v)), x.chosen_choosing hn]
    exact run_enter_solo hc (hx.choosing n) r (x.rests_choosing hn)
  unfold selectOption
  rw [run_bind_ok (run_field (getElem?_solo s c x v)), if_neg hne]
  show run (changeField s.fields.length (fun x => x.choosing n) >>= _) _ = _
  rw [run_bind_ok (run_changeField_solo _)]
  exact run_tryCatch_ok hchosen

theorem run_receive_solo_of_moves (r : Reactions) (hn : x.optionFor? w = some n) (hne : x.index ≠ n) :
    (receive r.next.next s.fields.length w false).run (s.solo c x v) =
      .ok () (s.solo c (x.choosing n) (.text w.shown)) := by
  have hset : (setValue r.next.next s.fields.length w).run (s.solo c x v) =
      .ok () (s.solo c ((x.choosing n).withValue (.text w.shown)) (.text w.shown)) := by
    unfold setValue
    rw [run_bind_ok (run_field (getElem?_solo s c x v)), hx.present]
    dsimp only
    rw [run_bind_ok (run_changeField_solo _), hn]
    exact run_selectOption_solo hc (hx.withValue w) r hn hne
  unfold receive
  rw [run_bind_ok (run_field (getElem?_solo s c x v))]
  dsimp only
  rw [run_bind_ok hset]
  exact run_changeField_solo _

/-- **A new choice comes to rest** on what its channel has carried, the text of an option if it had to move. -/
theorem after_emit_solo (r : Reactions) (hw : x.Rests w) :
    ∃ i last, (r.next.next.next.emit c w).after (s.solo c x v) = s.solo c (x.choosing i) last ∧
      (x.choosing i).Rests last.carried := by
  by_cases hcarries : w.Carries
  · by_cases hrests : x.Rests w.carried
    · exact ⟨x.index, w, after_of_ok (run_emit_solo_of_rests hc hx _ hcarries hrests), hrests⟩
    · simp only [Field.Rests, Classical.not_forall] at hrests
      obtain ⟨n, hn, hne⟩ := hrests
      refine ⟨n, .text w.carried.shown, ?_, x.rests_choosing hn⟩
      exact after_of_ok (run_emit_solo_of_receive hc v hcarries (run_receive_solo_of_moves hc hx r hn hne))
  · -- nobody hears the value, and it has no other form
    obtain ⟨herror, hcarried⟩ := emit_of_not_carries hcarries (ownChannel s.fields.length v)
    refine ⟨x.index, w, ?_, hcarried.symm ▸ hw⟩
    rw [EStateM.after, run_emit_solo _ hc, herror]
    rfl

end

theorem Restful.solo (hs : s.Restful) (c : Nat) {x : Field} (hx : x.Unlisted)
    (hrests : x.Rests last.carried) : (s.solo c x last).Restful := by
  refine (hs.withField x).setChannel fun l hl => ?_
  obtain rfl : l = .field s.fields.length := by
    simpa [Channel.listeners, ownChannel, Channel.register] using hl
  exact ⟨x, getElem?_withField s x, hx, fun _ => hrests⟩

/-! ### Making fields -/

/-- All are at rest, and only fields and channels have changed. -/
structure Stilled (s t : Studio) : Prop where
  restful : t.Restful
  beside : Beside s t

/-- A field without options is being made: those on its channel rest on the value it starts with. -/
structure Making (s : Studio) (c : Nat) (x : Field) (v : Value) (t : Studio) : Prop extends Stilled s t where
  eased : t.EasedOn c v.carried
  field : ∃ y, t.fields[s.fields.length]? = some y ∧ y.bare = x.bare

section

variable {s t : Studio} {c : Nat} {x : Field} {v : Value}

theorem making_withField (hs : s.Restful) (hv : s.EasedOn c v.carried) (x : Field) :
    Making s c x v (s.withField x) := by
  refine ⟨⟨hs.withField x, rfl⟩, fun ch hch l hl => ?_, x, getElem?_withField s x, rfl⟩
  have hl' := hv ch hch l hl
  cases l
  case field g =>
    obtain ⟨y, hy, hrests⟩ := hl'
    refine ⟨y, ?_, hrests⟩
    show (s.fields ++ [x])[g]? = some y
    rwa [List.getElem?_append_left (lt_of_getElem? hy)]
  all_goals exact hl'

theorem Making.connect (h : Making s c x v t) {l : Listener}
    (hl : ∀ ch, t.channels[c]? = some ch → l.AtRest t ch.last) (hlv : l.Eased t v.carried) :
    Making s c x v ((connect c l).after t) := by
  obtain ⟨y, hy, hbare⟩ := h.field
  obtain ⟨hrest, hbeside, hfields, hkeep⟩ := h.restful.connect hl
  obtain ⟨z, hz, hzy⟩ := getElem?_of_map_eq hfields.symm hy
  exact ⟨⟨hrest, trans_of Beside h.beside hbeside⟩, hkeep _ h.eased hlv, z, hz, hzy.symm.trans hbare⟩

theorem Making.finish (h : Making s c x v t) (hvalue : x.value = v) :
    Stilled s ((do emit c (← Studio.field s.fields.length).value; pure s.fields.length : Act Nat).after t) := by
  obtain ⟨y, hy, hbare⟩ := h.field
  have hyv : y.value = v := by
    have hyx : y.bare.value = x.bare.value := congrArg Field.value hbare
    exact hyx.trans hvalue
  rw [after_bind_ok (run_field hy), after_bind_pure, hyv]
  obtain ⟨hrest, hbeside⟩ := h.restful.emit (Reactions.upTo (depth - 1)) h.eased
  exact ⟨hrest, trans_of Beside h.beside hbeside⟩

end

theorem Field.options_start (h : kind.isChoice = false) (name : String) (v : Value) (description : String) (c : Nat)
    (families : List String) :
    (Field.start name kind v description c families).options = [] := by
  cases kind <;> first | rfl | cases h

section

variable {s : Studio} (hs : s.Restful) {c : Nat} {kind : Kind} (name description : String) {v : Value}

include hs

theorem stilled_makeField_plain (hkind : kind.isChoice = false) (hv : s.EasedOn c v.carried) :
    Stilled s ((makeField name v description kind c).after s) := by
  generalize hx : Field.start name kind v description c s.families.names = x
  have hoptions : x.options = [] := by rw [← hx]; exact Field.options_start hkind ..
  have hvalue : x.value = v := by rw [← hx]; rfl
  have hunlisted : x.Unlisted := by
    intro vs
    rw [Field.optionFor?, hoptions]
    rfl
  have hfield : Making s c x v ((connect c (.field s.fields.length)).after (s.withField x)) := by
    refine (making_withField hs hv x).connect (fun ch hch => ?_) ?_
    · exact ⟨x, getElem?_withField s x, hunlisted, fun _ => x.rests_of_options hoptions _⟩
    · exact ⟨x, getElem?_withField s x, x.rests_of_options hoptions _⟩
  unfold makeField
  rw [after_bind_ok (run_get s)]
  dsimp only
  rw [hx]
  show Stilled s (after (set (s.withField x) >>= _) s)
  rw [after_bind_ok (run_set _ s)]
  refine after_bind_of hfield.toStilled fun _ t ht => ?_
  rw [after_of_ok ht] at hfield
  rw [if_neg (by rw [hkind]; exact Bool.false_ne_true)]
  split
  · -- the button of a nested form joins as well
    have hcaption : Making s c x v ((connect c (.caption s.fields.length)).after t) :=
      hfield.connect (fun _ _ => trivial) trivial
    refine after_bind_of hcaption.toStilled fun _ u hu => ?_
    rw [after_of_ok hu] at hcaption
    exact hcaption.finish hvalue
  · exact hfield.finish hvalue

omit hs in
theorem run_told_choice (kind : Kind) (c f : Nat) (s : Studio) : kind.isChoice = true →
    (tellOf kind c f).run s = (do emit c (← field f).value; pure f : Act Nat).run s := by
  intro hchoice
  cases kind
  case nested => cases hchoice
  all_goals rfl

omit hs in
/-- **A choice is made** on a channel of its own: it rests on its value, and then the channel carries it. -/
theorem run_makeField_choice (hchoice : kind.isChoice = true) (hc : s.channels[c]? = some {}) :
    ∃ y last, (makeField name v description kind c).run s =
        (do emit c (← field s.fields.length).value; pure s.fields.length : Act Nat).run (s.solo c y last) ∧
      y.Rests y.value ∧ (Field.start name kind v description c s.families.names).Makes y := by
  generalize hx : Field.start name kind v description c s.families.names = x
  have hloose : x.Loose c := by
    rw [← hx]
    exact ⟨hchoice, rfl, rfl, rfl⟩
  have hvalue : x.value = v := by rw [← hx]; rfl
  have hlt : c < s.channels.length := lt_of_getElem? hc
  let f := s.fields.length
  have hconnect : (connect c (.field f)).run (s.withField x) = .ok () (s.solo c x .none) :=
    run_connect (s := s.withField x) hc (.field f)
  unfold makeField
  rw [run_bind_ok (run_get s)]
  dsimp only
  rw [hx]
  show ∃ y last, run (set (s.withField x) >>= _) s = _ ∧ _
  rw [run_bind_ok (run_set _ s), run_bind_ok hconnect, if_pos hchoice]
  cases hoption : x.optionFor? v with
  | none =>
    -- the choice does not offer its default, and so rests on it
    have hrests : x.Rests x.value := by
      intro i hi
      rw [hvalue, hoption] at hi
      cases hi
    exact ⟨x, .none, run_told_choice kind c f _ hchoice, hrests, x.makes_self hrests⟩
  | some i =>
    -- the choice is at the option for its default, or moves there
    obtain ⟨y, last, hselect, hy, hmakes, hindex, hshown⟩ : ∃ y last,
        (selectOption reactions f i).run (s.solo c x .none) = .ok () (s.solo c y last) ∧ y.Loose c ∧
          x.Makes y ∧ y.index = i ∧ y.value.shown = v.shown := by
      by_cases hindex : x.index = i
      · refine ⟨x, .none, ?_, hloose, x.makes_self fun j hj => ?_, hindex, by rw [hvalue]⟩
        · rw [selectOption, run_bind_ok (run_field (getElem?_solo s c x _)), if_pos hindex]
          rfl
        · rw [hvalue, hoption] at hj
          rw [hindex, Option.some.inj hj]
      · refine ⟨(x.choosing i).withValue (.text v.shown), .text v.shown, ?_, ?_, ?_, rfl, rfl⟩
        · exact run_selectOption_solo hlt hloose (Reactions.upTo (depth - 2)) hoption hindex
        · exact (hloose.choosing i).withValue _
        · exact ⟨i, _, rfl, .inr ⟨by rw [hvalue], fun hrests => hindex (hrests i (hvalue.symm ▸ hoption))⟩⟩
    have hrests : ∀ w : Value, w.shown = v.shown → y.Rests w := by
      intro w hw j hj
      rw [Field.optionFor?, hmakes.options, hw] at hj
      have hij : some i = some j := hoption.symm.trans hj
      rw [hindex, Option.some.inj hij]
    have hemit : (emit c (.text v.shown)).run (s.solo c y last) = .ok () (s.solo c y (.text v.shown)) :=
      run_emit_solo_of_rests hlt hy (Reactions.upTo (depth - 1)) (Value.carries_text _) (hrests _ rfl)
    dsimp only
    rw [run_bind_ok hselect, run_bind_ok hemit]
    exact ⟨y, _, run_told_choice kind c f _ hchoice, hrests _ hshown, hmakes⟩

theorem stilled_makeField_choice (hchoice : kind.isChoice = true) (hkind : kind.Unlisted)
    (hc : s.channels[c]? = some {}) : Stilled s ((makeField name v description kind c).after s) := by
  obtain ⟨y, last, hrun, hrests, hmakes⟩ := run_makeField_choice name description (v := v) hchoice hc
  have hlt : c < s.channels.length := lt_of_getElem? hc
  have hy : y.Loose c := hmakes.loose ⟨hchoice, rfl, rfl, rfl⟩
  have hunlisted : y.Unlisted := by
    intro vs
    rw [Field.optionFor?, hmakes.options, hs.families]
    exact Field.unlisted_start hkind name v description c vs
  obtain ⟨i, last', hafter, hrests'⟩ := after_emit_solo (v := last) hlt hy (Reactions.upTo (depth - 3)) hrests
  have hafter' : (emit c y.value).after (s.solo c y last) = s.solo c (y.choosing i) last' := hafter
  rw [after_congr hrun, after_bind_ok (run_field (getElem?_solo s c y last)), after_bind_pure, hafter']
  exact ⟨hs.solo c hunlisted hrests', rfl⟩

/-- **A new field keeps nothing**: on a new channel it leaves all at rest, and changes fields and channels only. -/
theorem stilled_makeField (hkind : kind.Unlisted) (hc : s.channels[c]? = some {}) :
    Stilled s ((makeField name v description kind c).after s) := by
  cases hchoice : kind.isChoice with
  | true => exact stilled_makeField_choice hs name description hchoice hkind hc
  | false =>
    refine stilled_makeField_plain hs name description hchoice fun ch hch l hl => ?_
    cases hc.symm.trans hch
    cases hl

/-- The field of a nested form shares a channel with those who are at rest, and carries a list there. -/
theorem stilled_makeField_nested (vs : List Value) :
    Stilled s ((makeField name (.list vs) description .nested c).after s) :=
  stilled_makeField_plain hs name description rfl fun ch hch l hl =>
    (hs.listeners c ch hch l hl).eased_list vs

end

end Studio

end WatchFace
