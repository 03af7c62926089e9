import Mathlib.Data.List.Forall2
import WatchFace.Proofs.Studio.Growing

/-!
# Forms that are filled

Each attribute becomes a field of the form, with a value with which the field could be made again.
-/

namespace WatchFace

open EStateM Catalog List

variable {x y : Field} {families : List String} {c k n : Nat} {s t : Studio} {a : Attribute}
  {layer title : String}

/-! ### Fields that can be made again -/

namespace Field

/-- A field whose value can be carried and, if it is a choice, is a text or moves no new choice to an option. -/
structure Lasting (families : List String) (x : Field) : Prop where
  options : x.options = optionsOf families x.kind
  carries : x.value.Carries
  chosen : (∃ text, x.value = .text text) ∨ ∀ n, x.optionFor? x.value = some n → n = 0

theorem plate_options (h : y.plate = x.plate) : y.options = x.options := by
  show y.plate.options = x.plate.options
  rw [h]

theorem Lasting.of_held (hx : x.Lasting families) (h : y.held = x.held) : y.Lasting families := by
  obtain ⟨hplate, hvalue⟩ := held_eq.mp h
  have hoptions := plate_options hplate
  refine ⟨?_, hvalue ▸ hx.carries, ?_⟩
  · rw [hoptions, plate_kind hplate, hx.options]
  · rw [optionFor?, hoptions, hvalue]
    exact hx.chosen

variable {families : List String} {name description : String} {kind : Kind} {v w : Value} {c : Nat}

theorem rests_start_iff : (start name kind v description c families).Rests v ↔
    ∀ n, (start name kind v description c families).optionFor? v = some n → n = 0 := by
  have hindex : ∀ n, (start name kind v description c families).optionFor? v = some n →
      (start name kind v description c families).index = 0 := by
    intro n hn
    show (if (optionsOf families kind).isEmpty then -1 else 0 : Int) = 0
    rw [if_neg]
    intro hempty
    have hnone : optionsOf families kind = [] := List.isEmpty_iff.mp hempty
    have hn' : (optionsOf families kind).findIdx? (· == v.shown) = some n := hn
    rw [hnone] at hn'
    cases hn'
  refine forall_congr' fun n => forall_congr' fun hn => ?_
  rw [hindex n hn]
  omega

theorem lasting_of_starts (hplate : y.plate = (start name kind v description c families).plate)
    (hstarts : (start name kind v description c families).Starts y.value) (hcarries : y.value.Carries) :
    y.Lasting families := by
  have hoptions := plate_options hplate
  refine ⟨?_, hcarries, ?_⟩
  · rw [hoptions, plate_kind hplate]
    rfl
  · obtain ⟨hvalue, hrests⟩ | ⟨hvalue, -⟩ := hstarts
    · refine .inr fun n hn => rests_start_iff.mp hrests n ?_
      rwa [optionFor?, hoptions, hvalue] at hn
    · exact .inl ⟨_, hvalue⟩

/-- **A lasting value is taken over as it is** when the field is made again. -/
theorem Lasting.eq_of_starts (hx : x.Lasting families)
    (hw : (start name x.kind x.value description c families).Starts w) : w = x.value := by
  obtain ⟨hvalue, -⟩ | ⟨hvalue, hmoves⟩ := hw
  · exact hvalue
  · obtain ⟨text, htext⟩ | hfirst := hx.chosen
    · rw [hvalue]
      show Value.text x.value.shown = x.value
      rw [htext]
      rfl
    · refine absurd (rests_start_iff.mpr fun n hn => hfirst n ?_) hmoves
      rw [optionFor?, hx.options]
      exact hn

end Field

namespace Studio

/-! ### Filling forms -/

/-- What filling the form `n` leaves alone, among the first `k` forms. -/
structure Furnishes (k n : Nat) (s t : Studio) : Prop where
  families : t.families = s.families
  fields : ∀ (f : Nat) (x : Field), s.fields[f]? = some x → ∃ y, t.fields[f]? = some y ∧ y.held = x.held
  length : s.forms.length ≤ t.forms.length
  forms : ∀ m < k, m ≠ n → t.forms[m]? = s.forms[m]?
  tranquil : s.Tranquil → t.Tranquil
  pages : s.Tranquil → ∀ key m, s.panel.pages.find? key = some m → t.panel.pages.find? key = some m
  filed : s.Tranquil → ∀ live, s.Filed live → ∃ more, t.Filed (more ++ live)

instance (k n : Nat) : IsPreorder Studio (Furnishes k n) where
  refl _ :=
    ⟨rfl, fun _ x hx => ⟨x, hx, rfl⟩, Nat.le_refl _, fun _ _ _ => rfl, id, fun _ _ _ hm => hm, fun _ _ h => ⟨[], h⟩⟩
  trans _ _ _ hst htu := {
    families := htu.families.trans hst.families
    fields := fun f x hx => by
      obtain ⟨y, hy, hxy⟩ := hst.fields f x hx
      obtain ⟨z, hz, hyz⟩ := htu.fields f y hy
      exact ⟨z, hz, hyz.trans hxy⟩
    length := Nat.le_trans hst.length htu.length
    forms := fun m hm hne => (htu.forms m hm hne).trans (hst.forms m hm hne)
    tranquil := htu.tranquil ∘ hst.tranquil
    pages := fun hs key m hm => htu.pages (hst.tranquil hs) key m (hst.pages hs key m hm)
    filed := fun hs live hlive => by
      obtain ⟨more, hmore⟩ := hst.filed hs live hlive
      obtain ⟨more', hmore'⟩ := htu.filed (hst.tranquil hs) _ hmore
      exact ⟨more' ++ more, append_assoc .. ▸ hmore'⟩ }

theorem Furnishes.refl (k n : Nat) (s : Studio) : Furnishes k n s s := refl_of (Furnishes k n) s

theorem Furnishes.trans {u : Studio} (hst : Furnishes k n s t) (htu : Furnishes k n t u) :
    Furnishes k n s u := trans_of (Furnishes k n) hst htu

theorem Retains.furnishes (h : Retains s.fields.length s t) (k n : Nat) : Furnishes k n s t where
  families := h.families
  fields f x hx := by
    obtain ⟨y, hy, hheld⟩ := h.exists_field (lt_of_getElem? hx) hx
    exact ⟨y, hy, Field.held_eq.mpr hheld⟩
  length := Nat.le_of_eq (congrArg List.length h.forms.symm)
  forms _ _ _ := by rw [h.forms]
  tranquil hs := (h.tranquil hs).1
  pages hs key m hm := by rwa [(h.tranquil hs).2]
  filed hs live hlive := ⟨[], hlive.of_panel (h.tranquil hs).2⟩

theorem furnishes_changeForm (g : Form → Form) (s : Studio) :
    Furnishes k n s { s with forms := s.forms.modify n g } where
  families := rfl
  fields _ x hx := ⟨x, hx, rfl⟩
  length := by simp
  forms m _ hne := by simp [Ne.symm hne]
  tranquil hs := hs
  pages _ _ _ hm := hm
  filed _ _ hlive := ⟨[], hlive.of_panel rfl⟩

def givenBy (schema : Schema) : Attribute → Value
  | .value _ v _ => v
  | .form title layer as _ =>
    if (schema.kindOf title).isNested then .list (attributeValues as) else Component.toValue ⟨layer, as⟩

/-- The field that comes of an attribute. An attribute that is a plain value has no nested form. -/
structure Entered (families : List String) (schema : Schema) (a : Attribute) (y : Field) : Prop where
  kind : y.kind = schema.kindOf a.title
  lasting : y.Lasting families
  starts : ∃ c, (Field.start a.title (schema.kindOf a.title) (givenBy schema a) a.description c families).Starts y.value
  plain : ∀ title v description, a = .value title v description → y.kind ≠ .nested

theorem Entered.of_held {schema : Schema} (hx : Entered families schema a x) (h : y.held = x.held) :
    Entered families schema a y := by
  obtain ⟨hplate, hvalue⟩ := Field.held_eq.mp h
  have hkind := Field.plate_kind hplate
  exact ⟨hkind.trans hx.kind, hx.lasting.of_held h, hvalue ▸ hx.starts,
    fun title v d ha => hkind ▸ hx.plain title v d ha⟩

theorem exists_of_run_addField {description : String} {v : Value} {kind : Kind}
    (hown : kind.isChoice = true → s.channels[c]? = some {})
    (h : (addField n title v description kind c).run s = .ok () t) (k : Nat) :
    let f := s.fields.length
    Furnishes k n s t ∧ t.forms = s.forms.modify n (fun x => { x with fields := assign x.fields title f }) ∧
      ∃ y, t.fields[f]? = some y ∧ y.kind = kind ∧ y.channel = c ∧ y.Lasting s.families.names ∧
        (Field.start title kind v description c s.families.names).Starts y.value := by
  intro f
  obtain ⟨f', s', hmake, h⟩ := exists_of_run_bind_ok h
  have hretains : Retains s.fields.length s s' := by
    rw [← after_of_ok hmake]
    exact retains_makeField (Nat.le_refl _) title v description kind c
  obtain ⟨rfl, y, hy, hplate, hstarts, hcarries⟩ := exists_made hown hmake
  let g : Form → Form := fun x => { x with fields := assign x.fields title s.fields.length }
  let y' : Field := { y with recorded := true }
  let u : Studio := { s' with fields := s'.fields.set s.fields.length y' }
  have hkept : Retains s.fields.length s u := by
    have hrecorded :=
      retains_changeField (k := s.fields.length) (Nat.le_refl _) (fun x => { x with recorded := true }) s'
    rw [after_of_ok (run_changeField hy _)] at hrecorded
    exact trans_of (Retains _) hretains hrecorded
  rw [run_bind_ok (run_changeField hy _)] at h
  cases h
  refine ⟨(hkept.furnishes k n).trans (furnishes_changeForm g u), ?_, y', ?_, ?_, ?_, ?_, hstarts⟩
  · show u.forms.modify n g = _
    rw [hkept.forms]
  · exact getElem?_set_some hy
  · exact Field.plate_kind hplate
  · exact Field.plate_channel hplate
  · have hlasting := Field.lasting_of_starts hplate hstarts hcarries
    exact ⟨hlasting.options, hlasting.carries, hlasting.chosen⟩

theorem furnishes_of_eq (hfamilies : t.families = s.families) (hfields : t.fields = s.fields)
    (hforms : t.forms = s.forms) (hhistory : t.history = s.history) (hpanel : t.panel = s.panel) :
    Furnishes k n s t where
  families := hfamilies
  fields _ x hx := ⟨x, hfields ▸ hx, rfl⟩
  length := Nat.le_of_eq (congrArg List.length hforms.symm)
  forms _ _ _ := by rw [hforms]
  tranquil hs := by rwa [Tranquil, hhistory]
  pages _ _ _ hm := by rwa [hpanel]
  filed _ _ hlive := ⟨[], hlive.of_panel hpanel⟩

theorem Opened.furnishes {id : Int} {ids : List Int} (htake : takeId.run s = .ok id (s.withIds ids))
    (h : Opened layer (.int id) (s.withIds ids) t) (hk : k ≤ s.forms.length) (n : Nat) : Furnishes k n s t where
  families := h.families
  fields _ x hx := ⟨x, h.fields ▸ hx, rfl⟩
  length := by simp [h.forms, withIds]
  forms m hm _ := by
    rw [h.forms]
    exact getElem?_append_left (Nat.lt_of_lt_of_le hm hk)
  tranquil _ := h.tranquil
  pages hs _ _ hm := h.find?_of hs hm
  filed _ live hlive := by
    obtain ⟨id', ids', htake', -, -, hfiled⟩ := hlive.take
    obtain ⟨rfl, heq⟩ := Result.ok.inj (htake.symm.trans htake')
    rw [← heq] at hfiled
    exact ⟨[id], h.filed hfiled fun m hm => mem_of_int_beq hm (.head _)⟩

theorem Furnishes.inner {k' n' : Nat} (h : Furnishes k' n' s t) (hk' : k ≤ k') (hn' : k ≤ n') (n : Nat) :
    Furnishes k n s t :=
  { h with forms := fun m hm _ => h.forms m (Nat.lt_of_lt_of_le hm hk') (by omega) }

/-- The form `n` is filled with attributes: each has a field, and they are entered in their order. -/
structure Furnished (k n : Nat) (schema : Schema) (as : List Attribute) (s t : Studio) : Prop where
  furnishes : Furnishes k n s t
  form : ∀ x, s.forms[n]? = some x → ∃ x' es, t.forms[n]? = some x' ∧ x'.layer = x.layer ∧
    x'.fields = es.foldl (fun l (e : String × Nat) => assign l e.1 e.2) x.fields ∧
    List.Forall₂ (fun a (e : String × Nat) => e.1 = Attribute.title a ∧
      ∃ y, t.fields[e.2]? = some y ∧ Entered t.families.names schema a y) as es

section

variable {k n : Nat} {schema : Schema} {as bs : List Attribute} {s t u : Studio}

theorem Furnished.preceded (hst : Furnishes k n s t) (hform : ∀ x, s.forms[n]? = some x →
      ∃ y, t.forms[n]? = some y ∧ y.layer = x.layer ∧ y.fields = x.fields)
    (h : Furnished k n schema as t u) : Furnished k n schema as s u := by
  refine ⟨hst.trans h.furnishes, fun x hx => ?_⟩
  obtain ⟨y, hy, hlayer, hfields⟩ := hform x hx
  obtain ⟨x', es, hx', hlayer', hfields', hentered⟩ := h.form y hy
  exact ⟨x', es, hx', hlayer'.trans hlayer, hfields ▸ hfields', hentered⟩

theorem furnished_nil (hst : Furnishes k n s t) (hforms : t.forms = s.forms) : Furnished k n schema [] s t :=
  ⟨hst, fun x hx => ⟨x, [], hforms ▸ hx, rfl, rfl, .nil⟩⟩

theorem Furnished.append (hst : Furnished k n schema as s t) (htu : Furnished k n schema bs t u) :
    Furnished k n schema (as ++ bs) s u := by
  refine ⟨hst.furnishes.trans htu.furnishes, fun x hx => ?_⟩
  obtain ⟨y, es, hy, hlayer, hfields, hentered⟩ := hst.form x hx
  obtain ⟨z, es', hz, hlayer', hfields', hentered'⟩ := htu.form y hy
  refine ⟨z, es ++ es', hz, hlayer'.trans hlayer, ?_, rel_append ?_ hentered'⟩
  · rw [foldl_append, ← hfields, hfields']
  · refine hentered.imp fun a e he => ?_
    obtain ⟨htitle, f, hf, hthere⟩ := he
    obtain ⟨f', hf', hheld⟩ := htu.furnishes.fields _ f hf
    exact ⟨htitle, f', hf', htu.furnishes.families ▸ hthere.of_held hheld⟩

theorem map_eq_of_forall₂ {α β γ : Type} {R : α → β → Prop} {l : List α} {m : List β} (h : List.Forall₂ R l m)
    {f : α → γ} {g : β → γ} (hR : ∀ a ∈ l, ∀ b, R a b → g b = f a) : m.map g = l.map f := by
  induction h with
  | nil => rfl
  | cons hab _ ih =>
    rw [map_cons, map_cons, hR _ (.head _) _ hab, ih fun a ha => hR a (.tail _ ha)]

theorem title_mem_titlesIn (schema : Schema) (a : Attribute) : a.title ∈ titlesIn schema a := by
  cases a with
  | value title v description => exact mem_singleton_self title
  | form title layer as description =>
    show title ∈ if (schema.kindOf title).isNested then title :: as.map Attribute.title else [title]
    split
    · exact mem_cons_self
    · exact mem_singleton_self title

theorem Furnished.lookup_of_not_mem (h : Furnished k n schema as s t) {x : Form} (hx : s.forms[n]? = some x)
    (htitle : title ∉ as.flatMap (titlesIn schema)) :
    ∃ y, t.forms[n]? = some y ∧ y.fields.lookup title = x.fields.lookup title := by
  obtain ⟨y, es, hy, -, hfields, hentered⟩ := h.form x hx
  have htitles : titlesOf es = as.map Attribute.title := map_eq_of_forall₂ hentered fun _ _ _ he => he.1
  refine ⟨y, hy, ?_⟩
  rw [hfields]
  refine lookup_foldl_assign (fun hmem => htitle ?_) _
  rw [htitles] at hmem
  obtain ⟨a, ha, rfl⟩ := mem_map.mp hmem
  exact mem_flatMap.mpr ⟨a, ha, title_mem_titlesIn schema a⟩

theorem furnished_addField (hown : (schema.kindOf a.title).isChoice = true → s.channels[c]? = some {})
    (hplain : ∀ title v description, a = .value title v description → schema.kindOf a.title ≠ .nested)
    (h : (addField n a.title (givenBy schema a) a.description (schema.kindOf a.title) c).run s = .ok () t) :
    Furnished k n schema [a] s t := by
  obtain ⟨hfurnishes, hforms, y, hy, hkind, -, hlasting, hstarts⟩ := exists_of_run_addField hown h k
  generalize s.fields.length = f at hforms hy
  refine ⟨hfurnishes, fun x hx => ⟨{ x with fields := assign x.fields a.title f }, [(a.title, f)], ?_, rfl, rfl, ?_⟩⟩
  · rw [hforms]
    simp [hx]
  · refine .cons ⟨rfl, y, hy, ?_⟩ .nil
    rw [hfurnishes.families]
    exact ⟨hkind, hlasting, ⟨c, hstarts⟩, fun title v d ha => hkind ▸ hplain title v d ha⟩

end

/-- What comes of adding attributes: the form is furnished with them, and all that is new is on new channels. -/
structure Fills (n : Nat) (schema : Schema) (as : List Attribute) (s t : Studio) : Prop where
  furnished : ∀ k, n < k → k ≤ s.forms.length → Furnished k n schema as s t
  grown : ∀ b, Grown b s → Grown b t

theorem fills_new {schema : Schema}
    (hplain : ∀ title v description, a = .value title v description → schema.kindOf a.title ≠ .nested)
    (h : (addField n a.title (givenBy schema a) a.description (schema.kindOf a.title) s.channels.length).run
      s.withChannel = .ok () t) : Fills n schema [a] s t := by
  have hown : s.withChannel.channels[s.channels.length]? = some {} := getElem?_concat_length
  refine ⟨fun k _ _ => ?_, fun b hb => hb.withChannel.addField hb.channels_le (by simp [withChannel]) (fun _ => hown) h⟩
  have hadded : Furnishes k n s s.withChannel := furnishes_of_eq rfl rfl rfl rfl rfl
  exact .preceded hadded (fun x hx => ⟨x, hx, rfl, rfl⟩) (furnished_addField (fun _ => hown) hplain h)

mutual

theorem fills_addAttribute (n : Nat) (schema : Schema) (table : List (String × Nat)) :
    (a : Attribute) → ∀ (s t : Studio) (table' : List (String × Nat)),
      (addAttribute n schema table a).run s = .ok table' t → Fills n schema [a] s t
  | .value title v description => by
    intro s t table' h
    unfold addAttribute at h
    rw [run_bind_ok (run_addChannel s)] at h
    split at h
    · cases h
    · obtain ⟨⟨⟩, t', hfield, hpure⟩ := exists_of_run_bind_ok h
      cases hpure
      refine fills_new (a := .value title v description) ?_ hfield
      intro _ _ _ _
      assumption
  | .form title layer as description => by
    intro s t table' h
    unfold addAttribute at h
    rw [run_bind_ok (run_addChannel s)] at h
    dsimp only at h
    split at h
    · rename_i hkind
      obtain ⟨shown, s', hrequire, h⟩ := exists_of_run_bind_ok h
      obtain rfl := state_eq_of_keeps (within_require _) hrequire
      obtain ⟨id, ids, u, htake, hopened, h⟩ := exists_of_run_openNested h
      obtain ⟨inner, u', hfill, h⟩ := exists_of_run_bind_ok h
      have hinner := fills_addAttributes s.forms.length (schemaOf layer) [] as u u' inner hfill
      -- the form gets to know its nested form, and shows it by a field on a channel of that
      let child := u'.panel.pages.find? (.int id)
      let v : Studio := { u' with groups := u'.groups - 1 }
      let v₁ : Studio := { v with forms := v.forms.modify n fun x => { x with child := child } }
      let v₂ : Studio := { v₁ with forms := v₁.forms.modify n fun x => { x with opens := some (.int id) } }
      have hend : endGroup.run u' = .ok () v := rfl
      have hfound : (formOf? (.int id)).run v = .ok child v := rfl
      have hchild : (changeForm n fun x => { x with child := child }).run v = .ok () v₁ := rfl
      rw [run_bind_ok hend, run_bind_ok hfound, run_bind_ok hchild] at h
      obtain ⟨c, v', hunder, h⟩ := exists_of_run_bind_ok h
      obtain rfl := state_eq_of_keeps (within_channelUnder _ _) hunder
      have hopens : (changeForm n fun x => { x with opens := some (.int id) }).run v₁ = .ok () v₂ := rfl
      rw [run_bind_ok hopens] at h
      obtain ⟨⟨⟩, t', hfield, hpure⟩ := exists_of_run_bind_ok h
      cases hpure
      refine ⟨fun k hn hk => ?_, fun b hb => ?_⟩
      · have hlt : n < s.forms.length := Nat.lt_of_lt_of_le hn hk
        have hforms : u.forms = s.forms ++ [{ layer := layer }] := hopened.forms
        have hnested := (hinner.furnished (s.forms.length + 1) (Nat.lt_succ_self _) (by simp [hforms])).furnishes
        have hadded : Furnishes k n s s.withChannel := furnishes_of_eq rfl rfl rfl rfl rfl
        have hstart : Furnishes k n s u' :=
          hadded.trans ((hopened.furnishes htake hk n).trans (hnested.inner (by omega) hk n))
        have hthere : u'.forms[n]? = s.forms[n]? := by
          rw [hnested.forms n (by omega) (by omega), hforms]
          exact getElem?_append_left hlt
        have hchanged : Furnishes k n u' v₂ := by
          have hgroup : Furnishes k n u' v := furnishes_of_eq rfl rfl rfl rfl rfl
          exact (hgroup.trans (furnishes_changeForm _ v)).trans (furnishes_changeForm _ v₁)
        have hgiven : givenBy schema (.form title layer as description) = .list (attributeValues as) := by
          rw [givenBy, hkind]
          rfl
        rw [← hgiven, ← hkind] at hfield
        refine .preceded (hstart.trans hchanged) (fun x hx => ?_) ?_ (t := v₂)
        · have hx' : u'.forms[n]? = some x := hthere.trans hx
          exact ⟨{ x with child := child, opens := some (.int id) }, by simp [v₂, v₁, v, hx'], rfl, rfl⟩
        · refine furnished_addField (a := .form title layer as description) (fun hchoice => ?_) ?_ hfield
          · rw [Attribute.title, hkind] at hchoice
            cases hchoice
          · intro _ _ _ ha
            cases ha
      · have htaken : Grown b (s.withChannel.withIds ids) := { hb.withChannel with }
        have hv : Grown b v := { hinner.grown b (htaken.of_opened hopened) with }
        have hv₁ : Grown b v₁ := hv.changeForm n (g := fun x => { x with child := child }) fun _ _ he => .inl he
        have hv₂ : Grown b v₂ :=
          hv₁.changeForm n (g := fun x => { x with opens := some (.int id) }) fun _ _ he => .inl he
        obtain ⟨hc, hclt⟩ := hv₁.channelUnder hb.forms_le hunder
        exact hv₂.addField hc hclt (fun hchoice => by cases hchoice) hfield
    · rename_i hkind
      obtain ⟨⟨⟩, t', hfield, hpure⟩ := exists_of_run_bind_ok h
      cases hpure
      have hgiven : givenBy schema (.form title layer as description) = Component.toValue ⟨layer, as⟩ := by
        rw [givenBy, if_neg]
        exact fun hnested => hkind (Kind.isNested_iff.mp hnested)
      rw [← hgiven] at hfield
      refine fills_new (a := .form title layer as description) ?_ hfield
      intro _ _ _ ha
      cases ha

/-- **A form that is filled has a field for each of the attributes**, in their order. -/
theorem fills_addAttributes (n : Nat) (schema : Schema) (table : List (String × Nat)) :
    (as : List Attribute) → ∀ (s t : Studio) (table' : List (String × Nat)),
      (addAttributes n schema table as).run s = .ok table' t → Fills n schema as s t
  | [] => by
    intro s t table' h
    unfold addAttributes at h
    cases h
    exact ⟨fun k _ _ => furnished_nil (.refl k n s) rfl, fun _ => id⟩
  | a :: as => by
    intro s t table' h
    unfold addAttributes at h
    obtain ⟨inner, u, hfirst, hrest⟩ := exists_of_run_bind_ok h
    have hsu := fills_addAttribute n schema table a s u inner hfirst
    have hut := fills_addAttributes n schema inner as u t table' hrest
    refine ⟨fun k hn hk => ?_, fun b => hut.grown b ∘ hsu.grown b⟩
    have hfirst := hsu.furnished k hn hk
    exact hfirst.append (hut.furnished k hn (Nat.le_trans hk hfirst.furnishes.length))

end

end Studio

end WatchFace
