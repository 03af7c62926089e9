import WatchFace.Proofs.Studio.Furnishing
import WatchFace.Proofs.Studio.Summons

/-!
# Copies of components

A form is copied by summoning what it describes. A field without a value stands for the nested form, and the value of
the field of a nested form is not what a nested form can be made from.
-/

namespace WatchFace

open EStateM Catalog List

variable {s t : Studio} {limit new type v : Value} {kind : Kind} {w : Studio.Audience} {form x : Studio.Form}
  {families : List String} {table : List (String × Nat)} {depth f i n : Nat} {as : List Attribute} {c : Component}
  {e : Entry} {key pos : Option Value} {a : Attribute} {schema : Schema}

/-! ### What fields read -/

namespace Field

theorem text_of_less {s : String} {b : Bool} (h : limit.less (.text s) = .ok b ∨ (Value.text s).less limit = .ok b) :
    ∃ text, limit = .text text := by
  cases limit
  case text t => exact ⟨t, rfl⟩
  all_goals simp [Value.less, Value.quantity?, Value.text?] at h

theorem text_of_clamp {s : String} {w : Value} (h : clamp kind (.text s) = .ok w) : ∃ text, w = .text text := by
  cases kind with
  | limits low high step =>
    obtain ⟨b, c, hhigh, hlow, rfl⟩ := exists_of_clamp h
    obtain ⟨t, rfl⟩ := text_of_less (.inl hhigh)
    obtain ⟨t', rfl⟩ : ∃ text, low = .text text := by
      cases b
      · exact text_of_less (.inr hlow)
      · exact text_of_less (.inr hlow)
    cases b <;> cases c <;> exact ⟨_, rfl⟩
  | _ =>
    cases h
    exact ⟨s, rfl⟩

theorem carries_of_read {x : Field} {said : Value} (hread : x.read v = (true, new)) (hsaid : x.convert new = .ok said)
    (hcarries : said.Carries) : new.Carries := by
  rintro n rfl
  unfold convert at hsaid
  cases hreading : x.kind.reading with
  | words =>
    -- what is read as words is a text
    have hbind : (Except.ok (Value.text v.shown) >>= clamp x.kind) = clamp x.kind (.text v.shown) := rfl
    simp only [read, convert, hreading, hbind] at hread
    cases hclamp : clamp x.kind (.text v.shown) with
    | error e =>
      rw [hclamp] at hread
      cases hread
    | ok w =>
      rw [hclamp] at hread
      obtain rfl : w = .int n := congrArg Prod.snd hread
      obtain ⟨text, htext⟩ := text_of_clamp hclamp
      cases htext
  | whole =>
    rw [hreading] at hsaid
    cases hsaid
    exact hcarries n rfl
  | number =>
    rw [hreading] at hsaid
    cases hdouble : Number.ofInt? n with
    | some x => rfl
    | none =>
      have hfloat : (Value.int n).toFloat = .error .overflow := by
        simp [Value.toFloat, Value.quantity?, Number.Quantity.toFloat?, hdouble]
      rw [hfloat] at hsaid
      cases hsaid

theorem read_of_refused {x : Field} (h : (x.read v).1 = false) : (x.read v).2 = x.value := by
  unfold read at h ⊢
  split at h
  · cases h
  · rfl

theorem Lasting.options_eq_nil {x : Field} (hx : x.Lasting families) (h : x.kind.isChoice = false) :
    x.options = [] := by
  rw [hx.options]
  cases hkind : x.kind <;> simp_all [optionsOf, Kind.isChoice]

theorem Lasting.takes {x : Field} {w : Value} (hx : x.Lasting families) (hv : v.Carries)
    (hchoice : x.kind.isChoice = true → ∃ text, v = .text text) (hw : x.Takes v w) :
    (x.withValue w).Lasting families := by
  have hcarries : w.Carries := by
    obtain rfl | ⟨-, rfl⟩ | ⟨-, text, rfl⟩ := hw
    · exact hv
    · exact fun n hn => by cases hn
    · exact Value.carries_text text
  refine ⟨hx.options, hcarries, ?_⟩
  cases hkind : x.kind.isChoice with
  | false =>
    -- there are no options to move to
    refine .inr fun n hn => ?_
    have hnone : (x.withValue w).optionFor? w = none := by
      rw [optionFor?]
      show x.options.findIdx? _ = none
      rw [hx.options_eq_nil hkind]
      rfl
    rw [show (x.withValue w).value = w from rfl, hnone] at hn
    cases hn
  | true =>
    obtain rfl | ⟨hnested, -⟩ | ⟨-, htext⟩ := hw
    · exact .inl (hchoice hkind)
    · rw [hnested] at hkind
      cases hkind
    · exact .inl htext

end Field

namespace Studio

/-! ### Forms that can be made again -/

theorem nodup_titlesOf_assign (h : (titlesOf table).Nodup) (title : String) (n : Nat) :
    (titlesOf (assign table title n)).Nodup := by
  rw [titlesOf_assign]
  split
  · exact h
  · grind [nodup_append]

theorem nodup_titlesOf_foldl (es : List (String × Nat)) (h : (titlesOf table).Nodup) :
    (titlesOf (es.foldl (fun l e => assign l e.1 e.2) table)).Nodup := by
  induction es generalizing table with
  | nil => exact h
  | cons e es ih => exact ih (nodup_titlesOf_assign h e.1 e.2)

theorem foldl_assign_of_nodup (es table : List (String × Nat)) (h : (titlesOf (table ++ es)).Nodup) :
    es.foldl (fun l e => assign l e.1 e.2) table = table ++ es := by
  induction es generalizing table with
  | nil => simp
  | cons e es ih =>
    have hnew : assign table e.1 e.2 = table ++ [e] := by
      rw [titlesOf, map_append, nodup_append] at h
      rw [assign, if_neg fun hany => ?_]
      exact h.2.2 _ (any_iff_mem_titlesOf.mp hany) e.1 (mem_map_of_mem (.head _)) rfl
    rw [foldl_cons, hnew, ih _ (by simpa using h)]
    simp

/-- The form `n`, each of whose fields can be made again for its title. -/
structure Renewable (s : Studio) (n : Nat) (x : Form) : Prop where
  form : s.forms[n]? = some x
  titles : (titlesOf x.fields).Nodup
  fields : ∀ e ∈ x.fields, ∃ y, s.fields[e.2]? = some y ∧ y.kind = (schemaOf x.layer).kindOf e.1 ∧
    y.Lasting s.families.names

theorem exists_of_forall₂ {α β : Type} {R : α → β → Prop} {l : List α} {m : List β} (h : List.Forall₂ R l m) {a : α}
    (ha : l[i]? = some a) : ∃ b, m[i]? = some b ∧ R a b := by
  induction h generalizing i with
  | nil => cases ha
  | @cons a' b l m hab _ ih =>
    cases i with
    | zero =>
      cases ha
      exact ⟨b, rfl, hab⟩
    | succ i => exact ih ha

theorem forall₂_trans {α β γ : Type} {P : α → β → Prop} {Q : β → γ → Prop} {R : α → γ → Prop} {l : List α}
    {m : List β} {k : List γ} (hlm : List.Forall₂ P l m) (hmk : List.Forall₂ Q m k)
    (hR : ∀ a ∈ l, ∀ b c, P a b → Q b c → R a c) : List.Forall₂ R l k := by
  induction hlm generalizing k with
  | nil =>
    cases hmk
    exact .nil
  | cons hab _ ih =>
    cases hmk with
    | cons hbc hmk => exact .cons (hR _ (.head _) _ _ hab hbc) (ih hmk fun a ha => hR a (.tail _ ha))

theorem Furnished.renewable {k : Nat} {layer : String} (h : Furnished k n (schemaOf layer) as s t)
    (hn : s.forms[n]? = some { layer := layer }) :
    ∃ x, t.Renewable n x ∧ x.layer = layer := by
  obtain ⟨x, es, hx, hlayer, hfields, hentered⟩ := h.form _ hn
  refine ⟨x, ⟨hx, ?_, fun e he => ?_⟩, hlayer⟩
  · rw [hfields]
    exact nodup_titlesOf_foldl es nodup_nil
  · rw [hfields] at he
    obtain he | he := mem_foldl_assign he
    · cases he
    · obtain ⟨i, hi⟩ := getElem?_of_mem he
      obtain ⟨a, -, htitle, y, hy, hy'⟩ := exists_of_forall₂ hentered.flip hi
      exact ⟨y, hy, by rw [hy'.kind, htitle, hlayer], hy'.lasting⟩

/-! ### Edits -/

/-- What edits leave alone: forms, and what fields are for. Lasting fields stay so. -/
structure Edited (s t : Studio) : Prop where
  families : t.families = s.families
  forms : t.forms = s.forms
  fields : ∀ (f : Nat) (x : Field), s.fields[f]? = some x → ∃ y, t.fields[f]? = some y ∧ y.kind = x.kind ∧
    (x.Lasting s.families.names → y.Lasting s.families.names)
  tranquil : s.Tranquil → t.Tranquil ∧ t.panel = s.panel

instance : IsPreorder Studio Edited where
  refl _ := ⟨rfl, rfl, fun _ x hx => ⟨x, hx, rfl, id⟩, fun hs => ⟨hs, rfl⟩⟩
  trans _ _ _ hst htu := {
    families := htu.families.trans hst.families
    forms := htu.forms.trans hst.forms
    fields := fun f x hx => by
      obtain ⟨y, hy, hkind, hlasting⟩ := hst.fields f x hx
      obtain ⟨z, hz, hkind', hlasting'⟩ := htu.fields f y hy
      rw [hst.families] at hlasting'
      exact ⟨z, hz, hkind'.trans hkind, hlasting' ∘ hlasting⟩
    tranquil := fun hs =>
      have ⟨ht, hpanel⟩ := hst.tranquil hs
      ⟨(htu.tranquil ht).1, (htu.tranquil ht).2.trans hpanel⟩ }

theorem Ripple.edited {o : Option (Nat × Value)} {c : Nat} (h : Ripple o c s t)
    (ho : ∀ f x v w, o = some (f, v) → s.fields[f]? = some x → x.Lasting s.families.names → x.Takes v w →
      (x.withValue w).Lasting s.families.names) : Edited s t := by
  refine ⟨h.families, h.forms, fun f x hx => ?_, h.tranquil⟩
  obtain ⟨y, hy, hplate⟩ := h.exists_field hx
  refine ⟨y, hy, Field.plate_kind hplate, fun hlasting => ?_⟩
  obtain hsame | ⟨v, hov, htakes⟩ := h.values f x y hx hy
  · exact hlasting.of_held (Field.held_eq.mpr ⟨hplate, hsame⟩)
  · exact (ho f x v y.value hov hx hlasting htakes).of_held (Field.held_eq.mpr ⟨hplate, rfl⟩)

theorem edited_changeField (f : Nat) {g : Field → Field} (hkind : ∀ x, (g x).kind = x.kind)
    (hg : ∀ x families, x.Lasting families → (g x).Lasting families) : Within Edited (changeField f g) := by
  intro s
  refine ⟨rfl, rfl, fun e x hx => ?_, fun hs => ⟨hs, rfl⟩⟩
  show ∃ y, (s.fields.modify f g)[e]? = some y ∧ _
  by_cases he : f = e
  · subst he
    exact ⟨g x, by simp [hx], hkind x, hg x _⟩
  · exact ⟨x, by simp [he, hx], rfl, id⟩

theorem ripple_enter_of_not_carries {r : Reactions} (hr : r.Rippling) {x : Field} (hx : s.fields[f]? = some x)
    (hread : x.read v = (true, new)) (hnew : ¬ new.Carries) (finish : Bool) :
    Ripple none x.channel s ((enter r.next f v finish).after s) := by
  unfold enter
  rw [after_bind_ok (run_field hx), hread]
  have hsettled : Ripple none x.channel s ((changeField f fun x => { x with settled := finish }).after s) :=
    ripple_changeField hx rfl (.inl rfl)
  refine ((hsettled.surge (K := False) rfl).bind fun _ t _ _ => ?_).toRipple
  show Surge _ _ _ t (after (require (x.convert new) >>= fun said => r.next.emit x.channel said >>= fun _ => _) t)
  cases hsaid : x.convert new with
  | error e => exact Surge.refl _ _ _ _
  | ok said =>
    rw [after_bind_ok (run_require_ok said t)]
    refine Surge.bind ((hr.next.emit x.channel said t).of_imp False.elim) fun _ u hrun _ => ?_
    exact absurd (Field.carries_of_read hread hsaid (carries_of_run_emit hrun)) hnew

/-- **Edits keep fields lasting.** What a field cannot carry it does not take. -/
theorem edited_enter (f : Nat) (v : Value) (finish : Bool) : Within Edited (enter reactions f v finish) := by
  intro s
  cases hx : s.fields[f]? with
  | none =>
    rw [after_enter_none _ hx]
    exact refl_of Edited s
  | some x =>
    have hripple := surge_enter (rippling_upTo depth) hx v finish
    have hchoice : x.kind.isChoice = true → ∃ text, (x.read v).2 = .text text := fun h =>
      ⟨v.shown, congrArg Prod.snd (x.read_of_choice v h).1⟩
    by_cases hcarries : (x.read v).2.Carries
    · refine hripple.edited fun g y w u hov hy hlasting htakes => ?_
      cases hov
      cases hx.symm.trans hy
      exact hlasting.takes hcarries hchoice htakes
    · cases haccepted : (x.read v).1 with
      | false =>
        -- what is refused leaves the value as it was, which could be carried
        refine hripple.edited fun g y w u hov hy hlasting _ => ?_
        cases hov
        cases hx.symm.trans hy
        rw [Field.read_of_refused haccepted] at hcarries
        exact absurd hlasting.carries hcarries
      | true =>
        have hstopped :=
          ripple_enter_of_not_carries (rippling_upTo (depth - 1)) hx (Prod.ext haccepted rfl) hcarries finish
        exact hstopped.edited fun g y w u hov => by cases hov

theorem edited_enterColor (f : Nat) (v : Value) : Within Edited (enterColor f v) := by
  have hcolor : ∀ c : Color, Within Edited (if c.valid then do
      enter reactions f (.text c.code) true
      changeField f fun x => { x with value := .text c.code } else pure ()) := by
    intro c
    split
    · refine (edited_enter f _ true).bind fun _ => edited_changeField f (fun _ => rfl) fun x families hx => ?_
      exact ⟨hx.options, Value.carries_text c.code, .inl ⟨c.code, rfl⟩⟩
    · exact within_pure _
  unfold enterColor
  refine (within_part _ f).bind fun x => ?_
  split
  · exact (within_pure _).bind fun s => hcolor _
  · exact (within_pure _).bind fun s => hcolor _
  · exact within_throw _

theorem edited_pickColor (f : Nat) (c : Color) : Within Edited (pickColor f c) := by
  have hshow : Within Edited (changeField f fun x => { x with text := c.code }) :=
    edited_changeField f (fun _ => rfl) fun x families hx => ⟨hx.options, hx.carries, hx.chosen⟩
  unfold pickColor
  refine (within_part _ f).bind fun x => ?_
  split
  · split
    · exact hshow.bind fun _ => edited_enter f _ true
    · exact within_pure _
  · exact within_throw _

theorem edited_pickFile (f : Nat) (path : String) : Within Edited (pickFile f path) := by
  have hshow : Within Edited (changeField f fun x =>
      { x with default := .text path, text := Field.fileText x.value }) :=
    edited_changeField f (fun _ => rfl) fun x families hx => ⟨hx.options, hx.carries, hx.chosen⟩
  unfold pickFile
  split
  · exact within_pure _
  · refine (edited_enter f _ true).bind fun _ => hshow.bind fun _ => ?_
    exact within_modify fun s => { refl_of Edited s with }

/-- An edit: what is typed, or its end; a colour as a text or from the dialog; a file from the dialog. -/
inductive Edit where
  | enter (f : Nat) (v : Value) (finish : Bool)
  | enterColor (f : Nat) (v : Value)
  | pickColor (f : Nat) (c : Color)
  | pickFile (f : Nat) (path : String)

def Edit.act : Edit → Act Unit
  | enter f v finish => Studio.enter reactions f v finish
  | enterColor f v => Studio.enterColor f v
  | pickColor f c => Studio.pickColor f c
  | pickFile f path => Studio.pickFile f path

def edited (s : Studio) (edits : List Edit) : Studio := edits.foldl (fun s e => e.act.after s) s

theorem edited_edited (s : Studio) (edits : List Edit) : Edited s (s.edited edits) := by
  induction edits generalizing s with
  | nil => exact refl_of Edited s
  | cons e edits ih =>
    have hfirst : Edited s (e.act.after s) := by
      cases e with
      | enter f v finish => exact edited_enter f v finish s
      | enterColor f v => exact edited_enterColor f v s
      | pickColor f c => exact edited_pickColor f c s
      | pickFile f path => exact edited_pickFile f path s
    exact trans_of Edited hfirst (ih (e.act.after s))

theorem Edited.renewable (h : Edited s t) (hx : s.Renewable n x) : t.Renewable n x := by
  refine ⟨h.forms ▸ hx.form, hx.titles, fun e he => ?_⟩
  obtain ⟨y, hy, hkind, hlasting⟩ := hx.fields e he
  obtain ⟨z, hz, hkind', hlasting'⟩ := h.fields _ y hy
  exact ⟨z, hz, hkind'.trans hkind, h.families ▸ hlasting' hlasting⟩

/-! ### Summons -/

theorem exists_of_run_addForm {key : Value} {made : Value × String × List (String × Nat)}
    (h : (addForm e (some key) true true).run s = .ok made t) :
    ∃ c u table, e = .component c ∧ made = (key, c.layer, table) ∧ s.panel.pages.find? key = none ∧
      Opened c.layer key s u ∧
      (addAttributes s.forms.length (schemaOf c.layer) [] c.attributes).run u = .ok table t := by
  unfold addForm at h
  obtain ⟨⟨⟩, s', hfree, hbuild⟩ := exists_of_run_bind_ok h
  obtain ⟨rfl, hfind⟩ := eq_of_run_demandFree hfree
  rw [Option.getD_some] at hfind
  cases e with
  | schema _ => cases hbuild
  | maker => cases hbuild
  | component c =>
    obtain ⟨u, hopen, hu⟩ := exists_run_openForm hfind c.layer true
    change run (openForm c.layer key true true >>= _) s' = _ at hbuild
    rw [run_bind_ok hopen] at hbuild
    obtain ⟨table, t', hfill, hpure⟩ := exists_of_run_bind_ok hbuild
    cases hpure
    exact ⟨c, u, table, rfl, rfl, hfind, hu, hfill⟩

def Keyed (key : Option Value) (s : Studio) (id : Value) (t : Studio) : Prop :=
  key = some id ∧ t = s ∨ key = none ∧ ∃ n, id = .int n ∧ takeId.run s = .ok n t

theorem exists_of_run_added {id : Value} (h : (do
      let made ← addForm e (some id) true true
      calmly (w.follow made.2.1 made.2.2 made.1)
      endGroup : Act Unit).run s = .ok () t) :
    ∃ c v, e = .component c ∧ s.panel.pages.find? id = none ∧ Opened c.layer id s v ∧
      Furnished (s.forms.length + 1) s.forms.length (schemaOf c.layer) c.attributes v t := by
  obtain ⟨made, v', hform, h⟩ := exists_of_run_bind_ok h
  obtain ⟨c, v, table, rfl, rfl, hfree, hopened, hfill⟩ := exists_of_run_addForm hform
  have hlength : s.forms.length + 1 ≤ v.forms.length := by simp [hopened.forms]
  have hfilled := (fills_addAttributes _ _ _ _ _ _ _ hfill).furnished _ (Nat.lt_succ_self _) hlength
  have htold := retains_follow (k := v'.fields.length) w c.layer table id v'
  rw [run_bind_ok (run_calmly _ v')] at h
  cases h
  let told := (w.follow c.layer table id).after v'
  have hend : Furnishes (s.forms.length + 1) s.forms.length told { told with groups := told.groups - 1 } :=
    furnishes_of_eq rfl rfl rfl rfl rfl
  have hnothing : Furnished _ _ (schemaOf c.layer) [] _ _ :=
    furnished_nil ((htold.furnishes _ _).trans hend) htold.forms
  have hall := hfilled.append hnothing
  rw [append_nil] at hall
  exact ⟨c, v, rfl, hfree, hopened, hall⟩

theorem exists_of_run_summoned (h : (do
      let id ← match key with
        | some k => pure k
        | none => pure (Value.int (← takeId))
      let made ← addForm e (some id) true true
      calmly (w.follow made.2.1 made.2.2 made.1)
      endGroup : Act Unit).run s = .ok () t) :
    ∃ c id u v, e = .component c ∧ Keyed key s id u ∧ u.panel.pages.find? id = none ∧ Opened c.layer id u v ∧
      Furnished (u.forms.length + 1) u.forms.length (schemaOf c.layer) c.attributes v t := by
  cases key with
  | some k =>
    obtain ⟨c, v, he, hrest⟩ := @exists_of_run_added s t w e k h
    exact ⟨c, k, s, v, he, .inl ⟨rfl, rfl⟩, hrest⟩
  | none =>
    obtain ⟨n, u, htake, h⟩ := exists_of_run_bind_ok h
    obtain ⟨c, v, he, hrest⟩ := @exists_of_run_added u t w e (.int n) h
    exact ⟨c, .int n, u, v, he, .inr ⟨rfl, n, rfl, htake⟩, hrest⟩

/-- **What a summons comes to that succeeds**: a form is opened and filled, and left alone by those who are told of
    it. -/
theorem exists_of_run_summon (h : (summon w.follow type pos key).run s = .ok () t) :
    ∃ e c id u v, (sourceOf type).run s = .ok e s ∧ (pos = none → e = .component c) ∧ Keyed key s id u ∧
      u.panel.pages.find? id = none ∧ Opened c.layer id u v ∧
      Furnished (u.forms.length + 1) u.forms.length (schemaOf c.layer) c.attributes v t := by
  obtain ⟨e, s', hsource, hrest⟩ := exists_of_run_bind_ok h
  obtain rfl := state_eq_of_keeps (within_sourceOf type) hsource
  cases pos with
  | none =>
    obtain ⟨c, id, u, v, he, hadded⟩ := exists_of_run_summoned (e := e) hrest
    exact ⟨e, c, id, u, v, hsource, fun _ => he, hadded⟩
  | some p =>
    obtain ⟨e', u', hplaced, hadd⟩ := exists_of_run_bind_ok hrest
    obtain rfl := state_eq_of_keeps (within_require _) hplaced
    obtain ⟨c, id, u, v, he, hadded⟩ := exists_of_run_summoned (e := e') hadd
    exact ⟨e, c, id, u, v, hsource, (fun hnone => by cases hnone), hadded⟩

/-! ### Packing -/

section

variable {α β : Type} {g : α → Act β} {s : Studio}

theorem forall₂_of_run_mapM {l : List α} {bs : List β} (hg : ∀ a, Within (Keeps fun s : Studio => s) (g a))
    (h : (l.mapM g).run s = .ok bs t) :
    List.Forall₂ (fun a b => (g a).run s = .ok b s) l bs := by
  induction l generalizing bs t with
  | nil =>
    cases h
    exact .nil
  | cons a l ih =>
    rw [mapM_cons] at h
    obtain ⟨b, s', hfirst, hrest⟩ := exists_of_run_bind_ok h
    obtain rfl := state_eq_of_keeps (hg a) hfirst
    obtain ⟨bs', t', hl, hpure⟩ := exists_of_run_bind_ok hrest
    cases hpure
    exact .cons hfirst (ih hl)

theorem exists_run_mapM {l : List α} (h : ∀ a ∈ l, ∃ b, (g a).run s = .ok b s) :
    ∃ bs, (l.mapM g).run s = .ok bs s := by
  induction l with
  | nil => exact ⟨[], rfl⟩
  | cons a l ih =>
    obtain ⟨b, hb⟩ := h a (.head _)
    obtain ⟨bs, hbs⟩ := ih fun a' ha' => h a' (.tail _ ha')
    refine ⟨b :: bs, ?_⟩
    rw [mapM_cons, run_bind_ok hb, run_bind_ok hbs]
    rfl

end

def Packs (s : Studio) (e : String × Nat) (a : Attribute) : Prop :=
  ∃ x, s.fields[e.2]? = some x ∧ (x.value ≠ .none → a = .value e.1 x.value x.description) ∧
    (x.value = .none → ∃ layer as, a = .form e.1 layer as x.description)

def packField (depth : Nat) (form : Form) (e : String × Nat) : Act Attribute := do
  let x ← field e.2
  match x.value with
  | .none =>
    let some child := form.child | throw .missing
    let c ← packUpTo depth child
    pure (.form e.1 c.layer c.attributes x.description)
  | v => pure (.value e.1 v x.description)

theorem run_pack (n : Nat) (s : Studio) : (pack n).run s = (do
    let form ← part Studio.forms n
    let attributes ← form.fields.mapM (packField s.forms.length form)
    pure ⟨form.layer, attributes⟩ : Act Component).run s := by
  unfold pack
  rw [run_bind_ok (run_get s), packUpTo]
  rfl

theorem within_packField {R : Studio → Studio → Prop} [IsPreorder Studio R] (depth : Nat) (form : Form)
    (e : String × Nat) : Within R (packField depth form e) := by
  refine (within_part _ _).bind fun x => ?_
  split
  · split
    · exact (within_packUpTo _ _).bind fun _ => within_pure _
    · exact within_throw _
  · exact within_pure _

theorem packs_of_run_packField {e : String × Nat} (h : (packField depth form e).run s = .ok a s) : Packs s e a := by
  obtain ⟨x, s', hx, hrest⟩ := exists_of_run_bind_ok h
  obtain ⟨hx, rfl⟩ := eq_of_run_part hx
  refine ⟨x, hx, fun hvalue => ?_, fun hvalue => ?_⟩
  · split at hrest
    · exact absurd (by assumption) hvalue
    · cases hrest
      rfl
  · rw [hvalue] at hrest
    dsimp only at hrest
    split at hrest
    · obtain ⟨c, t, -, hpure⟩ := exists_of_run_bind_ok hrest
      cases hpure
      exact ⟨c.layer, c.attributes, rfl⟩
    · cases hrest

theorem packs_of_run_pack (h : (pack n).run s = .ok c t) :
    ∃ x, s.forms[n]? = some x ∧ c.layer = x.layer ∧ List.Forall₂ (Packs s) x.fields c.attributes := by
  rw [run_pack] at h
  obtain ⟨x, s', hx, hrest⟩ := exists_of_run_bind_ok h
  obtain ⟨hx, rfl⟩ := eq_of_run_part hx
  obtain ⟨as, t', hpacked, hpure⟩ := exists_of_run_bind_ok hrest
  cases hpure
  refine ⟨x, hx, rfl, ?_⟩
  exact (forall₂_of_run_mapM (within_packField _ x) hpacked).imp fun e a => packs_of_run_packField

theorem exists_run_pack (hx : s.forms[n]? = some x)
    (hfields : ∀ e ∈ x.fields, ∃ y, s.fields[e.2]? = some y ∧ y.value ≠ .none) :
    ∃ c, (pack n).run s = .ok c s := by
  obtain ⟨as, has⟩ := exists_run_mapM (g := packField s.forms.length x) (s := s) fun e he => by
    obtain ⟨y, hy, hvalue⟩ := hfields e he
    refine ⟨.value e.1 y.value y.description, ?_⟩
    rw [packField, run_bind_ok (run_field hy)]
    split
    · exact absurd (by assumption) hvalue
    · rfl
  refine ⟨⟨x.layer, as⟩, ?_⟩
  rw [run_pack, run_bind_ok (run_part hx), run_bind_ok has]
  rfl

theorem run_sourceOf_int {id : Int} (h : s.panel.pages.find? (.int id) = some n) (e : Entry) :
    (sourceOf (.int id)).run s = .ok e s ↔ ∃ c, e = .component c ∧ (pack n).run s = .ok c s := by
  have hform : (formOf? (.int id)).run s = .ok (some n) s := by
    rw [← h]
    rfl
  have hsource : (sourceOf (.int id)).run s = (tryCatch (do return .component (← pack n)) fun e =>
      if e.isMissing then namedEntry (.int id) else throw e : Act Entry).run s := run_bind_ok hform
  rw [hsource]
  cases hpack : (pack n).run s with
  | ok c t =>
    obtain rfl := state_eq_of_keeps (within_get.bind fun s => within_packUpTo _ _) hpack
    have hdone : (do return .component (← pack n) : Act Entry).run t = .ok (.component c) t := run_bind_ok hpack
    rw [run_tryCatch_ok hdone]
    constructor
    · intro heq
      cases heq
      exact ⟨c, rfl, rfl⟩
    · rintro ⟨c', rfl, hc'⟩
      cases hc'
      rfl
  | error fault t =>
    -- no id is the name of an entry
    have hfailed : (do return .component (← pack n) : Act Entry).run s = .error fault t := run_bind_error hpack
    rw [run_tryCatch_error hfailed]
    refine iff_of_false ?_ ?_
    · split <;> exact fun heq => by cases heq
    · rintro ⟨c, -, hc⟩
      cases hc

/-! ### Copies -/

def reading? (s : Studio) (n : Nat) : Option (String × List (String × Option Value)) :=
  s.forms[n]?.map fun x => (x.layer, x.fields.map fun e => (e.1, s.fields[e.2]?.map Field.value))

/-- The form `n` can be copied: a summons by its id succeeds, and adds a form that says the same, under a new id. -/
def Copies (w : Audience) (s : Studio) (id : Int) (n : Nat) : Prop :=
  ∃ t new, (summon w.follow (.int id) none none).run s = .ok () t ∧
    s.panel.pages.find? (.int new) = none ∧ t.panel.pages.find? (.int new) = some s.forms.length ∧
    t.reading? s.forms.length = s.reading? n

def Simple (s : Studio) (n : Nat) : Prop :=
  ∀ x ∈ s.forms[n]?, ∀ e ∈ x.fields, ∀ y ∈ s.fields[e.2]?, y.kind.isNested = false ∧ y.value.isNone = false

instance (s : Studio) (n : Nat) : Decidable (s.Simple n) :=
  inferInstanceAs (Decidable (∀ x ∈ s.forms[n]?, ∀ e ∈ x.fields, ∀ y ∈ s.fields[e.2]?, _))

theorem simple_iff : s.Simple n ↔ ∀ x, s.forms[n]? = some x → ∀ e ∈ x.fields, ∀ y,
    s.fields[e.2]? = some y → y.kind ≠ .nested ∧ y.value ≠ .none := by
  have hkind : ∀ k : Kind, k.isNested = false ↔ k ≠ .nested := fun k => by
    rw [← Bool.not_eq_true, Kind.isNested_iff]
  have hvalue : ∀ v : Value, v.isNone = false ↔ v ≠ .none := fun v => by cases v <;> simp [Value.isNone]
  simp only [Simple, Option.mem_def, hkind, hvalue]

/-- A form that can be a pattern: it is found under its id and can be made again, and the ids are in order. -/
structure Pattern (s : Studio) (id : Int) (n : Nat) (x : Form) : Prop where
  found : s.panel.pages.find? (.int id) = some n
  renewable : s.Renewable n x
  filed : ∃ live, s.Filed live

def Recalls (s t : Studio) (e e' : String × Nat) : Prop :=
  e'.1 = e.1 ∧ ∃ y y', s.fields[e.2]? = some y ∧ t.fields[e'.2]? = some y' ∧
    (y.value ≠ .none → y'.value = y.value ∧ y.kind ≠ .nested) ∧ (y.value = .none → y'.value ≠ .none)

theorem ne_none_of_starts {title layer description d : String} {c : Nat} {w : Value}
    (h : (Field.start title kind (givenBy schema (.form title layer as d)) description c families).Starts w) :
    w ≠ .none := by
  rintro rfl
  obtain ⟨hvalue, -⟩ | ⟨hvalue, -⟩ := h
  · change Value.none = givenBy schema (.form title layer as d) at hvalue
    by_cases hnested : (schema.kindOf title).isNested = true
    · rw [givenBy, if_pos hnested] at hvalue
      cases hvalue
    · rw [givenBy, if_neg hnested] at hvalue
      cases hvalue
  · cases hvalue

theorem recalls_of_packs {e e' : String × Nat} {y y' : Field} (hy : s.fields[e.2]? = some y)
    (hkind : y.kind = schema.kindOf e.1) (hlasting : y.Lasting s.families.names) (hpacks : Packs s e a)
    (htitle : e'.1 = a.title) (hy' : t.fields[e'.2]? = some y') (hentered : Entered s.families.names schema a y') :
    Recalls s t e e' := by
  obtain ⟨x, hx, hsome, hnone⟩ := hpacks
  cases hy.symm.trans hx
  obtain ⟨c, hstarts⟩ := hentered.starts
  by_cases hvalue : y.value = .none
  · obtain ⟨layer, as, rfl⟩ := hnone hvalue
    exact ⟨htitle, y, y', hy, hy', fun hne => absurd hvalue hne, fun _ => ne_none_of_starts hstarts⟩
  · obtain rfl := hsome hvalue
    have hsame : y'.kind = y.kind := hentered.kind.trans hkind.symm
    refine ⟨htitle, y, y', hy, hy', fun _ => ⟨?_, ?_⟩, fun hn => absurd hn hvalue⟩
    · rw [show schema.kindOf (Attribute.value e.1 y.value y.description).title = y.kind from hkind.symm] at hstarts
      exact hlasting.eq_of_starts hstarts
    · rw [← hsame]
      exact hentered.plain _ _ _ rfl

theorem Pattern.recalls {id : Int} (h : s.Pattern id n x)
    (hrun : (summon w.follow (.int id) none none).run s = .ok () t) :
    (∃ new, s.panel.pages.find? (.int new) = none ∧ t.panel.pages.find? (.int new) = some s.forms.length) ∧
      ∃ x', t.forms[s.forms.length]? = some x' ∧ x'.layer = x.layer ∧
        List.Forall₂ (Recalls s t) x.fields x'.fields := by
  obtain ⟨e, c, key, u, v, hsource, he, hkeyed, hfree, hopened, hfurnished⟩ := exists_of_run_summon hrun
  obtain rfl := he rfl
  obtain ⟨c', hc', hpack⟩ := (run_sourceOf_int h.found _).mp hsource
  cases hc'
  obtain ⟨y, hy, hlayer, hpacks⟩ := packs_of_run_pack hpack
  cases h.renewable.form.symm.trans hy
  obtain ⟨new, ids, rfl, rfl⟩ : ∃ new ids, key = .int new ∧ u = s.withIds ids := by
    obtain ⟨hnone, -⟩ | ⟨-, new, hnew, htake⟩ := hkeyed
    · cases hnone
    · obtain ⟨ids, hids⟩ := exists_of_run_takeId htake
      exact ⟨new, ids, hnew, hids⟩
  have hfamilies : t.families = s.families := hfurnished.furnishes.families.trans hopened.families
  have hfound := hfurnished.furnishes.pages hopened.tranquil _ _
    (hopened.find?_self (Option.not_isSome_iff_eq_none.mpr hfree))
  obtain ⟨x', es, hx', hlayer', hfields, hentered⟩ := hfurnished.form { layer := c.layer } (by simp [hopened.forms])
  have hrecalls : List.Forall₂ (Recalls s t) x.fields es := by
    refine forall₂_trans hpacks hentered fun e he a e' hpacked hentered => ?_
    obtain ⟨y, hy, hkind, hlasting⟩ := h.renewable.fields e he
    obtain ⟨htitle, y', hy', hentered⟩ := hentered
    rw [hfamilies, hlayer] at hentered
    exact recalls_of_packs hy hkind hlasting hpacked htitle hy' hentered
  -- the titles differ, so the fields are entered one after the other
  have htitles : titlesOf es = titlesOf x.fields := map_eq_of_forall₂ hrecalls fun _ _ _ he => he.1
  rw [foldl_assign_of_nodup es [] (by rw [nil_append, htitles]; exact h.renewable.titles)] at hfields
  refine ⟨⟨new, hfree, hfound⟩, x', hx', hlayer'.trans hlayer, ?_⟩
  rw [hfields]
  exact hrecalls

/-- **A form and its copy say the same** just if no field was without a value; and then there is no nested form. -/
theorem reading?_eq_iff {m : Nat} {x' : Form} (hx : s.forms[n]? = some x) (hx' : t.forms[m]? = some x')
    (hlayer : x'.layer = x.layer) (hrecalls : List.Forall₂ (Recalls s t) x.fields x'.fields) :
    t.reading? m = s.reading? n ↔ s.Simple n := by
  rw [simple_iff, reading?, reading?, hx, hx', Option.map_some, Option.map_some, Option.some.injEq, Prod.mk.injEq]
  constructor
  · rintro ⟨-, hvalues⟩ z hz e he y hy
    cases hz
    obtain ⟨i, hi⟩ := getElem?_of_mem he
    obtain ⟨e', hi', -, y₀, y', hy₀, hy', hsome, hnone⟩ := exists_of_forall₂ hrecalls hi
    cases hy.symm.trans hy₀
    have hsame : y'.value = y.value := by
      have hat := congrArg (·[i]?) hvalues
      simp only [getElem?_map, hi, hi', hy, hy', Option.map_some, Option.some.injEq, Prod.mk.injEq] at hat
      exact hat.2
    have hvalue : y.value ≠ .none := fun hn => hnone hn (hsame.trans hn)
    exact ⟨(hsome hvalue).2, hvalue⟩
  · intro hsimple
    refine ⟨hlayer, map_eq_of_forall₂ hrecalls fun e he e' hrecall => ?_⟩
    obtain ⟨htitle, y, y', hy, hy', hsome, -⟩ := hrecall
    rw [htitle, hy, hy', Option.map_some, Option.map_some, (hsome (hsimple x rfl e he y hy).2).1]

theorem Pattern.exists_run_addAttributes {u : Studio} {id : Int} (h : s.Pattern id n x) (hsimple : s.Simple n)
    (hlayer : c.layer = x.layer) (hpacks : List.Forall₂ (Packs s) x.fields c.attributes) (hu : u.Tranquil)
    (form : Nat) :
    ∃ table v, (addAttributes form (schemaOf c.layer) [] c.attributes).run u = .ok table v := by
  rw [simple_iff] at hsimple
  have hplain : ∀ a ∈ c.attributes, ∃ title v description, a = .value title v description ∧ v.Carries ∧
      ((schemaOf c.layer).kindOf title).isNested = false := by
    intro a ha
    obtain ⟨i, hi⟩ := getElem?_of_mem ha
    obtain ⟨e, he, y, hy, hsome, -⟩ := exists_of_forall₂ hpacks.flip hi
    have hmem := mem_of_getElem? he
    obtain ⟨z, hz, hkind, hlasting⟩ := h.renewable.fields e hmem
    cases hy.symm.trans hz
    obtain ⟨hnested, hvalue⟩ := hsimple x h.renewable.form e hmem y hy
    refine ⟨e.1, y.value, y.description, hsome hvalue, hlasting.carries, ?_⟩
    rw [hlayer, ← hkind]
    exact eq_false_of_ne_true fun hn => hnested (Kind.isNested_iff.mp hn)
  have hanswers := @answers_addAttributes [] form _ (fun _ => True) (schemaOf c.layer) c.attributes (fun _ => true)
    (fun _ _ s => s.Tranquil) (fun a ha done table s hs => ?_) [] hu
  · rw [all_eq_true.mpr fun _ _ => rfl] at hanswers
    obtain ⟨table, v, hrun, -⟩ := hanswers
    exact ⟨table, v, hrun⟩
  · obtain ⟨title, v, description, rfl, hcarries, hnested⟩ := hplain a ha
    have hvalue := @answers_addValue title _ _ [] form (schemaOf c.layer) hs hcarries (fun _ hp => by cases hp)
      table description
    rw [hnested] at hvalue
    exact hvalue.imp (fun _ _ hlays => hlays.1.adds.tranquil) fun _ _ => trivial

theorem Pattern.exists_run_summon (w : Audience) {id : Int} (h : s.Pattern id n x) (hsimple : s.Simple n) :
    ∃ t, (summon w.follow (.int id) none none).run s = .ok () t := by
  obtain ⟨live, hfiled⟩ := h.filed
  obtain ⟨new, ids, htake, -, hfree, -⟩ := hfiled.take
  obtain ⟨c, hpack⟩ := exists_run_pack h.renewable.form fun e he => by
    obtain ⟨y, hy, -, -⟩ := h.renewable.fields e he
    exact ⟨y, hy, (simple_iff.mp hsimple x h.renewable.form e he y hy).2⟩
  have hsource := (run_sourceOf_int h.found _).mpr ⟨c, rfl, hpack⟩
  obtain ⟨y, hy, hlayer, hpacks⟩ := packs_of_run_pack hpack
  cases h.renewable.form.symm.trans hy
  obtain ⟨u, hopen, hu⟩ := exists_run_openForm_int (s := s.withIds ids) hfree c.layer true
  obtain ⟨table, v, hfill⟩ := h.exists_run_addAttributes hsimple hlayer hpacks hu.tranquil s.forms.length
  have hadd : (addForm (.component c) (some (.int new)) true true).run (s.withIds ids) =
      .ok (.int new, c.layer, table) v := by
    rw [run_addForm (s := s.withIds ids) (run_demandFree hfree) hopen]
    exact run_bind_ok hfill
  unfold summon
  rw [run_bind_ok hsource]
  show ∃ t, run (takeId >>= _) s = .ok () t
  rw [run_bind_ok htake]
  show ∃ t, run (addForm (.component c) (some (.int new)) true true >>= _) (s.withIds ids) = .ok () t
  rw [run_bind_ok hadd]
  show ∃ t, run (calmly _ >>= _) v = .ok () t
  rw [run_bind_ok (run_calmly _ v)]
  exact ⟨_, rfl⟩

theorem Pattern.copies_iff_simple (w : Audience) {id : Int} (h : s.Pattern id n x) :
    s.Copies w id n ↔ s.Simple n := by
  constructor
  · rintro ⟨t, new, hrun, -, -, hreading⟩
    obtain ⟨-, x', hx', hlayer, hrecalls⟩ := h.recalls hrun
    exact (reading?_eq_iff h.renewable.form hx' hlayer hrecalls).mp hreading
  · intro hsimple
    obtain ⟨t, hrun⟩ := h.exists_run_summon w hsimple
    obtain ⟨⟨new, hfree, hfound⟩, x', hx', hlayer, hrecalls⟩ := h.recalls hrun
    exact ⟨t, new, hrun, hfree, hfound, (reading?_eq_iff h.renewable.form hx' hlayer hrecalls).mpr hsimple⟩

/-- **Every summons leaves a form that can be a pattern**, and no edit changes that. -/
theorem exists_pattern {live : List Int} (hs : s.Filed live) {key : Option Int} (hkey : ∀ k, key = some k → k ∈ live)
    (hsummon : (summon w.follow type pos (key.map .int)).run s = .ok () t) {id : Int}
    (hid : t.panel.pages.find? (.int id) = some s.forms.length) (edits : List Edit) :
    ∃ x, (t.edited edits).Pattern id s.forms.length x := by
  obtain ⟨e, c, new, u, v, -, -, hkeyed, -, hopened, hfurnished⟩ := exists_of_run_summon hsummon
  obtain ⟨hlength, ids, hids, hlive⟩ : u.forms.length = s.forms.length ∧
      ∃ ids, u.Filed ids ∧ ∀ m, (new == .int m) = true → m ∈ ids := by
    obtain ⟨hgiven, rfl⟩ | ⟨-, k, rfl, htake⟩ := hkeyed
    · obtain ⟨k, hk, rfl⟩ := Option.map_eq_some_iff.mp hgiven
      exact ⟨rfl, live, hs, fun m hm => mem_of_int_beq hm (hkey k hk)⟩
    · obtain ⟨k', ids, htake', -, -, hfiled⟩ := hs.take
      obtain ⟨rfl, rfl⟩ := Result.ok.inj (htake.symm.trans htake')
      exact ⟨rfl, k :: live, hfiled, fun m hm => mem_of_int_beq hm (.head _)⟩
  have ht : t.Tranquil := hfurnished.furnishes.tranquil hopened.tranquil
  obtain ⟨more, hfiled⟩ := hfurnished.furnishes.filed hopened.tranquil _ (hopened.filed hids hlive)
  obtain ⟨x, hx, -⟩ := hfurnished.renewable (by simp [hopened.forms])
  rw [hlength] at hx
  have hedited := edited_edited t edits
  have hpanel := (hedited.tranquil ht).2
  exact ⟨x, hpanel ▸ hid, hedited.renewable hx, more ++ ids, hfiled.of_panel hpanel⟩

/-- **A component that was summoned can be copied just if its form is simple**, after any edits: the summons by its id
    succeeds, and gives a form that says the same. So no component with a nested form can be copied. -/
theorem copies_edited_iff (w : Audience) {s t : Studio} {live : List Int} (hs : s.Filed live) {type : Value}
    {pos : Option Value} {key : Option Int} (hkey : ∀ k, key = some k → k ∈ live)
    (hsummon : (summon w.follow type pos (key.map .int)).run s = .ok () t) {id : Int}
    (hid : t.panel.pages.find? (.int id) = some s.forms.length) (edits : List Edit) :
    (t.edited edits).Copies w id s.forms.length ↔ (t.edited edits).Simple s.forms.length := by
  obtain ⟨x, hpattern⟩ := exists_pattern hs hkey hsummon hid edits
  exact hpattern.copies_iff_simple w

theorem copies_edited_shape :
    (((summon Audience.outside.follow (.text "shape") none none).after opened).edited
      [.enter opened.fields.length (.text "Circle") true]).Copies .outside 2 1 := by
  obtain ⟨live, haccounted⟩ := reached_opened.accounted
  have hsummon : (summon Audience.outside.follow (.text "shape") none ((none : Option Int).map .int)).run opened =
    .ok () ((summon Audience.outside.follow (.text "shape") none none).after opened) :=
    run_of_succeeds (by decide +kernel)
  have hlength : opened.forms.length = 1 := by decide +kernel
  have hfound : ((summon Audience.outside.follow (.text "shape") none none).after opened).panel.pages.find? (.int 2) =
      some opened.forms.length := by
    rw [hlength]
    decide +kernel
  have hiff := copies_edited_iff .outside haccounted.orderly.filed (fun k hk => by cases hk) hsummon hfound
    [.enter opened.fields.length (.text "Circle") true]
  rw [hlength] at hiff
  exact hiff.mpr (by decide +kernel)

/-- A text has a nested form, and cannot be copied. -/
theorem not_copies_text :
    ¬ ((summon Audience.outside.follow (.text "text") none none).after opened).Copies .outside 2 1 := by
  have hfails : (summon Audience.outside.follow (.int 2) none none).succeeds
    ((summon Audience.outside.follow (.text "text") none none).after opened) = false := by decide +kernel
  rintro ⟨u, new, hrun, -⟩
  rw [EStateM.succeeds, hrun] at hfails
  cases hfails

end Studio

end WatchFace
