import WatchFace.Proofs.Studio.Opening

/-!
# Laying out forms

The form of a component has a field with a new channel for each attribute, and a nested form for an attribute that is a
component of its own. The button of a nested form has to show one of its settings.
-/

namespace WatchFace.Catalog

def Kind.isNested : Kind → Bool
  | .nested => true
  | _ => false

theorem Kind.isNested_iff {k : Kind} : k.isNested = true ↔ k = .nested := by
  cases k <;> simp [isNested]

end WatchFace.Catalog

namespace WatchFace.Studio

open EStateM Catalog List

variable {inner table table' table'' : List (String × Nat)} {layer other title : String} {b c form n : Nat}
  {e : String × Nat} {s t u : Studio} {titles ts ts' : List String} {E F : Studio → Prop} {schema : Schema}
  {as : List Attribute} {v : Value} {kind : Kind} {live : List Int} {ok : Bool} {α : Type} {P : α → Studio → Prop}
  {x : Act α}

/-! ### Tables of channels -/

theorem mem_assign (he : e ∈ assign table title n) : e ∈ table ∨ e = (title, n) := by
  unfold assign at he
  split at he
  · obtain ⟨d, hd, rfl⟩ := mem_map.mp he
    split
    · exact .inr rfl
    · exact .inl hd
  · rw [mem_append, mem_singleton] at he
    exact he

def titlesOf (table : List (String × Nat)) : List String := table.map Prod.fst

theorem any_iff_mem_titlesOf : table.any (·.1 == title) = true ↔ title ∈ titlesOf table := by
  simp [titlesOf]

theorem titlesOf_assign (table : List (String × Nat)) (title : String) (n : Nat) :
    titlesOf (assign table title n) = if title ∈ titlesOf table then titlesOf table else titlesOf table ++ [title] := by
  unfold assign
  split
  case isTrue h =>
    rw [if_pos (any_iff_mem_titlesOf.mp h), titlesOf, map_map]
    refine map_congr_left fun e _ => ?_
    grind
  case isFalse h =>
    rw [if_neg (mt any_iff_mem_titlesOf.mpr h), titlesOf, map_append]
    rfl

theorem mem_titlesOf_assign (table : List (String × Nat)) (title : String) (n : Nat) (t : String) :
    t ∈ titlesOf (assign table title n) ↔ t ∈ titlesOf table ∨ t = title := by
  rw [titlesOf_assign]
  split
  · grind
  · simp

theorem mem_foldl_assign (he : e ∈ inner.foldl (fun t e => assign t e.1 e.2) table) : e ∈ table ∨ e ∈ inner := by
  induction inner generalizing table with
  | nil => exact .inl he
  | cons d inner ih =>
    obtain he | he := ih he
    · exact (mem_assign he).imp_right fun h => by simp [h]
    · exact .inr (.tail _ he)

theorem mem_titlesOf_foldl (inner table : List (String × Nat)) (t : String) :
    t ∈ titlesOf (inner.foldl (fun t e => assign t e.1 e.2) table) ↔
      t ∈ titlesOf table ∨ t ∈ titlesOf inner := by
  induction inner generalizing table with
  | nil => simp [titlesOf]
  | cons d inner ih =>
    rw [foldl_cons, ih, mem_titlesOf_assign]
    simp [titlesOf, or_assoc]

theorem isSome_lookup : (table.lookup title).isSome = true ↔ title ∈ titlesOf table := by
  simp [titlesOf, lookup_isSome_iff]

theorem exists_lookup (h : title ∈ titlesOf table) : ∃ n, table.lookup title = some n ∧ (title, n) ∈ table := by
  obtain ⟨n, hn⟩ := Option.isSome_iff_exists.mp (isSome_lookup.mpr h)
  exact ⟨n, hn, mem_of_lookup hn⟩

theorem lookup_eq_none (h : title ∉ titlesOf table) : table.lookup title = none :=
  Option.not_isSome_iff_eq_none.mp (mt isSome_lookup.mp h)

theorem lookup_assign (table : List (String × Nat)) (title : String) (n : Nat) (other : String) :
    (assign table title n).lookup other = if other = title then some n else table.lookup other := by
  have hmap : (table.map fun e => if e.1 == title then (title, n) else e).lookup other =
      if other = title ∧ table.any (·.1 == title) then some n else table.lookup other := by
    induction table with
    | nil => simp
    | cons e table ih =>
      obtain ⟨t, m⟩ := e
      by_cases ht : t = title
      · by_cases hother : other = title
        · simp [ht, hother]
        · have hne : (other == title) = false := beq_eq_false_iff_ne.mpr hother
          simpa [lookup_cons, ht, hother, hne] using ih
      · have hne : (t == title) = false := beq_eq_false_iff_ne.mpr ht
        rw [map_cons, any_cons, hne, Bool.false_or]
        by_cases hother : other = t
        · simp [hother, ht]
        · simpa [lookup_cons, beq_eq_false_iff_ne.mpr hother] using ih
  unfold assign
  split
  · grind
  · simp only [lookup_append]
    grind

theorem lookup_foldl_assign (h : other ∉ titlesOf inner) (table : List (String × Nat)) :
    (inner.foldl (fun t e => assign t e.1 e.2) table).lookup other = table.lookup other := by
  induction inner generalizing table with
  | nil => rfl
  | cons e inner ih =>
    have hne : other ≠ e.1 := fun heq => h (heq ▸ mem_cons_self)
    rw [foldl_cons, ih fun hmem => h (.tail _ hmem), lookup_assign, if_neg hne]

/-! ### Laying out attributes -/

/-- The parts of a layer that need an angle, with the titles that they follow. -/
def steering : List (String × Layer.Part) :=
  [("Skew X", .skewX), ("Skew Y", .skewY), ("Rotation", .rotate)]

variable {parts : List (String × Layer.Part)}

/-- A channel whose listeners repeat nothing, and which carried last what suits the part. -/
def Suited (s : Studio) (c : Nat) (p : Layer.Part) : Prop :=
  (∀ l : Listener, l.On s c → l.Quiet s) ∧ ∃ v, s.last? c = some v ∧ p.Suits v.carried

/-- The channel of a title suits those of the parts that follow the title. -/
def Plumb (parts : List (String × Layer.Part)) (s : Studio) (e : String × Nat) : Prop :=
  ∀ p, (e.1, p) ∈ parts → s.Suited e.2 p

theorem quiet_of_houses (h : Houses s t) {k : Listener} (hhome : k.Home s c) (hk : k.Quiet s) : k.Quiet t := by
  cases k
  case field f =>
    obtain ⟨x, hx, -⟩ := hhome
    obtain ⟨y, hy, hkind, -⟩ := h.fields f x hx
    intro z hz
    cases hy.symm.trans hz
    rw [hkind]
    exact hk x hx
  all_goals exact hk

theorem Suited.of_houses {p : Layer.Part} (h : s.Suited c p) (hsound : s.Sound c) (hst : Houses s t)
    (hlast : t.last? c = s.last? c) (hon : ∀ k : Listener, k.On t c → k.On s c ∨ k.Quiet t) : t.Suited c p := by
  obtain ⟨hquiet, v, hv, hsuits⟩ := h
  refine ⟨fun k hk => ?_, v, hlast.trans hv, hsuits⟩
  obtain hk | hk := hon k hk
  · exact quiet_of_houses hst (hsound.homely k hk) (hquiet k hk)
  · exact hk

theorem Adds.plumb (h : Adds s t) (hsound : s.Sound e.2) (he : s.Plumb parts e) : t.Plumb parts e := fun p hp =>
  (he p hp).of_houses hsound h.houses (h.last? hsound.lt) fun _ hk => .inl ((h.on_iff hsound.lt).mp hk)

/-- Attributes are laid out: they have new channels, which are sound, and their titles are in the
    table. -/
structure Lays (parts : List (String × Layer.Part)) (titles : List String)
    (table table' : List (String × Nat)) (s t : Studio) : Prop where
  adds : Adds s t
  sound : ∀ c, s.channels.length ≤ c → c < t.channels.length → t.Sound c
  entries : ∀ e ∈ table', e ∈ table ∨ s.channels.length ≤ e.2 ∧ e.2 < t.channels.length ∧ t.Plumb parts e
  kept : ∀ title, title ∉ titles → table'.lookup title = table.lookup title
  titles : ∀ title, title ∈ titlesOf table' ↔ title ∈ titlesOf table ∨ title ∈ titles

theorem Lays.refl (h : s.Tranquil) (table : List (String × Nat)) : Lays parts [] table table s s where
  adds := Adds.refl h
  sound c hle hlt := by omega
  entries _ := .inl
  titles _ := by simp
  kept _ _ := rfl

theorem Lays.trans (hst : Lays parts ts table table' s t) (htu : Lays parts ts' table' table'' t u) :
    Lays parts (ts ++ ts') table table'' s u where
  adds := hst.adds.trans htu.adds
  sound c hle hlt := by
    by_cases hc : c < t.channels.length
    · exact htu.adds.sound (hst.sound c hle hc)
    · exact htu.sound c (by omega) hlt
  entries e he := by
    have hlength := hst.adds.length
    have hlength' := htu.adds.length
    obtain he | ⟨hle, hlt, hplumb⟩ := htu.entries e he
    · obtain he | ⟨hle, hlt, hplumb⟩ := hst.entries e he
      · exact .inl he
      · exact .inr ⟨hle, by omega, htu.adds.plumb (hst.sound e.2 hle hlt) hplumb⟩
    · exact .inr ⟨by omega, hlt, hplumb⟩
  titles title := by
    rw [htu.titles, hst.titles, mem_append, or_assoc]
  kept title htitle := by
    rw [mem_append, not_or] at htitle
    exact (htu.kept title htitle.2).trans (hst.kept title htitle.1)

/-- An action succeeds as `ok` tells: then its result and state are in `P`, and else the state is in `E`. -/
def Answers {α : Type} (ok : Bool) (r : Result Fault Studio α) (P : α → Studio → Prop)
    (E : Studio → Prop) : Prop :=
  match ok with
  | true => ∃ a t, r = .ok a t ∧ P a t
  | false => ∃ e t, r = .error e t ∧ E t

theorem Answers.imp {r : Result Fault Studio α} {Q : α → Studio → Prop}
    (h : Answers ok r P E) (hP : ∀ a t, P a t → Q a t) (hE : ∀ t, E t → F t) :
    Answers ok r Q F := by
  cases ok with
  | true =>
    obtain ⟨a, t, hr, ht⟩ := h
    exact ⟨a, t, hr, hP a t ht⟩
  | false =>
    obtain ⟨e, t, hr, ht⟩ := h
    exact ⟨e, t, hr, hE t ht⟩

theorem Answers.bind {β : Type} {ok' : Bool} {f : α → Act β}
    {Q : β → Studio → Prop} (hx : Answers ok (x.run s) P E) (hf : ∀ a t, P a t → Answers ok' ((f a).run t) Q E) :
    Answers (ok && ok') ((x >>= f).run s) Q E := by
  cases ok with
  | true =>
    obtain ⟨a, t, hrun, ht⟩ := hx
    rw [run_bind_ok hrun]
    exact hf a t ht
  | false =>
    obtain ⟨e, t, hrun, ht⟩ := hx
    rw [run_bind_error hrun]
    exact ⟨e, t, rfl, ht⟩

/-- What an action leads to, whether it succeeds or not. -/
theorem Answers.after_cases (h : Answers ok (x.run s) P E) :
    ok = true ∧ (∃ a, P a (x.after s)) ∨ ok = false ∧ E (x.after s) := by
  cases ok with
  | true =>
    obtain ⟨a, t, hrun, ht⟩ := h
    rw [after_of_ok hrun]
    exact .inl ⟨rfl, a, ht⟩
  | false =>
    obtain ⟨e, t, hrun, ht⟩ := h
    rw [after_of_error hrun]
    exact .inr ⟨rfl, ht⟩

theorem answers_addAttributes {good : Attribute → Bool} {I : List Attribute → List (String × Nat) → Studio → Prop}
    (hstep : ∀ a ∈ as, ∀ done table s, I done table s →
      Answers (good a) ((addAttribute form schema table a).run s) (I (done ++ [a])) E) (done : List Attribute)
    (hs : I done table s) :
    Answers (as.all good) ((addAttributes form schema table as).run s) (I (done ++ as)) E := by
  induction as generalizing done table s with
  | nil => exact ⟨table, s, by unfold addAttributes; rfl, by rwa [append_nil]⟩
  | cons a as ih =>
    unfold addAttributes
    rw [all_cons]
    refine (hstep a mem_cons_self done table s hs).bind fun table' t ht => ?_
    rw [append_cons]
    exact ih (fun b hb => hstep b (.tail _ hb)) _ ht

def Filled (form b : Nat) (titles : List String) (s : Studio) : Prop :=
  ∃ x, s.forms[form]? = some x ∧ (∀ title, title ∈ titlesOf x.fields ↔ title ∈ titles) ∧
    ∀ e ∈ x.fields, ∃ y, s.fields[e.2]? = some y ∧ b ≤ y.channel ∧ y.channel < s.channels.length

theorem Filled.add (h : Filled form b titles s) (htu : Fielded form title v kind c t u) (hforms : t.forms = s.forms)
    (hadds : Adds s u) (hb : b ≤ c) (hc : c < t.channels.length) :
    Filled form b (titles ++ [title]) u := by
  obtain ⟨x, hx, htitles, hfields⟩ := h
  have hlength := hadds.length
  refine ⟨{ x with fields := assign x.fields title t.fields.length }, ?_, fun title' => ?_, fun e he => ?_⟩
  · rw [htu.forms, hforms, getElem?_modify_eq, hx]
    rfl
  · rw [mem_titlesOf_assign, htitles, mem_append, mem_singleton]
  · obtain he | rfl := mem_assign he
    · obtain ⟨y, hy, hby, hlt⟩ := hfields e he
      obtain ⟨z, hz, hsame⟩ := hadds.fields _ y hy
      rw [← Field.plate_channel hsame.plate] at hby hlt
      exact ⟨z, hz, hby, by omega⟩
    · obtain ⟨y, hy, rfl⟩ := htu.field
      exact ⟨y, hy, hb, htu.length ▸ hc⟩

theorem not_on_new (s : Studio) (l : Listener) : ¬ l.On s.withChannel s.channels.length := by
  rintro ⟨ch, hch, hmem⟩
  rw [withChannel, getElem?_concat_length] at hch
  cases hch
  exact absurd hmem not_mem_nil

theorem sound_new (s : Studio) : s.withChannel.Sound s.channels.length := by
  refine ⟨by simp [withChannel], fun l hl => absurd hl (not_on_new s l), fun v hv => ?_⟩
  rw [last?, withChannel, getElem?_concat_length] at hv
  cases hv
  intro n hn
  cases hn

theorem Fielded.lays (hs : s.Tranquil) (h : Fielded form title v kind s.channels.length s.withChannel t)
    (hsteering : ∀ p, (title, p) ∈ parts → kind.isChoice = false ∧ p.Suits v.carried) (table : List (String × Nat)) :
    Lays parts [title] table (assign table title s.channels.length) s t := by
  have hlength : t.channels.length = s.channels.length + 1 := by
    rw [h.length]
    exact length_append
  refine ⟨h.adds s (adds_withChannel hs) (Nat.le_refl _), fun c hle hlt => ?_, fun e he => ?_,
    fun title' htitle => ?_, fun title' => ?_⟩
  · obtain rfl : c = s.channels.length := by omega
    exact h.sound _ (sound_new s)
  · obtain he | rfl := mem_assign he
    · exact .inl he
    · refine .inr ⟨Nat.le_refl _, by omega, fun p hp => ?_⟩
      obtain ⟨hchoice, hsuits⟩ := hsteering p hp
      obtain ⟨hlast, hquiet⟩ := h.plain hchoice (not_on_new s)
      exact ⟨hquiet, v, hlast, hsuits⟩
  · rw [lookup_assign, if_neg fun heq => htitle (mem_singleton.mpr heq)]
  · rw [mem_titlesOf_assign, mem_singleton]

theorem answers_addValue (form : Nat) (schema : Schema) (hs : s.Tranquil) (hv : v.Carries)
    (hsteering : ∀ p, (title, p) ∈ parts →
      (schema.kindOf title).isChoice = false ∧ p.Suits v.carried) (table : List (String × Nat)) (description : String) :
    Answers (!(schema.kindOf title).isNested) ((addAttribute form schema table (.value title v description)).run s)
      (fun table' t => Lays parts [title] table table' s t ∧
        (∀ b titles, b ≤ s.channels.length → Filled form b titles s → Filled form b (titles ++ [title]) t) ∧
        t.panel = s.panel ∧ t.forms.length = s.forms.length)
      (Adds s) := by
  have hadds := adds_withChannel hs
  unfold addAttribute
  rw [run_bind_ok (run_addChannel s)]
  split
  case h_1 hkind =>
    rw [hkind]
    exact ⟨_, _, rfl, hadds⟩
  case h_2 hkind =>
    have hnested : (schema.kindOf title).isNested = false :=
      eq_false_of_ne_true fun h => hkind (Kind.isNested_iff.mp h)
    obtain ⟨t, hrun, ht⟩ := exists_run_addField (sound_new s) hs hv form title description (schema.kindOf title)
    rw [hnested, run_bind_ok hrun]
    refine ⟨_, t, rfl, ht.lays hs hsteering table, fun b titles hb hfilled => ?_, ht.panel, by simp [ht.forms]; rfl⟩
    have hadds' := ht.adds s hadds (Nat.le_refl _)
    exact hfilled.add ht rfl hadds' hb (by simp [withChannel])

/-! ### Nested forms -/

def names (titles : List String) : Value → Bool
  | .text title => titles.contains title
  | _ => false

theorem answers_channelUnder (h : Filled form b titles s) (shown : Value) (hE : E s) :
    Answers (names titles shown) ((channelUnder form shown).run s)
      (fun c t => t = s ∧ b ≤ c ∧ c < s.channels.length) E := by
  obtain ⟨x, hx, htitles, hfields⟩ := h
  cases shown
  case text title =>
    show Answers (titles.contains title) (run (part Studio.forms form >>= _) s) _ _
    rw [run_bind_ok (run_part hx)]
    cases hmem : titles.contains title with
    | true =>
      obtain ⟨f, hf, he⟩ := exists_lookup ((htitles title).mpr (contains_iff_mem.mp hmem))
      obtain ⟨y, hy, hb, hlt⟩ := hfields _ he
      rw [hf]
      show Answers true (run (Studio.field f >>= _) s) _ _
      rw [run_bind_ok (run_field hy)]
      exact ⟨y.channel, s, rfl, rfl, hb, hlt⟩
    | false =>
      have hnone : title ∉ titlesOf x.fields := by
        rw [htitles, ← contains_iff_mem, hmem]
        exact Bool.false_ne_true
      rw [lookup_eq_none hnone]
      exact ⟨_, s, rfl, hE⟩
  case tuple xs =>
    unfold channelUnder
    dsimp only
    split
    · exact ⟨_, s, rfl, hE⟩
    · exact ⟨_, s, rfl, hE⟩
  all_goals exact ⟨_, s, rfl, hE⟩

/-- Whether an attribute can be put on a form: a form of its own is there exactly if its kind asks for one, with the
    setting that the button shows. -/
def fits (schema : Schema) : Attribute → Bool
  | .value title _ _ => !(schema.kindOf title).isNested
  | .form title layer as _ =>
    if (schema.kindOf title).isNested then
      (as.all fun a => !((schemaOf layer).kindOf a.title).isNested) &&
        (shownBy as).toOption.any (names (as.map Attribute.title))
    else true

/-- An attribute of a nested form that has a value, which can be carried and which none of the parts
    follows. -/
def Plain (parts : List (String × Layer.Part)) : Attribute → Prop
  | .value title v _ => v.Carries ∧ ∀ p, (title, p) ∉ parts
  | .form _ _ _ _ => False

instance (title : String) (P : Layer.Part → Prop) [DecidablePred P] :
    Decidable (∀ p, (title, p) ∈ parts → P p) :=
  decidable_of_iff (∀ e ∈ parts, e.1 = title → P e.2)
    ⟨fun h p hp => h (title, p) hp rfl, fun h e he ht => h e.2 (ht ▸ he)⟩

instance (title : String) : Decidable (∀ p, (title, p) ∉ parts) :=
  inferInstanceAs (Decidable (∀ p, (title, p) ∈ parts → False))

instance (a : Attribute) : Decidable (Plain parts a) :=
  match a with
  | .value _ _ _ => inferInstanceAs (Decidable (_ ∧ _))
  | .form _ _ _ _ => .isFalse id

theorem Filled.modify (h : Filled form b titles s) (hchannels : t.channels = s.channels)
    (hfields : t.fields = s.fields) {g : Form → Form} (hforms : t.forms = s.forms.modify n g)
    (hg : ∀ x, (g x).fields = x.fields) :
    Filled form b titles t := by
  obtain ⟨x, hx, htitles, hall⟩ := h
  rw [Filled, hchannels, hfields, hforms]
  by_cases hn : n = form
  · subst hn
    refine ⟨g x, ?_, ?_, ?_⟩
    · rw [getElem?_modify_eq, hx]
      rfl
    · rwa [hg]
    · rwa [hg]
  · exact ⟨x, (getElem?_modify_ne g s.forms hn).trans hx, htitles, hall⟩

theorem answers_addPlain (h : ∀ a ∈ as, Plain parts a) (hu : Adds u s) (hfilled : Filled n s.channels.length [] s)
    (layer : String) : Answers (as.all fun a => !((schemaOf layer).kindOf a.title).isNested)
      ((addAttributes n (schemaOf layer) [] as).run s)
      (fun table t => Lays parts (as.map Attribute.title) [] table s t ∧
        Filled n s.channels.length (as.map Attribute.title) t ∧
        t.panel = s.panel ∧ t.forms.length = s.forms.length) (Adds u) := by
  refine answers_addAttributes (I := fun done table t => Lays parts (done.map Attribute.title) [] table s t ∧
      Filled n s.channels.length (done.map Attribute.title) t ∧ t.panel = s.panel ∧ t.forms.length = s.forms.length)
    (fun a ha done table t ht => ?_) [] ⟨Lays.refl hu.tranquil [], hfilled, rfl, rfl⟩
  obtain ⟨hlays, hfilled, hpanel, hforms⟩ := ht
  cases a
  case form => exact absurd (h _ ha) id
  case value title v description =>
    obtain ⟨hv, hsteering⟩ := h _ ha
    have hadd := answers_addValue n (schemaOf layer) hlays.adds.tranquil hv
      (fun p hp => absurd hp (hsteering p)) table description
    refine hadd.imp (fun table' t' ht => ?_) fun t' ht => hu.trans (hlays.adds.trans ht)
    rw [map_append]
    obtain ⟨hlays', hfilled', hpanel', hforms'⟩ := ht
    exact ⟨hlays.trans hlays', hfilled' _ _ hlays.adds.length hfilled, hpanel'.trans hpanel, hforms'.trans hforms⟩

theorem answers_finishNested {key shown : Value} {s₀ : Studio} (hv : v.Carries) (hsteering : ∀ p, (title, p) ∉ parts)
    (hplain : ∀ t ∈ titles, ∀ p, (t, p) ∉ parts) (hs : Adds s₀.withChannel s)
    (hlength : s.channels.length = s₀.channels.length + 1) (hlays : Lays parts titles [] inner s t)
    (hfilled : Filled n s.channels.length titles t) (hadds : Adds s₀ t) (description : String) :
    Answers (names titles shown) ((do
        endGroup
        let child ← formOf? key
        changeForm form fun x => { x with child := child }
        let c ← channelUnder n shown
        changeForm form fun x => { x with opens := some key }
        addField form title v description .nested c
        pure (inner.foldl (fun t e => assign t e.1 e.2) (assign table title s₀.channels.length)) :
          Act (List (String × Nat))).run t)
      (fun table' u => Lays parts (title :: titles) table table' s₀ u) (Adds s₀) := by
  let child := t.panel.pages.find? key
  let g : Form → Form := fun x => { x with child := child }
  let t₁ : Studio := { t with groups := t.groups - 1, forms := t.forms.modify form g }
  have hadds₁ : Adds s₀ t₁ := hadds.of_kept rfl (fun _ _ => rfl) hadds.fields rfl rfl rfl rfl hadds.tranquil rfl
  have hfilled₁ : Filled n s.channels.length titles t₁ := hfilled.modify rfl rfl rfl fun _ => rfl
  show Answers _ (run (channelUnder n shown >>= _) t₁) _ _
  rw [← Bool.and_true (names titles shown)]
  refine (answers_channelUnder hfilled₁ shown hadds₁).bind fun c t₂ ht₂ => ?_
  obtain ⟨rfl, hle, hlt⟩ := ht₂
  let t₃ : Studio := { t₁ with forms := t₁.forms.modify form fun x => { x with opens := some key } }
  have hsound : ∀ d, s.channels.length ≤ d → d < t.channels.length → t₃.Sound d := fun d hd hd' =>
    (hlays.sound d hd hd').of_houses (houses_of_fields rfl rfl rfl) rfl
  have hadds₃ : Adds s₀ t₃ := hadds.of_kept rfl (fun _ _ => rfl) hadds.fields rfl rfl rfl rfl hadds.tranquil rfl
  obtain ⟨u, hrun, hu⟩ := exists_run_addField (hsound c hle hlt) hadds₃.tranquil hv form title description .nested
  show Answers _ (run (addField form title v description .nested c >>= _) t₃) _ _
  rw [run_bind_ok hrun]
  have hlast : u.channels.length = t.channels.length := hu.length
  have hlengths := hlays.adds.length
  refine ⟨_, u, rfl, hu.adds s₀ hadds₃ (by omega), fun d hd hd' => hu.sound d ?_, fun e he => ?_,
    fun title' htitle => ?_, fun title' => ?_⟩
  · by_cases hds : d < s.channels.length
    · -- the channel of the attribute itself stays as it was made
      obtain rfl : d = s₀.channels.length := by omega
      have hnew := hlays.adds.sound (hs.sound (sound_new s₀))
      exact hnew.of_houses (houses_of_fields rfl rfl rfl) rfl
    · exact hsound d (by omega) (by omega)
  · obtain he | he := mem_foldl_assign he
    · obtain he | rfl := mem_assign he
      · exact .inl he
      · exact .inr ⟨Nat.le_refl _, by omega, fun p hp => absurd hp (hsteering p)⟩
    · have htitle : e.1 ∈ titles := by
        have hmem := (hlays.titles e.1).mp (mem_map_of_mem he)
        exact hmem.resolve_left not_mem_nil
      obtain hnil | ⟨hle, hlt, -⟩ := hlays.entries e he
      · exact absurd hnil not_mem_nil
      · exact .inr ⟨by omega, by omega, fun p hp => absurd hp (hplain _ htitle p)⟩
  · rw [mem_cons, not_or] at htitle
    have hinner : title' ∉ titlesOf inner := fun hmem =>
      htitle.2 (((hlays.titles title').mp hmem).resolve_left not_mem_nil)
    rw [lookup_foldl_assign hinner, lookup_assign, if_neg htitle.1]
  · have hinner := hlays.titles title'
    rw [mem_titlesOf_foldl, mem_titlesOf_assign, hinner, mem_cons]
    simp [titlesOf, or_assoc]

theorem answers_addNested (hkind : schema.kindOf title = .nested) (hsteering : ∀ p, (title, p) ∉ parts)
    (has : ∀ a ∈ as, Plain parts a) (hs : s.Tranquil) (hlive : s.Orderly live) (table : List (String × Nat))
    (description : String) :
    Answers (fits schema (.form title layer as description))
      ((addAttribute form schema table (.form title layer as description)).run s)
      (fun table' t => Lays parts (title :: as.map Attribute.title) table table' s t) (Adds s) := by
  have hadds := adds_withChannel hs
  unfold addAttribute
  rw [run_bind_ok (run_addChannel s)]
  dsimp only
  have hnested : Kind.nested.isNested = true := rfl
  rw [fits, hkind, if_pos hnested]
  cases hshown : shownBy as with
  | error e =>
    rw [Except.toOption, Option.any_none, Bool.and_false]
    exact ⟨e, _, rfl, hadds⟩
  | ok shown =>
    obtain ⟨more, horderly⟩ := hadds.orderly live hlive
    obtain ⟨id, ids, htake, -, hform, -⟩ := horderly.take
    have hfree : ¬ (s.withChannel.withIds ids).HasForm id := hform
    obtain ⟨t, hopen, ht⟩ := exists_run_openForm_int hfree layer false
    rw [run_bind_ok (run_require_ok shown _), run_bind_ok htake, run_bind_ok (run_demandFree hfree),
      run_bind_ok hopen]
    have htadds : Adds s t := hadds.openForm htake ht
    have hlength : t.channels.length = s.channels.length + 1 := by
      rw [ht.channels]
      exact length_append
    have hfilled : Filled s.forms.length t.channels.length [] t := by
      refine ⟨{ layer := layer }, ?_, fun _ => Iff.rfl, forall_mem_nil _⟩
      rw [ht.forms]
      exact getElem?_concat_length
    have hplain : ∀ t ∈ as.map Attribute.title, ∀ p, (t, p) ∉ parts := by
      intro t ht p
      obtain ⟨a, ha, rfl⟩ := mem_map.mp ht
      have hplain := has a ha
      cases a
      case value => exact hplain.2 p
      case form => exact hplain.elim
    refine (answers_addPlain has htadds hfilled layer).bind fun inner u hu => ?_
    have hnew : Adds s.withChannel t := (Adds.refl hadds.tranquil).openForm htake ht
    exact answers_finishNested (Value.carries_list _) hsteering hplain hnew hlength hu.1 hu.2.1 (htadds.trans hu.1.adds)
      description

/-- An attribute that can be carried and suits the parts that follow it; the settings of its form are plain. -/
def Regular (parts : List (String × Layer.Part)) (schema : Schema) : Attribute → Prop
  | .value title v _ => v.Carries ∧ ∀ p, (title, p) ∈ parts →
      (schema.kindOf title).isChoice = false ∧ p.Suits v.carried
  | .form title _ as _ => (∀ p, (title, p) ∉ parts) ∧
      ((schema.kindOf title).isNested = true → ∀ a ∈ as, Plain parts a)

instance (schema : Schema) (a : Attribute) : Decidable (Regular parts schema a) :=
  match a with
  | .value _ _ _ => inferInstanceAs (Decidable (_ ∧ _))
  | .form _ _ _ _ => inferInstanceAs (Decidable (_ ∧ (_ → _)))

def titlesIn (schema : Schema) : Attribute → List String
  | .value title _ _ => [title]
  | .form title _ as _ =>
    if (schema.kindOf title).isNested then title :: as.map Attribute.title else [title]

/-- A regular attribute is added exactly if it fits. -/
theorem answers_addAttribute {a : Attribute} (ha : Regular parts schema a) (hs : s.Tranquil) (hlive : s.Orderly live)
    (table : List (String × Nat)) :
    Answers (fits schema a) ((addAttribute form schema table a).run s)
      (fun table' t => Lays parts (titlesIn schema a) table table' s t) (Adds s) := by
  cases a
  case value title v description =>
    exact (answers_addValue form schema hs ha.1 ha.2 table description).imp (fun _ _ h => h.1) fun _ => id
  case form title layer as description =>
    by_cases hnested : (schema.kindOf title).isNested = true
    · rw [titlesIn, if_pos hnested]
      exact answers_addNested (Kind.isNested_iff.mp hnested) ha.1 (ha.2 hnested) hs hlive table description
    · -- the field of the attribute shows the form as a value
      obtain ⟨t, hrun, ht⟩ := exists_run_addField (v := Component.toValue ⟨layer, as⟩) (sound_new s) hs
        (Value.carries_list _) form title description (schema.kindOf title)
      rw [fits, if_neg hnested, titlesIn, if_neg hnested]
      unfold addAttribute
      rw [run_bind_ok (run_addChannel s)]
      dsimp only
      split
      case h_1 heq => exact absurd (Kind.isNested_iff.mpr heq) hnested
      case h_2 =>
        rw [run_bind_ok hrun]
        exact ⟨_, t, rfl, ht.lays hs (fun p hp => absurd hp (ha.1 p)) table⟩

/-- **A form is laid out exactly if all attributes fit**, and nothing that was there is disturbed. -/
theorem answers_layout (form : Nat) (has : ∀ a ∈ as, Regular parts schema a) (hs : s.Tranquil)
    (hlive : s.Orderly live) (table : List (String × Nat)) :
    Answers (as.all (fits schema)) ((addAttributes form schema table as).run s)
      (fun table' t => Lays parts (as.flatMap (titlesIn schema)) table table' s t) (Adds s) := by
  refine answers_addAttributes (I := fun done table' t => Lays parts (done.flatMap (titlesIn schema)) table table' s t)
    (fun a ha done table' t ht => ?_) [] (Lays.refl hs table)
  obtain ⟨more, hmore⟩ := ht.adds.orderly live hlive
  refine (answers_addAttribute (has a ha) ht.adds.tranquil hmore table').imp (fun table'' u hu => ?_)
    fun u hu => ht.adds.trans hu
  rw [flatMap_append, flatMap_singleton]
  exact ht.trans hu

end WatchFace.Studio
