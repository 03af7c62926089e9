import WatchFace.Proofs.Studio.Stacks

/-!
# Stacks of texts

The watch faces to which texts were added are stacks: each layer lies as deep as the place of its item in the explorer
says.
-/

namespace WatchFace.Studio

open EStateM Catalog

variable {c : Component} {live : List Int}

/-! ### The channel for the place of a component -/

structure Stackable (c : Component) : Prop where
  regular : IsRegular c
  complete : isComplete c = true
  drawn : isDrawn c = true
  single : c.layer ≠ groupLayer
  named : "Name" ∈ c.attributes.flatMap (titlesIn (schemaOf c.layer))
  kind : (schemaOf c.layer).kindOf "Layer" = Catalog.order
  place : ∃ before description after, c.attributes = before ++ .value "Layer" (.int 0) description :: after ∧
    "Layer" ∉ after.flatMap (titlesIn (schemaOf c.layer))

variable {b s t : Studio}

theorem awaits_of_grown {n : Nat} (hn : n < s.channels.length) (hlast : s.last? n = some (.int 0))
    (hkinds : ∀ (f : Nat) (y : Field), s.fields[f]? = some y → y.channel = n → y.kind = Catalog.order)
    (h : Grown s t) : t.Awaits n 0 := by
  refine ⟨?_, fun f y hy hchannel => ?_⟩
  · obtain ⟨ch, hch, hvalue⟩ := Option.map_eq_some_iff.mp hlast
    refine ⟨ch, (h.channels _ hn).trans hch, ?_⟩
    rw [hvalue]
    exact Value.ranks_zero.carried
  · obtain hf | hf := Nat.lt_or_ge f s.fields.length
    · obtain ⟨x, hx, hplate⟩ := getElem?_of_map_getElem? (h.plates f hf).symm hy
      rw [← Field.plate_kind hplate]
      exact hkinds f x hx ((Field.plate_channel hplate).trans hchannel)
    · exact absurd (h.fresh f y hf hy) (by omega)

theorem exists_run_fill (hc : Stackable c) (h : Grown b s) (hlive : s.Orderly live) (form : Nat) :
    ∃ table t n, (addAttributes form (schemaOf c.layer) [] c.attributes).run s = .ok table t ∧
      Grown b t ∧ t.layers.length = s.layers.length ∧ t.items.length = s.items.length ∧ b.channels.length ≤ n ∧
        t.Awaits n 0 ∧ Charts "Layer" b.channels.length n table ∧ "Name" ∈ titlesOf table := by
  obtain ⟨before, description, after, hattributes, hother⟩ := hc.place
  obtain ⟨table₁, table₂, table, s₁, s₂, t, hspread⟩ :=
    exists_spread hc.regular hc.complete hattributes h hlive form
  obtain ⟨h₁, h₂, hwhole⟩ := hspread.grown h
  obtain ⟨s₂', hrun, -, hlength, hlast, hkinds⟩ :=
    exists_run_addValue hc.kind (by simp [order]) (by decide +kernel : (Value.int 0).Carries) h₁ form table₁ description
  obtain ⟨rfl, rfl⟩ := Result.ok.inj (hspread.second.symm.trans hrun)
  have hlt : s₁.channels.length < s₂.channels.length := by omega
  refine ⟨table, t, s₁.channels.length, hspread.whole, hwhole, hspread.lays.adds.layers, hspread.items, h₁.channels_le,
    awaits_of_grown hlt (hlast rfl) hkinds (hspread.grown_third h₂), ?_, ?_⟩
  · exact charts_of_lays h.channels_le (hspread.grown h.self).1.channels_le hlt hspread.before hspread.after hother
  · rw [hspread.lays.titles]
    exact .inr hc.named

/-! ### Building rows -/

/-- A watch face whose components make up a stack, each with a layer and an item of the same number. -/
structure Lined (rows : List Row) (s : Studio) : Prop where
  grown : Grown {} s
  orderly : ∃ live, s.Orderly live
  stacked : Stacked rows s
  even : s.layers.length = s.items.length
  aligned : ∀ r ∈ rows, r.layer = r.item

variable {rows : List Row}

/-- **A component that is built becomes a row.** -/
theorem Stacked.build (h : Stacked rows s) (hs : Grown {} s) (hlive : s.Orderly live) {id : Int} (hid : id ∈ live)
    (hfree : ¬ s.HasForm id) (hc : Stackable c) :
    let t := (Studio.build id (.component c)).after s
    Grown {} t ∧ (∃ n, Stacked (⟨n, s.layers.length, s.items.length⟩ :: rows) t) ∧
      t.layers.length = s.layers.length + 1 ∧ t.items.length = s.items.length + 1 := by
  obtain ⟨u, hopen, hu⟩ := exists_run_openForm_int hfree c.layer true
  have horderly : u.Orderly live := hu.orderly hlive fun m hm => mem_of_int_beq hm hid
  obtain ⟨table, v, n, hfill, hv, hlayers, hitems, hn, hawaits, htable, hname⟩ :=
    exists_run_fill hc (hs.self.of_opened hu) horderly s.forms.length
  rw [hu.layers] at hlayers
  rw [hu.items] at hitems
  -- the preview shows it, and then the explorer lists it
  have hdrawn : Sketch.isOwnType c.layer = false := by simpa [isDrawn] using hc.drawn
  obtain ⟨hshown, hrises⟩ :=
    rises_showLayer hs hv hlayers hitems hn hawaits Value.ranks_zero.float htable hdrawn (.int id)
  obtain ⟨hgrown, ⟨hwired, hagrees⟩, hcount, hcount'⟩ :=
    wired_addItem hs hshown hn hrises Value.ranks_zero.float htable hname hc.single (.int id)
  have hrow : v.nextRow n = ⟨n, s.layers.length, s.items.length⟩ := by rw [nextRow, hlayers, hitems]
  rw [hrow] at hwired hagrees hcount hcount'
  let w := (addItem c.layer table (.int id)).after ((showLayer c.layer table (.int id)).after v)
  rw [after_build hfree hopen hfill, after_introduce]
  have hw : Grown s { w with groups := w.groups - 1 } := { hgrown with }
  refine ⟨hs.trans hw, ⟨n, ?_⟩, hcount, hcount'⟩
  exact h.grow hs hw hn { hwired with } hagrees rfl hcount'

theorem Lined.act (h : Lined rows s) {q : Request} {id : Int} (hasks : q.Asks s id c) (hc : Stackable c) :
    ∃ r, Lined (r :: rows) (q.act.after s) ∧ (q.act.after s).items.length = s.items.length + 1 := by
  obtain ⟨live, hlive⟩ := h.orderly
  obtain ⟨ids, hafter, hfree, horderly⟩ := hasks.exists_after_act hlive
  have hnext := hasks.exists_orderly hc.regular hlive
  have htaken : Stacked rows (s.withIds ids).pile := (stacked_pile (s := s)).mpr h.stacked
  obtain ⟨hgrown, ⟨n, hstacked⟩, hlayers, hitems⟩ :=
    (stacked_pile.mp htaken).build { h.grown with } horderly List.mem_cons_self hfree hc
  rw [hafter] at hnext ⊢
  refine ⟨⟨n, s.layers.length, s.items.length⟩, ⟨hgrown, hnext, hstacked, ?_, fun r hr => ?_⟩, hitems⟩
  · rw [hlayers, hitems]
    exact congrArg (· + 1) h.even
  · obtain rfl | hr := List.mem_cons.mp hr
    · exact h.even
    · exact h.aligned r hr

/-! ### Texts -/

theorem stackable_text : Stackable text where
  regular := isRegular_of_lookup (show lookup "text" = .ok (.component text) from rfl)
  complete := by decide +kernel
  drawn := by decide +kernel
  single := by decide
  named := by decide +kernel
  kind := rfl
  place := ⟨text.attributes.take 1, _, text.attributes.drop 2, rfl, by decide +kernel⟩

theorem grown_home {a : Value × String × List (String × Nat)}
    (hrun : (addForm (.component c) (some homeKey) true false).run {} = .ok a t) : Grown {} t := by
  let s₁ : Studio := { forms := [{ layer := c.layer }] }
  have hfree : s₁.panel.pages.find? homeKey = none := rfl
  let s₂ : Studio := { s₁ with panel := s₁.panel.placed 0 homeKey true }
  have hs₂ : Grown {} s₂ := by
    refine grown_empty.of_pile rfl rfl (fun _ hc => absurd hc List.not_mem_nil) (fun e he => ?_) (Nat.zero_le _)
      fun _ _ _ _ _ _ => Nat.zero_le _
    rw [(pages_placed s₁.panel 0 homeKey true).2, Pages.add_eq_of_free hfree] at he
    exact ⟨1, congrArg Prod.fst (List.mem_singleton.mp he)⟩
  have hopen : (openForm c.layer homeKey true false).run {} = .ok 0 s₂ := by
    show (placeForm 0 homeKey true >>= fun _ => pure 0 : Act Nat).run s₁ = _
    rw [run_bind_ok (run_placeForm _ _ _ _)]
    rfl
  have hdemand : (demandFree homeKey).run {} = .ok () {} := rfl
  unfold addForm at hrun
  rw [Option.getD_some, run_bind_ok hdemand] at hrun
  change (openForm c.layer homeKey true false >>= fun n => addAttributes n (schemaOf c.layer) [] c.attributes >>=
    fun channels => pure (homeKey, c.layer, channels)).run _ = _ at hrun
  rw [run_bind_ok hopen] at hrun
  obtain ⟨table, t', hfill, hpure⟩ := exists_of_run_bind_ok hrun
  obtain ⟨-, rfl⟩ := Result.ok.inj hpure
  exact (fills_addAttributes 0 _ [] _ s₂ t' table hfill).grown {} hs₂

theorem grown_opened : Grown {} opened := by
  have hok : succeeds (addForm (.component watchSetting) (some homeKey) true false) {} = true := by decide +kernel
  obtain ⟨a, t, hrun⟩ := exists_of_succeeds hok
  have hafter : opened = { t with panel := { t.panel with opened := [.ofShown t.panel.pages.shown?] } } := by
    unfold opened openPanel
    rw [after_bind_ok hrun]
    rfl
  rw [hafter]
  exact { grown_home hrun with }

def texts : Nat → Studio
  | 0 => opened
  | n + 1 => (Request.click (.text "text")).act.after (texts n)

theorem exists_lined_texts (n : Nat) : ∃ rows, Lined rows (texts n) ∧ (texts n).items.length = n := by
  induction n with
  | zero =>
    obtain ⟨live, haccounted⟩ := reached_opened.accounted
    have hlayers : opened.layers.length = 0 := by decide +kernel
    have hitems : opened.items.length = 0 := by decide +kernel
    refine ⟨[], ⟨grown_opened, ⟨live, haccounted.orderly⟩, ⟨fun d => grown_opened.housed (Nat.zero_le _), ?_, .nil,
      fun i hi => ?_, ?_⟩, hlayers.trans hitems.symm, ?_⟩, hitems⟩
    · exact fun _ hr => absurd hr List.not_mem_nil
    · exact absurd (hitems ▸ hi : i < 0) (Nat.not_lt_zero _)
    · exact fun _ hr => absurd hr List.not_mem_nil
    · exact fun _ hr => absurd hr List.not_mem_nil
  | succ n ih =>
    obtain ⟨rows, hlined, hlength⟩ := ih
    have hfree := hlined.grown.find?_text "text"
    obtain ⟨live, hlive⟩ := hlined.orderly
    obtain ⟨id, ids, htake, -⟩ := hlive.take
    have hasks := Request.asks_click hfree (c := text) rfl htake
    obtain ⟨r, hnext, hcount⟩ := hlined.act hasks stackable_text
    exact ⟨r :: rows, hnext, hcount.trans (congrArg (· + 1) hlength)⟩

/-- **Explorer and preview agree on the stacking order of texts**, whatever is edited, dropped, undone and redone. To
    drop an item on another exchanges their places, and all others stay where they are. -/
theorem restacked_texts_agree (n : Nat) (moves : List Restack) :
    let s := (texts n).restacked moves
    (∀ k < n, (∃ c, (Listener.layer k .order).On s c ∧ (Listener.level k).On s c) ∧
      ∃ x v, s.depth? k = some (.float (Float.ofInt Layer.ground + x)) ∧ s.level? k = some v ∧
        (Value.float x == v) = true) ∧
    ∀ i < n, ∀ j < n, i ≠ j → ∃ p q, s.level? i = some p ∧ s.level? j = some q ∧
      let t := (dropOn i j).after s
      (∃ p', t.level? i = some p' ∧ (q == p') = true) ∧ (∃ q', t.level? j = some q' ∧ (p == q') = true) ∧
        ∀ k, k ≠ i → k ≠ j → t.level? k = s.level? k := by
  intro s
  obtain ⟨rows, hlined, hcount⟩ := exists_lined_texts n
  have hs : Stacked rows s := stacked_restacked hlined.stacked moves
  have hrow : ∀ k < n, ∃ r ∈ rows, r.layer = k ∧ r.item = k := by
    intro k hk
    obtain ⟨r, hr, hitem⟩ := hlined.stacked.listed k (hcount.symm ▸ hk)
    exact ⟨r, hr, (hlined.aligned r hr).trans hitem, hitem⟩
  refine ⟨fun k hk => ?_, fun i hi j hj hij => ?_⟩
  · obtain ⟨r, hr, hlayer, hitem⟩ := hrow k hk
    obtain ⟨ch, hch, hnumber, -⟩ := (hs.wired r hr).channel
    obtain ⟨x, hdrawn, ⟨v, hv, hsame⟩, -⟩ := hs.agrees r hr
    refine ⟨⟨r.channel, ?_, hitem ▸ hs.on_level hr⟩, x, v, hlayer ▸ hdrawn, hitem ▸ hv, hsame⟩
    exact ⟨ch, hch, by simp [Channel.listeners, ← hlayer, hnumber]⟩
  · obtain ⟨a, ha, -, rfl⟩ := hrow i hi
    obtain ⟨b, hb, -, rfl⟩ := hrow j hj
    obtain ⟨_, -, ⟨p, hp, -⟩, -⟩ := hs.agrees a ha
    obtain ⟨_, -, ⟨q, hq, -⟩, -⟩ := hs.agrees b hb
    have hdrop := hs.dropOn ha hb (fun heq => hij (congrArg Row.item heq)) hp hq
    exact ⟨p, q, hp, hq, hdrop.2⟩

end WatchFace.Studio
