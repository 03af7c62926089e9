import WatchFace.Proofs.Studio.Layout
import WatchFace.Studio.Preview

/-!
# Introducing components

A component that is laid out is brought to the preview, which makes a layer, and to the explorer, which makes an item.
Either can fail without the other.
-/

namespace WatchFace.Studio

open EStateM Catalog List

variable {s t : Studio} {k l : Listener} {c : Nat} {ch : Channel Listener} {p : Layer.Part}
  {layer title type : String} {parts : List (String × Layer.Part)} {table : List (String × Nat)}

/-! ### Layers on quiet channels -/

theorem upright_hear (r : Reactions) (hk : k.Quiet s) {l : Nat} {o : Option Value}
    (hsuits : ∀ p v, k = .layer l p → o = some v → p.Suits v) (hl : s.Upright l) :
    ((hear r k o).after s).Upright l := by
  cases k <;> cases o
  case layer.some n p v => exact upright_onLayer s.families (fun hln w hw => hsuits p w (hln ▸ rfl) hw) hl
  case layer.none n p => exact upright_onLayer s.families (fun hln w hw => hsuits p w (hln ▸ rfl) hw) hl
  case field.some f v =>
    show ((receive r f v false).after s).Upright l
    cases hx : s.fields[f]? with
    | none => rwa [after_receive_none r hx]
    | some x =>
      rw [after_of_ok (run_receive hx (run_setValue r hx (hk x hx) v))]
      exact hl
  case level.some | level.none | title.some | title.none => exact absurd hk id
  all_goals exact hl

theorem upright_emit (n : Nat) (hquiet : ∀ k : Listener, k.On s c → k.Quiet s) {l : Nat} {v : Value}
    (hsuits : ∀ p, (Listener.layer l p).On s c → p.Suits v.carried) (hl : s.Upright l) :
    (((Reactions.upTo (n + 1)).emit c v).after s).Upright l := by
  show (((Reactions.upTo n).next.emit c v).after s).Upright l
  cases hch : s.channels[c]? with
  | none => rwa [after_emit_next_none _ hch]
  | some ch =>
    obtain ⟨ls, hls, hafter⟩ := exists_after_emit_next (.upTo n) hch v
    rw [hafter]
    let P (t : Studio) : Prop := t.Upright l ∧ ∀ k ∈ ls, k.Quiet t
    have hcall : ∀ k ∈ ls, ∀ o, (∀ w, o = some w → w = v.carried) → Within (Upholds P) (hear (.upTo n) k o) := by
      intro k hk o ho t ht
      refine ⟨upright_hear _ (ht.2 k hk) (fun p w hkp hw => ?_) ht.1, fun k' hk' => ?_⟩
      · rw [ho w hw]
        exact hsuits p ⟨ch, hch, hkp ▸ hls k hk⟩
      · exact (calm_hear _ (ht.2 k hk) o).1.kin.quiet (ht.2 k' hk')
    have hall : Within (Upholds P) (announce (hear (.upTo n)) v.carried ls) :=
      within_announce (fun k hk => hcall k hk _ fun _ hw => (Option.some.inj hw).symm) fun k hk => hcall k hk _ nofun
    have hstart : P (s.remember c ch v) := by
      refine ⟨hl, fun k hk => ?_⟩
      exact (calm_remember hch v).kin.quiet (hquiet k ⟨ch, hch, hls k hk⟩)
    exact (hall _ hstart).1

/-! ### Following channels -/

def Fed (s : Studio) (l c : Nat) : Prop :=
  ∀ p, (Listener.layer l p).On s c → (∀ v, p.Suits v) ∨ s.Suited c p

/-- The layer follows some channels of a table, which are sound and suit it; forms, layers and items are as at the
    start. -/
structure Follows (l : Nat) (table : List (String × Nat)) (s₀ s : Studio) : Prop where
  sound : ∀ e ∈ table, s.Sound e.2
  plumb : ∀ e ∈ table, s.Plumb steering e
  fed : ∀ e ∈ table, s.Fed l e.2
  upright : s.Upright l
  tranquil : s.Tranquil
  panel : s.panel = s₀.panel
  preview : s.preview = s₀.preview
  listed : s.explorer.items = s₀.explorer.items

theorem last?_connect (hch : s.channels[c]? = some ch)
    (hquiet : ∀ k : Listener, k.On (s.join c ch l) c → k.Quiet (s.join c ch l))
    (hrun : (connect c l).run s = .ok () t) : t.last? c = s.last? c := by
  have hafter := after_connect hch l
  rw [after_of_ok hrun] at hafter
  have hlast : s.last? c = some ch.last := by rw [last?, hch]; rfl
  split at hafter
  · rw [hafter, last?_join hch]
  · have hlt : c < (s.join c ch l).channels.length := by
      simpa [join] using (lt_of_getElem? hch)
    have hor := last?_emit_next (gentle_upTo depth) hlt (fun k hk => .inl (hquiet k hk))
      (fun i hi => absurd (hquiet _ hi) id) ch.last
    rw [hafter, hlast]
    exact hor.resolve_right fun h => h.1.elim fun i hi => hquiet _ hi

section

variable {l : Nat} {table : List (String × Nat)} {s₀ s : Studio} (h : Follows l table s₀ s)

include h

theorem Follows.home : (Listener.layer l p).Home s c := by
  obtain ⟨x, hx, -⟩ := h.upright
  exact lt_of_getElem? hx

theorem Follows.upright_connect (hc : (title, c) ∈ table) (hp : (∀ v, p.Suits v) ∨ (title, p) ∈ steering)
    (hch : s.channels[c]? = some ch) (hrun : (connect c (.layer l p)).run s = .ok () t)
    (hstay : Stay none c (s.join c ch (.layer l p)) t) : t.Upright l := by
  let j := s.join c ch (.layer l p)
  have hj : j.Upright l := h.upright
  have hfed : j.Fed l c := by
    intro q hq
    have hsuited : s.Suited c q → j.Suited c q := fun hs =>
      hs.of_houses (h.sound _ hc) (houses_of_fields rfl rfl rfl) (last?_join hch _ c)
        fun k hk => (on_join hch hk).imp_right fun hk => by rw [hk.2]; exact trivial
    obtain hq | ⟨-, heq⟩ := on_join hch hq
    · exact (h.fed _ hc q hq).imp_right hsuited
    · obtain ⟨-, rfl⟩ := Listener.layer.inj heq
      exact hp.imp_right fun hmem => hsuited (h.plumb _ hc q hmem)
  by_cases hbland : ∀ q, (Listener.layer l q).On j c → ∀ v, q.Suits v
  · exact hstay.upright ((h.sound _ hc).join h.home hch).homely.housed l hbland hj
  · -- some part needs an angle, so the channel is quiet and carries one
    obtain ⟨q, hq, hnot⟩ : ∃ q, (Listener.layer l q).On j c ∧ ¬ ∀ v, q.Suits v := by
      simpa using hbland
    obtain ⟨hquiet, v, hv, -⟩ := (hfed q hq).resolve_left hnot
    have hafter := after_connect hch (.layer l p)
    rw [after_of_ok hrun] at hafter
    have hlast : j.last? c = some ch.last := by
      rw [last?_join hch, last?, hch]
      rfl
    split at hafter
    · rw [hafter]
      exact hj
    · rw [hafter]
      refine upright_emit depth hquiet (fun q' hq' => ?_) hj
      obtain hbland' | ⟨-, w, hw, hsuits⟩ := hfed q' hq'
      · exact hbland' _
      · cases hlast.symm.trans hw
        exact hsuits

theorem Follows.connect (hc : (title, c) ∈ table) (hp : (∀ v, p.Suits v) ∨ (title, p) ∈ steering) :
    ∃ t, (connect c (.layer l p)).run s = .ok () t ∧ Follows l table s₀ t := by
  obtain ⟨ch, t, hch, hrun, hstay⟩ := exists_run_connect (h.sound _ hc) h.home
  have hjoins : Joins c [.layer l p] s t := hstay.joins_join (h.sound _ hc) h.tranquil h.home mem_cons_self hch
  have hon : ∀ d (k : Listener), k.On t d → k.On s d ∨ d = c ∧ k = .layer l p := fun d k hk =>
    on_join hch (on_of_listeners hstay.listeners hk)
  -- a channel that suits a part still does, whether it is the one that was joined or not
  have hsuited : ∀ e ∈ table, ∀ q, s.Suited e.2 q → t.Suited e.2 q := by
    intro e he q hs
    refine hs.of_houses (h.sound e he) hjoins.houses ?_ fun k hk => (hon _ k hk).imp_right fun hk => by
      rw [hk.2]
      exact trivial
    by_cases hd : e.2 = c
    · rw [hd] at hs ⊢
      refine last?_connect hch (fun k hk => ?_) hrun
      obtain hk | ⟨-, rfl⟩ := on_join hch hk
      · exact hs.1 k hk
      · exact trivial
    · rw [last?, hjoins.others _ hd, last?]
  refine ⟨t, hrun, fun e he => hjoins.sound_of_sound (fun k hk => ?_) (h.sound e he),
    fun e he q hq => hsuited e he q (h.plumb e he q hq), fun e he q hq => ?_, h.upright_connect hc hp hch hrun hstay,
    hjoins.tranquil, hjoins.panel.trans h.panel, hjoins.preview.trans h.preview, hjoins.listed.trans h.listed⟩
  · rw [mem_singleton.mp hk]
    exact h.home
  · obtain hq | ⟨hd, heq⟩ := hon _ _ hq
    · exact (h.fed e he q hq).imp_right (hsuited e he q)
    · obtain ⟨-, rfl⟩ := Listener.layer.inj heq
      refine hp.imp_right fun hmem => ?_
      rw [hd]
      exact hsuited _ hc q (h.plumb _ hc q hmem)

omit h in
theorem follow_cons (l : Nat) (table : List (String × Nat)) (title : String) (p : Layer.Part)
    (parts : List (String × Layer.Part)) : Studio.follow l table ((title, p) :: parts) =
      (match table.lookup title with
        | some c => Studio.connect c (.layer l p)
        | none => pure ()) >>= fun _ => Studio.follow l table parts := rfl

theorem Follows.follow (hparts : ∀ e ∈ parts, (∀ v, e.2.Suits v) ∨ e ∈ steering) :
    ∃ t, (Studio.follow l table parts).run s = .ok () t ∧ Follows l table s₀ t := by
  induction parts generalizing s with
  | nil => exact ⟨s, rfl, h⟩
  | cons e parts ih =>
    obtain ⟨title, p⟩ := e
    have hrest : ∀ e ∈ parts, (∀ v, e.2.Suits v) ∨ e ∈ steering := fun e he => hparts e (.tail _ he)
    rw [follow_cons]
    by_cases hmem : title ∈ titlesOf table
    · obtain ⟨c, hlookup, hc⟩ := exists_lookup hmem
      obtain ⟨t, hrun, ht⟩ := h.connect hc (hparts _ mem_cons_self)
      rw [hlookup, run_bind_ok hrun]
      exact ih ht hrest
    · rw [lookup_eq_none hmem]
      exact ih h hrest

end

theorem suits_following {e : String × Layer.Part} (he : e ∈ Layer.following.1 ∨ e ∈ Layer.following.2) :
    (∀ v, e.2.Suits v) ∨ e ∈ steering := by
  obtain ⟨title, p⟩ := e
  simp only [Layer.following, mem_cons, not_mem_nil, or_false, Prod.mk.injEq] at he
  have hp : (title, p) ∈ steering ∨ p ≠ .rotate ∧ p ≠ .skewX ∧ p ≠ .skewY := by
    simp only [steering, mem_cons, not_mem_nil, or_false, Prod.mk.injEq]
    grind
  refine hp.symm.imp_left fun hp v => ?_
  cases p
  case rotate => exact absurd rfl hp.1
  case skewX => exact absurd rfl hp.2.1
  case skewY => exact absurd rfl hp.2.2
  all_goals exact trivial

/-! ### Making layers -/

theorem slopes_zero : (Value.int 0).Slopes := by
  unfold Value.Slopes
  decide +kernel

/-- The channels of a table are sound and suit parts of a layer, and nothing that was undone is in the
    way. -/
structure Laid (parts : List (String × Layer.Part)) (table : List (String × Nat)) (s : Studio) :
    Prop where
  sound : ∀ e ∈ table, s.Sound e.2
  plumb : ∀ e ∈ table, s.Plumb parts e
  tranquil : s.Tranquil

theorem exists_run_makeLayer (h : Laid steering table s) :
    ∃ t, (makeLayer table).run s = .ok s.layers.length t ∧ Follows s.layers.length table s t := by
  let l := s.layers.length
  let s₁ := s.withLayerOn table
  have hhouses : Houses s s₁ :=
    ⟨fun f x hx => ⟨x, hx, rfl, rfl, id⟩, fun i item hi => ⟨item, hi, rfl⟩, by simp [s₁, withLayerOn]⟩
  have h₁ : Follows l table s s₁ := by
    refine ⟨fun e he => (h.sound e he).of_houses hhouses rfl, h.plumb, fun e he p hp => ?_,
      ⟨_, getElem?_concat_length, slopes_zero, slopes_zero, Layer.turns_zero⟩, h.tranquil, rfl, rfl, rfl⟩
    -- nobody can have joined for a layer that was not there
    have hhome : l < s.layers.length := (h.sound e he).homely _ hp
    exact absurd hhome (Nat.lt_irrefl _)
  obtain ⟨s₂, hrun₂, h₂⟩ := h₁.follow fun e he => suits_following (.inl he)
  obtain ⟨x, hx, hupright⟩ := h₂.upright
  obtain ⟨y, hy, hangles, -⟩ := hupright.run_settle
  let s₃ : Studio := { s₂ with layers := s₂.layers.set l y }
  have hsettle : (onLayer l Layer.settle).run s₂ = .ok () s₃ := by
    unfold onLayer
    rw [run_bind_ok (run_part hx), hy]
    rfl
  have hhouses₃ : Houses s₂ s₃ := houses_of_fields rfl rfl length_set
  have h₃ : Follows l table s s₃ := by
    refine ⟨fun e he => (h₂.sound e he).of_houses hhouses₃ rfl, h₂.plumb, h₂.fed,
      ⟨y, getElem?_set_some hx, hupright.of_angles hangles⟩,
      h₂.tranquil, h₂.panel, h₂.preview, h₂.listed⟩
  obtain ⟨s₄, hrun₄, h₄⟩ := h₃.follow fun e he => suits_following (.inr he)
  refine ⟨s₄, ?_, h₄⟩
  rw [run_makeLayer, run_bind_ok hrun₂, run_bind_ok hsettle, run_bind_ok hrun₄]
  rfl

theorem any_put {κ : Type} [BEq κ] (table : List (κ × Nat)) {key k : κ}
    (hkey : (key == k) = true → key = k) (n : Nat) :
    (if table.any (·.1 == key) then table.map fun e => if e.1 == key then (e.1, n) else e
      else table ++ [(key, n)]).any (·.1 == k) = true ↔ table.any (·.1 == k) = true ∨ (key == k) = true := by
  split
  case isTrue h =>
    have hsame : (table.map fun e => if e.1 == key then (e.1, n) else e).any (·.1 == k) =
        table.any (·.1 == k) := by
      rw [any_map]
      congr 1
      funext e
      show ((if e.1 == key then (e.1, n) else e).1 == k) = _
      split <;> rfl
    rw [hsame]
    refine ⟨.inl, fun hor => hor.elim (fun hk => hk) fun hk => ?_⟩
    rw [← hkey hk]
    exact h
  case isFalse =>
    rw [any_append, Bool.or_eq_true, any_cons, any_nil, Bool.or_false]

def steeringOf (type : String) : List (String × Layer.Part) :=
  if Sketch.isOwnType type then [] else steering

theorem laid_showLayer (h : Laid (steeringOf type) table s) (id : Int) :
    let t := (showLayer type table (.int id)).after s
    Laid (steeringOf type) table t ∧ t.panel = s.panel ∧ t.explorer.items = s.explorer.items ∧
      ∀ m, t.HasLayer m ↔ s.HasLayer m ∨ Sketch.isOwnType type = false ∧ m = id := by
  unfold showLayer createLayer
  cases htype : Sketch.isOwnType type with
  | true => exact ⟨h, rfl, rfl, fun m => by simp; rfl⟩
  | false =>
    have hparts : steeringOf type = steering := by rw [steeringOf, htype]; rfl
    rw [hparts] at h ⊢
    obtain ⟨t, hrun, ht⟩ := exists_run_makeLayer h
    let c : Command := .addLayer s.layers.length
    let t₁ := t.withHistory (t.history.cut.add c)
    let t₂ : Studio := { t₁ with preview := { t₁.preview with scene := t₁.preview.scene ++ [s.layers.length] } }
    let t₃ := t₂.withHistory t₂.history.advance
    have hpush : (push reactions c).run t = .ok () t₃ := by
      rw [run_push, readied_of_tranquil ht.tranquil]
      rfl
    rw [if_neg Bool.false_ne_true, after_bind_ok hrun, after_bind_ok hpush]
    refine ⟨⟨fun e he => (ht.sound e he).of_houses (houses_of_fields rfl rfl rfl) rfl, ht.plumb,
      tranquil_advance (tranquil_add (s := t₂) (c := c) rfl)⟩, ht.panel, ht.listed, fun m => ?_⟩
    have htable : t.preview.table = s.preview.table := congrArg Preview.table ht.preview
    show (registerLayer t.preview.table (.int id) s.layers.length).any (·.1 == .int m) = true ↔ _
    rw [htable, registerLayer, any_put, int_beq, decide_eq_true_eq, @eq_comm Int id]
    · simp [HasLayer]
    · rw [int_beq, decide_eq_true_eq]
      exact congrArg Value.int

/-! ### Adding items -/

theorem nat_repr_inj {m n : Nat} (h : m.repr = n.repr) : m = n := by
  rw [Nat.repr_eq_ofList_toDigits, Nat.repr_eq_ofList_toDigits, String.ofList_inj] at h
  rw [← Nat.ofDigitChars_toDigits (b := 10) (n := m) (by decide) (by decide), h,
    Nat.ofDigitChars_toDigits (by decide) (by decide)]

theorem nat_repr_ne_minus (m : Nat) (s : String) : m.repr ≠ "-" ++ s := by
  intro h
  have hmem : '-' ∈ m.repr.toList := by
    rw [h]
    simp
  rw [Nat.repr_eq_ofList_toDigits, String.toList_ofList] at hmem
  exact absurd (Nat.isDigit_of_mem_toDigits (by decide) (by decide) hmem) (by decide)

theorem shown_int_inj {a b : Int} : (Value.int a).shown = (Value.int b).shown ↔ a = b := by
  show a.repr = b.repr ↔ a = b
  refine ⟨fun h => ?_, fun h => by rw [h]⟩
  cases a <;> cases b
  case ofNat.ofNat m n => exact congrArg Int.ofNat (nat_repr_inj h)
  case ofNat.negSucc m n => exact absurd h (nat_repr_ne_minus m _)
  case negSucc.ofNat m n => exact absurd h.symm (nat_repr_ne_minus n _)
  case negSucc.negSucc m n =>
    have heq : m + 1 = n + 1 := nat_repr_inj ((String.append_right_inj _).mp h)
    exact congrArg Int.negSucc (Nat.succ.inj heq)

theorem houses_item (s : Studio) (item : Item) : Houses s (s.withItem item) := by
  refine ⟨fun f x hx => ⟨x, hx, rfl, rfl, id⟩, fun i item' hi => ⟨item', ?_, rfl⟩, Nat.le_refl _⟩
  exact (getElem?_append_left (lt_of_getElem? hi)).trans hi

theorem exists_run_connect_sound (h : s.Sound c) (ht : s.Tranquil) (hl : l.Home s c) :
    ∃ t, (connect c l).run s = .ok () t ∧ Joins c [l] s t := by
  obtain ⟨ch, t, hch, hrun, hstay⟩ := exists_run_connect h hl
  exact ⟨t, hrun, hstay.joins_join h ht hl mem_cons_self hch⟩

theorem answers_addItem (h : Laid parts table s) (layer : String) (id : Int) :
    Answers (decide ("Name" ∈ titlesOf table ∧ "Layer" ∈ titlesOf table))
      ((addItem layer table (.int id)).run s)
      (fun _ t => t.panel = s.panel ∧ t.preview = s.preview ∧
        ∀ m, t.HasItem m ↔ s.HasItem m ∨ m = id) (· = s) := by
  by_cases hname : "Name" ∈ titlesOf table
  case neg =>
    rw [addItem, lookup_eq_none hname, decide_eq_false fun hand => hname hand.1]
    exact ⟨_, s, rfl, rfl⟩
  by_cases hlevel : "Layer" ∈ titlesOf table
  case neg =>
    obtain ⟨names, hnames, -⟩ := exists_lookup hname
    rw [addItem, hnames, lookup_eq_none hlevel, decide_eq_false fun hand => hlevel hand.2]
    exact ⟨_, s, rfl, rfl⟩
  obtain ⟨names, hnames, hnames'⟩ := exists_lookup hname
  obtain ⟨levels, hlevels, hlevels'⟩ := exists_lookup hlevel
  rw [run_addItem hnames hlevels, decide_eq_true ⟨hname, hlevel⟩]
  let i := s.items.length
  let item : Item := { id := (Value.int id).shown, layer := layer, levels := levels, names := names }
  let s₁ := s.withItem item
  have hitem : s₁.items[i]? = some item := getElem?_withItem s item
  have hsound : ∀ e ∈ table, s₁.Sound e.2 := fun e he => (h.sound e he).of_houses (houses_item s item) rfl
  obtain ⟨s₂, hrun₂, h₂⟩ := exists_run_connect_sound (hsound _ hlevels') h.tranquil (l := .level i) ⟨item, hitem, rfl⟩
  have hsound₂ : s₂.Sound names :=
    h₂.sound_of_sound (fun l hl => by rw [mem_singleton.mp hl]; exact ⟨item, hitem, rfl⟩) (hsound _ hnames')
  have hhome : (Listener.title i).Home s₁ names := ⟨item, hitem, rfl⟩
  obtain ⟨s₃, hrun₃, h₃⟩ := exists_run_connect_sound hsound₂ h₂.tranquil (hhome.of_houses h₂.houses)
  have hpanel : s₃.panel = s.panel := h₃.panel.trans h₂.panel
  have hpreview : s₃.preview = s.preview := h₃.preview.trans h₂.preview
  have hlisted : s₃.explorer.items = s.explorer.items := h₃.listed.trans h₂.listed
  refine ⟨i, { s₃ with explorer := s₃.explorer.listing item.id i }, ?_, hpanel, hpreview, fun m => ?_⟩
  · rw [run_bind_ok hrun₂, run_bind_ok hrun₃]
    rfl
  · show (s₃.explorer.listing item.id i).items.any (·.1 == (Value.int m).shown) = true ↔ _
    rw [Explorer.listing, hlisted, any_put _ beq_iff_eq.mp, beq_iff_eq, shown_int_inj, @eq_comm Int id]
    rfl

/-! ### Introducing components -/

theorem after_introduce (layer : String) (table : List (String × Nat)) (id : Value) (s : Studio) :
    (introduce layer table id).after s = (addItem layer table id).after ((showLayer layer table id).after s) := by
  unfold introduce
  rw [after_bind_ok (run_calmly _ s), after_of_ok (run_calmly _ _), after_bind_pure]

/-- **A component that is laid out comes to the preview exactly if it is drawn as a text, and to the explorer exactly
    if it has a name and a place.** -/
theorem Laid.introduce (h : Laid (steeringOf layer) table s) (id : Int) :
    let t := (introduce layer table (.int id)).after s
    t.panel = s.panel ∧ (∀ m, t.HasLayer m ↔ s.HasLayer m ∨ Sketch.isOwnType layer = false ∧ m = id) ∧
      ∀ m, t.HasItem m ↔ s.HasItem m ∨ ("Name" ∈ titlesOf table ∧ "Layer" ∈ titlesOf table) ∧ m = id := by
  obtain ⟨hlaid, hpanel, hlisted, hlayer⟩ := laid_showLayer h id
  rw [after_introduce]
  have hitem : ∀ m, ((showLayer layer table (.int id)).after s).HasItem m ↔ s.HasItem m := fun m => by
    rw [HasItem, hlisted, HasItem]
  obtain ⟨hlists, -, hpanel', hpreview, hadded⟩ | ⟨hlists, hsame⟩ := (answers_addItem hlaid layer id).after_cases
  · refine ⟨hpanel'.trans hpanel, fun m => ?_, fun m => ?_⟩
    · rw [HasLayer, hpreview]
      exact hlayer m
    · rw [hadded, hitem]
      simp [of_decide_eq_true hlists]
  · rw [hsame]
    exact ⟨hpanel, hlayer, fun m => by simp [hitem, of_decide_eq_false hlists]⟩

end WatchFace.Studio
