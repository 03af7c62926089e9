import WatchFace.Proofs.Studio.Interleaving

/-!
# Layers on channels of their own

Whatever value a channel of a layer carries, the parts of the layer hear it in the order in which they have joined, if
it can be carried at all.
-/

namespace WatchFace

open EStateM List
open Layer (Part partsOf following)

variable {c l : Nat} {x y : Layer} {s t : Studio} {a : Studio.Listener} {ch ch' : Channel Studio.Listener} {v : Value}
  {title : String} {table : List (String × Nat)} {parts parts' : String → List Part} {es : List (String × Value)}

/-- What a layer makes of a value that some of its parts are told of, if it can be carried. -/
def Layer.told (families : Font.Families) (parts : List Part) (v : Value) (x : Layer) : Layer :=
  match v.heard? with
  | some w => (announce (Layer.hear families) w parts).after x
  | none => x

theorem Layer.told_of_heard? {w : Value} (hw : v.heard? = some w) (families : Font.Families) (parts : List Part)
    (x : Layer) : Layer.told families parts v x = (announce (Layer.hear families) w parts).after x := by
  rw [told, hw]

theorem Layer.take_eq_told (families : Font.Families) (x : Layer) (e : String × Value) :
    Layer.take families x e = Layer.told families (partsOf e.1) e.2 x := rfl

theorem Layer.upholds_told {P : Layer → Prop} {families : Font.Families} {parts : List Part}
    (h : ∀ p ∈ parts, ∀ o, Within (Upholds P) (Layer.hear families p o)) (v : Value) (hx : P x) :
    P (Layer.told families parts v x) := by
  unfold told
  cases v.heard? with
  | none => exact hx
  | some w => exact within_announce (fun p hp => h p hp _) (fun p hp => h p hp _) x hx

namespace Studio

/-- A channel with modest listeners, among them given parts of a layer for values of every kind. -/
structure Attends (l : Nat) (parts : List Part) (ch : Channel Listener) : Prop extends Serves l parts ch where
  flags : ch.flags.filterMap (Listener.part? l) = parts

/-- A layer whose channels have some of its parts among their listeners. -/
structure Wired (l : Nat) (table : List (String × Nat)) (parts : String → List Part) (x : Layer) (s : Studio) :
    Prop where
  layer : s.layers[l]? = some x
  channels : x.channels = table
  attends : ∀ title c, table.lookup title = some c → ∃ ch, s.channels[c]? = some ch ∧ Attends l (parts title) ch

/-! ### One value -/

theorem Attends.emit_cases {parts : List Part} (h : Attends l parts ch) (v : Value) :
    v.heard? = none ∧ (ch.emit v).2 = .error .overflow ∨
      ∃ w ls, v.heard? = some w ∧ (ch.emit v).2 = .ok (ls, w) ∧ ls.filterMap (Listener.part? l) = parts := by
  cases v with
  | bool b => exact .inr ⟨_, _, rfl, rfl, h.flags⟩
  | float x => exact .inr ⟨_, _, rfl, rfl, h.numbers⟩
  | int n =>
    cases hn : Number.ofInt? n with
    | none => exact .inl ⟨by simp [Value.heard?, hn], by simp [Channel.emit, Channel.route, hn]⟩
    | some x =>
      exact .inr ⟨.float x, _, by simp [Value.heard?, hn], by simp [Channel.emit, Channel.route, hn], h.numbers⟩
  | _ => exact .inr ⟨_, _, rfl, rfl, h.texts⟩

theorem Wired.becomes (h : Wired l table parts x s) (hbecomes : Becomes l y s t) (hy : y.channels = x.channels) :
    Wired l table parts y t := by
  refine ⟨hbecomes.layer, hy.trans h.channels, ?_⟩
  rw [hbecomes.channels]
  exact h.attends

/-- **One value.** The layer that a channel belongs to is told of a value that the channel carries. -/
theorem Wired.emit (h : Wired l table parts x s) (r : Reactions) (hlookup : table.lookup title = some c) (v : Value) :
    Wired l table parts (Layer.told s.families (parts title) v x) ((r.next.emit c v).after s) ∧
      ((r.next.emit c v).after s).families = s.families := by
  obtain ⟨ch, hch, hattends⟩ := h.attends title c hlookup
  have hremember : Wired l table parts x (s.remember c ch v) :=
    ⟨h.layer, h.channels, forall_lookup_set h.attends hch (fun _ _ h' => ⟨h'.toServes.emit v, h'.flags⟩)
      fun _ _ _ h' => h'⟩
  rw [after_congr (run_emit_next r hch)]
  obtain ⟨hnone, hroute⟩ | ⟨w, ls, hw, hroute, hls⟩ := hattends.emit_cases v
  · rw [hroute, Layer.told, hnone]
    exact ⟨hremember, rfl⟩
  · have hmodest : ∀ a ∈ ls, a.Modest := fun a ha => hattends.modest a ((Channel.emit_eq_ok hroute).1 a ha)
    have hbecomes := becomes_announce r hremember.layer w hmodest
    rw [hls] at hbecomes
    have hkeeps : Within (Keeps Layer.channels) (announce (Layer.hear s.families) w (parts title)) :=
      within_announce (fun p _ => Layer.keeps_hear s.families p _) fun p _ => Layer.keeps_hear s.families p _
    rw [hroute, after_bind_ok (run_require_ok _ _), Layer.told_of_heard? hw]
    exact ⟨hremember.becomes hbecomes (hkeeps x), hbecomes.families⟩

theorem Wired.run_channelOf (h : Wired l table parts x s) (hlookup : table.lookup title = some c) :
    (channelOf l title).run s = .ok c s := by
  unfold channelOf
  rw [run_bind_ok (run_part h.layer), h.channels, hlookup]
  rfl

theorem Wired.emitOn (h : Wired l table partsOf x s) (hlookup : table.lookup title = some c) (v : Value) :
    Wired l table partsOf (Layer.take s.families x (title, v)) ((emitOn l title v).after s) ∧
      ((Studio.emitOn l title v).after s).families = s.families := by
  rw [Studio.emitOn, after_bind_ok (h.run_channelOf hlookup)]
  exact h.emit (.upTo 99) hlookup v

/-- **A run of values.** A layer makes of it what its parts make of the values, one after another. -/
theorem Wired.carryAll (h : Wired l table partsOf x s) (hes : ∀ e ∈ es, (table.lookup e.1).isSome) :
    (s.carryAll l es).layers[l]? = some (Layer.takeAll s.families x es) := by
  induction es generalizing x s with
  | nil => exact h.layer
  | cons e es ih =>
    obtain ⟨c, hlookup⟩ := Option.isSome_iff_exists.mp (hes e mem_cons_self)
    obtain ⟨hnext, hfamilies⟩ := h.emitOn hlookup e.2
    have hrest := ih hnext fun e' he' => hes e' (mem_cons_of_mem _ he')
    rw [hfamilies] at hrest
    exact hrest

/-! ### Making a layer -/

theorem Attends.register {parts : List Part} (h : Attends l parts ch) (ha : a.Modest) :
    Attends l (parts ++ (a.part? l).toList) (ch.register a) := by
  refine ⟨h.toServes.register ha, ?_⟩
  show (ch.flags ++ [a]).filterMap (Listener.part? l) = _
  rw [filterMap_append, h.flags]
  cases hp : a.part? l <;> simp [hp]

/-- A part joins a channel, and may be told at once of the value that the channel carried last. -/
theorem Wired.connect (h : Wired l table parts x s) (hapart : Apart table) (hlookup : table.lookup title = some c)
    (ha : a.Modest) : ∃ y, (y = x ∨ ∃ v, y = Layer.told s.families (joined l parts title a title) v x) ∧
      Wired l table (joined l parts title a) y ((connect c a).after s) ∧ ((connect c a).after s).families = s.families := by
  obtain ⟨ch, hch, -⟩ := h.attends title c hlookup
  have hjoin : Wired l table (joined l parts title a) x (s.join c ch a) := by
    refine ⟨h.layer, h.channels, forall_lookup_set h.attends hch (fun title' hlookup' hattends => ?_)
      fun title' d hne hattends => ?_⟩
    · rw [joined_self hapart hlookup' hlookup]
      exact hattends.register ha
    · rw [joined_of_ne hlookup hne]
      exact hattends
  rw [after_connect hch]
  split
  · exact ⟨x, .inl rfl, hjoin, rfl⟩
  · obtain ⟨hwired, hfamilies⟩ := hjoin.emit (.upTo depth) hlookup ch.last
    exact ⟨_, .inr ⟨_, rfl⟩, hwired, hfamilies⟩

/-- The parts that follow attributes join their channels. What holds of the layer holds afterwards, if these parts
    uphold it. -/
theorem Wired.follow {P : Layer → Prop} (h : Wired l table parts x s) (hx : P x) (hapart : Apart table)
    {ps : List (String × Part)}
    (hP : ∀ e ∈ ps, ∀ qs ⊆ followed parts ps e.1, ∀ v y, P y → P (Layer.told s.families qs v y))
    (hrun : (follow l table ps).run s = .ok () t) :
    ∃ y, P y ∧ Wired l table (followed parts ps) y t ∧ t.families = s.families := by
  induction ps generalizing parts x s with
  | nil =>
    obtain rfl : s = t := (EStateM.Result.ok.inj hrun).2
    exact ⟨x, hx, (followed_nil parts).symm ▸ h, rfl⟩
  | cons e ps ih =>
    obtain ⟨title, p⟩ := e
    rw [followed_cons l] at hP ⊢
    unfold Studio.follow at hrun
    rw [forM_eq_forM, forM_cons] at hrun
    obtain ⟨⟨⟩, u, hfirst, hrest⟩ := exists_of_run_bind_ok hrun
    have hnext : ∃ y, P y ∧ Wired l table (joined l parts title (.layer l p)) y u ∧ u.families = s.families := by
      cases hc : table.lookup title with
      | none =>
        simp only [hc] at hfirst
        obtain rfl : s = u := (EStateM.Result.ok.inj hfirst).2
        refine ⟨x, hx, ⟨h.layer, h.channels, fun title' c' hlookup' => ?_⟩, rfl⟩
        have hne : title' ≠ title := by
          rintro rfl
          cases hc.symm.trans hlookup'
        rw [joined, if_neg hne]
        exact h.attends title' c' hlookup'
      | some c =>
        simp only [hc] at hfirst
        obtain ⟨y, hy, hwired, hfamilies⟩ := h.connect (a := .layer l p) hapart hc trivial
        rw [after_of_ok hfirst] at hwired hfamilies
        refine ⟨y, ?_, hwired, hfamilies⟩
        obtain rfl | ⟨v, rfl⟩ := hy
        · exact hx
        · exact hP _ mem_cons_self _ (subset_append_left _ _) v x hx
    obtain ⟨y, hy, hwired, hfamilies⟩ := hnext
    rw [← hfamilies] at hP ⊢
    exact ih hwired hy (fun e' he' => hP e' (mem_cons_of_mem _ he')) hrest

theorem mem_followed {ps : List (String × Part)} {p : Part} (h : p ∈ followed parts ps title) :
    p ∈ parts title ∨ (title, p) ∈ ps := by
  refine (mem_append.mp h).imp_right fun h => ?_
  obtain ⟨⟨_, _⟩, he, rfl⟩ := mem_map.mp h
  obtain ⟨he, htitle⟩ := mem_filter.mp he
  exact of_decide_eq_true htitle ▸ he

/-- A new layer comes to be on its channels. What its first parts uphold leads to what its last parts uphold, as it
    settles in between. -/
theorem wired_makeLayer {P Q : Layer → Prop} (hapart : Apart table)
    (hfree : ∀ title c, table.lookup title = some c → ∃ ch, s.channels[c]? = some ch ∧ Attends s.layers.length [] ch)
    (hrun : (makeLayer table).run s = .ok l t) (hnew : P { channels := table })
    (hfirst : ∀ e ∈ following.1, ∀ o, Within (Upholds P) (Layer.hear s.families e.2 o))
    (hsettle : ∀ x y, P x → Layer.settle.run x = .ok () y → Q y)
    (hsecond : ∀ e ∈ following.2, ∀ o, Within (Upholds Q) (Layer.hear s.families e.2 o)) :
    ∃ x, Q x ∧ Wired l table partsOf x t ∧ t.families = s.families := by
  rw [run_makeLayer] at hrun
  obtain ⟨⟨⟩, s₁, h₁, hrun⟩ := exists_of_run_bind_ok hrun
  obtain ⟨⟨⟩, s₂, h₂, hrun⟩ := exists_of_run_bind_ok hrun
  obtain ⟨⟨⟩, s₃, h₃, hrun⟩ := exists_of_run_bind_ok hrun
  obtain ⟨rfl, rfl⟩ : s.layers.length = l ∧ s₃ = t := by cases hrun; exact ⟨rfl, rfl⟩
  have hstart : Wired s.layers.length table (fun _ => []) { channels := table } (s.withLayerOn table) :=
    ⟨getElem?_concat_length, rfl, hfree⟩
  obtain ⟨x, hx, hwired, hfamilies⟩ := hstart.follow hnew hapart (fun e _ qs hqs v y hy =>
    Layer.upholds_told (fun p hp => hfirst _ ((mem_followed (hqs hp)).resolve_left not_mem_nil)) v hy) h₁
  -- the layer settles
  rw [run_onLayer hwired.layer] at h₂
  cases hy : Layer.settle.run x with
  | error e y =>
    rw [hy] at h₂
    cases h₂
  | ok a y =>
    rw [hy] at h₂
    obtain rfl : s₁.withLayer s.layers.length y = s₂ := by cases h₂; rfl
    have hchannels : y.channels = x.channels := by
      have hkeeps : Within (Keeps Layer.channels) Layer.settle := Layer.keeps_settle fun _ _ _ _ _ => rfl
      exact after_of_ok hy ▸ hkeeps x
    have hbecomes : Becomes s.layers.length y s₁ (s₁.withLayer s.layers.length y) :=
      ⟨getElem?_set_self (List.getElem?_eq_some_iff.mp hwired.layer).1, rfl, rfl⟩
    have hlate : ∀ e ∈ following.2, ∀ e' ∈ following.1, e'.1 ≠ e.1 := by decide
    obtain ⟨z, hz, hall, hfamilies'⟩ := (hwired.becomes hbecomes hchannels).follow (hsettle x y hx hy) hapart
      (fun e he qs hqs v y hy => Layer.upholds_told (fun p hp o => by
        obtain hearly | hp := mem_followed (hqs hp)
        · exact (hlate e he _ ((mem_followed hearly).resolve_left not_mem_nil) rfl).elim
        · exact hfamilies ▸ hsecond _ hp o) v hy) h₃
    exact ⟨z, hz, followed_following ▸ hall, hfamilies'.trans hfamilies⟩

theorem Prepared.attends (h : Prepared table s) (title : String) (c : Nat) (hlookup : table.lookup title = some c) :
    ∃ ch, s.channels[c]? = some ch ∧ Attends s.layers.length [] ch := by
  obtain ⟨ch, hch, hsilent⟩ := h.silent title c hlookup
  refine ⟨ch, hch, .of_silent hsilent, ?_⟩
  have hflags : ch.flags = [] := by simp_all [Channel.listeners]
  rw [hflags]
  rfl

theorem exists_made_layerAttributes : ∃ s, (makeLayer Console.layerAttributes.zipIdx).run
    { channels := List.replicate Console.layerAttributes.length {} } = .ok 0 s := by
  have hfollowing : ∀ e ∈ following.1 ++ following.2, e.1 ∈ Console.layerAttributes := by decide
  obtain ⟨s, hmade, -⟩ := (Console.prepared_channels {} Console.layerAttributes).run_makeLayer
    (Console.apart_zipIdx _) fun e he => Console.exists_lookup_of_mem (hfollowing e he)
  exact ⟨s, hmade⟩

end Studio

end WatchFace
