import WatchFace.Console.Layer
import WatchFace.Proofs.Layer.Independence

/-!
# Values for a layer in any order

The parts of a layer carry nothing further. So all that comes of a value on a channel is what the parts do, one after
another, and values for different attributes can come in any order.
-/

namespace WatchFace

open EStateM List
open Layer (Part partsOf Fair following valuesOf)

variable {c l : Nat} {x y : Layer} {s t : Studio} {a : Studio.Listener} {ls : List Studio.Listener}
  {ch : Channel Studio.Listener} {parts : List Part} {title : String} {v w : Value}
  {es values : List (String × Value)}

namespace Studio

/-! ### What a layer hears -/

/-- A listener that does not carry values itself: a part of a layer, or an observer. -/
def Listener.Modest : Listener → Prop
  | .layer _ _ | .observer _ => True
  | _ => False

def Listener.part? (l : Nat) : Listener → Option Part
  | .layer k p => if k = l then some p else none
  | _ => none

structure Becomes (l : Nat) (x : Layer) (s t : Studio) : Prop where
  layer : t.layers[l]? = some x
  channels : t.channels = s.channels
  families : t.families = s.families

theorem Becomes.trans {u : Studio} (hst : Becomes l x s t) (htu : Becomes l y t u) : Becomes l y s u :=
  ⟨htu.layer, htu.channels.trans hst.channels, htu.families.trans hst.families⟩

def withLayer (s : Studio) (l : Nat) (x : Layer) : Studio := { s with layers := s.layers.set l x }

def outcome {α : Type} (s : Studio) (l : Nat) : Result Fault Layer α → Result Fault Studio α
  | .ok a x => .ok a (s.withLayer l x)
  | .error e x => .error e (s.withLayer l x)

theorem run_onLayer {α : Type} (hx : s.layers[l]? = some x) (act : Layer.Act α) :
    (onLayer l act).run s = s.outcome l (act.run x) := by
  unfold onLayer
  rw [run_bind_ok (run_part hx)]
  cases act.run x <;> rfl

theorem run_hear_layer (r : Reactions) (hl : l < s.layers.length) (p : Part) (o : Option Value) (x : Layer) :
    (hear r (.layer l p) o).run (s.withLayer l x) = s.outcome l ((Layer.hear s.families p o).run x) := by
  have hx : (s.withLayer l x).layers[l]? = some x := getElem?_set_self hl
  show (onLayer l (Layer.hear s.families p o)).run (s.withLayer l x) = _
  rw [run_onLayer hx]
  cases (Layer.hear s.families p o).run x <;> simp only [outcome, withLayer, set_set]

theorem after_attempt_layer (r : Reactions) (hx : s.layers[l]? = some x) (v : Value) (p : Part) :
    (attempt (hear r) v (.layer l p)).after s = s.withLayer l ((attempt (Layer.hear s.families) v p).after x) := by
  have hcall := run_hear_layer r (lt_of_getElem? hx) p
  have hself : s = s.withLayer l x := by rw [withLayer, set_eq_self hx]
  have hfirst := hcall (some v) x
  rw [← hself] at hfirst
  unfold attempt
  cases hrun : (Layer.hear s.families p (some v)).run x with
  | ok a y =>
    rw [hrun] at hfirst
    rw [after_of_ok (run_tryCatch_ok hfirst), after_of_ok (run_tryCatch_ok hrun)]
  | error e y =>
    rw [hrun] at hfirst
    have hsecond := hcall none y
    rw [after_congr (run_tryCatch_error hfirst), after_congr (run_tryCatch_error hrun)]
    split
    case isFalse => rfl
    case isTrue =>
      cases hagain : (Layer.hear s.families p none).run y with
      | ok a z =>
        rw [hagain] at hsecond
        rw [after_of_ok (run_tryCatch_ok hsecond), after_of_ok (run_tryCatch_ok hagain)]
      | error e' z =>
        rw [hagain] at hsecond
        rw [after_congr (run_tryCatch_error hsecond), after_congr (run_tryCatch_error hagain)]
        rfl

theorem becomes_attempt (r : Reactions) (hx : s.layers[l]? = some x) (v : Value) (ha : a.Modest) :
    Becomes l ((announce (Layer.hear s.families) v (a.part? l).toList).after x) s
      ((attempt (hear r) v a).after s) := by
  cases a with
  | observer n => exact ⟨hx, rfl, rfl⟩
  | layer k p =>
    cases hy : s.layers[k]? with
    | none =>
      have hne : k ≠ l := by
        rintro rfl
        rw [hx] at hy
        cases hy
      have hrun : (hear r (.layer k p) (some v)).run s = .error .missing s :=
        (run_bind_ok rfl).trans (run_bind_error (run_part_none hy))
      rw [Listener.part?, if_neg hne, attempt, after_congr (run_tryCatch_error hrun)]
      exact ⟨hx, rfl, rfl⟩
    | some y =>
      rw [after_attempt_layer r hy]
      by_cases hk : k = l
      · subst hk
        obtain rfl : x = y := Option.some.inj (hx.symm.trans hy)
        rw [Listener.part?, if_pos rfl, Option.toList_some, after_announce_cons]
        exact ⟨getElem?_set_some hx, rfl, rfl⟩
      · rw [Listener.part?, if_neg hk]
        exact ⟨(getElem?_set_ne hk).trans hx, rfl, rfl⟩
  | _ => cases ha

theorem becomes_announce (r : Reactions) (hx : s.layers[l]? = some x) (v : Value) (hls : ∀ a ∈ ls, a.Modest) :
    Becomes l ((announce (Layer.hear s.families) v (ls.filterMap (Listener.part? l))).after x) s
      ((announce (hear r) v ls).after s) := by
  induction ls generalizing s x with
  | nil => exact ⟨hx, rfl, rfl⟩
  | cons a ls ih =>
    have hfirst := becomes_attempt r hx v (hls a mem_cons_self)
    have hrest := ih hfirst.layer fun b hb => hls b (mem_cons_of_mem _ hb)
    rw [after_announce_cons]
    rw [hfirst.families] at hrest
    refine hfirst.trans ?_
    cases hp : a.part? l with
    | none =>
      rw [hp] at hrest
      rw [filterMap_cons_none hp]
      exact hrest
    | some p =>
      rw [hp, Option.toList_some, after_announce_cons] at hrest
      rw [filterMap_cons_some hp, after_announce_cons]
      exact hrest

/-! ### Channels of a layer -/

structure Serves (l : Nat) (parts : List Part) (ch : Channel Listener) : Prop where
  modest : ∀ a ∈ ch.listeners, a.Modest
  numbers : ch.numbers.filterMap (Listener.part? l) = parts
  texts : ch.texts.filterMap (Listener.part? l) = parts

theorem Serves.of_silent (h : ch.listeners = []) : Serves l [] ch := by
  have hempty : ch.numbers = [] ∧ ch.texts = [] := by
    simp only [Channel.listeners, append_eq_nil_iff] at h
    exact h.1
  refine ⟨fun a ha => ?_, ?_, ?_⟩
  · rw [h] at ha
    exact absurd ha not_mem_nil
  · rw [hempty.1]
    rfl
  · rw [hempty.2]
    rfl

theorem Serves.emit (h : Serves l parts ch) (v : Value) :
    Serves l parts (ch.emit v).1 := ⟨h.modest, h.numbers, h.texts⟩

theorem Serves.route (h : Serves l parts ch) (hv : Fair title v) :
    v.heard? = none ∧ (ch.emit v).2 = .error .overflow ∨
      ∃ w ls, v.heard? = some w ∧ (ch.emit v).2 = .ok (ls, w) ∧ (∀ a ∈ ls, a.Modest) ∧
        ls.filterMap (Listener.part? l) = parts := by
  have hnumbers : ∀ a ∈ ch.numbers, a.Modest := fun a ha =>
    h.modest a (mem_append_left _ (mem_append_left _ ha))
  have htexts : ∀ a ∈ ch.texts, a.Modest := fun a ha =>
    h.modest a (mem_append_left _ (mem_append_right _ ha))
  obtain ⟨-, hfinite⟩ | ⟨-, text, rfl⟩ := hv
  · cases v with
    | int n =>
      cases hn : Number.ofInt? n with
      | none =>
        refine .inl ⟨?_, ?_⟩
        · rw [Value.heard?, hn]
          rfl
        · simp [Channel.emit, Channel.route, hn]
      | some x =>
        refine .inr ⟨.float x, ch.numbers, ?_, ?_, hnumbers, h.numbers⟩
        · rw [Value.heard?, hn]
          rfl
        · simp [Channel.emit, Channel.route, hn]
    | float x => exact .inr ⟨_, ch.numbers, rfl, rfl, hnumbers, h.numbers⟩
    | _ => cases hfinite
  · exact .inr ⟨_, ch.texts, rfl, rfl, htexts, h.texts⟩

/-- The channels in a table, each with some parts of a layer among its listeners. -/
structure Tuned (l : Nat) (table : List (String × Nat)) (parts : String → List Part) (x : Layer)
    (s : Studio) : Prop where
  layer : s.layers[l]? = some x
  sound : x.Sound
  channels : x.channels = table
  serves : ∀ title c, table.lookup title = some c → ∃ ch, s.channels[c]? = some ch ∧ Serves l (parts title) ch

section

variable {l c : Nat} {table : List (String × Nat)} {parts : String → List Part} {x : Layer} {s : Studio}
  {title : String} {v : Value} (r : Reactions)

theorem forall_lookup_set {Q Q' : String → Channel Listener → Prop} {ch' : Channel Listener}
    (h : ∀ title c, table.lookup title = some c → ∃ ch, s.channels[c]? = some ch ∧ Q title ch)
    (hch : s.channels[c]? = some ch) (hself : ∀ title, table.lookup title = some c → Q title ch → Q' title ch')
    (hothers : ∀ title d, table.lookup title ≠ some c → Q title d → Q' title d) :
    ∀ title d, table.lookup title = some d → ∃ e, (s.channels.set c ch')[d]? = some e ∧ Q' title e := by
  intro title d hlookup
  obtain ⟨e, he, hQ⟩ := h title d hlookup
  by_cases hd : c = d
  · subst hd
    obtain rfl : ch = e := Option.some.inj (hch.symm.trans he)
    exact ⟨ch', getElem?_set_some hch, hself title hlookup hQ⟩
  · have hne : table.lookup title ≠ some c := fun heq => hd (Option.some.inj (heq.symm.trans hlookup))
    exact ⟨e, (getElem?_set_ne hd).trans he, hothers title e hne hQ⟩

theorem Tuned.remember (h : Tuned l table parts x s) (hch : s.channels[c]? = some ch) (v : Value) :
    Tuned l table parts x (s.remember c ch v) :=
  ⟨h.layer, h.sound, h.channels, forall_lookup_set h.serves hch (fun _ _ h' => h'.emit v) fun _ _ _ h' => h'⟩

theorem Tuned.becomes (h : Tuned l table parts x s) (hbecomes : Becomes l y s t) (hy : y.Sound)
    (hchannels : y.channels = x.channels) : Tuned l table parts y t := by
  refine ⟨hbecomes.layer, hy, hchannels.trans h.channels, fun title' c' hlookup' => ?_⟩
  rw [hbecomes.channels]
  exact h.serves title' c' hlookup'

theorem Tuned.run_emit (h : Tuned l table parts x s) (hlookup : table.lookup title = some c) (hv : Fair title v)
    (hw : v.heard? = some w) (hparts : ∀ p ∈ parts title, p.Accepts w) :
    ∃ ch t, s.channels[c]? = some ch ∧ (r.next.emit c v).run s = .ok () t ∧
      Tuned l table parts ((announce (Layer.hear s.families) w (parts title)).after x) t ∧
        t.families = s.families ∧ t.channels = (s.remember c ch v).channels := by
  obtain ⟨ch, hch, hserves⟩ := h.serves title c hlookup
  obtain ⟨hnone, -⟩ | ⟨w', ls, hw', hroute, hmodest, hls⟩ := hserves.route hv
  · rw [hw] at hnone
    cases hnone
  obtain rfl : w = w' := Option.some.inj (hw.symm.trans hw')
  have hremember := h.remember hch v
  have hbecomes := becomes_announce r hremember.layer w hmodest
  have hkeeps : Within (Keeps Layer.channels) (announce (Layer.hear s.families) w (parts title)) :=
    within_announce (fun p _ => Layer.keeps_hear s.families p _) fun p _ => Layer.keeps_hear s.families p _
  obtain ⟨t, ht⟩ := exists_run_announce (hear r) w ls (s.remember c ch v)
  rw [after_of_ok ht, hls] at hbecomes
  exact ⟨ch, t, hch, (run_emit_heard r hch hroute).trans ht,
    hremember.becomes hbecomes (h.sound.announce hparts) (hkeeps x), hbecomes.families, hbecomes.channels⟩

theorem Tuned.emit_unheard (h : Tuned l table parts x s) (hlookup : table.lookup title = some c)
    (hv : Fair title v) (hw : v.heard? = none) :
    Tuned l table parts x ((r.next.emit c v).after s) ∧ ((r.next.emit c v).after s).families = s.families := by
  obtain ⟨ch, hch, hserves⟩ := h.serves title c hlookup
  obtain ⟨-, hroute⟩ | ⟨w', ls, hw', -⟩ := hserves.route hv
  · rw [after_congr (run_emit_next r hch), hroute]
    exact ⟨h.remember hch v, rfl⟩
  · rw [hw] at hw'
    cases hw'

end

/-! ### Runs of values -/

/-- Carries values on the channels of a layer, one after another; a fault is passed over. -/
def carryAll (l : Nat) (s : Studio) (es : List (String × Value)) : Studio :=
  es.foldl (fun s e => (emitOn l e.1 e.2).after s) s

section

variable {l : Nat} {table : List (String × Nat)} {x : Layer} {s : Studio}

theorem Tuned.emitOn (h : Tuned l table partsOf x s) {e : String × Value} (hlookup : table.lookup e.1 = some c)
    (he : Fair e.1 e.2) :
    Tuned l table partsOf (Layer.take s.families x e) ((emitOn l e.1 e.2).after s) ∧
      ((Studio.emitOn l e.1 e.2).after s).families = s.families := by
  have hchannel : (channelOf l e.1).run s = .ok c s := by
    unfold channelOf
    rw [run_bind_ok (run_part h.layer), h.channels, hlookup]
    rfl
  rw [Studio.emitOn, after_bind_ok hchannel]
  show Tuned l table partsOf _ (((Reactions.upTo 99).next.emit c e.2).after s) ∧ _
  unfold Layer.take
  cases hw : e.2.heard? with
  | none => exact h.emit_unheard _ hlookup he hw
  | some w =>
    obtain ⟨ch, t, -, hrun, htuned, hfamilies, -⟩ :=
      h.run_emit (.upTo 99) hlookup he hw fun p hp => he.accepts_of_mem hw hp
    rw [show (Studio.emit c e.2).after s = t from after_of_ok hrun, after_of_ok hrun]
    exact ⟨htuned, hfamilies⟩

theorem Tuned.carryAll (h : Tuned l table partsOf x s)
    (htable : ∀ title ∈ Layer.numberTitles ++ Layer.textTitles, ∃ c, table.lookup title = some c)
    (hes : ∀ e ∈ es, Fair e.1 e.2) :
    (s.carryAll l es).layers[l]? = some (Layer.takeAll s.families x es) := by
  induction es generalizing x s with
  | nil => exact h.layer
  | cons e es ih =>
    have he : Fair e.1 e.2 := hes e mem_cons_self
    obtain ⟨c, hlookup⟩ := htable e.1 he.mem
    obtain ⟨hnext, hfamilies⟩ := h.emitOn hlookup he
    have hrest := ih hnext fun e' he' => hes e' (mem_cons_of_mem _ he')
    rw [hfamilies] at hrest
    exact hrest

end

/-! ### Making a layer -/

def Primed (table : List (String × Nat)) (s : Studio) : Prop :=
  ∀ title c v, table.lookup title = some c → s.last? c = some v → v = .none ∨ Fair title v ∧ v.heard?.isSome

/-- A table that has a channel for one attribute at the most. -/
def Apart (table : List (String × Nat)) : Prop :=
  ∀ title title' c, table.lookup title = some c → table.lookup title' = some c → title = title'

structure Joining (l : Nat) (table : List (String × Nat)) (parts : String → List Part) (s : Studio) :
    Prop where
  tuned : ∃ x, Tuned l table parts x s
  primed : Primed table s
  among : ∀ title, ∀ p ∈ parts title, p ∈ partsOf title

def joined (l : Nat) (parts : String → List Part) (title : String) (a : Listener) : String → List Part :=
  fun title' => if title' = title then parts title' ++ (a.part? l).toList else parts title'

theorem joined_observer (l : Nat) (parts : String → List Part) (title : String) (n : Nat) :
    joined l parts title (.observer n) = parts := by
  funext title'
  simp [joined, Listener.part?]

section

variable {l c : Nat} {table : List (String × Nat)} {parts : String → List Part} {x : Layer} {s : Studio}
  {title title' : String}

theorem joined_self (hapart : Apart table) (h : table.lookup title' = some c) (hlookup : table.lookup title = some c) :
    joined l parts title a title' = parts title' ++ (a.part? l).toList := by
  obtain rfl := hapart title' title c h hlookup
  exact if_pos rfl

theorem joined_of_ne (hlookup : table.lookup title = some c) (hne : table.lookup title' ≠ some c) :
    joined l parts title a title' = parts title' := by
  refine if_neg ?_
  rintro rfl
  exact hne hlookup

theorem Serves.register {parts : List Part} (h : Serves l parts ch) (ha : a.Modest) :
    Serves l (parts ++ (a.part? l).toList) (ch.register a) := by
  have hadd : ∀ ls : List Listener, ls.filterMap (Listener.part? l) = parts →
      (ls ++ [a]).filterMap (Listener.part? l) = parts ++ (a.part? l).toList := by
    intro ls hls
    rw [filterMap_append, hls]
    cases hp : a.part? l <;> simp [hp]
  refine ⟨fun b hb => ?_, hadd _ h.numbers, hadd _ h.texts⟩
  obtain hold | rfl : b ∈ ch.listeners ∨ b = a := by
    simp only [Channel.listeners, Channel.register, mem_append, mem_singleton] at hb ⊢
    grind
  · exact h.modest b hold
  · exact ha

theorem Tuned.join (h : Tuned l table parts x s) (hapart : Apart table) (hlookup : table.lookup title = some c)
    (hch : s.channels[c]? = some ch) (ha : a.Modest) :
    Tuned l table (joined l parts title a) x (s.join c ch a) := by
  refine ⟨h.layer, h.sound, h.channels, forall_lookup_set h.serves hch (fun title' hlookup' hserves => ?_)
    fun title' d hne hserves => ?_⟩
  · rw [joined_self hapart hlookup' hlookup]
    exact hserves.register ha
  · rw [joined_of_ne hlookup hne]
    exact hserves

theorem Primed.emitted (h : Primed table s) (hapart : Apart table) (hlookup : table.lookup title = some c)
    (hch : s.channels[c]? = some ch) (hfair : Fair title v) (hheard : v.heard?.isSome)
    (ht : t.channels = (s.remember c ch v).channels) : Primed table t := by
  intro title' c' v' hlookup' hlast
  replace hlast : (s.remember c ch v).last? c' = some v' := by
    rw [← hlast, last?, last?, ht]
  by_cases hc : c' = c
  · subst hc
    obtain rfl : title' = title := hapart _ _ _ hlookup' hlookup
    rw [last?_remember_self hch] at hlast
    obtain rfl : v = v' := Option.some.inj hlast
    exact .inr ⟨hfair, hheard⟩
  · rw [last?_remember_of_ne s ch v hc] at hlast
    exact h title' c' v' hlookup' hlast

theorem Joining.connect (h : Joining l table parts s) (hapart : Apart table) (hlookup : table.lookup title = some c)
    (ha : a.Modest) (hpart : ∀ p, a.part? l = some p → p ∈ partsOf title) :
    ∃ t, (connect c a).run s = .ok () t ∧ Joining l table (joined l parts title a) t := by
  obtain ⟨x, hx⟩ := h.tuned
  obtain ⟨ch, hch, -⟩ := hx.serves title c hlookup
  have hjoin := hx.join hapart hlookup hch ha
  have hamong : ∀ title', ∀ p ∈ joined l parts title a title', p ∈ partsOf title' := by
    intro title' p hp
    unfold joined at hp
    split at hp
    case isFalse => exact h.among title' p hp
    case isTrue htitle =>
      subst htitle
      obtain hp | hp := mem_append.mp hp
      · exact h.among title' p hp
      · exact hpart p (Option.mem_toList.mp hp)
  have hprimed : Primed table (s.join c ch a) := by
    intro title' c' v hlookup' hlast
    rw [last?_join hch] at hlast
    exact h.primed title' c' v hlookup' hlast
  rw [run_connect hch]
  split
  case isTrue => exact ⟨_, rfl, ⟨x, hjoin⟩, hprimed, hamong⟩
  case isFalse hlast =>
    have hlast? : s.last? c = some ch.last := by rw [last?, hch]; rfl
    obtain hnone | ⟨hfair, hheard⟩ := h.primed title c _ hlookup hlast?
    · rw [hnone] at hlast
      exact absurd rfl hlast
    obtain ⟨w, hw⟩ := Option.isSome_iff_exists.mp hheard
    obtain ⟨ch', t, hch', hrun, htuned, -, hchannels⟩ :=
      hjoin.run_emit (.upTo depth) hlookup hfair hw fun p hp => hfair.accepts_of_mem hw (hamong title p hp)
    exact ⟨t, hrun, ⟨_, htuned⟩, hprimed.emitted hapart hlookup hch' hfair hheard hchannels, hamong⟩

def followed (parts : String → List Part) (ps : List (String × Part)) : String → List Part :=
  fun title => parts title ++ (ps.filter (·.1 = title)).map (·.2)

theorem followed_following : followed (followed (fun _ => []) following.1) following.2 = partsOf := by
  funext title
  simp [followed, partsOf]

theorem followed_nil (parts : String → List Part) : followed parts [] = parts := by
  funext title
  simp [followed]

theorem followed_cons (l : Nat) (parts : String → List Part) (e : String × Part) (ps : List (String × Part)) :
    followed parts (e :: ps) = followed (joined l parts e.1 (.layer l e.2)) ps := by
  funext title
  by_cases htitle : e.1 = title
  · simp [followed, joined, Listener.part?, htitle]
  · simp [followed, joined, htitle, Ne.symm htitle]

theorem Joining.follow (h : Joining l table parts s) (hapart : Apart table) {ps : List (String × Part)}
    (hps : ∀ e ∈ ps, e.2 ∈ partsOf e.1) (htable : ∀ e ∈ ps, ∃ c, table.lookup e.1 = some c) :
    ∃ t, (follow l table ps).run s = .ok () t ∧ Joining l table (followed parts ps) t := by
  induction ps generalizing parts s with
  | nil => exact ⟨s, rfl, (followed_nil parts).symm ▸ h⟩
  | cons e ps ih =>
    obtain ⟨c, hc⟩ := htable e mem_cons_self
    have hself : Listener.part? l (.layer l e.2) = some e.2 := if_pos rfl
    obtain ⟨t, ht, hjoining⟩ := h.connect hapart hc (a := .layer l e.2) trivial fun p hp => by
      rw [hself] at hp
      cases hp
      exact hps e mem_cons_self
    obtain ⟨u, hu, hrest⟩ := ih hjoining (fun e' he' => hps e' (mem_cons_of_mem _ he'))
      fun e' he' => htable e' (mem_cons_of_mem _ he')
    refine ⟨u, ?_, (followed_cons l parts e ps).symm ▸ hrest⟩
    unfold Studio.follow
    rw [forM_eq_forM, forM_cons]
    simp only [hc]
    exact (run_bind_ok ht).trans hu

theorem Joining.onLayer (h : Joining l table parts s) (act : Layer.Act Unit)
    (hact : ∀ x : Layer, x.Sound → ∃ y, act.run x = .ok () y ∧ y.Sound ∧ y.channels = x.channels) :
    ∃ t, (onLayer l act).run s = .ok () t ∧ Joining l table parts t := by
  obtain ⟨x, hx⟩ := h.tuned
  obtain ⟨y, hrun, hsound, hchannels⟩ := hact x hx.sound
  have hbecomes : Becomes l y s (s.withLayer l y) :=
    ⟨getElem?_set_self (List.getElem?_eq_some_iff.mp hx.layer).1, rfl, rfl⟩
  refine ⟨s.withLayer l y, ?_, ⟨y, hx.becomes hbecomes hsound hchannels⟩, h.primed, h.among⟩
  rw [run_onLayer hx.layer, hrun]
  rfl

end

structure Prepared (table : List (String × Nat)) (s : Studio) : Prop where
  layers : s.layers = []
  silent : ∀ title c, table.lookup title = some c → ∃ ch, s.channels[c]? = some ch ∧ ch.listeners = []
  primed : Primed table s

section

variable {c : Nat} {table : List (String × Nat)} {s : Studio} {title : String}

theorem Prepared.run_emit (h : Prepared table s) (hapart : Apart table) (hlookup : table.lookup title = some c)
    (hfair : Fair title v) (hheard : v.heard?.isSome) :
    ∃ t, (emit c v).run s = .ok () t ∧ Prepared table t := by
  obtain ⟨ch, hch, hsilent⟩ := h.silent title c hlookup
  obtain ⟨w, hw⟩ := Option.isSome_iff_exists.mp hheard
  obtain ⟨hnone, -⟩ | ⟨w', ls, -, hroute, -, -⟩ := (Serves.of_silent (l := 0) hsilent).route hfair
  · rw [hw] at hnone
    cases hnone
  have hls : ls = [] := by
    refine eq_nil_iff_forall_not_mem.mpr fun a ha => ?_
    have hmem := (Channel.emit_eq_ok hroute).1 a ha
    rw [hsilent] at hmem
    exact not_mem_nil hmem
  have hrun : (emit c v).run s = .ok () (s.remember c ch v) := by
    refine (run_emit_heard (.upTo 99) hch hroute).trans ?_
    rw [hls]
    rfl
  exact ⟨_, hrun, h.layers, forall_lookup_set h.silent hch (fun _ _ h' => h') fun _ _ _ h' => h',
    h.primed.emitted hapart hlookup hch hfair hheard rfl⟩

theorem mem_partsOf {p : Part} (h : (title, p) ∈ following.1 ++ following.2) : p ∈ partsOf title :=
  mem_map.mpr ⟨(title, p), mem_filter.mpr ⟨h, decide_eq_true rfl⟩, rfl⟩

theorem Prepared.run_makeLayer (h : Prepared table s) (hapart : Apart table)
    (htable : ∀ e ∈ following.1 ++ following.2, ∃ c, table.lookup e.1 = some c) :
    ∃ t, (makeLayer table).run s = .ok 0 t ∧ Joining 0 table partsOf t := by
  have hparts : ∀ e ∈ following.1 ++ following.2, e.2 ∈ partsOf e.1 := fun _ he => mem_partsOf he
  have hnew : Joining 0 table (fun _ => []) { s with layers := s.layers ++ [{ channels := table }] } := by
    have hsound : ({ channels := table } : Layer).Sound :=
      ⟨⟨Layer.inclines_zero, Layer.inclines_zero, Layer.turns_zero⟩, rfl, (by decide : (0 : Int) < 12)⟩
    refine ⟨⟨{ channels := table }, ?_, hsound, rfl, ?_⟩, h.primed, fun _ p hp => absurd hp not_mem_nil⟩
    · rw [h.layers]
      rfl
    · intro title c hlookup
      obtain ⟨ch, hch, hsilent⟩ := h.silent title c hlookup
      exact ⟨ch, hch, .of_silent hsilent⟩
  obtain ⟨t, ht, hfirst⟩ := hnew.follow hapart (fun e he => hparts e (mem_append_left _ he))
    fun e he => htable e (mem_append_left _ he)
  obtain ⟨u, hu, hsettled⟩ := hfirst.onLayer Layer.settle fun x hx =>
    ⟨x.settled, hx.run_settle, hx.settled, rfl⟩
  obtain ⟨w, hw, hsecond⟩ := hsettled.follow hapart (fun e he => hparts e (mem_append_right _ he))
    fun e he => htable e (mem_append_right _ he)
  rw [followed_following] at hsecond
  refine ⟨w, ?_, hsecond⟩
  unfold makeLayer
  rw [run_bind_ok (run_get s), h.layers, length_nil, run_bind_ok (run_modify _ s), run_bind_ok ht, run_bind_ok hu,
    run_bind_ok hw]
  rfl

end

end Studio

/-! ### Observed layers -/

namespace Console

open Studio

theorem run_addChannels (attributes : List String) (s : Studio) :
    (attributes.mapM fun k => (do return (k, ← addChannel) : Studio.Act (String × Nat))).run s =
      .ok (attributes.zipIdx s.channels.length)
        { s with channels := s.channels ++ List.replicate attributes.length {} } := by
  induction attributes generalizing s with
  | nil => simp
  | cons k attributes ih =>
    have hadd : (do return (k, ← addChannel) : Studio.Act (String × Nat)).run s =
        .ok (k, s.channels.length) { s with channels := s.channels ++ [{}] } := rfl
    rw [mapM_cons, run_bind_ok hadd, run_bind_ok (ih _)]
    simp [replicate_succ]

theorem apart_zipIdx (attributes : List String) : Apart attributes.zipIdx := by
  intro title title' c h h'
  have hget := mk_mem_zipIdx_iff_getElem?.mp (mem_of_lookup h)
  have hget' := mk_mem_zipIdx_iff_getElem?.mp (mem_of_lookup h')
  exact Option.some.inj (hget.symm.trans hget')

theorem lookup_layerAttributes : ∀ e ∈ layerAttributes.zipIdx, layerAttributes.zipIdx.lookup e.1 = some e.2 := by
  decide

theorem mem_layerAttributes : ∀ title ∈ Layer.numberTitles ++ Layer.textTitles, title ∈ layerAttributes := by
  decide

theorem exists_lookup_of_mem (h : title ∈ layerAttributes) : ∃ c, layerAttributes.zipIdx.lookup title = some c := by
  obtain ⟨c, hc⟩ := mem_iff_getElem?.mp h
  exact ⟨c, lookup_layerAttributes (title, c) (mk_mem_zipIdx_iff_getElem?.mpr hc)⟩

theorem prepared_channels (families : Font.Families) (attributes : List String) :
    Prepared attributes.zipIdx { families := families, channels := List.replicate attributes.length {} } := by
  have hchannel : ∀ title c, attributes.zipIdx.lookup title = some c →
      (List.replicate attributes.length ({} : Channel Listener))[c]? = some {} := by
    intro title c hlookup
    have hc := mk_mem_zipIdx_iff_getElem?.mp (mem_of_lookup hlookup)
    exact getElem?_replicate_of_lt (lt_of_getElem? hc)
  refine ⟨rfl, fun title c hlookup => ⟨{}, hchannel title c hlookup, rfl⟩, fun title c v hlookup hlast => .inl ?_⟩
  rw [last?, hchannel title c hlookup] at hlast
  exact (Option.some.inj hlast).symm

theorem exists_run_makeObserved (families : Font.Families)
    (hvalues : ∀ e ∈ values, Fair e.1 e.2 ∧ e.2.heard?.isSome) (width height : Float) :
    ∃ a t, (makeObserved layerAttributes values width height).run { families := families } = .ok a t ∧
      ∃ x, Tuned 0 layerAttributes.zipIdx partsOf x t := by
  have hapart := apart_zipIdx layerAttributes
  have hfollowing : ∀ e ∈ following.1 ++ following.2, e.1 ∈ layerAttributes := by decide
  unfold makeObserved
  rw [run_bind_ok (run_addChannels layerAttributes _)]
  refine Leads.bind (Leads.forIn ?_) (fun _ s hs => ?_) _ (prepared_channels families layerAttributes)
  · -- the values come before anybody listens
    rintro ⟨k, v⟩ he s hs
    obtain ⟨hfair, hheard⟩ := hvalues _ he
    obtain ⟨c, hc⟩ := exists_lookup_of_mem (mem_layerAttributes k hfair.mem)
    obtain ⟨t, ht, hprepared⟩ := hs.run_emit hapart hc hfair hheard
    refine ⟨t, ?_, hprepared⟩
    simp only [length_nil, hc]
    exact run_bind_ok ht
  · obtain ⟨t, ht, hjoining⟩ := hs.run_makeLayer hapart fun e he => exists_lookup_of_mem (hfollowing e he)
    simp only [length_nil]
    rw [run_bind_ok ht]
    obtain ⟨u, hu, hsized⟩ := hjoining.onLayer (modify fun x => { x with width := width, height := height })
      fun x hx => ⟨_, rfl, ⟨hx.toPoised.of_angles rfl, hx.idle, hx.size⟩, rfl⟩
    rw [run_bind_ok hu]
    refine Leads.bind (Leads.forIn ?_) (fun _ w hw => ?_) _ hsized
    · -- observers are no parts of the layer
      rintro ⟨⟨k, c⟩, n⟩ he w hw
      have hmem : (k, c) ∈ layerAttributes.zipIdx := mem_of_getElem? (mk_mem_zipIdx_iff_getElem?.mp he)
      obtain ⟨t, ht, hnext⟩ := hw.connect hapart (lookup_layerAttributes _ hmem) (a := .observer n) trivial
        fun p hp => by cases hp
      rw [joined_observer] at hnext
      exact ⟨t, run_bind_ok ht, hnext⟩
    · obtain ⟨x, hx⟩ := hw.tuned
      exact ⟨_, _, rfl, x, hx.layer, hx.sound, hx.channels, hx.serves⟩

end Console

namespace Studio

open Console

end Studio

end WatchFace
