import WatchFace.Proofs.Studio.Wiring

/-!
# Boxes that stay busy

A layer that cannot be placed breaks off the fitting of its box: the box stays busy, and a busy box is never fitted
again. All but a new text place the layer before they fit the box, so it takes a text, and a rotation or a skew that is
of no use.
-/

namespace WatchFace

open EStateM List

namespace Layer

variable {x : Layer} {v : Value} {title : String} {families : Font.Families} {es : List (String × Value)}

/-! ### Fitting -/

theorem upright_of_ownMatrix {m : Option (Transform.Matrix Float)} (h : x.ownMatrix = .ok m) : x.Upright := by
  have hisOk : ∀ {α : Type} {y : Except Fault α} {a : α}, y = .ok a → y.isOk = true := fun h => h ▸ rfl
  obtain ⟨_, hslopes, h⟩ := exists_of_bind_eq_ok h
  obtain ⟨_, hskewX, hslopes⟩ := exists_of_bind_eq_ok hslopes
  obtain ⟨_, hskewY, -⟩ := exists_of_bind_eq_ok hslopes
  obtain ⟨a, ha, h⟩ := exists_of_bind_eq_ok h
  obtain ⟨_, hcircle, -⟩ := exists_of_bind_eq_ok h
  refine ⟨hisOk hskewX, hisOk hskewY, ?_⟩
  rw [Value.Turns, ha]
  exact hisOk hcircle

theorem run_place_of_not_upright (h : ¬x.Upright) : ∃ e, place.run x = .error e x := by
  cases hm : x.ownMatrix with
  | ok m => exact absurd (upright_of_ownMatrix hm) h
  | error e =>
    refine ⟨e, ?_⟩
    unfold place
    rw [run_bind_ok (run_get x), hm]
    rfl

/-- A layer that cannot be placed leaves its box busy, and loses its rotation where its skews are to blame. -/
theorem after_fit_of_not_upright (hidle : x.box.busy = false) (h : ¬x.Upright) : (fit.after x).box.busy = true ∧
      (x.skewX.Slopes ∧ x.skewY.Slopes ∧ (fit.after x).rotation = x.rotation ∨
        ¬(x.skewX.Slopes ∧ x.skewY.Slopes) ∧ (fit.after x).rotation = .int 0) := by
  have hbox : ∀ (g : Box → Box) (m : Layer), (changeBox g).run m = .ok () { m with box := g m.box } :=
    fun _ _ => rfl
  have hnot : ¬x.box.busy = true := by simp [hidle]
  unfold fit
  rw [after_bind_ok (run_get x), if_neg hnot, after_bind_ok (hbox _ _), after_bind_ok (run_modify _ _)]
  let level : Layer := { x with box := { x.box with busy := true }, rotation := .int 0 }
  by_cases hlevel : level.Upright
  · -- the skews are of use, so it is the rotation that is not
    obtain ⟨m, hm, hangles, hmbox⟩ := hlevel.run_place
    rw [after_bind_ok hm, after_bind_ok (hbox _ _), after_bind_ok (hbox _ _), after_bind_ok (run_modify _ _)]
    have hskews : (m.skewX, m.skewY) = (x.skewX, x.skewY) := congrArg Prod.snd hangles
    have hbusy : m.box.busy = true := congrArg Box.busy hmbox
    generalize hn : ({ m with box := _, rotation := x.rotation } : Layer) = n
    have hnangles : n.angles = x.angles := hn ▸ congrArg (Prod.mk x.rotation) hskews
    have hnot : ¬n.Upright := fun hup => h (hup.of_angles hnangles.symm)
    obtain ⟨e, he⟩ := run_place_of_not_upright hnot
    rw [after_bind_error he]
    exact ⟨hn ▸ hbusy, .inl ⟨hlevel.skewX, hlevel.skewY, congrArg Prod.fst hnangles⟩⟩
  · obtain ⟨e, he⟩ := run_place_of_not_upright hlevel
    rw [after_bind_error he]
    exact ⟨rfl, .inr ⟨fun hskews => hlevel ⟨hskews.1, hskews.2, turns_zero⟩, rfl⟩⟩

theorem after_fit_of_busy (hbusy : x.box.busy = true) : fit.after x = x := by
  unfold fit
  rw [after_bind_ok (run_get x), if_pos hbusy]
  rfl

/-- To fit the box leaves the rotation alone, unless the skews are of no use. -/
theorem rotation_fit_iff (x : Layer) : (fit.after x).rotation = x.rotation ↔
    x.box.busy = true ∨ x.skewX.Slopes ∧ x.skewY.Slopes ∨ x.rotation = .int 0 := by
  by_cases hbusy : x.box.busy = true
  · simp [after_fit_of_busy hbusy, hbusy]
  by_cases h : x.Upright
  · obtain ⟨m, hm, hangles, -⟩ := h.run_fit
    rw [after_of_ok hm]
    exact iff_of_true (congrArg Prod.fst hangles) (.inr (.inl ⟨h.skewX, h.skewY⟩))
  · obtain ⟨-, ⟨hskewX, hskewY, hrotation⟩ | ⟨hskews, hrotation⟩⟩ :=
      after_fit_of_not_upright (Bool.eq_false_iff.mpr hbusy) h
    · exact iff_of_true hrotation (.inr (.inl ⟨hskewX, hskewY⟩))
    · rw [hrotation]
      simp [hbusy, hskews, eq_comm]

/-! ### Hearing -/

theorem keeps_settle_angles : Within (Keeps fun x : Layer => (x.angles, x.box.busy)) settle := by
  intro x
  by_cases h : x.Upright
  · obtain ⟨m, hm, hangles, hbusy⟩ := h.run_settle
    rw [Keeps, after_of_ok hm, hangles, hbusy]
  · obtain ⟨e, he⟩ := run_place_of_not_upright h
    rw [Keeps, settle, after_bind_error he]

theorem keeps_hear_angles {p : Part} (hp : p ∉ [Part.text, .rotate, .skewX, .skewY]) (o : Option Value) :
    Within (Keeps fun x : Layer => (x.angles, x.box.busy)) (hear families p o) := by
  refine within_hear (fun v m l _ => ?_) (fun heq => ?_) fun _ => keeps_settle_angles
  · cases p
    case rotate | skewX | skewY => simp at hp
    all_goals rfl
  · simp [heq] at hp

theorem after_attempt_text (v : Value) (x : Layer) :
    (attempt (hear families) v .text).after x = fit.after { x with plain := v } := by
  unfold attempt
  cases hrun : fit.run { x with plain := v } with
  | ok a m => rw [after_of_ok hrun, after_of_ok (run_tryCatch_ok (x := hear families .text (some v)) hrun)]
  | error e m =>
    rw [after_of_error hrun, after_congr (run_tryCatch_error (x := hear families .text (some v)) hrun)]
    split <;> rfl

/-- The angles of a layer that has heard a value for an attribute. -/
def steered (title : String) (v : Value) (a : Value × Value × Value) : Value × Value × Value :=
  (if title = "Rotation" then v else a.1, if title = "Skew X" then v else a.2.1, if title = "Skew Y" then v else a.2.2)

theorem notMem_of_mem_partsOf {p : Part} (htitle : title ∉ ["Text", "Rotation", "Skew X", "Skew Y"])
    (hp : p ∈ partsOf title) : p ∉ [Part.text, .rotate, .skewX, .skewY] := by
  have hall : ∀ e ∈ following.1 ++ following.2, e.2 ∈ [Part.text, .rotate, .skewX, .skewY] →
      e.1 ∈ ["Text", "Rotation", "Skew X", "Skew Y"] := by decide
  obtain ⟨e, he, rfl⟩ := mem_map.mp hp
  obtain ⟨he, heq⟩ := mem_filter.mp he
  exact fun hmem => htitle (of_decide_eq_true heq ▸ hall e he hmem)

/-- A value for another attribute than the text leaves the box busy or idle as it was. -/
theorem after_tell_of_ne (hne : title ≠ "Text") (families : Font.Families) (v : Value) (x : Layer) :
    ((tell families title v).after x).angles = steered title v x.angles ∧
      ((tell families title v).after x).box.busy = x.box.busy := by
  have hkeeps : ∀ parts : List Part, (∀ p ∈ parts, p ∉ [Part.text, .rotate, .skewX, .skewY]) →
      Within (Keeps fun x : Layer => (x.angles, x.box.busy)) (announce (hear families) v parts) := fun parts hparts =>
    within_announce (fun p hp => keeps_hear_angles (hparts p hp) _) fun p hp => keeps_hear_angles (hparts p hp) _
  have hsettle := hkeeps [.transform] (by decide)
  by_cases hmem : title ∈ ["Text", "Rotation", "Skew X", "Skew Y"]
  · simp only [mem_cons, hne, false_or, not_mem_nil, or_false] at hmem
    -- the angle is written, and the layer settles with it
    obtain rfl | rfl | rfl := hmem
    · exact Prod.ext_iff.mp (hsettle { x with rotation := v })
    · exact Prod.ext_iff.mp (hsettle { x with skewX := v })
    · exact Prod.ext_iff.mp (hsettle { x with skewY := v })
  · have hsteered : steered title v x.angles = x.angles := by
      simp only [mem_cons, not_mem_nil, or_false, not_or] at hmem
      simp [steered, hmem]
    rw [hsteered]
    exact Prod.ext_iff.mp (hkeeps _ (fun p hp => notMem_of_mem_partsOf hmem hp) x)

/-- **One value.** The box is idle after a value if it was idle before, and the layer could be placed if the value is a
    text. The angles are then those that the layer has heard. -/
theorem idle_tell_iff (families : Font.Families) (title : String) (v : Value) (x : Layer) :
    (((tell families title v).after x).box.busy = false ↔ x.box.busy = false ∧ (title = "Text" → x.Upright)) ∧
      (((tell families title v).after x).box.busy = false →
        ((tell families title v).after x).angles = steered title v x.angles) := by
  by_cases htitle : title = "Text"
  · subst htitle
    have hafter : (tell families "Text" v).after x = fit.after { x with plain := v } :=
      (after_announce_cons _ _ _ [] x).trans (after_attempt_text v x)
    rw [hafter]
    cases hbusy : x.box.busy with
    | true => simp [after_fit_of_busy (x := { x with plain := v }) hbusy, hbusy]
    | false =>
      by_cases h : x.Upright
      · obtain ⟨m, hm, hangles, hidle⟩ := Upright.run_fit (l := { x with plain := v }) (h.of_angles rfl)
        rw [after_of_ok hm, hidle, hangles]
        simp [hbusy, h, steered, angles]
      · have hnot : ¬({ x with plain := v } : Layer).Upright := fun hup => h (hup.of_angles rfl)
        simp [(after_fit_of_not_upright (x := { x with plain := v }) hbusy hnot).1, h]
  · obtain ⟨hangles, hbusy⟩ := after_tell_of_ne htitle families v x
    simp [hangles, hbusy, htitle]

/-! ### Runs of values -/

/-- The values that a layer has heard last for its angles, where there are any, are of use. -/
def Placeable (es : List (String × Value)) : Prop :=
  ∀ v, (lastHeard? "Rotation" es = some v → v.Turns) ∧ (lastHeard? "Skew X" es = some v → v.Slopes) ∧
    (lastHeard? "Skew Y" es = some v → v.Slopes)

/-- The angles that a layer has after some values, if its box is idle. -/
def headings (x : Layer) (es : List (String × Value)) : Value × Value × Value :=
  ((lastHeard? "Rotation" es).getD x.rotation, (lastHeard? "Skew X" es).getD x.skewX,
    (lastHeard? "Skew Y" es).getD x.skewY)

theorem headings_concat_heard (x : Layer) (es : List (String × Value)) {e : String × Value} {w : Value}
    (hw : e.2.heard? = some w) : headings x (es ++ [e]) = steered e.1 w (headings x es) := by
  simp only [headings, steered, lastHeard?_append_singleton, hw, Option.some_or]
  refine Prod.ext ?_ (Prod.ext ?_ ?_) <;> dsimp only <;> split <;> rfl

theorem headings_concat_unheard (x : Layer) (es : List (String × Value)) {e : String × Value}
    (hw : e.2.heard? = none) : headings x (es ++ [e]) = headings x es := by
  simp [headings, lastHeard?_append_singleton, hw]

theorem Upright.placeable_iff (h : x.Upright) {y : Layer} (hy : y.angles = headings x es) :
    y.Upright ↔ Placeable es := by
  have hgetD : ∀ {P : Value → Prop} {o : Option Value} {d : Value}, P d → (P (o.getD d) ↔ ∀ v, o = some v → P v) := by
    rintro P (_ | v) d hd <;> simp [hd]
  have hrotation := hgetD (o := lastHeard? "Rotation" es) h.rotation
  have hskewX := hgetD (o := lastHeard? "Skew X" es) h.skewX
  have hskewY := hgetD (o := lastHeard? "Skew Y" es) h.skewY
  simp only [angles, headings, Prod.mk.injEq] at hy
  rw [← hy.1] at hrotation
  rw [← hy.2.1] at hskewX
  rw [← hy.2.2] at hskewY
  simp only [Placeable, forall_and, ← hrotation, ← hskewX, ← hskewY]
  exact ⟨fun hup => ⟨hup.rotation, hup.skewX, hup.skewY⟩, fun hall => ⟨hall.2.1, hall.2.2, hall.1⟩⟩

/-- **A run of values.** The box is idle at the end if the layer could be placed at each text. -/
theorem Upright.idle_takeAll_iff (h : x.Upright) (hidle : x.box.busy = false) (families : Font.Families)
    (es : List (String × Value)) :
    ((takeAll families x es).box.busy = false ↔
        ∀ before v, before ++ [("Text", v)] <+: es → v.heard?.isSome → Placeable before) ∧
      ((takeAll families x es).box.busy = false → (takeAll families x es).angles = headings x es) := by
  induction es using List.reverseRecOn with
  | nil =>
    refine ⟨iff_of_true hidle fun before v hbegins => ?_, fun _ => rfl⟩
    simp at hbegins
  | append_singleton es e ih =>
    obtain ⟨hiff, hangles⟩ := ih
    have htake : takeAll families x (es ++ [e]) = take families (takeAll families x es) e := by simp [takeAll]
    have hcond : (∀ before v, before ++ [("Text", v)] <+: es ++ [e] → v.heard?.isSome → Placeable before) ↔
        (takeAll families x es).box.busy = false ∧ (e.1 = "Text" → e.2.heard?.isSome → Placeable es) := by
      rw [hiff]
      constructor
      · intro hall
        refine ⟨fun before v hbegins => hall before v (hbegins.trans (prefix_append es [e])), fun htitle => ?_⟩
        exact hall es e.2 (htitle ▸ prefix_rfl)
      · rintro ⟨hbefore, hlast⟩ before v hbegins
        obtain heq | hbegins := prefix_concat_iff.mp hbegins
        · obtain ⟨rfl, rfl⟩ : before = es ∧ ("Text", v) = e := by simpa using heq
          exact hlast rfl
        · exact hbefore before v hbegins
    rw [htake, hcond]
    unfold take
    cases hw : e.2.heard? with
    | none => simpa [headings_concat_unheard x es hw] using hangles
    | some w =>
      obtain ⟨hnext, hsteered⟩ := idle_tell_iff families e.1 w (takeAll families x es)
      constructor
      · refine hnext.trans (and_congr_right fun hbusy => ?_)
        simp [h.placeable_iff (hangles hbusy)]
      · intro hbusy
        rw [headings_concat_heard x es hw, ← hangles (hnext.mp hbusy).1]
        exact hsteered hbusy

/-! ### Layers on their channels -/

theorem upholds_idle_hear {p : Part} (hp : p ≠ .text) (o : Option Value) :
    Within (Upholds fun x : Layer => x.box.busy = false) (hear families p o) := by
  refine within_hear (fun v m l _ => ?_) (fun heq => absurd heq hp) fun _ x hx => ?_
  · cases p <;> exact id
  · exact (congrArg Prod.snd (keeps_settle_angles x)).trans hx

theorem upholds_upright_hear {p : Part} (hp : p ∉ [Part.rotate, .skewX, .skewY]) (o : Option Value) :
    Within (Upholds fun x : Layer => x.Upright ∧ x.box.busy = false) (hear families p o) := by
  refine within_hear (fun v m l _ hl => ?_) (fun _ x hx => ?_) fun _ x hx => ?_
  · cases p
    case rotate | skewX | skewY => simp at hp
    all_goals exact ⟨hl.1.of_angles rfl, hl.2⟩
  · obtain ⟨m, hm, hangles, hbusy⟩ := hx.1.run_fit
    rw [after_of_ok hm]
    exact ⟨hx.1.of_angles hangles, hbusy.trans hx.2⟩
  · obtain ⟨m, hm, hangles, hbusy⟩ := hx.1.run_settle
    rw [after_of_ok hm]
    exact ⟨hx.1.of_angles hangles, hbusy.trans hx.2⟩

end Layer

namespace Studio

open Layer (Placeable lastHeard? following partsOf)

variable {l : Nat} {s₀ s : Studio} {table : List (String × Nat)} {es : List (String × Value)}

/-- A layer that has been made can be placed, as it has settled. -/
theorem upright_makeLayer (hapart : Apart table)
    (hfree : ∀ title c, table.lookup title = some c → ∃ ch, s₀.channels[c]? = some ch ∧ Attends s₀.layers.length [] ch)
    (hmade : (makeLayer table).run s₀ = .ok l s) :
    ∃ x, (x.Upright ∧ x.box.busy = false) ∧ Wired l table partsOf x s ∧ s.families = s₀.families := by
  have hfirst : ∀ e ∈ following.1, e.2 ≠ .text := by decide
  have hsecond : ∀ e ∈ following.2, e.2 ∉ [Layer.Part.rotate, .skewX, .skewY] := by decide
  refine wired_makeLayer (P := fun x => x.box.busy = false) hapart hfree hmade rfl
    (fun e he => Layer.upholds_idle_hear (hfirst e he)) (fun x y hx hy => ?_)
    fun e he => Layer.upholds_upright_hear (hsecond e he)
  have hkeeps := Layer.keeps_settle_angles x
  rw [after_of_ok hy] at hkeeps
  obtain ⟨hangles, hbusy⟩ := Prod.ext_iff.mp hkeeps
  by_cases h : x.Upright
  · exact ⟨h.of_angles hangles, hbusy.trans hx⟩
  · obtain ⟨e, he⟩ := Layer.run_place_of_not_upright h
    unfold Layer.settle at hy
    rw [run_bind_error he] at hy
    cases hy

/-- **When the box of a layer stays busy.** Whatever comes to a layer, its box is idle if and only if each text came
    when the layer could be placed, with the angles that it had heard. The rotation is then the one that it has heard.
    To fit the box changes the rotation of an idle layer only if a skew is of no use. -/
theorem idle_carryAll_iff (hapart : Apart table)
    (hfree : ∀ title c, table.lookup title = some c → ∃ ch, s₀.channels[c]? = some ch ∧ Attends s₀.layers.length [] ch)
    (hmade : (makeLayer table).run s₀ = .ok l s) (hes : ∀ e ∈ es, (table.lookup e.1).isSome) :
    ∃ x₀ x, s.layers[l]? = some x₀ ∧ (s.carryAll l es).layers[l]? = some x ∧
      (x.box.busy = false ↔ ∀ before v, before ++ [("Text", v)] <+: es → v.heard?.isSome → Placeable before) ∧
      (x.box.busy = false → x.rotation = (lastHeard? "Rotation" es).getD x₀.rotation) ∧
      ((Layer.fit.after x).rotation = x.rotation ↔
        x.box.busy = true ∨ x.skewX.Slopes ∧ x.skewY.Slopes ∨ x.rotation = .int 0) := by
  obtain ⟨x, ⟨hupright, hidle⟩, hwired, -⟩ := upright_makeLayer hapart hfree hmade
  obtain ⟨hiff, hangles⟩ := hupright.idle_takeAll_iff hidle s.families es
  exact ⟨x, _, hwired.layer, hwired.carryAll hes, hiff, fun h => congrArg Prod.fst (hangles h), Layer.rotation_fit_iff _⟩

theorem idle_carryAll_iff_skew : ∃ s x, (makeLayer Console.layerAttributes.zipIdx).run
      { channels := List.replicate Console.layerAttributes.length {} } = .ok 0 s ∧
      (s.carryAll 0 [("Rotation", .float 30), ("Skew X", .text "a"), ("Skew X", .float 5), ("Text", .text "b")]).layers[0]? =
        some x ∧ x.box.busy = false ∧ x.rotation = .float 30 := by
  obtain ⟨s, hmade⟩ := exists_made_layerAttributes
  have hes : ∀ e ∈ [("Rotation", Value.float 30), ("Skew X", .text "a"), ("Skew X", .float 5), ("Text", .text "b")],
      (Console.layerAttributes.zipIdx.lookup e.1).isSome := by decide
  obtain ⟨x₀, x, -, hx, hiff, hrotation, -⟩ :=
    idle_carryAll_iff (Console.apart_zipIdx _) (Console.prepared_channels {} _).attends hmade hes
  have hturns : (Value.float 30).Turns := by
    unfold Value.Turns
    decide +kernel
  have hslopes : (Value.float 5).Slopes := rfl
  have hidle : x.box.busy = false := by
    refine hiff.mpr fun before v ⟨rest, hrest⟩ _ => ?_
    rcases before with _ | ⟨e, _ | ⟨e₁, _ | ⟨e₂, _ | ⟨e₃, before⟩⟩⟩⟩ <;> simp at hrest
    obtain ⟨rfl, rfl, rfl, -⟩ := hrest
    intro w
    refine ⟨fun hw => ?_, fun hw => ?_, fun hw => ?_⟩ <;> cases hw <;> assumption
  exact ⟨s, x, hmade, hx, hidle, hrotation hidle⟩

/-- A text that comes while a skew is of no use leaves the box busy. -/
theorem not_forall_idle_carryAll :
    ¬∀ es : List (String × Value), ∀ x ∈ (((makeLayer Console.layerAttributes.zipIdx).after
      { channels := List.replicate Console.layerAttributes.length {} }).carryAll 0 es).layers, x.box.busy = false := by
  intro h
  have hbusy := h [("Skew X", .text "a"), ("Text", .text "b")]
  revert hbusy
  decide +kernel

end Studio

end WatchFace
