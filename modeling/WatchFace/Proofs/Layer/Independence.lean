import Mathlib.Data.List.Induction
import WatchFace.Proofs.Layer.Upright
import WatchFace.Proofs.Number.Doubles

/-!
# Attributes that do not depend on one another

Each part of a layer writes fields of its own, and what is worked out from several fields, the
transform and the box, is worked out anew from all of them. So values for different attributes can
come in any order.
-/

namespace WatchFace

open EStateM List

variable {b b' : Bool} {title : String} {p : Layer.Part} {e : String × Value}

namespace Layer

/-! ### What the parts write -/

def aligned (v : Value) (offsets : Float × Float) : Float × Float :=
  match v with
  | .text s => alignTo (-0.5) 0 0.5 s offsets.1 offsets.2
  | _ => offsets

/-- What a part writes into the layer; a value that it cannot use it does not write. -/
def Part.write (families : Font.Families) (p : Part) (v : Value) (l : Layer) : Layer :=
  match p with
  | .order => { l with depth := (depthOf v).toOption.getD l.depth }
  | .moveX => { l with x := v.toFloat.toOption.getD l.x }
  | .moveY => { l with y := v.toFloat.toOption.getD l.y }
  | .skewX => { l with skewX := v }
  | .skewY => { l with skewY := v }
  | .rotate => { l with rotation := v }
  | .opacity => { l with opacity := (v.toFloat.toOption.map (· / 100)).or l.opacity }
  | .display | .transform => l
  | .text => { l with plain := v }
  | .font => { l with family := (Font.Families.familyFor families v).toOption.getD l.family }
  | .size => { l with size := (sizeOf v).toOption.getD l.size }
  | .color => { l with color := (colorOf v).toOption.or l.color }
  | .alignment =>
    { l with
      offsetX := (aligned v (l.offsetX, l.offsetY)).1, offsetY := (aligned v (l.offsetX, l.offsetY)).2 }

section

variable (families : Font.Families) (p q : Part) (v w : Value) (l : Layer)

theorem Part.write_dressed (m : Option (Transform.Matrix Float)) (vague : Bool) (b : Box) :
    p.write families v (l.dressed m vague b) = (p.write families v l).dressed m vague b := by
  cases p <;> rfl

theorem Part.box_write : (p.write families v l).box = l.box := by
  cases p <;> rfl

theorem Part.write_comm (h : p ≠ q) :
    p.write families v (q.write families w l) = q.write families w (p.write families v l) := by
  cases p <;> cases q <;> first | rfl | exact absurd rfl h

theorem aligned_aligned (o : Float × Float) : aligned v (aligned v o) = aligned v o := by
  cases v
  case text s =>
    simp only [aligned, alignTo]
    grind
  all_goals rfl

theorem Part.write_write : p.write families v (p.write families v l) = p.write families v l := by
  cases p
  case order => unfold write; cases depthOf v <;> rfl
  case moveX | moveY | opacity => unfold write; cases v.toFloat <;> rfl
  case font => unfold write; cases Font.Families.familyFor families v <;> rfl
  case size => unfold write; cases sizeOf v <;> rfl
  case color => unfold write; cases colorOf v <;> rfl
  case alignment =>
    have hoffsets := aligned_aligned v (l.offsetX, l.offsetY)
    calc write families .alignment v (write families .alignment v l)
      _ = { l with
            offsetX := (aligned v (aligned v (l.offsetX, l.offsetY))).1
            offsetY := (aligned v (aligned v (l.offsetX, l.offsetY))).2 } := rfl
      _ = write families .alignment v l := by rw [hoffsets]; rfl
  all_goals rfl

end

def Part.poses : Part → Bool
  | .skewX | .skewY | .rotate | .alignment => true
  | _ => false

section

variable {families : Font.Families} {p : Part} {v : Value} {l : Layer}

theorem Part.pose_write (h : p.poses = false) : (p.write families v l).pose = l.pose := by
  cases p
  case skewX | skewY | rotate | alignment => cases h
  all_goals rfl

theorem Part.settled_write_settled : (p.write families v l.settled).settled = (p.write families v l).settled := by
  let m := p.write families v l
  have hwrite : p.write families v l.settled = m.dressed l.transform false (l.box.fitted l) :=
    p.write_dressed families v l _ _ _
  have hpose : (m.dressed l.transform false (l.box.fitted l)).pose = m.pose := rfl
  have hbox : (l.box.fitted l).fitted (m.dressed l.transform false (l.box.fitted l)) = m.box.fitted m := by
    rw [fitted_of_pose hpose, Box.fitted_fitted, p.box_write families v l]
  rw [hwrite]
  show m.dressed (m.dressed _ _ _).transform false ((l.box.fitted l).fitted (m.dressed _ _ _)) = m.settled
  rw [hbox, transform_of_pose hpose]
  rfl

theorem Part.write_settled (h : p.poses = false) : p.write families v l.settled = (p.write families v l).settled := by
  have hpose : (p.write families v l).pose = l.pose := p.pose_write h
  rw [settled, p.write_dressed, settled, transform_of_pose hpose, fitted_of_pose hpose, p.box_write]

/-! ### What the parts do -/

def Part.settles : Part → Bool
  | .text | .transform => true
  | _ => false

def Part.Accepts : Part → Value → Prop
  | .skewX, v | .skewY, v => Inclines v
  | .rotate, v => v.Turns
  | _, _ => True

def settledIf (b : Bool) (l : Layer) : Layer := if b then l.settled else l

theorem Part.settledIf_write (h : b = false → p.poses = false) :
    settledIf b (p.write families v (settledIf b' l)) = settledIf (b || b') (p.write families v l) := by
  cases b' with
  | false => rw [Bool.or_false]; rfl
  | true =>
    cases b with
    | false => exact Part.write_settled (h rfl)
    | true => exact Part.settled_write_settled

theorem Part.write_settledIf (h : p.write families v l = l) : p.write families v (settledIf b l) = settledIf b l := by
  cases b with
  | false => exact h
  | true =>
    show p.write families v (l.dressed _ _ _) = l.dressed _ _ _
    rw [p.write_dressed, h]

theorem settledIf_settledIf (h : b = true → b' = true) : settledIf b (settledIf b' l) = settledIf b' l := by
  cases b with
  | false => rfl
  | true =>
    rw [h rfl]
    exact l.settled_settled

protected theorem Sound.settled (h : l.Sound) : l.settled.Sound := ⟨h.toPoised.of_angles rfl, h.idle, h.size⟩

protected theorem Sound.settledIf (h : l.Sound) (b : Bool) : (settledIf b l).Sound := by
  cases b
  case false => exact h
  case true => exact h.settled

theorem size_pos {n : Int} (h : sizeOf v = .ok n) : 0 < n := by
  unfold sizeOf at h
  split at h
  case isFalse =>
    cases h
    decide
  case isTrue =>
    obtain ⟨m, -, h⟩ := exists_of_bind_eq_ok h
    obtain rfl : (if m ≤ 0 then 12 else m) = n := Except.ok.inj h
    split <;> omega

protected theorem Sound.write (h : l.Sound) (hv : p.Accepts v) : (p.write families v l).Sound := by
  have hidle : (p.write families v l).box.busy = false := by
    rw [p.box_write]
    exact h.idle
  cases p
  case skewX => exact ⟨⟨hv, h.skewY, h.rotation⟩, hidle, h.size⟩
  case skewY => exact ⟨⟨h.skewX, hv, h.rotation⟩, hidle, h.size⟩
  case rotate => exact ⟨⟨h.skewX, h.skewY, hv⟩, hidle, h.size⟩
  case size =>
    refine ⟨h.toPoised.of_angles rfl, hidle, ?_⟩
    show 0 < (sizeOf v).toOption.getD l.size
    cases hn : sizeOf v with
    | error e => exact h.size
    | ok n => exact size_pos hn
  all_goals exact ⟨h.toPoised.of_angles rfl, hidle, h.size⟩

theorem after_require {α : Type} (x : Except Fault α) (g : α → Layer → Layer) :
    (require x >>= fun a => (modify (g a) : Act PUnit)).after l = (x.toOption.map (g · l)).getD l := by
  cases x <;> rfl

theorem Sound.after_apply (h : l.Sound) :
    (apply families p v).after l = settledIf p.settles (p.write families v l) := by
  unfold apply
  cases p
  case order =>
    rw [after_require]
    unfold Part.write
    cases depthOf v <;> rfl
  case moveX | moveY | opacity =>
    rw [after_require]
    unfold Part.write
    cases v.toFloat <;> rfl
  case transform => exact after_of_ok h.run_settle
  case text =>
    have hplain : ({ l with plain := v } : Layer).Sound := ⟨h.toPoised.of_angles rfl, h.idle, h.size⟩
    exact after_of_ok ((run_bind_ok rfl).trans hplain.run_fit)
  case font =>
    have hsize : l.fontSize = l.size := if_neg (Int.not_le.mpr h.size)
    rw [after_require]
    unfold Part.write
    cases Font.Families.familyFor families v with
    | error e => rfl
    | ok family =>
      show ({ l with family := family, size := l.fontSize } : Layer) = { l with family := family }
      rw [hsize]
  case size =>
    rw [after_require]
    unfold Part.write
    cases sizeOf v <;> rfl
  case color =>
    rw [after_require]
    unfold Part.write
    cases colorOf v <;> rfl
  case alignment => cases v <;> rfl
  all_goals rfl

theorem Sound.after_attempt (h : l.Sound) :
    (attempt (hear families) v p).after l = settledIf p.settles (p.write families v l) := by
  rw [← h.after_apply]
  unfold attempt
  cases hrun : (apply families p v).run l with
  | ok a m => rw [after_of_ok hrun, after_of_ok (run_tryCatch_ok (x := hear families p (some v)) hrun)]
  | error e m =>
    rw [after_of_error hrun]
    have hne : p ≠ .transform := by
      rintro rfl
      rw [show apply families .transform v = settle from rfl, h.run_settle] at hrun
      cases hrun
    have hnone : (hear families p none).run m = .error .wrongKind m := by
      cases p
      case transform => exact absurd rfl hne
      all_goals rfl
    refine after_of_ok (a := ()) ?_
    rw [run_tryCatch_error (x := hear families p (some v)) hrun]
    split
    · exact run_tryCatch_error hnone
    · rfl

end

/-! ### Values for attributes -/

/-- The parts that follow an attribute, in the order in which they are told of a value. -/
def partsOf (title : String) : List Part :=
  ((following.1 ++ following.2).filter (·.1 = title)).map (·.2)

/-- The attributes that have numbers, and those that have texts. -/
def numberTitles : List String :=
  ["X", "Y", "Layer", "Rotation", "Skew X", "Skew Y", "Opacity", "Text size"]

@[inherit_doc numberTitles]
def textTitles : List String := ["Text", "Font", "Color", "Alignment"]

def tell (families : Font.Families) (title : String) (v : Value) : Act Unit :=
  announce (hear families) v (partsOf title)

def writer (title : String) : Part := (partsOf title).headD .display

def settling (title : String) : Bool := (partsOf title).any Part.settles

protected theorem Sound.announce {families : Font.Families} {v : Value} {l : Layer} (h : l.Sound) {parts : List Part}
    (hparts : ∀ p ∈ parts, p.Accepts v) : ((announce (hear families) v parts).after l).Sound := by
  induction parts generalizing l with
  | nil => exact h
  | cons p parts ih =>
    rw [after_announce_cons, h.after_attempt]
    exact ih ((h.write (hparts p mem_cons_self)).settledIf _) fun q hq => hparts q (mem_cons_of_mem _ hq)

theorem partsOf_cases : ∀ title ∈ numberTitles ++ textTitles, partsOf title = [writer title] ∨
      partsOf title = [writer title, .transform] ∧ (writer title).settles = false := by
  decide

theorem eq_writer_or_transform (htitle : title ∈ numberTitles ++ textTitles) (hp : p ∈ partsOf title) :
    p = writer title ∨ p = .transform := by
  obtain hparts | ⟨hparts, -⟩ := partsOf_cases title htitle
  · rw [hparts] at hp
    exact .inl (mem_singleton.mp hp)
  · rw [hparts] at hp
    simpa using hp

theorem poses_writer : ∀ title ∈ numberTitles ++ textTitles,
    settling title = false → (writer title).poses = false := by
  decide

theorem writer_inj : ∀ title ∈ numberTitles ++ textTitles, ∀ title' ∈ numberTitles ++ textTitles,
    writer title = writer title' → title = title' := by
  decide

section

variable {families : Font.Families} {title title' : String} {v v' : Value} {l : Layer}

theorem Sound.after_tell (h : l.Sound) (htitle : title ∈ numberTitles ++ textTitles) (hv : (writer title).Accepts v) :
    (tell families title v).after l = settledIf (settling title) ((writer title).write families v l) := by
  unfold tell settling
  obtain hparts | ⟨hparts, hwriter⟩ := partsOf_cases title htitle
  · rw [hparts, after_announce_cons, h.after_attempt, any_cons, any_nil, Bool.or_false]
    rfl
  · have hwrite : ((writer title).write families v l).Sound := h.write hv
    rw [hparts, after_announce_cons, h.after_attempt, hwriter, after_announce_cons]
    show (attempt (hear families) v .transform).after ((writer title).write families v l) = _
    rw [hwrite.after_attempt, any_cons, hwriter]
    rfl

protected theorem Sound.tell (h : l.Sound) (htitle : title ∈ numberTitles ++ textTitles) (hv : (writer title).Accepts v) :
    ((tell families title v).after l).Sound := by
  rw [h.after_tell htitle hv]
  exact (h.write hv).settledIf _

theorem Sound.tell_comm (h : l.Sound) (hne : title ≠ title') (htitle : title ∈ numberTitles ++ textTitles)
    (hv : (writer title).Accepts v) (htitle' : title' ∈ numberTitles ++ textTitles)
    (hv' : (writer title').Accepts v') :
    (tell families title' v').after ((tell families title v).after l) =
      (tell families title v).after ((tell families title' v').after l) := by
  have hparts : writer title' ≠ writer title := fun heq => hne (writer_inj _ htitle' _ htitle heq).symm
  rw [(h.tell htitle hv).after_tell htitle' hv', (h.tell htitle' hv').after_tell htitle hv,
    h.after_tell htitle hv, h.after_tell htitle' hv', Part.settledIf_write (poses_writer title' htitle'),
    Part.settledIf_write (poses_writer title htitle), Part.write_comm families _ _ v' v l hparts, Bool.or_comm]

theorem Sound.tell_tell (h : l.Sound) (htitle : title ∈ numberTitles ++ textTitles) (hv : (writer title).Accepts v) :
    (tell families title v).after ((tell families title v).after l) = (tell families title v).after l := by
  rw [(h.tell htitle hv).after_tell htitle hv, h.after_tell htitle hv,
    Part.write_settledIf (Part.write_write families _ v l), settledIf_settledIf id]

theorem Sound.apply_tell (h : l.Sound) (htitle : title ∈ numberTitles ++ textTitles) (hv : (writer title).Accepts v)
    (hp : p ∈ partsOf title) :
    (apply families p v).after ((tell families title v).after l) = (tell families title v).after l := by
  have hwritten : p.write families v ((writer title).write families v l) = (writer title).write families v l := by
    obtain rfl | rfl := eq_writer_or_transform htitle hp
    · exact Part.write_write families _ v l
    · rfl
  have hsettling : p.settles = true → settling title = true := fun hsettles =>
    any_eq_true.mpr ⟨p, hp, hsettles⟩
  rw [(h.tell htitle hv).after_apply, h.after_tell htitle hv, Part.write_settledIf hwritten,
    settledIf_settledIf hsettling]

end

end Layer

/-! ### Values that channels carry -/

def Value.Finite : Value → Prop
  | .int _ => True
  | .float x => (Number.Exact.ofFloat? x).isSome
  | _ => False

/-- The form in which a value is heard; a whole number that is too large for a double is not heard. -/
def Value.heard? : Value → Option Value
  | .int n => (Number.ofInt? n).map .float
  | v => some v

namespace Layer

/-- A value for an attribute: a finite number or a text, as the attribute has it. -/
def Fair (title : String) (v : Value) : Prop :=
  title ∈ numberTitles ∧ v.Finite ∨ title ∈ textTitles ∧ ∃ s, v = .text s

theorem accepts_float {x : Float} (h : (Number.Exact.ofFloat? x).isSome) (p : Part) : p.Accepts (.float x) := by
  have hcircle : (Value.float x).Turns := by
    show (Transform.circle x).isOk = true
    unfold Transform.circle
    dsimp only
    rw [Number.isInf_radians h]
    rfl
  cases p
  case rotate => exact hcircle
  case skewX | skewY => exact ⟨_, rfl⟩
  all_goals exact trivial

theorem writer_ne : ∀ title ∈ textTitles, writer title ∉ [Part.rotate, .skewX, .skewY] := by
  decide

section

variable {title : String} {v w : Value}

theorem Fair.mem (h : Fair title v) : title ∈ numberTitles ++ textTitles := by
  obtain ⟨h, -⟩ | ⟨h, -⟩ := h
  · exact mem_append_left _ h
  · exact mem_append_right _ h

theorem Fair.accepts (h : Fair title v) (hw : v.heard? = some w) : (writer title).Accepts w := by
  obtain ⟨-, hfinite⟩ | ⟨htitle, -⟩ := h
  · cases v with
    | int n =>
      obtain ⟨x, hx, rfl⟩ := Option.map_eq_some_iff.mp hw
      exact accepts_float (Number.isSome_of_ofInt? hx) _
    | float x =>
      cases hw
      exact accepts_float hfinite _
    | _ => cases hfinite
  · have hne := writer_ne title htitle
    cases hp : writer title
    case rotate | skewX | skewY => simp [hp] at hne
    all_goals exact trivial

theorem Fair.accepts_of_mem (h : Fair title v) (hw : v.heard? = some w) (hp : p ∈ partsOf title) : p.Accepts w := by
  obtain rfl | rfl := eq_writer_or_transform h.mem hp
  · exact h.accepts hw
  · exact trivial

end

/-! ### Runs of values -/

/-- What a layer makes of a value on the channel of an attribute. -/
def take (families : Font.Families) (l : Layer) (e : String × Value) : Layer :=
  match e.2.heard? with
  | some v => (tell families e.1 v).after l
  | none => l

section

variable {families : Font.Families} {l : Layer} {e e' : String × Value}

protected theorem Sound.take (h : l.Sound) (he : Fair e.1 e.2) : (take families l e).Sound := by
  unfold take
  split
  case h_1 v hv => exact h.tell he.mem (he.accepts hv)
  case h_2 => exact h

theorem Sound.take_comm (h : l.Sound) (he : Fair e.1 e.2) (he' : Fair e'.1 e'.2) (hne : e.1 ≠ e'.1) :
    take families (take families l e) e' = take families (take families l e') e := by
  unfold take
  cases hv : e.2.heard? <;> cases hv' : e'.2.heard?
  case some.some v v' => exact h.tell_comm hne he.mem (he.accepts hv) he'.mem (he'.accepts hv')
  all_goals rfl

end

def takeAll (families : Font.Families) (l : Layer) (es : List (String × Value)) : Layer :=
  es.foldl (take families) l

section

variable {families : Font.Families} {l : Layer} {es fs : List (String × Value)}

protected theorem Sound.takeAll (h : l.Sound) (hes : ∀ e ∈ es, Fair e.1 e.2) : (takeAll families l es).Sound := by
  induction es generalizing l with
  | nil => exact h
  | cons e es ih =>
    exact ih (h.take (hes e mem_cons_self)) fun e' he' => hes e' (mem_cons_of_mem _ he')

theorem Sound.takeAll_append_cons (h : l.Sound) (he : Fair e.1 e.2) (hes : ∀ e' ∈ es, Fair e'.1 e'.2)
    (hne : ∀ e' ∈ es, e'.1 ≠ e.1) :
    takeAll families l (es ++ e :: fs) = takeAll families l (e :: (es ++ fs)) := by
  induction es generalizing l with
  | nil => rfl
  | cons e' es ih =>
    have he' : Fair e'.1 e'.2 := hes e' mem_cons_self
    show takeAll families (take families l e') (es ++ e :: fs) =
      takeAll families (take families (take families l e) e') (es ++ fs)
    rw [ih (h.take he') (fun a ha => hes a (mem_cons_of_mem _ ha))
      (fun a ha => hne a (mem_cons_of_mem _ ha)), h.take_comm he he' (hne e' mem_cons_self).symm]
    rfl

def valuesOf (title : String) (es : List (String × Value)) : List (String × Value) :=
  es.filter (·.1 = title)

theorem mem_of_valuesOf_eq (hsame : ∀ title, valuesOf title es = valuesOf title fs) (he : e ∈ fs) : e ∈ es := by
  have hmem : e ∈ valuesOf e.1 fs := mem_filter.mpr ⟨he, decide_eq_true rfl⟩
  rw [← hsame e.1] at hmem
  exact (mem_filter.mp hmem).1

theorem Sound.takeAll_congr (h : l.Sound) (hes : ∀ e ∈ es, Fair e.1 e.2)
    (hsame : ∀ title, valuesOf title es = valuesOf title fs) :
    takeAll families l es = takeAll families l fs := by
  induction es generalizing l fs with
  | nil =>
    obtain rfl : fs = [] := eq_nil_iff_forall_not_mem.mpr fun e he =>
      not_mem_nil (mem_of_valuesOf_eq hsame he)
    rfl
  | cons e es ih =>
    have hfirst : valuesOf e.1 (e :: es) = e :: valuesOf e.1 es := by
      simp [valuesOf]
    have hfair : ∀ e' ∈ fs, Fair e'.1 e'.2 := fun e' he' => hes e' (mem_of_valuesOf_eq hsame he')
    -- the first value for this attribute comes somewhere in the other run, after values for others
    have hfs : valuesOf e.1 fs = e :: valuesOf e.1 es := (hsame e.1).symm.trans hfirst
    obtain ⟨before, after, rfl, hbefore, -, hafter⟩ := filter_eq_cons_iff.mp hfs
    have hothers : ∀ e' ∈ before, e'.1 ≠ e.1 := fun e' he' heq => hbefore e' he' (decide_eq_true heq)
    have hrest : ∀ title, valuesOf title es = valuesOf title (before ++ after) := by
      intro title
      by_cases htitle : e.1 = title
      · subst htitle
        have hnone : valuesOf e.1 before = [] := filter_eq_nil_iff.mpr hbefore
        calc valuesOf e.1 es
          _ = valuesOf e.1 after := hafter.symm
          _ = valuesOf e.1 before ++ valuesOf e.1 after := by rw [hnone]; rfl
          _ = valuesOf e.1 (before ++ after) := (filter_append ..).symm
      · have hall := hsame title
        simpa [valuesOf, htitle] using hall
    rw [h.takeAll_append_cons (hes e mem_cons_self) (fun a ha => hfair a (mem_append_left _ ha)) hothers]
    exact ih (h.take (hes e mem_cons_self)) (fun a ha => hes a (mem_cons_of_mem _ ha)) hrest

def lastHeard? (title : String) (es : List (String × Value)) : Option Value :=
  (es.filterMap fun e => if e.1 = title then e.2.heard? else none).getLast?

theorem exists_of_lastHeard? {v : Value} (h : lastHeard? title es = some v) :
    ∃ e ∈ es, e.1 = title ∧ e.2.heard? = some v := by
  obtain ⟨e, he, hv⟩ := mem_filterMap.mp (mem_of_getLast? h)
  split at hv
  case isTrue htitle => exact ⟨e, he, htitle, hv⟩
  case isFalse => cases hv

theorem lastHeard?_append_singleton (title : String) (es : List (String × Value)) (e : String × Value) :
    lastHeard? title (es ++ [e]) = if e.1 = title then e.2.heard?.or (lastHeard? title es) else lastHeard? title es := by
  unfold lastHeard?
  rw [filterMap_append, getLast?_append]
  split
  case isTrue htitle => cases hv : e.2.heard? <;> simp [htitle, hv]
  case isFalse htitle => simp [htitle]

theorem Sound.tell_takeAll (h : l.Sound) (hes : ∀ e ∈ es, Fair e.1 e.2) (htitle : title ∈ numberTitles ++ textTitles)
    {v : Value} (hv : (writer title).Accepts v) (hlast : lastHeard? title es = some v) :
    (tell families title v).after (takeAll families l es) = takeAll families l es := by
  induction es using List.reverseRecOn with
  | nil => cases hlast
  | append_singleton es e ih =>
    have he : Fair e.1 e.2 := hes e (by simp)
    have hfair : ∀ e' ∈ es, Fair e'.1 e'.2 := fun e' he' => hes e' (mem_append_left _ he')
    have hsound : (takeAll families l es).Sound := h.takeAll hfair
    have htake : takeAll families l (es ++ [e]) = take families (takeAll families l es) e := by
      simp [takeAll]
    rw [lastHeard?_append_singleton] at hlast
    rw [htake]
    unfold take
    cases hw : e.2.heard? with
    | none =>
      have hbefore : lastHeard? title es = some v := by simpa [hw] using hlast
      exact ih hfair hbefore
    | some w =>
      by_cases htitle' : e.1 = title
      · obtain rfl : w = v := by simpa [hw, htitle'] using hlast
        rw [htitle']
        exact hsound.tell_tell htitle hv
      · rw [if_neg htitle'] at hlast
        show (tell families title v).after ((tell families e.1 w).after _) = _
        rw [hsound.tell_comm htitle' he.mem (he.accepts hw) htitle hv, ih hfair hlast]

end

end Layer

end WatchFace
