import WatchFace.Lua.Checker
import WatchFace.Proofs.Lua.Quoting
import WatchFace.Proofs.Lua.Trees

/-!
# Warnings about a script with hidden tags

Where the first argument of a call is a tag, or has a tag as its easing, the placeholder of the tag is read as a name of
an action or an easing.
-/

namespace WatchFace.Lua

open Lint List

variable {v : Vocabulary} {before name : String} {d d' : Diagnostic} {f f' : Field} {args args' : List Expr}
  {s s' : Site} {xs ys : List Diagnostic}

/-! ### Words with hidden tags -/

def Vocabulary.Plain (v : Vocabulary) : Prop :=
  ∀ w ∈ v.actions ++ v.easings, '\x7b' ∉ w.toList ∧ '"' ∉ w.toList

instance (v : Vocabulary) : Decidable v.Plain :=
  inferInstanceAs (Decidable (∀ w ∈ v.actions ++ v.easings, _))

theorem Tag.hide_eq_self {cs : List Char} (h : '"' ∉ Tag.hide cs) : Tag.hide cs = cs := by
  induction cs using Tag.hide_induction with
  | nil => rfl
  | tag name rest hname =>
    rw [Tag.hide_tag hname] at h
    exact absurd (by simp [Tag.placeholder]) h
  | cons c cs htag ih =>
    rw [Tag.hide_cons htag] at h ⊢
    rw [ih fun hmem => h (.tail _ hmem)]

section

variable {words : List String} (h : ∀ w ∈ words, '\x7b' ∉ w.toList ∧ '"' ∉ w.toList)

include h

theorem contains_hideString (s : String) : words.contains (hideString s) = words.contains s := by
  have hiff : hideString s ∈ words ↔ s ∈ words := by
    constructor
    · intro hmem
      have hquote := (h _ hmem).2
      rw [hideString, String.toList_ofList] at hquote
      rwa [hideString, Tag.hide_eq_self hquote, String.ofList_toList] at hmem
    · intro hmem
      rwa [hideString, Tag.hide_of_not_mem (h s hmem).1, String.ofList_toList]
  rw [Bool.eq_iff_iff, contains_iff_mem, contains_iff_mem, hiff]

end

theorem knownAction_hideString (hv : v.Plain) (action : String) :
    knownAction v (hideString action) = knownAction v action := by
  have hactions : ∀ w ∈ v.actions, '\x7b' ∉ w.toList ∧ '"' ∉ w.toList :=
    fun w hw => hv w (mem_append_left _ hw)
  have hpre : ∀ a ∈ v.actions,
      (withoutColons a).isPrefixOf (hideString action).toList = (withoutColons a).isPrefixOf action.toList := by
    intro a ha
    have hmem : ∀ {c : Char}, c ∈ withoutColons a → c ∈ a.toList := fun hc =>
      mem_reverse.mp ((dropWhile_suffix _).subset (mem_reverse.mp hc))
    rw [hideString, String.toList_ofList]
    refine isPrefixOf_hide (any_eq_false.mpr fun c hc hmark => ?_) _
    simp only [isTagMark, Bool.or_eq_true, beq_iff_eq] at hmark
    obtain rfl | rfl := hmark
    · exact (hactions a ha).1 (hmem hc)
    · exact (hactions a ha).2 (hmem hc)
  rw [knownAction, knownAction, contains_hideString hactions]
  congr 1
  rw [Bool.eq_iff_iff, any_eq_true, any_eq_true]
  constructor
  · rintro ⟨a, ha, hknown⟩
    exact ⟨a, ha, by rwa [hpre a ha] at hknown⟩
  · rintro ⟨a, ha, hknown⟩
    exact ⟨a, ha, by rwa [hpre a ha]⟩

theorem hideString_quoted (h : '\x7b' ∉ before.toList) (s : String) :
    hideString (before ++ s ++ "'") = before ++ hideString s ++ "'" := by
  have hquote : Tag.Parts "'".toList := Tag.parts_cons (by decide) (by decide) []
  have hself : Tag.hide "'".toList = "'".toList := Tag.hide_of_not_mem (by decide)
  apply String.toList_injective
  simp only [hideString, String.toList_ofList, String.toList_append]
  rw [append_assoc, Tag.hide_append_of_not_mem h, Tag.hide_append _ hquote, hself, append_assoc]

/-! ### Findings with hidden tags -/

/-- A finding about a script, and the finding about the script with its tags hidden. -/
inductive Diagnostic.Hides : Diagnostic → Diagnostic → Prop
  | same (d : Diagnostic) : Diagnostic.Hides d d
  | message (d : Diagnostic) : Diagnostic.Hides d { d with message := hideString d.message }

theorem hides_warning (line : Nat) (rule : Rule) (h : '\x7b' ∉ before.toList) (s : String) :
    (warning line rule (before ++ s ++ "'")).Hides (warning line rule (before ++ hideString s ++ "'")) := by
  rw [← hideString_quoted h]
  exact .message (warning line rule (before ++ s ++ "'"))

theorem Diagnostic.Hides.reveal (h : d.Hides d') (hd : d.reveal = d) : d'.reveal = d := by
  cases h with
  | same => exact hd
  | message =>
    have hmessage : Tag.reveal d.message.toList = d.message.toList := by
      have := congrArg (fun d => d.message.toList) hd
      rwa [Diagnostic.reveal, String.toList_ofList] at this
    rw [Diagnostic.reveal, hideString, String.toList_ofList, Tag.reveal_hide hmessage, String.ofList_toList]

/-- The second findings are the first ones with tags hidden, or there are more of them. -/
def Exceeds (more : Bool) (xs ys : List Diagnostic) : Prop :=
  match more with
  | true => xs.length < ys.length
  | false => Forall₂ Diagnostic.Hides xs ys

namespace Exceeds

variable {more more' : Bool} {xs xs' ys ys' : List Diagnostic}

theorem length_le (h : Exceeds more xs ys) : xs.length ≤ ys.length := by
  cases more with
  | true => exact Nat.le_of_lt h
  | false => exact Nat.le_of_eq (Forall₂.length_eq h)

theorem append (h : Exceeds more xs ys) (h' : Exceeds more' xs' ys') :
    Exceeds (more || more') (xs ++ xs') (ys ++ ys') := by
  have hle := h.length_le
  have hle' := h'.length_le
  cases more with
  | true =>
    show (xs ++ xs').length < (ys ++ ys').length
    have hlt : xs.length < ys.length := h
    rw [length_append, length_append]
    omega
  | false =>
    cases more' with
    | true =>
      show (xs ++ xs').length < (ys ++ ys').length
      have hlt : xs'.length < ys'.length := h'
      rw [length_append, length_append]
      omega
    | false => exact rel_append h h'

theorem refl (xs : List Diagnostic) : Exceeds false xs xs :=
  forall₂_same.mpr fun d _ => .same d

end Exceeds

/-! ### Arguments -/

theorem Expr.Like.calledName? {L : Likeness} {e e' : Expr} (h : e.Like L e') : e'.calledName? = e.calledName? := by
  cases h with
  | index _ hk => cases hk <;> rfl
  | _ => rfl

theorem easing?_hides (h : f.Hides f') :
    easing? f = none ∨ ∃ s, easing? f = some s ∧ easing? f' = some (hideString s) := by
  cases h with
  | item => exact .inl rfl
  | keyed hk hv =>
    cases hk with
    | name id line =>
      cases hv with
      | string value line =>
        by_cases hid : id = "easing"
        · subst hid
          exact .inr ⟨value, rfl, rfl⟩
        · exact .inl (by simp [easing?, hid])
      | _ => exact .inl (by simp [easing?])
    | _ => exact .inl rfl

def easingFinding? (v : Vocabulary) (line : Nat) (easing : String) : Option Diagnostic :=
  if v.easings.isEmpty || v.easings.contains easing then none
  else some (warning line .invalidEasing s!"Invalid easing function: '{easing}'")

/-- The tag that is the easing of a field would be an unknown easing. -/
def easingMisled (v : Vocabulary) (f f' : Field) : Bool :=
  (easing? f).isNone && ((easing? f').bind (easingFinding? v 0)).isSome

/-- A tag is read as the argument of a scheduled animation, or as its easing. -/
def scheduleMisled (v : Vocabulary) : List Expr → List Expr → Bool
  | .table _ :: _, .string _ _ :: _ => true
  | .table fields :: _, .table fields' :: _ => (fields.zip fields').any fun p => easingMisled v p.1 p.2
  | _, _ => false

def actionMisled (v : Vocabulary) : List Expr → List Expr → Bool
  | .table _ :: _, .string action _ :: _ => !(v.actions.isEmpty || knownAction v action)
  | _, _ => false

section

variable {v : Vocabulary} (hv : v.Plain) (line : Nat)

theorem isSome_easingFinding? (line' : Nat) (easing : String) :
    (easingFinding? v line easing).isSome = (easingFinding? v line' easing).isSome := by
  unfold easingFinding?
  split <;> rfl

include hv

theorem exceeds_easing (h : f.Hides f') :
    Exceeds (easingMisled v f f') ((easing? f).bind (easingFinding? v line)).toList
      ((easing? f').bind (easingFinding? v line)).toList := by
  obtain hnone | ⟨s, hs, hs'⟩ := easing?_hides h
  · rw [easingMisled, hnone]
    cases hf' : easing? f' with
    | none => exact .nil
    | some w =>
      simp only [Option.bind_some, isSome_easingFinding? 0 line, Option.isNone_none, Bool.true_and, Option.bind_none]
      cases easingFinding? v line w with
      | none => exact .nil
      | some d => exact Nat.one_pos
  · rw [easingMisled, hs, hs']
    show Exceeds false (easingFinding? v line s).toList (easingFinding? v line (hideString s)).toList
    unfold easingFinding?
    rw [contains_hideString fun w hw => hv w (mem_append_right _ hw)]
    split
    case isTrue => exact .nil
    case isFalse => exact .cons (hides_warning line .invalidEasing (by decide) s) .nil

theorem exceeds_scheduleFindings (h : Forall₂ Expr.Hides args args') :
    Exceeds (scheduleMisled v args args') (scheduleFindings v line args) (scheduleFindings v line args') := by
  cases h with
  | nil => exact .nil
  | cons he _ =>
    cases he with
    | tag => exact Nat.one_pos
    | table hfields =>
      rw [scheduleFindings, scheduleFindings, scheduleMisled]
      show Exceeds _ ((_ : List String).filterMap (easingFinding? v line))
        ((_ : List String).filterMap (easingFinding? v line))
      induction hfields with
      | nil => exact .nil
      | @cons f f' fs fs' hf _ ih =>
        have hcons : ∀ (f : Field) (fs : List Field),
            ((f :: fs).filterMap easing?).filterMap (easingFinding? v line) =
              ((easing? f).bind (easingFinding? v line)).toList ++
                (fs.filterMap easing?).filterMap (easingFinding? v line) := by
          intro f fs
          rw [filterMap_filterMap, filterMap_filterMap, filterMap_cons]
          cases (easing? f).bind (easingFinding? v line) <;> rfl
        rw [hcons, hcons, zip_cons_cons, any_cons]
        exact (exceeds_easing hv line hf).append ih
    | _ => exact Exceeds.refl _

theorem exceeds_actionFindings (h : Forall₂ Expr.Hides args args') :
    Exceeds (actionMisled v args args') (actionFindings v line args) (actionFindings v line args') := by
  cases h with
  | nil => exact .nil
  | cons he _ =>
    cases he with
    | string action =>
      rw [actionFindings, actionFindings, knownAction_hideString hv]
      split
      case isTrue => exact .nil
      case isFalse => exact .cons (hides_warning line .invalidAction (by decide) action) .nil
    | tag =>
      rw [actionFindings, actionMisled]
      cases v.actions.isEmpty || knownAction v _ with
      | true => exact .nil
      | false => exact Nat.one_pos
    | _ => exact .nil

end

/-! ### Calls -/

def namedFindings (v : Vocabulary) (name : String) (line : Nat) (args : List Expr) : List Diagnostic :=
  if "wm_".toList.isPrefixOf name.toList then
    (if v.functions.contains name then []
      else [warning line .unknownFunction s!"Unknown WatchMaker function: '{name}'"]) ++
    (if name = "wm_schedule" then scheduleFindings v line args else []) ++
    (if name = "wm_action" then actionFindings v line args else [])
  else []

theorem callFindings_eq (v : Vocabulary) (callee : Expr) (args : List Expr) : callFindings v callee args =
    (callee.calledName?.map fun name => namedFindings v name (callLine callee) args).getD [] := by
  unfold callFindings
  cases callee.calledName? <;> rfl

theorem namedFindings_eq_map (v : Vocabulary) (name : String) (line : Nat) (args : List Expr) :
    namedFindings v name line args = (namedFindings v name 0 args).map fun d => { d with line := line } := by
  have hschedule : scheduleFindings v line args =
      (scheduleFindings v 0 args).map fun d => { d with line := line } := by
    unfold scheduleFindings
    split
    case h_1 => rfl
    case h_2 =>
      rw [map_filterMap]
      refine filterMap_congr fun easing _ => ?_
      split <;> rfl
    case h_3 => rfl
  have haction : actionFindings v line args = (actionFindings v 0 args).map fun d => { d with line := line } := by
    unfold actionFindings
    split
    case h_1 => split <;> rfl
    case h_2 => rfl
  unfold namedFindings
  rw [hschedule, haction]
  split
  case isTrue =>
    rw [map_append, map_append]
    congr 1
    · congr 1
      · split <;> rfl
      · split <;> rfl
    · split <;> rfl
  case isFalse => rfl

theorem length_namedFindings {line : Nat} :
    (namedFindings v name line args).length = (namedFindings v name 0 args).length := by
  rw [namedFindings_eq_map, length_map]

theorem line_of_mem_namedFindings {line : Nat} (hd : d ∈ namedFindings v name line args) : d.line = line := by
  rw [namedFindings_eq_map] at hd
  obtain ⟨e, -, rfl⟩ := mem_map.mp hd
  rfl

def argumentsMisled (v : Vocabulary) (name : String) (args args' : List Expr) : Bool :=
  (name == "wm_schedule" && scheduleMisled v args args') || (name == "wm_action" && actionMisled v args args')

/-- **A placeholder misleads the check of a call**: it adds a finding, or the call starts with it and so moves to
    another line. -/
def Site.misled (v : Vocabulary) : Site → Site → Bool
  | .call c args, .call c' args' =>
    c.calledName?.any fun name => argumentsMisled v name args args' ||
      (callLine c' != callLine c && !(callFindings v c args).isEmpty)
  | _, _ => false

section

variable {v : Vocabulary} (hv : v.Plain)

include hv

theorem exceeds_namedFindings (name : String) (line : Nat) (h : Forall₂ Expr.Hides args args') :
    Exceeds (argumentsMisled v name args args') (namedFindings v name line args)
      (namedFindings v name line args') := by
  have hif : ∀ (word : String) (b : Bool) (xs ys : List Diagnostic), Exceeds b xs ys →
      Exceeds (name == word && b) (if name = word then xs else []) (if name = word then ys else []) := by
    intro word b xs ys hxy
    by_cases hword : name = word
    · simpa [hword] using hxy
    · rw [beq_eq_false_iff_ne.mpr hword, if_neg hword, if_neg hword]
      exact .nil
  unfold namedFindings argumentsMisled
  split
  case isTrue =>
    have hschedule := hif "wm_schedule" _ _ _ (exceeds_scheduleFindings hv line h)
    have haction := hif "wm_action" _ _ _ (exceeds_actionFindings hv line h)
    exact ((Exceeds.refl _).append hschedule).append haction
  case isFalse hprefix =>
    -- the two names that ask for more start as all others do
    have hne : name ≠ "wm_schedule" ∧ name ≠ "wm_action" := by
      constructor <;> rintro rfl <;> exact hprefix (by decide)
    rw [beq_eq_false_iff_ne.mpr hne.1, beq_eq_false_iff_ne.mpr hne.2]
    exact .nil

theorem length_siteFindings_le (h : s.Hides s') : (siteFindings v s).length ≤ (siteFindings v s').length := by
  cases h with
  | definition => exact Nat.le_refl _
  | @call c c' args args' hc hargs =>
    show (callFindings v c args).length ≤ (callFindings v c' args').length
    rw [callFindings_eq, callFindings_eq, hc.calledName?]
    cases c.calledName? with
    | none => exact Nat.le_refl _
    | some name =>
      have hle := (exceeds_namedFindings hv name 0 hargs).length_le
      calc (namedFindings v name (callLine c) args).length
          = (namedFindings v name 0 args).length := length_namedFindings
        _ ≤ (namedFindings v name 0 args').length := hle
        _ = (namedFindings v name (callLine c') args').length := length_namedFindings.symm

omit hv in
theorem reveal_eq_of_hides (h : Forall₂ Diagnostic.Hides xs ys) (hxs : ∀ d ∈ xs, d.reveal = d) :
    ys.map Diagnostic.reveal = xs := by
  induction h with
  | nil => rfl
  | cons hd _ ih =>
    rw [map_cons, hd.reveal (hxs _ mem_cons_self), ih fun d hd => hxs d (.tail _ hd)]

omit hv in
theorem map_reveal_eq_self (h : ∀ d ∈ xs, d.reveal = d) : xs.map Diagnostic.reveal = xs :=
  (map_congr_left h).trans (map_id _)

theorem reveal_namedFindings_iff (name : String) (line line' : Nat) (h : Forall₂ Expr.Hides args args')
    (hs : ∀ d ∈ namedFindings v name line args, d.reveal = d) :
    (namedFindings v name line' args').map Diagnostic.reveal = namedFindings v name line args ↔
      argumentsMisled v name args args' = false ∧ (line' = line ∨ namedFindings v name line args = []) := by
  have hexceeds := exceeds_namedFindings hv name line h
  have hlength : (namedFindings v name line' args').length = (namedFindings v name line args').length :=
    length_namedFindings.trans length_namedFindings.symm
  constructor
  · intro heq
    have hlen := congrArg List.length heq
    rw [length_map, hlength] at hlen
    refine ⟨?_, ?_⟩
    · cases hmisled : argumentsMisled v name args args' with
      | false => rfl
      | true =>
        rw [hmisled] at hexceeds
        exact absurd hlen (Nat.ne_of_gt hexceeds)
    · -- a finding is on its call's line before and after
      cases hfound : namedFindings v name line args with
      | nil => exact .inr rfl
      | cons d ds =>
        have hd : d ∈ namedFindings v name line args := hfound ▸ mem_cons_self
        obtain ⟨e, he, hed⟩ := mem_map.mp (heq ▸ hd)
        have hline : e.reveal.line = d.line := congrArg Diagnostic.line hed
        exact .inl ((line_of_mem_namedFindings he).symm.trans (hline.trans (line_of_mem_namedFindings hd)))
  · rintro ⟨hmisled, hline⟩
    rw [hmisled] at hexceeds
    rcases hline with rfl | hnil
    · exact reveal_eq_of_hides hexceeds hs
    · have hlen : (namedFindings v name line' args').length = 0 := by
        rw [hlength, ← hexceeds.length_eq, hnil, length_nil]
      rw [hnil, eq_nil_of_length_eq_zero hlen, map_nil]

/-- **The findings about a call are the same with tags hidden exactly if no placeholder misleads the check.** -/
theorem reveal_siteFindings_iff (h : s.Hides s') (hs : ∀ d ∈ siteFindings v s, d.reveal = d) :
    (siteFindings v s').map Diagnostic.reveal = siteFindings v s ↔ s.misled v s' = false := by
  cases h with
  | definition name line => exact ⟨fun _ => rfl, fun _ => map_reveal_eq_self hs⟩
  | @call c c' args args' hc hargs =>
    have hcall : ∀ d ∈ callFindings v c args, d.reveal = d := hs
    show (callFindings v c' args').map Diagnostic.reveal = callFindings v c args ↔ _
    simp only [Site.misled]
    rw [callFindings_eq] at hcall ⊢
    rw [callFindings_eq, hc.calledName?]
    cases hname : c.calledName? with
    | none => exact ⟨fun _ => rfl, fun _ => rfl⟩
    | some name =>
      rw [hname] at hcall
      have hiff := reveal_namedFindings_iff hv name (callLine c) (callLine c') hargs hcall
      simpa [or_iff_not_imp_left] using hiff

end

end WatchFace.Lua
