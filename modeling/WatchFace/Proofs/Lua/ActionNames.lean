import Mathlib.Data.List.DropRight
import WatchFace.Proofs.Lua.Hidden

/-!
# Names of actions

A name that ends with a colon stands for all texts that start with it. The check compares with the part before the
colons instead, and so accepts more than the watch provides.
-/

namespace WatchFace.Lua

open Lint List

/-- An action is provided if it is listed, or starts with a listed name that ends with a colon. -/
def Vocabulary.Provides (v : Vocabulary) (action : String) : Prop :=
  action ∈ v.actions ∨ ∃ a ∈ v.actions, [':'] <:+ a.toList ∧ a.toList <+: action.toList

/-- An action is tolerated if it is listed, or starts like a listed name up to some of the colons at its end. -/
def Vocabulary.Tolerates (v : Vocabulary) (action : String) : Prop :=
  action ∈ v.actions ∨
    ∃ a ∈ v.actions, ∃ stem n, a.toList = stem ++ List.replicate (n + 1) ':' ∧ stem <+: action.toList

instance (v : Vocabulary) (action : String) : Decidable (v.Provides action) := inferInstanceAs (Decidable (_ ∨ _))

theorem Vocabulary.Provides.tolerates {v : Vocabulary} {action : String} (h : v.Provides action) :
    v.Tolerates action := by
  refine h.imp_right ?_
  rintro ⟨a, ha, ⟨stem, hstem⟩, hstarts⟩
  exact ⟨a, ha, stem, 0, hstem.symm, (hstem ▸ prefix_append stem [':']).trans hstarts⟩

/-! ### Accepted names -/

theorem rdropWhile_append_replicate (stem : List Char) (n : Nat) :
    (stem ++ List.replicate n ':').rdropWhile (· == ':') = stem.rdropWhile (· == ':') := by
  induction n with
  | zero => rw [replicate_zero, append_nil]
  | succ n ih => rw [replicate_succ', ← append_assoc, rdropWhile_concat_pos _ _ _ rfl, ih]

theorem starts_iff {a action : List Char} : a.getLast? = some ':' ∧ a.rdropWhile (· == ':') <+: action ↔
    ∃ stem n, a = stem ++ List.replicate (n + 1) ':' ∧ stem <+: action := by
  constructor
  · rintro ⟨hlast, hstarts⟩
    obtain ⟨a, rfl⟩ := getLast?_eq_some_iff.mp hlast
    rw [rdropWhile_concat_pos _ _ _ rfl] at hstarts
    -- what is dropped, and the last colon with it, is the colons at the end
    have hcolons : a.rtakeWhile (· == ':') = List.replicate (a.rtakeWhile (· == ':')).length ':' :=
      eq_replicate_of_mem fun c hc => beq_iff_eq.mp (mem_rtakeWhile_imp (p := (· == ':')) hc)
    refine ⟨_, (a.rtakeWhile (· == ':')).length, ?_, hstarts⟩
    rw [replicate_succ', ← append_assoc, ← hcolons, rdropWhile_append_rtakeWhile]
  · rintro ⟨stem, n, rfl, hstarts⟩
    rw [rdropWhile_append_replicate]
    refine ⟨?_, (List.rdropWhile_prefix _ _).trans hstarts⟩
    rw [replicate_succ', ← append_assoc, getLast?_concat]

theorem knownAction_iff (v : Vocabulary) (action : String) : knownAction v action = true ↔ v.Tolerates action := by
  simp only [knownAction, Bool.or_eq_true, contains_iff_mem, any_eq_true, Bool.and_eq_true, beq_iff_eq,
    isPrefixOf_iff_prefix]
  exact or_congr_right (exists_congr fun a => and_congr_right fun _ => starts_iff)

instance (v : Vocabulary) (action : String) : Decidable (v.Tolerates action) :=
  decidable_of_iff _ (knownAction_iff v action)

/-! ### Warnings -/

def namedAction? : List Expr → Option String
  | .string action _ :: _ => some action
  | _ => none

def Site.action? : Site → Option (Nat × String)
  | .call callee args =>
    if callee.calledName? = some "wm_action" then (namedAction? args).map (callLine callee, ·) else none
  | .definition _ _ => none

def actionCalls (script : List Stat) : List (Nat × String) := (blockSites script).filterMap Site.action?

def actionWarning (call : Nat × String) : Diagnostic :=
  warning call.1 .invalidAction s!"Invalid action name: '{call.2}'"

def invalidActions (ds : List Diagnostic) : List Diagnostic := ds.filter (·.rule = .invalidAction)

theorem invalidActions_scheduleFindings (v : Vocabulary) (line : Nat) (args : List Expr) :
    invalidActions (scheduleFindings v line args) = [] := by
  refine filter_eq_nil_iff.mpr fun d hd => ?_
  rw [decide_eq_true_eq]
  unfold scheduleFindings at hd
  split at hd
  · cases hd
  · obtain ⟨easing, -, heasing⟩ := mem_filterMap.mp hd
    split at heasing
    · cases heasing
    · exact Option.some.inj heasing ▸ nofun
  · exact mem_singleton.mp hd ▸ nofun

section

variable {v : Vocabulary} (hv : v.actions ≠ [])

include hv

theorem invalidActions_actionFindings (line : Nat) (args : List Expr) : invalidActions (actionFindings v line args) =
    (((namedAction? args).map (line, ·)).toList.filter (¬ v.Tolerates ·.2)).map actionWarning := by
  fun_cases namedAction? args with
  | case1 action =>
    have hempty : v.actions.isEmpty = false := by simpa using hv
    rw [actionFindings, hempty, Bool.false_or]
    by_cases hknown : v.Tolerates action
    · rw [if_pos ((knownAction_iff v action).mpr hknown)]
      simp [invalidActions, hknown]
    · rw [if_neg (mt (knownAction_iff v action).mp hknown)]
      simp [invalidActions, hknown, actionWarning, warning]
  | case2 args hother =>
    unfold actionFindings
    split
    · exact absurd rfl (hother _ _ _)
    · rfl

theorem invalidActions_siteFindings (s : Site) :
    invalidActions (siteFindings v s) = (s.action?.toList.filter (¬ v.Tolerates ·.2)).map actionWarning := by
  cases s with
  | definition name line =>
    simp only [siteFindings, definitionFindings]
    split <;> rfl
  | call callee args =>
    rw [siteFindings, callFindings_eq, Site.action?]
    cases callee.calledName? with
    | none => rfl
    | some name =>
      have happend (ds es : List Diagnostic) : invalidActions (ds ++ es) = invalidActions ds ++ invalidActions es :=
        filter_append _ _
      have hunknown : invalidActions (if v.functions.contains name then [] else
          [warning (callLine callee) .unknownFunction s!"Unknown WatchMaker function: '{name}'"]) = [] := by
        split <;> rfl
      have hschedule : invalidActions
          (if name = "wm_schedule" then scheduleFindings v (callLine callee) args else []) = [] := by
        split
        · exact invalidActions_scheduleFindings v _ args
        · rfl
      rw [Option.map_some, Option.getD_some, namedFindings]
      split
      · rw [happend, happend, hunknown, hschedule]
        simp only [nil_append, Option.some.injEq]
        split
        · exact invalidActions_actionFindings hv _ args
        · rfl
      · rename_i hprefix
        rw [if_neg fun haction => hprefix (by rw [Option.some.inj haction]; decide)]
        rfl

end

theorem invalidActions_check {v : Vocabulary} (hv : v.actions ≠ []) {code : String} {script : List Stat}
    (hparse : parse (Tag.hide code.toList) = .ok script) :
    invalidActions (({ vocabulary := v } : Checker).check code).1 =
      ((actionCalls script).filter (¬ v.Tolerates ·.2)).map fun call => (actionWarning call).reveal := by
  have hcheck : (({ vocabulary := v } : Checker).check code).1 = (lint v script).map Diagnostic.reveal := by
    rw [check_eq_examine]
    show (examineHidden v .standard (Tag.hide code.toList)).findings.map Diagnostic.reveal = _
    simp only [examineHidden, Engine.standard, hparse]
  have hlint : invalidActions (lint v script) = ((actionCalls script).filter (¬ v.Tolerates ·.2)).map actionWarning := by
    rw [actionCalls, filterMap_eq_flatMap_toList, filter_flatMap, map_flatMap, lint, invalidActions, filter_flatMap]
    exact congrArg (List.flatMap · _) (funext (invalidActions_siteFindings hv))
  rw [hcheck, invalidActions, filter_map]
  exact (congrArg _ hlint).trans map_map

/-- **The warnings about actions are those about actions that are not tolerated.** They are those about actions that are
    not provided exactly if the script names no action that is tolerated only. -/
theorem invalidActions_eq_iff {v : Vocabulary} (hv : v.actions ≠ []) {code : String} {script : List Stat}
    (hparse : parse (Tag.hide code.toList) = .ok script) :
    let found := invalidActions (({ vocabulary := v } : Checker).check code).1
    let shown := fun call => (actionWarning call).reveal
    found = ((actionCalls script).filter (¬ v.Tolerates ·.2)).map shown ∧
      (found = ((actionCalls script).filter (¬ v.Provides ·.2)).map shown ↔
        ∀ call ∈ actionCalls script, v.Tolerates call.2 → v.Provides call.2) := by
  have hfound := invalidActions_check hv hparse
  refine ⟨hfound, ?_⟩
  rw [hfound]
  constructor
  · intro heq call hcall htolerated
    -- the calls warned about are among those of actions that are not provided, so as many are the same
    have hsublist : List.Sublist ((actionCalls script).filter (¬ v.Tolerates ·.2))
        ((actionCalls script).filter (¬ v.Provides ·.2)) :=
      List.monotone_filter_right _ fun call h =>
        decide_eq_true (mt Vocabulary.Provides.tolerates (of_decide_eq_true h))
    have hlength := congrArg List.length heq
    rw [List.length_map, List.length_map] at hlength
    by_contra hprovided
    have hmem : call ∈ (actionCalls script).filter (¬ v.Provides ·.2) :=
      List.mem_filter.mpr ⟨hcall, decide_eq_true hprovided⟩
    rw [← hsublist.eq_of_length hlength] at hmem
    exact of_decide_eq_true (List.mem_filter.mp hmem).2 htolerated
  · intro h
    refine congrArg (List.map _) (List.filter_congr fun call hcall => decide_eq_decide.mpr (not_congr ?_))
    exact ⟨h call hcall, Vocabulary.Provides.tolerates⟩

def taskVocabulary : Vocabulary := { functions := ["wm_action"], actions := ["m_task:"] }

theorem invalidActions_eq_iff_task : ∃ script, parse (Tag.hide "wm_action('m_task:x') wm_action('b')".toList) = .ok script ∧
    invalidActions (({ vocabulary := taskVocabulary } : Checker).check "wm_action('m_task:x') wm_action('b')").1 =
      ((actionCalls script).filter (¬ taskVocabulary.Provides ·.2)).map fun call => (actionWarning call).reveal := by
  have hcalls : (parse (Tag.hide "wm_action('m_task:x') wm_action('b')".toList)).toOption.map actionCalls =
      some [(0, "m_task:x"), (0, "b")] := by decide +kernel
  cases hparse : parse (Tag.hide "wm_action('m_task:x') wm_action('b')".toList) with
  | error e =>
    rw [hparse] at hcalls
    exact absurd hcalls nofun
  | ok script =>
    rw [hparse] at hcalls
    refine ⟨script, rfl, (invalidActions_eq_iff (by decide) hparse).2.mpr ?_⟩
    rw [Option.some.inj hcalls]
    decide +kernel

/-- A text that only starts like the name of an action is not provided, and not warned about. -/
theorem invalidActions_tasks : ¬ taskVocabulary.Provides "m_tasks" ∧
    (parse (Tag.hide "wm_action('m_tasks')".toList)).toOption.map actionCalls = some [(0, "m_tasks")] ∧
      invalidActions (({ vocabulary := taskVocabulary } : Checker).check "wm_action('m_tasks')").1 = [] := by
  decide +kernel

end WatchFace.Lua
