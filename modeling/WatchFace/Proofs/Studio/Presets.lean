import WatchFace.Proofs.Studio.Names
import WatchFace.Proofs.Studio.Summons

/-!
# Forms under names

A form is taken away by striking its places from the trail, which fails where the form was left for another one.
-/

namespace WatchFace.Studio

open EStateM Catalog
open List hiding lookup

variable {s t : Studio} {name : String} {names : List String} {n : Nat}

/-! ### Dropping names -/

def IsPreset (name : String) : Prop := ∃ c, lookup name = .ok (.component c) ∧
  ∀ a ∈ c.attributes, ((schemaOf c.layer).kindOf a.title).isNested = false

theorem plain_components : ∀ e ∈ components,
    (∀ a ∈ e.2.attributes, ((schemaOf e.2.layer).kindOf a.title).isNested = false) →
      ∀ a ∈ e.2.attributes, Plain [] a := by
  decide +kernel

theorem run_dropName_of_taken (hname : IsPreset name) (h : s.panel.pages.find? (.text name) ≠ none) :
    (dropName (.text name)).run s = .error .unset s := by
  obtain ⟨c, hlookup, -⟩ := hname
  obtain ⟨n, hn⟩ := Option.ne_none_iff_exists'.mp h
  have hfound : (formOf? (.text name)).run s = .ok (some n) s := by
    rw [← hn]
    rfl
  have hdemand : (demandFree (.text name)).run s = .error .unset s := run_bind_ok hfound
  have hentry : (namedEntry (.text name)).run s = .ok (.component c) s := by
    rw [namedEntry, hlookup]
    rfl
  unfold dropName addForm
  rw [run_bind_ok hentry, run_bind_error]
  exact run_bind_error hdemand

def Shows (s : Studio) (name : String) : Prop :=
  ∃ n, s.panel.pages.find? (.text name) = some n ∧ s.panel.pages.shown? = some n

/-- **A name that has no form gets one, which is shown.** The forms that were taken back before are given up. -/
theorem exists_run_dropName (hname : IsPreset name) (h : s.panel.pages.find? (.text name) = none) :
    ∃ t, (dropName (.text name)).run s = .ok () t ∧ t.Tranquil ∧ t.forms.length = s.forms.length + 1 ∧
      t.panel.pages.registry = s.cleared.pages.registry ++ [(.text name, s.forms.length)] ∧ t.Shows name := by
  obtain ⟨c, hlookup, hsingle⟩ := hname
  have hfound : (formOf? (.text name)).run s = .ok none s := by
    rw [← h]
    rfl
  have hdemand : (demandFree (.text name)).run s = .ok () s := run_bind_ok hfound
  have hentry : (namedEntry (.text name)).run s = .ok (.component c) s := by
    rw [namedEntry, hlookup]
    rfl
  obtain ⟨u, hopen, hu⟩ := exists_run_openForm h c.layer true
  have hfilled : Filled s.forms.length u.channels.length [] u := by
    refine ⟨{ layer := c.layer }, ?_, fun _ => Iff.rfl, forall_mem_nil _⟩
    rw [hu.forms]
    exact getElem?_concat_length
  have hadd := answers_addPlain (plain_components (name, c) (mem_components_of_lookup hlookup) hsingle)
    (Adds.refl hu.tranquil) hfilled c.layer
  rw [all_eq_true.mpr fun a ha => by simp [hsingle a ha]] at hadd
  obtain ⟨table, t, hrun, hlays, -, hpanel, hforms⟩ := hadd
  have hpages : u.panel.pages = (s.cleared.pages.add s.forms.length (.text name) true).1 := by
    obtain ⟨-, rfl⟩ := Result.ok.inj (hopen.symm.trans (run_openForm s c.layer (.text name) true))
    exact (pages_placed ..).2
  have hregistry : t.panel.pages.registry = s.cleared.pages.registry ++ [(.text name, s.forms.length)] := by
    rw [hpanel, hpages, Pages.add_eq_of_free (find?_cleared h)]
  have hform : (addForm (.component c) (some (.text name)) true true).run s = .ok (.text name, c.layer, table) t := by
    rw [run_addForm hdemand hopen]
    exact run_bind_ok hrun
  refine ⟨t, ?_, hlays.adds.tranquil, ?_, hregistry, s.forms.length, ?_, ?_⟩
  · unfold dropName
    rw [run_bind_ok hentry, run_bind_ok hform]
    rfl
  · rw [hforms, hu.forms, length_append]
    rfl
  · have hself : (Value.text name == Value.text name) = true := Value.text_beq_iff.mpr rfl
    have hold := find?_eq_none_of_sublist h s.cleared_ids_registry.2
    rw [Pages.find?, hregistry, find?_append, hold]
    simp [hself]
  · rw [hpanel, hpages]
    exact s.cleared.pages.shown?_add_true _ _ (find?_cleared h)

def drops (names : List String) : Act Unit := names.forM fun name => dropName (.text name)

def entries (names : List String) (n : Nat) : List (Value × Nat) :=
  (names.zipIdx n).map fun e => (.text e.1, e.2)

theorem free_iff (h : t.panel.pages.registry = s.panel.pages.registry ++ [(.text name, n)]) (other : String) :
    t.panel.pages.find? (.text other) = none ↔ s.panel.pages.find? (.text other) = none ∧ other ≠ name := by
  simp [Pages.find?, h, Value.text_beq_text]

def KeepsForms (s : Studio) : Prop := s.cleared.pages.registry = s.panel.pages.registry

theorem Tranquil.keepsForms (h : s.Tranquil) : s.KeepsForms := by
  rw [KeepsForms, cleared_of_tranquil h]

theorem of_run_drops (hnames : ∀ name ∈ names, IsPreset name) (hs : names ≠ [] → s.KeepsForms)
    (h : (drops names).run s = .ok () t) :
    names.Nodup ∧ (∀ name ∈ names, s.panel.pages.find? (.text name) = none) ∧
      t.panel.pages.registry = s.panel.pages.registry ++ entries names s.forms.length ∧
      ∀ name ∈ names.getLast?, t.Shows name := by
  induction names generalizing s with
  | nil =>
    cases h
    simp [entries]
  | cons name names ih =>
    by_cases hfree : s.panel.pages.find? (.text name) = none
    case neg =>
      have hrun := run_dropName_of_taken (hnames name (.head _)) hfree
      cases (run_bind_error hrun).symm.trans h
    obtain ⟨u, hrun, hu, hforms, hregistry, hshows⟩ := exists_run_dropName (hnames name (.head _)) hfree
    rw [hs (cons_ne_nil _ _)] at hregistry
    have hrest : (drops names).run u = .ok () t := (run_bind_ok hrun).symm.trans h
    obtain ⟨hnodup, hothers, hregistry', hlast⟩ := ih (fun n hn => hnames n (.tail _ hn)) (fun _ => hu.keepsForms) hrest
    have hothers' := fun n hn => (free_iff hregistry n).mp (hothers n hn)
    refine ⟨nodup_cons.mpr ⟨fun hmem => (hothers' name hmem).2 rfl, hnodup⟩,
      forall_mem_cons.mpr ⟨hfree, fun n hn => (hothers' n hn).1⟩, ?_, fun n hn => ?_⟩
    · rw [hregistry', hregistry, hforms]
      simp [entries]
    · cases names with
      | nil =>
        cases hrest
        cases hn
        exact hshows
      | cons => exact hlast n hn

theorem exists_run_drops (hnames : ∀ name ∈ names, IsPreset name) (hs : names ≠ [] → s.KeepsForms)
    (hnodup : names.Nodup) (hfree : ∀ name ∈ names, s.panel.pages.find? (.text name) = none) :
    ∃ t, (drops names).run s = .ok () t := by
  induction names generalizing s with
  | nil => exact ⟨s, rfl⟩
  | cons name names ih =>
    obtain ⟨u, hrun, hu, -, hregistry, -⟩ := exists_run_dropName (hnames name (.head _)) (hfree name (.head _))
    rw [hs (cons_ne_nil _ _)] at hregistry
    obtain ⟨hname, hnodup⟩ := nodup_cons.mp hnodup
    obtain ⟨t, ht⟩ := ih (fun n hn => hnames n (.tail _ hn)) (fun _ => hu.keepsForms) hnodup fun n hn =>
      (free_iff hregistry n).mpr ⟨hfree n (.tail _ hn), fun heq => hname (heq ▸ hn)⟩
    exact ⟨t, (run_bind_ok hrun).trans ht⟩

/-- **Names that are dropped one after the other get a form each, besides the forms that there were, and the
    last one is shown, exactly if they are distinct and none has a form already,** and no form is given up that
    was taken back before. -/
theorem drops_iff (s : Studio) (hnames : ∀ name ∈ names, IsPreset name) :
    (∃ t, (drops names).run s = .ok () t ∧
      t.panel.pages.registry = s.panel.pages.registry ++ entries names s.forms.length ∧
      ∀ name ∈ names.getLast?, t.Shows name) ↔
    names.Nodup ∧ (∀ name ∈ names, s.panel.pages.find? (.text name) = none) ∧ (names ≠ [] → s.KeepsForms) := by
  constructor
  · rintro ⟨t, h, hregistry, -⟩
    have hkeeps : names ≠ [] → s.KeepsForms := by
      intro hne
      obtain ⟨name, names, rfl⟩ := List.exists_cons_of_ne_nil hne
      by_cases hfree : s.panel.pages.find? (.text name) = none
      case neg =>
        have hrun := run_dropName_of_taken (hnames name (.head _)) hfree
        cases (run_bind_error hrun).symm.trans h
      -- from the second name on there is nothing left to give up
      obtain ⟨u, hrun, hu, hforms, hregistry', -⟩ := exists_run_dropName (hnames name (.head _)) hfree
      obtain ⟨-, -, hrest, -⟩ :=
        of_run_drops (fun n hn => hnames n (.tail _ hn)) (fun _ => hu.keepsForms) ((run_bind_ok hrun).symm.trans h)
      rw [hrest, hregistry', hforms] at hregistry
      have hall : s.cleared.pages.registry ++ entries (name :: names) s.forms.length =
          s.panel.pages.registry ++ entries (name :: names) s.forms.length := by simpa [entries] using hregistry
      exact List.append_cancel_right hall
    obtain ⟨hnodup, hfree, -⟩ := of_run_drops hnames hkeeps h
    exact ⟨hnodup, hfree, hkeeps⟩
  · rintro ⟨hnodup, hfree, hkeeps⟩
    obtain ⟨t, h⟩ := exists_run_drops hnames hkeeps hnodup hfree
    obtain ⟨-, -, hregistry, hlast⟩ := of_run_drops hnames hkeeps h
    exact ⟨t, h, hregistry, hlast⟩

theorem drops_two : ∃ t, (drops ["shape", "battery"]).run opened = .ok () t ∧
    t.panel.pages.registry = opened.panel.pages.registry ++ entries ["shape", "battery"] opened.forms.length ∧
    ∀ name ∈ ["shape", "battery"].getLast?, t.Shows name := by
  have hshape : IsPreset "shape" := ⟨_, rfl, by decide⟩
  have hbattery : IsPreset "battery" := ⟨_, rfl, by decide⟩
  refine (drops_iff opened ?_).mpr ⟨by decide, ?_, fun _ => ?_⟩
  · simp [hshape, hbattery]
  · have hfree : (["shape", "battery"].all fun name => (opened.panel.pages.find? (.text name)).isNone) = true := by
      decide +kernel
    intro name hname
    exact Option.isNone_iff_eq_none.mp (List.all_eq_true.mp hfree name hname)
  · have hnone : opened.history.dropped.isEmpty = true := by decide +kernel
    refine Tranquil.keepsForms fun c hc => ?_
    rw [List.isEmpty_iff.mp hnone] at hc
    cases hc

/-- A name that is dropped once more is refused. -/
theorem not_succeeds_drops_twice : (drops ["shape", "shape"]).succeeds opened = false := by decide +kernel

/-! ### Taking forms away -/

/-- **Giving up a form succeeds, strikes all of its places and none else, and takes it off the stack and out
    of the registry, exactly if it is not on the trail before the end.** Otherwise it fails, and the form
    keeps its place and its key. -/
theorem removeForm_clears_iff (s : Studio) (form : Nat) :
    let t := (removeForm form).after s
    ((removeForm form).run s = .ok () t ∧ t.panel.opened = s.panel.opened.filter (· ≠ .form form) ∧
        t.panel.pages.stack = s.panel.pages.stack.erase form ∧
        t.panel.pages.registry = s.panel.pages.registry.eraseP (·.2 == form) ↔
      .form form ∉ s.panel.opened.dropLast) ∧
    (.form form ∈ s.panel.opened.dropLast →
      (removeForm form).run s = .error .outOfRange t ∧ t.panel.pages = s.panel.pages) := by
  have hrun := run_removeForm form s
  have hstrike := strike_eq (.form form) (Nat.zero_add s.panel.opened.length)
  rw [List.drop_zero, List.take_zero, List.nil_append] at hstrike
  by_cases hmem : .form form ∈ s.panel.opened.dropLast
  · rw [if_pos hmem] at hstrike
    rw [hstrike, if_neg Bool.false_ne_true] at hrun
    have hafter := after_of_error hrun
    refine ⟨?_, fun _ => ?_⟩
    · refine iff_of_false (fun h => ?_) (not_not_intro hmem)
      rw [hrun] at h
      cases h.1
    · rw [hafter]
      exact ⟨hrun, by simp [Panel.without, hstrike]⟩
  · rw [if_neg hmem] at hstrike
    rw [hstrike, if_pos rfl] at hrun
    have hafter := after_of_ok hrun
    refine ⟨iff_of_true ?_ hmem, fun h => absurd h hmem⟩
    rw [hafter]
    refine ⟨hrun, ?_⟩
    rw [Panel.without, hstrike]
    exact ⟨rfl, s.panel.pages.stack_takeOff form, rfl⟩

/-- A form that was left for another one cannot be taken away. -/
theorem not_succeeds_removeUnder_left :
    (removeUnder (.text "shape")).succeeds ((drops ["shape", "battery"]).after opened) = false := by
  decide +kernel

end WatchFace.Studio
