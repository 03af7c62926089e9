import Mathlib.Data.List.Nodup
import WatchFace.Desktop
import WatchFace.Proofs.Alignment
import WatchFace.Proofs.Studio.Listening

/-!
# Leaving script editors

Applying a script writes it where the field shows its value, and nowhere else: the field keeps its value, and its
channel carries nothing.
-/

namespace WatchFace

open List

variable {n : Nat} {d d' : Desktop} {α : Type}

/-! ### Pages -/

namespace Pages

variable {κ π : Type} [DecidableEq π]

theorem stack_add [BEq κ] (s : Pages κ π) (p : π) (key : κ) (switch : Bool) :
    (s.add p key switch).1.stack = s.stack ∨ (s.add p key switch).1.stack = s.stack ++ [p] := by
  cases hkey : s.find? key with
  | some q => exact .inl (shows_add hkey p switch).stack_eq
  | none =>
    rw [add_eq_of_free hkey]
    exact .inr rfl

theorem Listed.mem_stack_remove {s : Pages κ π} (h : s.Listed) (p q : π) :
    q ∈ (s.remove p).stack ↔ q ≠ p ∧ q ∈ s.stack := by
  rw [stack_remove, ← erase_eq_eraseP']
  exact h.nodup.mem_erase_iff

omit [DecidableEq π] in
theorem Listed.find?_ne [BEq κ] {s : Pages κ π} (h : s.Listed) {p : π} (hp : p ∉ s.stack) (key : κ) :
    s.find? key ≠ some p := by
  intro hfind
  obtain ⟨e, he, rfl⟩ := Option.map_eq_some_iff.mp hfind
  rw [h.stack_eq] at hp
  exact hp (mem_map_of_mem (mem_of_find?_eq_some he))

end Pages

namespace Desktop

open EStateM

/-! ### Runs -/

/-- What is done at the main window. In a studio anything may be done. -/
inductive Step where
  | face (key : Key)
  /-- To open the editor of a field in the studio that is shown. -/
  | script (field : Nat)
  | write (text : String)
  | apply
  | back
  | turn (i : Int)
  | hint (text : String)
  | studio (n : Nat) (act : Studio.Act Unit)

def Step.act : Step → Act Unit
  | face key => openFace key
  | script f => do openScript (← shownStudio) f
  | write text => setText text
  | apply => Desktop.apply
  | back => Desktop.back
  | turn i => modify fun d => { d with pages := d.pages.showAt i }
  | hint text => modify fun d => { d with tip := text }
  | studio n act => onStudio n act

def after (steps : List Step) : Desktop := steps.foldl (fun d step => step.act.after d) {}

/-! ### The invariant -/

/-- Pages are listed, those of studios and scripts have their numbers, and every script has a studio with a page. -/
structure Ordered (d : Desktop) : Prop where
  listed : d.pages.Listed
  faces : ∀ n, Page.face n ∈ d.pages.stack → n < d.studios.length
  scripts : ∀ n, Page.script n ∈ d.pages.stack → n < d.tasks.length
  homes : ∀ t ∈ d.tasks, Page.face t.studio ∈ d.pages.stack
  views : ∀ t ∈ d.tasks, t.view.mode = .simple ∧ t.view.connected = true

theorem ordered_empty : Ordered {} := by
  refine ⟨⟨rfl, nodup_singleton _⟩, fun n hn => ?_, fun n hn => ?_, forall_mem_nil _, forall_mem_nil _⟩
  · cases mem_singleton.mp hn
  · cases mem_singleton.mp hn

section

variable {d : Desktop}

theorem after_onStudio (n : Nat) (act : Studio.Act α) (d : Desktop) :
    ∃ ss, (onStudio n act).after d = { d with studios := ss } ∧ ss.length = d.studios.length := by
  unfold onStudio
  rw [after_bind_ok (run_get d)]
  cases hs : d.studios[n]? with
  | none => exact ⟨d.studios, rfl, rfl⟩
  | some s =>
    dsimp only
    cases act.run s with
    | ok a t => exact ⟨d.studios.set n t, rfl, length_set⟩
    | error e t => exact ⟨d.studios.set n t, rfl, length_set⟩

theorem exists_of_run_onStudio {act : Studio.Act α} {a : α} (h : (onStudio n act).run d = .ok a d') :
    ∃ ss, d' = { d with studios := ss } ∧ ss.length = d.studios.length := by
  rw [← after_of_ok h]
  exact after_onStudio n act d

theorem Ordered.studios (h : d.Ordered) {ss : List Studio} (hss : d.studios.length ≤ ss.length) :
    Ordered { d with studios := ss } :=
  { h with faces := fun n hn => Nat.lt_of_lt_of_le (h.faces n hn) hss }

theorem Ordered.showUnder (h : d.Ordered) {p : Page} (hp : p ∉ d.pages.stack)
    (hface : ∀ n, p = .face n → n < d.studios.length) (hscript : ∀ n, p = .script n → n < d.tasks.length) (key : Key) :
    Ordered ((showUnder key p).after d) := by
  have hmem : ∀ q, q ∈ (d.pages.add p key true).1.stack → q ∈ d.pages.stack ∨ p = q := by
    intro q hq
    obtain hsame | hadded := d.pages.stack_add p key true
    · exact .inl (hsame ▸ hq)
    · rw [hadded, mem_append, mem_singleton] at hq
      exact hq.imp_right Eq.symm
  have hkept : ∀ q ∈ d.pages.stack, q ∈ (d.pages.add p key true).1.stack := by
    intro q hq
    obtain hsame | hadded := d.pages.stack_add p key true
    · rwa [hsame]
    · rw [hadded]
      exact mem_append_left _ hq
  exact {
    listed := h.listed.add hp key true
    faces := fun n hn => (hmem _ hn).elim (h.faces n) (hface n)
    scripts := fun n hn => (hmem _ hn).elim (h.scripts n) (hscript n)
    homes := fun t ht => hkept _ (h.homes t ht)
    views := h.views }

theorem Ordered.openFace (h : d.Ordered) (key : Key) : Ordered ((openFace key).after d) := by
  let d₁ : Desktop := { d with studios := d.studios ++ [{}] }
  have hmodify : (modify fun d => { d with studios := d.studios ++ [{}] } : Act PUnit).run d = .ok ⟨⟩ d₁ := rfl
  have h₁ : Ordered d₁ := h.studios (by simp)
  unfold Desktop.openFace
  rw [after_bind_ok (run_get d)]
  dsimp only
  rw [after_bind_ok hmodify]
  refine after_bind_of ?_ fun _ d₂ hrun => ?_
  · obtain ⟨ss, hss, hlength⟩ := after_onStudio d.studios.length Studio.openPanel d₁
    rw [hss]
    exact h₁.studios (Nat.le_of_eq hlength.symm)
  · obtain ⟨ss, rfl, hlength⟩ := exists_of_run_onStudio hrun
    have hnew : ss.length = d.studios.length + 1 := hlength.trans (by simp [d₁])
    refine (h₁.studios (Nat.le_of_eq hlength.symm)).showUnder (fun hmem => ?_) (fun n hn => ?_) (fun n hn => ?_) key
    · exact Nat.lt_irrefl _ (h.faces _ hmem)
    · obtain rfl := Page.face.inj hn
      show d.studios.length < ss.length
      omega
    · cases hn

theorem Ordered.openScript (h : d.Ordered) (hn : Page.face n ∈ d.pages.stack) (f : Nat) :
    Ordered ((openScript n f).after d) := by
  unfold Desktop.openScript
  refine after_bind_of ?_ fun x d₁ hrun => ?_
  · obtain ⟨ss, hss, hlength⟩ := after_onStudio n (Studio.field f) d
    rw [hss]
    exact h.studios (Nat.le_of_eq hlength.symm)
  · obtain ⟨ss, rfl, hlength⟩ := exists_of_run_onStudio hrun
    let view := (({ mode := .simple, connected := true } : Script.View).edit x.name x.text).1
    let d₂ : Desktop := { d with studios := ss, tasks := d.tasks ++ [⟨n, f, view⟩] }
    have h₂ : Ordered d₂ := by
      have h₁ := h.studios (Nat.le_of_eq hlength.symm)
      refine ⟨h₁.listed, h₁.faces, fun m hm => ?_, fun t ht => ?_, fun t ht => ?_⟩
      · have hlt := h.scripts m hm
        simp only [d₂, length_append, length_singleton]
        omega
      · obtain ht | ht := mem_append.mp ht
        · exact h.homes t ht
        · exact mem_singleton.mp ht ▸ hn
      · obtain ht | ht := mem_append.mp ht
        · exact h.views t ht
        · exact mem_singleton.mp ht ▸ ⟨rfl, rfl⟩
    show Ordered ((Desktop.showUnder (.field n f) (.script d.tasks.length)).after d₂)
    refine h₂.showUnder (fun hmem => ?_) (fun m hm => ?_) (fun m hm => ?_) _
    · exact Nat.lt_irrefl _ (h.scripts _ hmem)
    · cases hm
    · obtain rfl := Page.script.inj hm
      simp [d₂]

theorem getElem?_of_shownTask? {t : Task} (h : d.shownTask? = some (n, t)) : d.tasks[n]? = some t := by
  unfold shownTask? at h
  obtain ⟨p, -, h⟩ := Option.bind_eq_some_iff.mp h
  split at h
  · obtain ⟨t', ht', heq⟩ := Option.bind_eq_some_iff.mp h
    obtain ⟨rfl, rfl⟩ := Prod.mk.inj (Option.some.inj heq)
    exact ht'
  · cases h

theorem Ordered.setText (h : d.Ordered) (text : String) : Ordered ((setText text).after d) := by
  unfold Desktop.setText
  rw [after_bind_ok (run_get d)]
  cases hshown : d.shownTask? with
  | none => exact h
  | some e =>
    obtain ⟨n, t⟩ := e
    have ht := mem_of_getElem? (getElem?_of_shownTask? hshown)
    show Ordered { d with tasks := d.tasks.set n { t with view := (t.view.setText text).1 } }
    refine ⟨h.listed, h.faces, fun m hm => ?_, fun t' ht' => ?_, fun t' ht' => ?_⟩
    · rw [length_set]
      exact h.scripts m hm
    · obtain ht' | rfl := mem_or_eq_of_mem_set ht'
      · exact h.homes t' ht'
      · exact h.homes t ht
    · obtain ht' | rfl := mem_or_eq_of_mem_set ht'
      · exact h.views t' ht'
      · exact h.views t ht

/-! ### Leaving a script -/

def showing (f : Nat) (text : String) (s : Studio) : Studio :=
  { s with fields := s.fields.modify f ({ · with text := text }) }

def without (d : Desktop) (n : Nat) (t : Task) : Desktop :=
  { d with pages := (d.pages.remove (.script n)).showPage (.face t.studio) }

theorem run_wentBack (d : Desktop) (n : Nat) (t : Task) : (heed n t .wentBack).run d = .ok () (d.without n t) := rfl

theorem run_applied {t : Task} (ht : t.studio < d.studios.length) (n : Nat) (text : String) :
    (heed n t (.applied text)).run d =
      .ok () ({ d with studios := d.studios.modify t.studio (showing t.field text) }.without n t) := by
  have hs := getElem?_eq_getElem ht
  let d₁ : Desktop := { d with studios := d.studios.modify t.studio (showing t.field text) }
  have hwrite : (onStudio t.studio (Studio.changeField t.field ({ · with text := text }))).run d = .ok () d₁ := by
    unfold onStudio
    rw [run_bind_ok (run_get d), hs]
    show Result.ok () { d with studios := d.studios.set t.studio (showing t.field text d.studios[t.studio]) } = _
    rw [← Studio.modify_eq_set hs]
  exact run_bind_ok hwrite

theorem Ordered.without (h : d.Ordered) (n : Nat) (t : Task) : Ordered (d.without n t) := by
  have hshows := (d.pages.remove (.script n)).shows_showPage (.face t.studio)
  have hstack : ∀ q, q ∈ (d.without n t).pages.stack ↔ q ≠ .script n ∧ q ∈ d.pages.stack := by
    intro q
    rw [← h.listed.mem_stack_remove (.script n) q, ← hshows.stack_eq]
    rfl
  refine ⟨(h.listed.remove _).shows hshows, fun m hm => ?_, fun m hm => ?_, fun t' ht' => ?_, h.views⟩
  · exact h.faces m ((hstack _).mp hm).2
  · exact h.scripts m ((hstack _).mp hm).2
  · exact (hstack _).mpr ⟨Page.noConfusion, h.homes t' ht'⟩

theorem Ordered.lt_of_mem (h : d.Ordered) {t : Task} (ht : t ∈ d.tasks) : t.studio < d.studios.length :=
  h.faces _ (h.homes t ht)

theorem Ordered.heed (h : d.Ordered) (n : Nat) {t : Task} (ht : t ∈ d.tasks) (e : Script.Effect) :
    Ordered ((heed n t e).after d) := by
  cases e
  case applied text =>
    rw [after_of_ok (run_applied (h.lt_of_mem ht) n text)]
    exact (h.studios (by simp)).without n t
  case wentBack => exact h.without n t
  all_goals exact h

theorem Ordered.run_apply (h : d.Ordered) {t : Task} (hshown : d.shownTask? = some (n, t)) :
    Desktop.apply.run d = (Desktop.heed n t (.applied t.view.text)).run d := by
  have hviews := h.views t (mem_of_getElem? (getElem?_of_shownTask? hshown))
  have heffects : t.view.apply = [.applied t.view.text] := if_pos hviews
  unfold Desktop.apply
  rw [run_bind_ok (run_get d), hshown]
  show (t.view.apply.forM (Desktop.heed n t)).run d = _
  have hrun := run_applied (h.lt_of_mem (mem_of_getElem? (getElem?_of_shownTask? hshown))) n t.view.text
  rw [heffects, hrun]
  exact run_bind_ok hrun

theorem Ordered.run_back (h : d.Ordered) {t : Task} (hshown : d.shownTask? = some (n, t)) :
    Desktop.back.run d = (Desktop.heed n t .wentBack).run d := by
  have hviews := h.views t (mem_of_getElem? (getElem?_of_shownTask? hshown))
  have heffects : t.view.back = [.wentBack] := if_pos hviews.2
  unfold Desktop.back
  rw [run_bind_ok (run_get d), hshown]
  show (t.view.back.forM (Desktop.heed n t)).run d = _
  rw [heffects]
  rfl

theorem run_unshown (hshown : d.shownTask? = none) :
    Desktop.apply.run d = .ok () d ∧ Desktop.back.run d = .ok () d := by
  unfold Desktop.apply Desktop.back
  rw [run_bind_ok (run_get d), run_bind_ok (run_get d), hshown]
  exact ⟨rfl, rfl⟩

theorem run_shownStudio (d : Desktop) : (∃ n, shownStudio.run d = .ok n d ∧ Page.face n ∈ d.pages.stack) ∨
    shownStudio.run d = .error .missing d := by
  unfold shownStudio
  rw [run_bind_ok (run_get d)]
  cases hshown : d.pages.shown? with
  | none => exact .inr rfl
  | some p =>
    cases p with
    | face n => exact .inl ⟨n, rfl, d.pages.mem_stack_of_shown? hshown⟩
    | gallery => exact .inr rfl
    | script n => exact .inr rfl

theorem Ordered.step (h : d.Ordered) (step : Step) : Ordered (step.act.after d) := by
  cases step with
  | face key => exact h.openFace key
  | script f =>
    show Ordered ((shownStudio >>= fun n => Desktop.openScript n f).after d)
    obtain ⟨n, hrun, hn⟩ | hrun := run_shownStudio d
    · rw [after_bind_ok hrun]
      exact h.openScript hn f
    · rw [after_bind_error hrun]
      exact h
  | write text => exact h.setText text
  | apply =>
    show Ordered (Desktop.apply.after d)
    cases hshown : d.shownTask? with
    | none =>
      rw [after_of_ok (run_unshown hshown).1]
      exact h
    | some e =>
      rw [after_congr (h.run_apply hshown)]
      exact h.heed e.1 (mem_of_getElem? (getElem?_of_shownTask? hshown)) _
  | back =>
    show Ordered (Desktop.back.after d)
    cases hshown : d.shownTask? with
    | none =>
      rw [after_of_ok (run_unshown hshown).2]
      exact h
    | some e =>
      rw [after_congr (h.run_back hshown)]
      exact h.heed e.1 (mem_of_getElem? (getElem?_of_shownTask? hshown)) _
  | turn i =>
    have hshows := d.pages.shows_showAt i
    have hstack := hshows.stack_eq
    refine ⟨h.listed.shows hshows, fun n hn => ?_, fun n hn => ?_, fun t ht => ?_, h.views⟩
    · exact h.faces n (hstack ▸ hn)
    · exact h.scripts n (hstack ▸ hn)
    · exact hstack ▸ h.homes t ht
  | hint text => exact { h with }
  | studio n act =>
    obtain ⟨ss, hss, hlength⟩ := after_onStudio n act d
    show Ordered ((onStudio n act).after d)
    rw [hss]
    exact h.studios (Nat.le_of_eq hlength.symm)

end

theorem ordered_after (steps : List Step) : (after steps).Ordered := by
  suffices hrun : ∀ d : Desktop, d.Ordered → (steps.foldl (fun d step => step.act.after d) d).Ordered from
    hrun {} ordered_empty
  induction steps with
  | nil => exact fun d h => h
  | cons step steps ih => exact fun d h => ih _ (h.step step)

/-! ### What is stored -/

def Stores (d : Desktop) (t : Task) (text : String) : Prop :=
  ∃ s x, d.studios[t.studio]? = some s ∧ s.fields[t.field]? = some x ∧ x.value = .text text ∧
    s.last? x.channel = some (.text text)

/-- The editor of a script has gone, with its key, and the studio of its field is shown. -/
structure Left (n : Nat) (t : Task) (d : Desktop) : Prop where
  unregistered : ∀ key, d.pages.find? key ≠ some (.script n)
  gone : Page.script n ∉ d.pages.stack
  shown : d.pages.shown? = some (.face t.studio)

theorem Ordered.left (h : d.Ordered) (n : Nat) {t : Task} (ht : t ∈ d.tasks) : Left n t (d.without n t) := by
  have hshows := (d.pages.remove (.script n)).shows_showPage (.face t.studio)
  have hgone : Page.script n ∉ (d.without n t).pages.stack := by
    show Page.script n ∉ ((d.pages.remove (.script n)).showPage (.face t.studio)).stack
    rw [hshows.stack_eq, h.listed.mem_stack_remove]
    exact fun hn => hn.1 rfl
  have hface : Page.face t.studio ∈ (d.pages.remove (.script n)).stack :=
    (h.listed.mem_stack_remove _ _).mpr ⟨Page.noConfusion, h.homes t ht⟩
  exact ⟨(h.without n t).listed.find?_ne hgone, hgone, Pages.shown?_showPage _ hface⟩

theorem stores_showing {t : Task} {text : String} (h : d'.studios = d.studios.modify t.studio (showing t.field text))
    (text' : String) :
    d'.Stores t text' ↔ d.Stores t text' := by
  unfold Stores
  rw [h, getElem?_modify_eq]
  constructor
  · rintro ⟨s', x', hs', hx', hvalue, hlast⟩
    obtain ⟨s, hs, rfl⟩ := Option.map_eq_some_iff.mp hs'
    rw [showing, getElem?_modify_eq] at hx'
    obtain ⟨x, hx, rfl⟩ := Option.map_eq_some_iff.mp hx'
    exact ⟨s, x, hs, hx, hvalue, hlast⟩
  · rintro ⟨s, x, hs, hx, hvalue, hlast⟩
    refine ⟨showing t.field text s, { x with text := text }, by rw [hs]; rfl, ?_, hvalue, hlast⟩
    rw [showing, getElem?_modify_eq, hx]
    rfl

/-- **Applying a script does not store it.** After every run: applying a text succeeds and changes only what the field
    of the script shows, so that the text is stored just if it was before; leaving the script changes no studio. In
    either case the editor goes with its key, and the studio of the field is shown. -/
theorem heed_after (steps : List Step) {n : Nat} {t : Task} (ht : (after steps).tasks[n]? = some t) :
    (∀ text, ∃ d, (heed n t (.applied text)).run (after steps) = .ok () d ∧
      d.studios = (after steps).studios.modify t.studio (showing t.field text) ∧
      (d.Stores t text ↔ (after steps).Stores t text) ∧ Left n t d) ∧
    (∃ d, (heed n t .wentBack).run (after steps) = .ok () d ∧ d.studios = (after steps).studios ∧ Left n t d) ∧
    ((after steps).shownTask? = some (n, t) →
      Desktop.apply.run (after steps) = (heed n t (.applied t.view.text)).run (after steps) ∧
      Desktop.back.run (after steps) = (heed n t .wentBack).run (after steps)) := by
  have hordered := ordered_after steps
  have hmem := List.mem_of_getElem? ht
  refine ⟨fun text => ?_, ?_, fun hshown => ⟨hordered.run_apply hshown, hordered.run_back hshown⟩⟩
  · refine ⟨_, run_applied (hordered.lt_of_mem hmem) n text, rfl, stores_showing rfl text, ?_⟩
    exact (hordered.studios (by simp)).left n hmem
  · exact ⟨_, run_wentBack _ n t, rfl, hordered.left n hmem⟩

def sampleSteps : List Step :=
  [.face (.watch (.text "w")), .studio 0 (Studio.summon Studio.introduce (.text "text") none none), .script 13,
    .write "abc"]

theorem exists_sampleTask : ∃ t, (after sampleSteps).shownTask? = some (0, t) ∧ t.studio = 0 ∧ t.field = 13 ∧
    t.view.text = "abc" := by
  have hshown : (after sampleSteps).shownTask?.map (fun e => (e.1, e.2.studio, e.2.field, e.2.view.text)) =
    some (0, 0, 13, "abc") := by decide +kernel
  obtain ⟨⟨n, t⟩, ht, heq⟩ := Option.map_eq_some_iff.mp hshown
  simp only [Prod.mk.injEq] at heq
  obtain ⟨rfl, hstudio, hfield, htext⟩ := heq
  exact ⟨t, ht, hstudio, hfield, htext⟩

theorem heed_after_sampleSteps : ∃ t, (after sampleSteps).tasks[0]? = some t ∧
    (after sampleSteps).shownTask? = some (0, t) ∧ ∃ d, Desktop.apply.run (after sampleSteps) = .ok () d ∧
      (d.Stores t "abc" ↔ (after sampleSteps).Stores t "abc") ∧ Left 0 t d := by
  obtain ⟨t, hshown, -, -, htext⟩ := exists_sampleTask
  have ht := getElem?_of_shownTask? hshown
  obtain ⟨happlied, -, hbuttons⟩ := heed_after sampleSteps ht
  obtain ⟨d, hrun, -, hstores, hleft⟩ := happlied "abc"
  refine ⟨t, ht, hshown, d, ?_, hstores, hleft⟩
  rw [(hbuttons hshown).1, htext, hrun]

/-- The button of the editor applies the text in it, and the field goes without it. -/
theorem apply_sampleSteps : ∃ t, (after sampleSteps).shownTask? = some (0, t) ∧ t.view.text = "abc" ∧
    ¬ (Desktop.apply.after (after sampleSteps)).Stores t "abc" := by
  obtain ⟨t, hshown, hstudio, hfield, htext⟩ := exists_sampleTask
  refine ⟨t, hshown, htext, ?_⟩
  rintro ⟨s, x, hs, hx, hvalue, -⟩
  have hempty : ((Desktop.apply.after (after sampleSteps)).studios[0]?.bind (·.fields[13]?)).map (·.value.text?) =
    some (some "") := by decide +kernel
  rw [hstudio] at hs
  rw [hfield] at hx
  rw [hs, Option.bind_some, hx, Option.map_some, hvalue] at hempty
  exact absurd hempty (by decide)

end Desktop

end WatchFace
