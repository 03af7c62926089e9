import Mathlib.Data.List.Nodup
import WatchFace.Proofs.Studio.Requests

/-!
# Summoning components

A component that is asked for should have a form, a layer and an item under one id, or else nothing of it should be
there. Some have a form without a layer, or without an item.
-/

namespace WatchFace.Studio

open EStateM Catalog
open List hiding lookup

variable {s : Studio} {live more : List Int} {c : Component} {log : List (Int × Component)}

/-! ### Runs of requests -/

/-- A run from an empty watch face leads to the studio; `log` has the components that were asked for with their ids.
    In between ids may be taken, forms made under names, and all done that leaves ids, layers and items alone. -/
inductive Reached : Studio → (log : List (Int × Component)) → Prop
  | start {s : Studio} (hids : s.panel.ids = [2]) (hforms : ∀ id, s.HasForm id → id = 1)
      (htable : s.preview.table = []) (hitems : s.explorer.items = []) : Reached s []
  | built {s : Studio} {log : List (Int × Component)} (h : Reached s log) (r : Request)
      (hr : r.Regular s) {id : Int} {c : Component} (ha : r.Asks s id c) :
      Reached (r.act.after s) ((id, c) :: log)
  | refused {s : Studio} {log : List (Int × Component)} (h : Reached s log) (r : Request)
      (hr : ∀ id c, ¬ r.Asks s id c) : Reached (r.act.after s) log
  | taken {s t : Studio} {log : List (Int × Component)} (h : Reached s log) {id : Int}
      (hrun : takeId.run s = .ok id t) : Reached t log
  | named {s : Studio} {log : List (Int × Component)} (h : Reached s log) (name : String) :
      Reached ((dropName (.text name)).after s) log
  | other {s t : Studio} {log : List (Int × Component)} (h : Reached s log)
      (hids : t.panel.ids = s.panel.ids) (hforms : ∀ id, t.HasForm id → s.HasForm id)
      (htable : t.preview.table = s.preview.table)
      (hitems : t.explorer.items = s.explorer.items) : Reached t log

def opened : Studio := openPanel.after {}

theorem keys_opened : (opened.panel.pages.registry.all fun e => e.1 matches .int 1) = true := by decide +kernel

theorem reached_opened : Reached opened [] := by
  have hids : opened.panel.ids = [2] := by decide +kernel
  have htable : opened.preview.table.isEmpty = true := by decide +kernel
  have hitems : opened.explorer.items = [] := by decide +kernel
  refine .start hids (fun id hid => ?_) (isEmpty_iff.mp htable) hitems
  simp only [HasForm, Pages.find?, Option.isSome_map, find?_isSome] at hid
  obtain ⟨⟨key, n⟩, he, heq⟩ := hid
  have hone := all_eq_true.mp keys_opened _ he
  dsimp only at hone heq
  split at hone
  · rw [int_beq, decide_eq_true_eq] at heq
    exact heq.symm
  · cases hone

/-- The ids are in order, and layers and items are those of the components that could be made. -/
structure Accounted (s : Studio) (live : List Int) (log : List (Int × Component)) : Prop where
  orderly : s.Orderly live
  logged : ∀ e ∈ log, e.1 ∈ live
  nodup : (log.map Prod.fst).Nodup
  layers : ∀ id, s.HasLayer id ↔ ∃ c, (id, c) ∈ log ∧ isComplete c = true ∧ isDrawn c = true
  items : ∀ id, s.HasItem id ↔ ∃ c, (id, c) ∈ log ∧ isComplete c = true ∧ isListed c = true

/-- Ids are taken at the most, and layers and items are as before. -/
structure Spares (live : List Int) (s t : Studio) : Prop where
  orderly : ∃ more, t.Orderly (more ++ live)
  table : t.preview.table = s.preview.table
  items : t.explorer.items = s.explorer.items

theorem spares_addForm (h : s.Orderly live) (name : String) {e : Entry} (he : ∀ c, e = .component c → IsRegular c) :
    Spares live s ((addForm e (some (.text name)) true true).after s) := by
  have hrefl : Spares live s s := ⟨⟨[], h⟩, rfl, rfl⟩
  have hform : (formOf? (.text name)).run s = .ok (s.panel.pages.find? (.text name)) s := rfl
  unfold addForm
  cases hfind : s.panel.pages.find? (.text name) with
  | some n =>
    rw [hfind] at hform
    have hdemand : (demandFree (.text name)).run s = .error .unset s := run_bind_ok hform
    rw [Option.getD_some, after_bind_error hdemand]
    exact hrefl
  | none =>
    rw [hfind] at hform
    have hdemand : (demandFree (.text name)).run s = .ok () s := run_bind_ok hform
    rw [Option.getD_some, after_bind_ok hdemand]
    cases e with
    | schema _ => exact hrefl
    | maker => exact hrefl
    | component c =>
      obtain ⟨t, hopen, ht⟩ := exists_run_openForm hfind c.layer true
      have horderly : t.Orderly live := ht.orderly h fun m hm => absurd hm Bool.false_ne_true
      show Spares live s (after (openForm c.layer (.text name) true true >>= _) s)
      rw [after_bind_ok hopen]
      have hlayout := answers_layout s.forms.length (he c rfl) ht.tranquil horderly []
      have hu : Adds t _ := hlayout.after_cases.elim (fun h => h.2.elim fun _ => (·.adds)) (·.2)
      rw [after_bind_pure]
      refine ⟨hu.orderly live horderly, ?_, ?_⟩
      · rw [hu.preview, ht.preview]
      · rw [hu.listed, ht.explorer]

theorem spares_dropName (h : s.Orderly live) (name : String) : Spares live s ((dropName (.text name)).after s) := by
  show Spares live s ((require (lookup name) >>= _).after s)
  cases hlookup : lookup name with
  | error e => exact ⟨⟨[], h⟩, rfl, rfl⟩
  | ok e =>
    rw [after_bind_ok (run_require_ok e s)]
    show Spares live s ((addForm e (some (.text name)) true true >>= fun _ => pure ()).after s)
    rw [after_bind_pure]
    exact spares_addForm h name fun c hc => isRegular_of_lookup (hlookup.trans (congrArg Except.ok hc))

section

variable {s t : Studio} {live : List Int} {log : List (Int × Component)} (h : Accounted s live log)

include h

theorem Accounted.of_spares (hst : Spares live s t) : ∃ live', Accounted t live' log := by
  obtain ⟨⟨more, horderly⟩, htable, hitems⟩ := hst
  refine ⟨more ++ live, horderly, fun e he => mem_append_right _ (h.logged e he), h.nodup,
    fun id => ?_, fun id => ?_⟩
  · rw [HasLayer, htable]
    exact h.layers id
  · rw [HasItem, hitems]
    exact h.items id

theorem Accounted.of_built {id : Int} (hid : id ∉ live) (hbuilt : Built id c s t)
    (horderly : t.Orderly (more ++ id :: live)) :
    Accounted t (more ++ id :: live) ((id, c) :: log) := by
  refine ⟨horderly, fun e he => ?_, ?_, fun m => ?_, fun m => ?_⟩
  · obtain rfl | he := mem_cons.mp he
    · simp
    · simp [h.logged e he]
  · refine nodup_cons.mpr ⟨fun hmem => ?_, h.nodup⟩
    obtain ⟨e, he, rfl⟩ := mem_map.mp hmem
    exact hid (h.logged e he)
  · rw [hbuilt.layers, h.layers]
    grind
  · rw [hbuilt.items, h.items]
    grind

end

/-- **Every run leaves all layers and items accounted for.** -/
theorem Reached.accounted (h : Reached s log) : ∃ live, Accounted s live log := by
  induction h with
  | @start s hids hforms htable hitems =>
    refine ⟨[], ⟨?_, fun id hid => .inl (hforms id hid), fun id hid => ?_, fun id hid => ?_⟩, nofun,
      nodup_nil, fun id => ?_, fun id => ?_⟩
    · exact ⟨2, [], hids, nodup_nil, by simp, nofun⟩
    · simp [HasLayer, htable] at hid
    · simp [HasItem, hitems] at hid
    · simp [HasLayer, htable]
    · simp [HasItem, hitems]
  | @built s log _ r hr id c ha ih =>
    obtain ⟨live, hlive⟩ := ih
    obtain ⟨id', c', ha', hid, -, hbuilt, more, horderly⟩ | ⟨hnone, -⟩ := r.act_cases hlive.orderly hr
    · obtain ⟨t, ht⟩ := ha
      obtain ⟨t', ht'⟩ := ha'
      obtain ⟨heq, -⟩ := Result.ok.inj (ht.symm.trans ht')
      obtain ⟨rfl, hc⟩ := Prod.mk.inj heq
      obtain rfl := Entry.component.inj hc
      exact ⟨_, hlive.of_built hid hbuilt horderly⟩
    · exact absurd ha (hnone id c)
  | @refused s log _ r hr ih =>
    obtain ⟨live, hlive⟩ := ih
    obtain ⟨id, c, ha, -⟩ | ⟨-, ⟨-, htable, hitems⟩, horderly⟩ :=
      r.act_cases hlive.orderly fun id c ha => absurd ha (hr id c)
    · exact absurd ha (hr id c)
    · exact hlive.of_spares ⟨horderly, htable, hitems⟩
  | @taken s t log _ id hrun ih =>
    obtain ⟨live, hlive⟩ := ih
    obtain ⟨id', ids, hrun', -, -, horderly⟩ := hlive.orderly.take
    obtain ⟨-, rfl⟩ := Result.ok.inj (hrun.symm.trans hrun')
    exact hlive.of_spares ⟨⟨[id'], horderly⟩, rfl, rfl⟩
  | @named s log _ name ih =>
    obtain ⟨live, hlive⟩ := ih
    exact hlive.of_spares (spares_dropName hlive.orderly name)
  | @other s t log _ hids hforms htable hitems ih =>
    obtain ⟨live, hlive⟩ := ih
    have hfiled : t.Filed live := ⟨hids ▸ hlive.orderly.stocked, fun id hid => hlive.orderly.forms id (hforms id hid)⟩
    exact hlive.of_spares ⟨⟨[], hfiled.orderly hlive.orderly htable hitems⟩, htable, hitems⟩

/-! ### All or nothing -/

def isWhole (c : Component) : Bool := isComplete c && isDrawn c && isListed c

/-- One new id has a form, a layer and an item, or all forms, layers and items are as before. -/
def AllOrNothing (s t : Studio) : Prop :=
  (∃ id, (¬ s.HasForm id ∧ ¬ s.HasLayer id ∧ ¬ s.HasItem id) ∧
    t.HasForm id ∧ t.HasLayer id ∧ t.HasItem id) ∨ Request.Unchanged s t

theorem Accounted.allOrNothing_iff {t : Studio} (h : Accounted s live log) {id : Int} (hid : id ∉ live)
    (hfree : ¬ s.HasForm id) (hbuilt : Built id c s t) : AllOrNothing s t ↔ isWhole c = true := by
  have hwhole : isWhole c = true ↔ isComplete c = true ∧ isDrawn c = true ∧ isListed c = true := by
    simp [isWhole, and_assoc]
  have hlayer : ¬ s.HasLayer id := fun hl => hid (h.orderly.layers id hl)
  have hitem : ¬ s.HasItem id := fun hi => hid (h.orderly.items id hi)
  rw [hwhole]
  constructor
  · rintro (⟨id', ⟨-, hl, hi⟩, -, hl', hi'⟩ | ⟨hforms, -⟩)
    · obtain ⟨⟨hcomplete, hdrawn⟩, -⟩ := ((hbuilt.layers id').mp hl').resolve_left hl
      obtain ⟨⟨-, hlisted⟩, -⟩ := ((hbuilt.items id').mp hi').resolve_left hi
      exact ⟨hcomplete, hdrawn, hlisted⟩
    · -- the form is there in any case
      have hform := hbuilt.form
      rw [HasForm, Pages.find?, hforms] at hform
      exact absurd hform hfree
  · rintro ⟨hcomplete, hdrawn, hlisted⟩
    refine .inl ⟨id, ⟨hfree, hlayer, hitem⟩, hbuilt.form, ?_, ?_⟩
    · exact (hbuilt.layers id).mpr (.inr ⟨⟨hcomplete, hdrawn⟩, rfl⟩)
    · exact (hbuilt.items id).mpr (.inr ⟨⟨hcomplete, hlisted⟩, rfl⟩)

theorem Accounted.same_ids_iff (h : Accounted s live log) : (∀ id, s.HasLayer id ↔ s.HasItem id) ↔
      ∀ e ∈ log, isComplete e.2 = true → isDrawn e.2 = isListed e.2 := by
  have hunique : ∀ {id c c'}, (id, c) ∈ log → (id, c') ∈ log → c' = c := by
    intro id c c' hc hc'
    exact (Prod.mk.inj (inj_on_of_nodup_map h.nodup hc' hc rfl)).2
  constructor
  · intro hsame e he hcomplete
    have hids := hsame e.1
    rw [h.layers, h.items] at hids
    rw [Bool.eq_iff_iff]
    refine ⟨fun hdrawn => ?_, fun hlisted => ?_⟩
    · obtain ⟨c, hc, -, hlisted⟩ := hids.mp ⟨e.2, he, hcomplete, hdrawn⟩
      rwa [hunique he hc] at hlisted
    · obtain ⟨c, hc, -, hdrawn⟩ := hids.mpr ⟨e.2, he, hcomplete, hlisted⟩
      rwa [hunique he hc] at hdrawn
  · intro hall id
    rw [h.layers, h.items]
    refine exists_congr fun c => and_congr_right fun hc => and_congr_right fun hcomplete => ?_
    rw [hall (id, c) hc hcomplete]

/-- **Summoning a component is all or nothing exactly if it is whole.** In every studio that a run of requests leads to,
    a request brings the same new id to the panel, to the preview and to the explorer, or changes none of them, exactly
    if the component can be laid out, drawn and listed, or none is asked for. -/
theorem allOrNothing_act_iff {s : Studio} {log : List (Int × Component)} (h : Reached s log) :
    (∀ r : Request, r.Regular s → (AllOrNothing s (r.act.after s) ↔
      ∀ id c, r.Asks s id c → isWhole c = true)) ∧
    ((∀ id, s.HasLayer id ↔ s.HasItem id) ↔
      ∀ e ∈ log, isComplete e.2 = true → isDrawn e.2 = isListed e.2) := by
  obtain ⟨live, hlive⟩ := h.accounted
  refine ⟨fun r hr => ?_, hlive.same_ids_iff⟩
  obtain ⟨id, c, ⟨t, ha⟩, hid, hfree, hbuilt, -⟩ | ⟨hnone, hunchanged, -⟩ := r.act_cases hlive.orderly hr
  · rw [hlive.allOrNothing_iff hid hfree hbuilt]
    refine ⟨fun hwhole id' c' ⟨t', ha'⟩ => ?_, fun hall => hall id c ⟨t, ha⟩⟩
    obtain ⟨heq, -⟩ := Result.ok.inj (ha.symm.trans ha')
    obtain rfl := Entry.component.inj (congrArg Prod.snd heq)
    exact hwhole
  · exact ⟨fun _ id c ha => absurd ha (hnone id c), fun _ => .inr hunchanged⟩

/-- A text that is asked for has both a layer and an item. A shape that is dropped on the preview next
    is not all or nothing. -/
theorem allOrNothing_act_iff_text :
    ∃ s, Reached s [(2, Catalog.text)] ∧ (∀ id, s.HasLayer id ↔ s.HasItem id) ∧
      ∃ r : Request, r.Regular s ∧ ¬ AllOrNothing s (r.act.after s) := by
  let t := (Request.click (.text "text")).act.after opened
  have hfree : (opened.panel.pages.find? (.text "text")).isNone = true := by decide +kernel
  have hids : opened.panel.ids = [2] := by decide +kernel
  have hreached : Reached t [(2, Catalog.text)] :=
    reached_opened.built _ (Request.regular_click (Option.isNone_iff_eq_none.mp hfree))
      (Request.asks_click (Option.isNone_iff_eq_none.mp hfree) rfl (run_takeId_next hids))
  obtain ⟨hfree', hids'⟩ : (t.panel.pages.find? (.text "shape")).isNone = true ∧ t.panel.ids = [4] := by
    decide +kernel
  have hregular : (Request.drop (.text "shape") (.tuple [.int 10, .int 20])).Regular t := by
    refine Request.regular_drop (Option.isNone_iff_eq_none.mp hfree') fun i v hv => ?_
    have hmem : v ∈ [Value.int 10, .int 20] := mem_of_nth hv
    simp only [List.mem_cons, List.not_mem_nil, or_false] at hmem
    obtain rfl | rfl := hmem
    all_goals decide +kernel
  refine ⟨t, hreached, (allOrNothing_act_iff hreached).2.mpr (by decide +kernel), _, hregular, fun hall => ?_⟩
  have hwhole := ((allOrNothing_act_iff hreached).1 _ hregular).mp hall 4 _
    (Request.asks_drop (Option.isNone_iff_eq_none.mp hfree') rfl rfl (run_takeId_next hids'))
  revert hwhole
  decide +kernel

/-- A text is the only component of the catalog that is whole. -/
example : (components.filter fun e => isWhole e.2).map Prod.fst = ["text"] := by decide +kernel

/-- A shape has a form and no layer when it is asked for. -/
theorem not_allOrNothing_shape :
    ¬ AllOrNothing opened ((Request.click (.text "shape")).act.after opened) := by
  obtain ⟨htable, hforms⟩ :
      ((Request.click (.text "shape")).act.after opened).preview.table.isEmpty = true ∧
        ((Request.click (.text "shape")).act.after opened).panel.pages.registry.length ≠
          opened.panel.pages.registry.length := by
    decide +kernel
  rintro (⟨id, -, -, hlayer, -⟩ | ⟨hsame, -⟩)
  · rw [HasLayer, List.isEmpty_iff.mp htable] at hlayer
    cases hlayer
  · exact hforms (congrArg List.length hsame)

end WatchFace.Studio
