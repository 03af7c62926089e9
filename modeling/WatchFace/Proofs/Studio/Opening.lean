import WatchFace.Proofs.Studio.Building
import WatchFace.Proofs.Studio.Trail

/-!
# Opening forms

A form is put on a page of the panel by a command, under a key that is free. The commands that were undone before are
given up: the forms that they had added go.
-/

namespace WatchFace.Studio

open EStateM List

variable {id m : Int} {ids live : List Int} {pages : Pages Value Nat} {key other : Value} {s t : Studio}
  {layer : String}

/-! ### Looking forms up -/

section

variable {R : Studio → Studio → Prop} [IsPreorder Studio R]

theorem within_formOf? (key : Value) : Within R (formOf? key) := within_get.bind fun _ => within_pure _

theorem within_demandFree (key : Value) : Within R (demandFree key) := by
  have hfree : Within R (do if (← formOf? key).isSome then throw .unset : Act Unit) := by
    refine (within_formOf? key).bind fun found => ?_
    split
    · exact within_throw _
    · exact within_pure _
  unfold demandFree
  split
  · exact (within_throw _).bind fun _ => hfree
  · exact hfree

theorem within_channelOf (form : Nat) (name : String) : Within R (do
    let some f := (← part Studio.forms form).fields.lookup name | throw .noEntry
    pure (← Studio.field f).channel : Act Nat) := by
  refine (within_part _ form).bind fun x => ?_
  split
  · exact (within_part _ _).bind fun _ => within_pure _
  · exact within_throw _

theorem within_channelUnder (form : Nat) (title : Value) : Within R (channelUnder form title) := by
  unfold channelUnder
  split
  · dsimp only
    split
    · exact (within_throw _).bind fun _ => within_channelOf form _
    · exact within_channelOf form _
  · dsimp only
    split
    · exact (within_throw _).bind fun _ => within_throw _
    · exact within_throw _

end

/-! ### Opening forms -/

theorem int_beq (a b : Int) : (Value.int a == Value.int b) = decide (a = b) := by
  show (some (compare a b) == some Ordering.eq) = _
  by_cases h : a = b
  · subst h
    simp
  · simp [h]

theorem mem_of_int_beq {a b : Int} (h : (Value.int a == Value.int b) = true) (ha : a ∈ live) : b ∈ live := by
  rw [int_beq, decide_eq_true_eq] at h
  exact h ▸ ha

/-- A form is opened: there is one more, on a page under the key, and only forms that were taken back have gone. -/
structure Opened (layer : String) (key : Value) (s t : Studio) : Prop where
  channels : t.channels = s.channels
  fields : t.fields = s.fields
  items : t.items = s.items
  layers : t.layers = s.layers
  preview : t.preview = s.preview
  explorer : t.explorer = s.explorer
  families : t.families = s.families
  groups : t.groups = s.groups + 1
  forms : t.forms = s.forms ++ [{ layer := layer }]
  tranquil : t.Tranquil
  ids : t.panel.ids = s.panel.ids
  registry : ∃ old, t.panel.pages.registry = old ++ [(key, s.forms.length)] ∧
    old.Sublist s.panel.pages.registry ∧ (s.Tranquil → old = s.panel.pages.registry)

theorem find?_eq_none_of_sublist (h : pages.find? key = none) {old : List (Value × Nat)}
    (hsub : old.Sublist pages.registry) :
    old.find? (·.1 == key) = none := by
  rw [Pages.find?, Option.map_eq_none_iff, find?_eq_none] at h
  rw [find?_eq_none]
  exact fun e he => h e (hsub.mem he)

theorem pages_placed (p : Panel) (n : Nat) (key : Value) (switch : Bool) :
    (p.placed n key switch).ids = p.ids ∧ (p.placed n key switch).pages = (p.pages.add n key switch).1 := by
  have hnoted : ∀ q : Panel, q.noted.ids = q.ids ∧ q.noted.pages = q.pages := by
    intro q
    unfold Panel.noted
    dsimp only
    split <;> exact ⟨rfl, rfl⟩
  cases switch with
  | false => exact ⟨rfl, rfl⟩
  | true => exact hnoted _

theorem find?_cleared (h : s.panel.pages.find? key = none) : s.cleared.pages.find? key = none := by
  rw [Pages.find?, Option.map_eq_none_iff]
  exact find?_eq_none_of_sublist h s.cleared_ids_registry.2

/-- **A form is opened by a command**, once the forms that were taken back are given up. -/
theorem run_openForm (s : Studio) (layer : String) (key : Value) (switch : Bool) :
    (openForm layer key switch true).run s = .ok s.forms.length { s with
      forms := s.forms ++ [{ layer := layer }]
      groups := s.groups + 1
      panel := s.cleared.placed s.forms.length key switch
      history := s.history.push (.addForm s.forms.length key switch false) } := by
  let c : Command := .addForm s.forms.length key switch false
  let s₁ : Studio := { s with forms := s.forms ++ [{ layer := layer }], groups := s.groups + 1 }
  have hpush : (push reactions c).run s₁ = .ok () { s₁ with
      panel := s.cleared.placed s.forms.length key switch, history := (s.history.cut.add c).advance } := by
    rw [run_push]
    show run (placeForm s.forms.length key switch >>= _) _ = _
    rw [run_bind_ok (run_placeForm _ _ _ _)]
    rfl
  rw [← advance_add_cut]
  unfold openForm
  rw [run_bind_ok (run_get s)]
  show run (push reactions c >>= _) s₁ = _
  rw [run_bind_ok hpush]
  rfl

theorem exists_run_openForm (h : s.panel.pages.find? key = none) (layer : String) (switch : Bool) :
    ∃ t, (openForm layer key switch true).run s = .ok s.forms.length t ∧ Opened layer key s t := by
  obtain ⟨hids, hsub⟩ := s.cleared_ids_registry
  obtain ⟨hids', hpages⟩ := pages_placed s.cleared s.forms.length key switch
  refine ⟨_, run_openForm s layer key switch, rfl, rfl, rfl, rfl, rfl, rfl, rfl, rfl, rfl, ?_, hids'.trans hids,
    s.cleared.pages.registry, ?_, hsub, fun ht => by rw [cleared_of_tranquil ht]⟩
  case refine_2 => exact congrArg Pages.registry (hpages.trans (Pages.add_eq_of_free (find?_cleared h) _ _))
  rw [← advance_add_cut]
  exact tranquil_advance (tranquil_add (s := s) rfl)

theorem exists_run_openForm_int (hfree : ¬ s.HasForm id) (layer : String) (switch : Bool) :
    ∃ t, (openForm layer (.int id) switch true).run s = .ok s.forms.length t ∧ Opened layer (.int id) s t :=
  exists_run_openForm (Option.not_isSome_iff_eq_none.mp hfree) layer switch

theorem eq_of_run_demandFree (h : (demandFree key).run s = .ok () t) : t = s ∧ s.panel.pages.find? key = none := by
  have hsame : t = s := state_eq_of_keeps (within_demandFree key) h
  subst hsame
  refine ⟨rfl, ?_⟩
  cases hfind : t.panel.pages.find? key with
  | none => rfl
  | some form =>
    -- a key that is in use is refused
    have hform : (formOf? key).run t = .ok (some form) t := by
      rw [← hfind]
      rfl
    unfold demandFree at h
    split at h
    · cases h
    · rw [run_bind_ok hform] at h
      cases h

theorem exists_run_openForm_of_free (h : (demandFree key).run s = .ok () t) (layer : String) (switch : Bool) :
    ∃ u, (openForm layer key switch true).run t = .ok s.forms.length u ∧ Opened layer key s u := by
  obtain ⟨rfl, hfind⟩ := eq_of_run_demandFree h
  exact exists_run_openForm hfind layer switch

theorem Opened.hasForm (h : Opened layer key s t) (hm : t.HasForm m) : s.HasForm m ∨ (key == .int m) = true := by
  obtain ⟨old, hregistry, hsub, -⟩ := h.registry
  simp only [HasForm, Pages.find?, Option.isSome_map, find?_isSome] at hm ⊢
  obtain ⟨e, he, heq⟩ := hm
  rw [hregistry, mem_append, mem_singleton] at he
  obtain he | rfl := he
  · exact .inl ⟨e, hsub.mem he, heq⟩
  · exact .inr heq

theorem Opened.hasForm_self (h : Opened layer (.int id) s t) : t.HasForm id := by
  obtain ⟨old, hregistry, -⟩ := h.registry
  simp only [HasForm, Pages.find?, Option.isSome_map, find?_isSome]
  exact ⟨(.int id, s.forms.length), by rw [hregistry]; simp, by simp [int_beq]⟩

theorem Opened.hasForm_of (h : Opened layer key s t) (ht : s.Tranquil) (hm : s.HasForm m) : t.HasForm m := by
  obtain ⟨old, hregistry, -, hold⟩ := h.registry
  obtain rfl := hold ht
  simp only [HasForm, Pages.find?, Option.isSome_map, find?_isSome] at hm ⊢
  obtain ⟨e, he, heq⟩ := hm
  exact ⟨e, by rw [hregistry]; exact mem_append_left _ he, heq⟩

theorem Opened.find?_self (h : Opened layer (.int id) s t) (hfree : ¬ s.HasForm id) :
    t.panel.pages.find? (.int id) = some s.forms.length := by
  obtain ⟨old, hregistry, hsub, -⟩ := h.registry
  have hold := find?_eq_none_of_sublist (Option.not_isSome_iff_eq_none.mp hfree) hsub
  rw [Pages.find?, hregistry, find?_append, hold]
  simp [int_beq]

theorem Opened.find?_of (h : Opened layer key s t) (ht : s.Tranquil) {n : Nat}
    (hn : s.panel.pages.find? other = some n) : t.panel.pages.find? other = some n := by
  obtain ⟨old, hregistry, -, hold⟩ := h.registry
  obtain rfl := hold ht
  rw [Pages.find?, Option.map_eq_some_iff] at hn ⊢
  obtain ⟨e, he, rfl⟩ := hn
  exact ⟨e, by rw [hregistry, find?_append, he]; rfl, rfl⟩

/-- The ids are in order, and all forms but that of the watch face are under ids that were taken. -/
structure Filed (s : Studio) (live : List Int) : Prop where
  stocked : ∃ next free, Stocked s.panel.ids live next free
  forms : ∀ id, s.HasForm id → id = 1 ∨ id ∈ live

theorem Orderly.filed (h : s.Orderly live) : s.Filed live := ⟨h.stocked, h.forms⟩

theorem Filed.orderly (h : t.Filed live) (hs : s.Orderly live) (htable : t.preview.table = s.preview.table)
    (hlisted : t.explorer.items = s.explorer.items) : t.Orderly live := by
  refine ⟨h.stocked, h.forms, fun id hid => hs.layers id ?_, fun id hid => hs.items id ?_⟩
  · rwa [HasLayer, htable] at hid
  · rwa [HasItem, hlisted] at hid

theorem Filed.of_panel (h : s.Filed live) (hpanel : t.panel = s.panel) : t.Filed live := by
  refine ⟨hpanel ▸ h.stocked, fun id hid => h.forms id ?_⟩
  rwa [HasForm, hpanel] at hid

theorem Opened.filed (h : Opened layer key s t) (hs : s.Filed live) (hkey : ∀ m, (key == .int m) = true → m ∈ live) :
    t.Filed live :=
  ⟨h.ids ▸ hs.stocked, fun m hm => (h.hasForm hm).elim (hs.forms m) fun hm => .inr (hkey m hm)⟩

theorem Opened.orderly (h : Opened layer key s t) (hs : s.Orderly live) (hkey : ∀ m, (key == .int m) = true → m ∈ live) :
    t.Orderly live := (h.filed hs.filed hkey).orderly hs (by rw [h.preview]) (by rw [h.explorer])

theorem exists_of_run_takeId (h : takeId.run s = .ok id t) : ∃ ids, t = s.withIds ids := by
  unfold takeId at h
  rw [run_bind_ok (run_get s)] at h
  dsimp only at h
  split at h
  · obtain ⟨-, rfl⟩ := Result.ok.inj h
    exact ⟨_, rfl⟩
  · cases h

theorem exists_of_run_openNested {α : Type} {rest : Int → Nat → Act α} {a : α} (h : (do
      let id ← takeId
      demandFree (.int id)
      let n ← openForm layer (.int id) false true
      rest id n).run s = .ok a t) :
    ∃ id ids u, takeId.run s = .ok id (s.withIds ids) ∧ Opened layer (.int id) (s.withIds ids) u ∧
      (rest id s.forms.length).run u = .ok a t := by
  obtain ⟨id, s', htake, h⟩ := exists_of_run_bind_ok h
  obtain ⟨ids, rfl⟩ := exists_of_run_takeId htake
  obtain ⟨⟨⟩, s', hfree, h⟩ := exists_of_run_bind_ok h
  obtain ⟨u, hopen, hu⟩ := exists_run_openForm_of_free hfree layer false
  rw [run_bind_ok hopen] at h
  exact ⟨id, ids, u, htake, hu, h⟩

theorem Filed.take (h : s.Filed live) : ∃ id ids, takeId.run s = .ok id (s.withIds ids) ∧ id ∉ live ∧ ¬ s.HasForm id ∧
      (s.withIds ids).Filed (id :: live) := by
  obtain ⟨next, free, hstocked⟩ := h.stocked
  obtain ⟨id, t, next', free', hrun, hlive, hone, hstocked'⟩ := hstocked.take
  obtain ⟨ids, rfl⟩ := exists_of_run_takeId hrun
  refine ⟨id, ids, hrun, hlive, fun hform => ?_, ⟨next', free', hstocked'⟩, fun m hm => ?_⟩
  · exact (h.forms id hform).elim hone hlive
  · exact (h.forms m hm).imp_right (.tail _)

theorem Orderly.take (h : s.Orderly live) :
    ∃ id ids, takeId.run s = .ok id (s.withIds ids) ∧ id ∉ live ∧ ¬ s.HasForm id ∧
      (s.withIds ids).Orderly (id :: live) := by
  obtain ⟨id, ids, hrun, hlive, hfree, hfiled⟩ := h.filed.take
  exact ⟨id, ids, hrun, hlive, hfree, hfiled.stocked, hfiled.forms, fun m hm => .tail _ (h.layers m hm),
    fun m hm => .tail _ (h.items m hm)⟩

theorem Adds.openForm {u : Studio} (h : Adds u s) (htake : takeId.run s = .ok id (s.withIds ids))
    (ht : Opened layer (.int id) (s.withIds ids) t) :
    Adds u t where
  length := by rw [ht.channels]; exact h.length
  channels := by rw [ht.channels]; exact h.channels
  fields f x hx := by rw [FieldKept, ht.fields]; exact h.fields f x hx
  ports := by rw [ht.items]; exact h.ports
  layers := by rw [ht.layers]; exact h.layers
  preview := ht.preview.trans h.preview
  listed := by rw [ht.explorer]; exact h.listed
  tranquil := ht.tranquil
  forms m hm := ht.hasForm_of h.tranquil (h.forms m hm)
  orderly live hlive := by
    obtain ⟨more, hs⟩ := h.orderly live hlive
    obtain ⟨id', ids', hrun, -, -, horderly⟩ := hs.take
    obtain ⟨rfl, hids⟩ := Result.ok.inj (htake.symm.trans hrun)
    rw [← hids] at horderly
    exact ⟨id :: more, ht.orderly horderly fun m hm => mem_of_int_beq hm mem_cons_self⟩

theorem run_demandFree (h : ¬ s.HasForm id) : (demandFree (.int id)).run s = .ok () s := by
  have hget : (formOf? (.int id)).run s = .ok (s.panel.pages.find? (.int id)) s := rfl
  unfold demandFree
  show run (formOf? (.int id) >>= _) s = _
  have hnone : ¬ (s.panel.pages.find? (.int id)).isSome = true := h
  rw [run_bind_ok hget, if_neg hnone]
  rfl

end WatchFace.Studio
