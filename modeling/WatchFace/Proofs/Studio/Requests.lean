import WatchFace.Proofs.Studio.Introducing

/-!
# Asking for components

A component is asked for by a click on its type or by dropping the type on the preview. It gets an id
and a form, and then it is brought to the preview and to the explorer.
-/

namespace WatchFace.Studio

open EStateM Catalog
open List hiding lookup

variable {s t : Studio} {i id : Int} {c d : Component} {ids live : List Int} {name : String} {α : Type}
  {pos : Value} {table : List (String × Nat)}

/-! ### Components that can be summoned -/

def isComplete (c : Component) : Bool := c.attributes.all (fits (schemaOf c.layer))

def isDrawn (c : Component) : Bool := !Sketch.isOwnType c.layer

def isListed (c : Component) : Bool :=
  ["Name", "Layer"].all (c.attributes.flatMap (titlesIn (schemaOf c.layer))).contains

/-- A component whose attributes can all be carried and are angles where its layer needs them. -/
def IsRegular (c : Component) : Prop :=
  ∀ a ∈ c.attributes, Regular (steeringOf c.layer) (schemaOf c.layer) a

theorem isRegular_components : ∀ e ∈ components, IsRegular e.2 := by
  unfold IsRegular
  decide +kernel

/-- A component is built under an id: it gets a form, and is brought to the preview and to the explorer. -/
def build (id : Int) (e : Entry) : Act Unit := do
  let (key, layer, channels) ← addForm e (some (.int id)) true true
  calmly (introduce layer channels key)
  endGroup

theorem Lays.laid {parts : List (String × Layer.Part)} {titles : List String}
    (h : Lays parts titles [] table s t) :
    Laid parts table t := by
  have hnew : ∀ e ∈ table, s.channels.length ≤ e.2 ∧ e.2 < t.channels.length ∧ t.Plumb parts e :=
    fun e he => (h.entries e he).resolve_left not_mem_nil
  refine ⟨fun e he => ?_, fun e he => (hnew e he).2.2, h.adds.tranquil⟩
  exact h.sound e.2 (hnew e he).1 (hnew e he).2.1

structure Built (id : Int) (c : Component) (s t : Studio) : Prop where
  form : t.HasForm id
  layers : ∀ m, t.HasLayer m ↔ s.HasLayer m ∨ (isComplete c = true ∧ isDrawn c = true) ∧ m = id
  items : ∀ m, t.HasItem m ↔ s.HasItem m ∨ (isComplete c = true ∧ isListed c = true) ∧ m = id

theorem run_addForm {key : Value} (hfree : (demandFree key).run s = .ok () s)
    (hopen : (openForm c.layer key true true).run s = .ok s.forms.length t) :
    (addForm (.component c) (some key) true true).run s = (do
        let channels ← addAttributes s.forms.length (schemaOf c.layer) [] c.attributes
        pure (key, c.layer, channels) : Act (Value × String × List (String × Nat))).run t := by
  unfold addForm
  rw [Option.getD_some, run_bind_ok hfree]
  show run (openForm c.layer key true true >>= _) s = _
  rw [run_bind_ok hopen]

theorem after_build {u : Studio} (hfree : ¬ s.HasForm id)
    (hopen : (openForm c.layer (.int id) true true).run s = .ok s.forms.length t)
    (hfill : (addAttributes s.forms.length (schemaOf c.layer) [] c.attributes).run t = .ok table u) :
    let v := (introduce c.layer table (.int id)).after u
    (build id (.component c)).after s = { v with groups := v.groups - 1 } := by
  have hok : (addForm (.component c) (some (.int id)) true true).run s = .ok (.int id, c.layer, table) u := by
    rw [run_addForm (run_demandFree hfree) hopen, run_bind_ok hfill]
    rfl
  unfold build
  rw [after_bind_ok hok]
  show after (calmly (introduce c.layer table (.int id)) >>= _) u = _
  rw [after_bind_ok (run_calmly _ u)]
  rfl

/-- **A component that is built gets its form.** It comes to the preview if it is complete and drawn, and to the
    explorer if it is complete and listed. -/
theorem built_build (h : s.Orderly live) (hid : id ∈ live) (hfree : ¬ s.HasForm id) (hc : IsRegular c) :
    Built id c s ((build id (.component c)).after s) ∧
      ∃ more, ((build id (.component c)).after s).Orderly (more ++ live) := by
  obtain ⟨t, hopen, ht⟩ := exists_run_openForm_int hfree c.layer true
  have hform : t.HasForm id := ht.hasForm_self
  have horderly : t.Orderly live := ht.orderly h fun m hm => mem_of_int_beq hm hid
  have hlayout := answers_layout s.forms.length hc ht.tranquil horderly []
  have hpreview := ht.preview
  have hexplorer := ht.explorer
  cases hcomplete : isComplete c with
  | false =>
    rw [show c.attributes.all (fits (schemaOf c.layer)) = false from hcomplete] at hlayout
    obtain ⟨e, u, hrun, hu⟩ := hlayout
    have hfail : (addForm (.component c) (some (.int id)) true true).run s = .error e u := by
      rw [run_addForm (run_demandFree hfree) hopen, run_bind_error hrun]
    rw [build, after_bind_error hfail]
    refine ⟨⟨hu.forms id hform, fun m => ?_, fun m => ?_⟩, hu.orderly live horderly⟩
    · rw [HasLayer, hu.preview, hpreview]
      simp [HasLayer, hcomplete]
    · rw [HasItem, hu.listed, hexplorer]
      simp [HasItem, hcomplete]
  | true =>
    rw [show c.attributes.all (fits (schemaOf c.layer)) = true from hcomplete] at hlayout
    obtain ⟨table, u, hrun, hu⟩ := hlayout
    obtain ⟨hpanel, hlayers, hitems⟩ := hu.laid.introduce id
    rw [after_build hfree hopen hrun]
    generalize (introduce c.layer table (.int id)).after u = v at hpanel hlayers hitems
    have hlisted : isListed c = true ↔ "Name" ∈ titlesOf table ∧ "Layer" ∈ titlesOf table := by
      rw [hu.titles, hu.titles]
      simp [isListed, titlesOf]
    have hlayer : ∀ m, v.HasLayer m ↔ s.HasLayer m ∨ (isComplete c = true ∧ isDrawn c = true) ∧ m = id := by
      intro m
      rw [hlayers, HasLayer, hu.adds.preview, hpreview]
      simp [HasLayer, isDrawn, hcomplete]
    have hitem : ∀ m, v.HasItem m ↔ s.HasItem m ∨ (isComplete c = true ∧ isListed c = true) ∧ m = id := by
      intro m
      rw [hitems, HasItem, hu.adds.listed, hexplorer, hlisted]
      simp [HasItem, hcomplete]
    obtain ⟨more, hmore⟩ := hu.adds.orderly live horderly
    have hfiled : v.Filed (more ++ live) := hmore.filed.of_panel hpanel
    refine ⟨⟨?_, hlayer, hitem⟩, more, hfiled.stocked, hfiled.forms, fun m hm => ?_, fun m hm => ?_⟩
    · show (v.panel.pages.find? (.int id)).isSome
      rw [hpanel]
      exact hu.adds.forms id hform
    · obtain hm | ⟨-, rfl⟩ := (hlayer m).mp hm
      · exact mem_append_right _ (h.layers m hm)
      · exact mem_append_right _ hid
    · obtain hm | ⟨-, rfl⟩ := (hitem m).mp hm
      · exact mem_append_right _ (h.items m hm)
      · exact mem_append_right _ hid

/-! ### Requests -/

section

variable {R : Studio → Studio → Prop} [IsPreorder Studio R]

theorem within_packUpTo (depth form : Nat) : Within R (packUpTo depth form) := by
  induction depth generalizing form with
  | zero => exact within_throw _
  | succ depth ih =>
    unfold packUpTo
    refine (within_part _ _).bind fun form => Within.bind (Within.mapM fun e _ => ?_) fun _ => within_pure _
    obtain ⟨title, f⟩ := e
    refine (within_part _ _).bind fun x => ?_
    split
    · split
      · exact (ih _).bind fun _ => within_pure _
      · exact within_throw _
    · exact within_pure _

theorem within_namedEntry (type : Value) : Within R (namedEntry type) := by
  unfold namedEntry
  split
  · exact within_require _
  · exact within_throw _

theorem within_sourceOf (type : Value) : Within R (sourceOf type) := by
  unfold sourceOf
  dsimp only
  split
  · exact within_throw _
  · refine (within_formOf? type).bind fun form => ?_
    cases form with
    | none => exact within_namedEntry type
    | some form =>
      refine Within.tryCatch ?_ fun e => ?_
      · refine Within.bind ?_ fun _ => within_pure _
        exact within_get.bind fun s => within_packUpTo _ _
      · split
        · exact within_namedEntry type
        · exact within_throw _

end

theorem after_sourceOf (type : Value) (s : Studio) : (sourceOf type).after s = s :=
  within_sourceOf (R := Keeps fun s : Studio => s) type s

/-- How a component is asked for: by a click on its type, or by dropping it at a position. -/
inductive Request where
  | click (type : Value)
  | drop (type pos : Value)

variable {r : Request}

namespace Request

def act : Request → Act Unit
  | .click type => offer type none none
  | .drop type pos => place type (some pos) (some (.int 0))

def start : Request → Act (Int × Entry)
  | .click type => do
    let e ← sourceOf type
    return (← takeId, e)
  | .drop type pos => do
    let id ← takeId
    let e ← require (Entry.at (← sourceOf type) pos)
    return (id, e)

def Asks (r : Request) (s : Studio) (id : Int) (c : Component) : Prop :=
  ∃ t, r.start.run s = .ok (id, .component c) t

def Regular (r : Request) (s : Studio) : Prop := ∀ id c, r.Asks s id c → IsRegular c

theorem after_act (r : Request) (s : Studio) : r.act.after s = (r.start >>= fun x => build x.1 x.2).after s := by
  cases r with
  | click type =>
    have hsummon : summon introduce type none none = start (.click type) >>= fun x => build x.1 x.2 := by
      simp only [summon, start, build, bind_assoc, pure_bind]
    show (calmly (summon introduce type none none)).after s = _
    rw [after_of_ok (run_calmly _ s), hsummon]
  | drop type pos =>
    have hplace : place type (some pos) (some (.int 0)) =
        takeId >>= fun id => offer type (some pos) (some (.int id)) := by
      have hzero : (some (Value.int 0)).any (· == .int 0) = true := rfl
      simp only [place, hzero, if_true, pure_bind]
    have hsummon : ∀ id, summon introduce type (some pos) (some (.int id)) =
        (do let e ← require (Entry.at (← sourceOf type) pos); build id e) := by
      intro id
      simp only [summon, build, pure_bind]
    have hstart : (start (.drop type pos) >>= fun x => build x.1 x.2) = takeId >>= fun id =>
        (do let e ← require (Entry.at (← sourceOf type) pos); build id e) := by
      simp only [start, bind_assoc, pure_bind]
    show (place type (some pos) (some (.int 0))).after s = _
    rw [hplace, hstart]
    cases htake : takeId.run s with
    | error e t => rw [after_bind_error htake, after_bind_error htake]
    | ok id t =>
      rw [after_bind_ok htake, after_bind_ok htake, ← hsummon]
      exact after_of_ok (run_calmly _ t)

theorem start_cases (r : Request) (h : s.Orderly live) :
    (∃ id e ids, r.start.run s = .ok (id, e) (s.withIds ids) ∧ id ∉ live ∧ ¬ s.HasForm id ∧
      (s.withIds ids).Orderly (id :: live)) ∨
    ∃ e ids more, r.start.run s = .error e (s.withIds ids) ∧ (s.withIds ids).Orderly (more ++ live) := by
  obtain ⟨id, ids, htake, hid, hfree, horderly⟩ := h.take
  cases r with
  | click type =>
    have hsame := after_sourceOf type s
    unfold start
    cases hsource : (sourceOf type).run s with
    | error e t =>
      obtain rfl : t = s := (after_of_error hsource).symm.trans hsame
      exact .inr ⟨e, _, [], run_bind_error hsource, h⟩
    | ok e t =>
      obtain rfl : t = s := (after_of_ok hsource).symm.trans hsame
      refine .inl ⟨id, e, ids, ?_, hid, hfree, horderly⟩
      rw [run_bind_ok hsource, run_bind_ok htake]
      rfl
  | drop type pos =>
    have hsame := after_sourceOf type (s.withIds ids)
    unfold start
    rw [run_bind_ok htake]
    cases hsource : (sourceOf type).run (s.withIds ids) with
    | error e t =>
      obtain rfl : t = s.withIds ids := (after_of_error hsource).symm.trans hsame
      exact .inr ⟨e, ids, [id], run_bind_error hsource, horderly⟩
    | ok e t =>
      obtain rfl : t = s.withIds ids := (after_of_ok hsource).symm.trans hsame
      rw [run_bind_ok hsource]
      cases Entry.at e pos with
      | error e => exact .inr ⟨e, ids, [id], rfl, horderly⟩
      | ok e => exact .inl ⟨id, e, ids, rfl, hid, hfree, horderly⟩

def Unchanged (s t : Studio) : Prop :=
  t.panel.pages.registry = s.panel.pages.registry ∧ t.preview.table = s.preview.table ∧
    t.explorer.items = s.explorer.items

/-- **What comes of a request**: a component is built under a new id, or nothing changes. -/
theorem act_cases (r : Request) (h : s.Orderly live) (hr : r.Regular s) :
    (∃ id c, r.Asks s id c ∧ id ∉ live ∧ ¬ s.HasForm id ∧ Built id c s (r.act.after s) ∧
      ∃ more, (r.act.after s).Orderly (more ++ id :: live)) ∨
    (∀ id c, ¬ r.Asks s id c) ∧ Unchanged s (r.act.after s) ∧ ∃ more, (r.act.after s).Orderly (more ++ live) := by
  rw [r.after_act]
  obtain ⟨id, e, ids, hstart, hid, hfree, horderly⟩ | ⟨e, ids, more, hstart, horderly⟩ := r.start_cases h
  · rw [after_bind_ok hstart]
    have hdemand : (demandFree (.int id)).run (s.withIds ids) = .ok () (s.withIds ids) :=
      run_demandFree hfree
    -- what is no component cannot have a form
    have hother : (∀ c, e ≠ .component c) → (build id e).after (s.withIds ids) = s.withIds ids := by
      intro hne
      cases e
      case component c => exact absurd rfl (hne c)
      all_goals
        refine after_bind_error (run_bind_ok hdemand)
    by_cases hcomponent : ∃ c, e = .component c
    · obtain ⟨c, rfl⟩ := hcomponent
      have hasks : r.Asks s id c := ⟨_, hstart⟩
      obtain ⟨hbuilt, hmore⟩ := built_build horderly mem_cons_self hfree (hr id c hasks)
      exact .inl ⟨id, c, hasks, hid, hfree, ⟨hbuilt.form, hbuilt.layers, hbuilt.items⟩, hmore⟩
    · have hne : ∀ c, e ≠ .component c := fun c hc => hcomponent ⟨c, hc⟩
      refine .inr ⟨fun id' c ⟨t, hasks⟩ => ?_, ?_⟩
      · rw [hstart] at hasks
        exact hne c (congrArg Prod.snd (Result.ok.inj hasks).1)
      · rw [hother hne]
        exact ⟨⟨rfl, rfl, rfl⟩, [id], horderly⟩
  · refine .inr ⟨fun id c ⟨t, hasks⟩ => ?_, ?_⟩
    · rw [hstart] at hasks
      cases hasks
    · rw [after_bind_error hstart]
      exact ⟨⟨rfl, rfl, rfl⟩, more, horderly⟩

theorem Asks.exists_after_act (h : r.Asks s id c) (hlive : s.Orderly live) :
    ∃ ids, r.act.after s = (build id (.component c)).after (s.withIds ids) ∧ ¬ s.HasForm id ∧
      (s.withIds ids).Orderly (id :: live) := by
  obtain ⟨t, hstart⟩ := h
  obtain ⟨id', e, ids, hrun, -, hfree, horderly⟩ | ⟨e, ids, more, hrun, -⟩ := r.start_cases hlive
  · obtain ⟨heq, rfl⟩ := Result.ok.inj (hrun.symm.trans hstart)
    obtain ⟨rfl, rfl⟩ := Prod.mk.inj heq
    exact ⟨ids, by rw [r.after_act, after_bind_ok hrun], hfree, horderly⟩
  · rw [hrun] at hstart
    cases hstart

theorem Asks.exists_orderly (h : r.Asks s id c) (hc : IsRegular c) (hlive : s.Orderly live) :
    ∃ live', (r.act.after s).Orderly live' := by
  obtain ⟨ids, hafter, hfree, horderly⟩ := h.exists_after_act hlive
  obtain ⟨-, more, hmore⟩ := built_build horderly mem_cons_self hfree hc
  exact ⟨_, hafter ▸ hmore⟩

end Request

/-! ### Components of the catalog -/

theorem run_sourceOf (h : s.panel.pages.find? (.text name) = none) :
    (sourceOf (.text name)).run s = (require (lookup name)).run s := by
  have hform : (formOf? (.text name)).run s = .ok none s := by
    rw [← h]
    rfl
  unfold sourceOf
  show run (formOf? (.text name) >>= _) s = _
  rw [run_bind_ok hform]
  rfl

theorem eq_ok_of_require {x : Except Fault α} {a : α} (h : (require x).run s = .ok a t) : x = .ok a := by
  cases x with
  | error e => cases h
  | ok b => exact congrArg Except.ok (Result.ok.inj h).1

theorem mem_components_of_lookup (h : lookup name = .ok (.component c)) : (name, c) ∈ components := by
  unfold lookup lookup? at h
  split at h
  case h_2 => cases h
  case h_1 e heq =>
    obtain rfl : e = .component c := Except.ok.inj h
    split at heq
    · cases heq
    · split at heq
      case h_1 d hd =>
        obtain rfl : d = c := Entry.component.inj (Option.some.inj heq)
        obtain ⟨l₁, l₂, hsplit, -⟩ := lookup_eq_some_iff.mp hd
        rw [hsplit]
        simp
      case h_2 =>
        split at heq <;> cases heq

theorem isRegular_of_lookup (h : lookup name = .ok (.component c)) : IsRegular c :=
  isRegular_components (name, c) (mem_components_of_lookup h)

theorem exists_of_mem_mapM {β ε : Type} {f : α → Except ε β} {l : List α} {m : List β} (h : l.mapM f = .ok m) {b : β}
    (hb : b ∈ m) : ∃ a ∈ l, f a = .ok b := by
  induction l generalizing m with
  | nil =>
    obtain rfl : [] = m := Except.ok.inj h
    exact absurd hb not_mem_nil
  | cons a l ih =>
    rw [mapM_cons] at h
    obtain ⟨b', ha, h⟩ := exists_of_bind_eq_ok h
    obtain ⟨m', hl, h⟩ := exists_of_bind_eq_ok h
    obtain rfl : b' :: m' = m := Except.ok.inj h
    obtain rfl | hb := mem_cons.mp hb
    · exact ⟨a, mem_cons_self, ha⟩
    · obtain ⟨a', ha', hf⟩ := ih hl hb
      exact ⟨a', .tail _ ha', hf⟩

theorem mem_of_nth {xs : List α} {x : α} (h : Value.nth xs i = .ok x) : x ∈ xs := by
  unfold Value.nth at h
  generalize (if i < 0 then i + xs.length else i) = j at h
  dsimp only at h
  by_cases hj : j < 0
  · rw [if_pos hj] at h
    cases h
  · rw [if_neg hj] at h
    cases hx : xs[j.toNat]? with
    | none =>
      rw [hx] at h
      cases h
    | some y =>
      rw [hx] at h
      cases h
      exact mem_of_getElem? hx

theorem IsRegular.at (h : IsRegular c) (hpos : ∀ i v, pos.part (.int i) = .ok v → v.Carries)
    (hd : Entry.at (.component c) pos = .ok (.component d)) : IsRegular d := by
  -- no layer needs a coordinate as an angle
  have hcoordinate : ∀ title ∈ ["X", "Y"], ∀ p, (title, p) ∉ steeringOf c.layer := by
    intro title htitle p
    unfold steeringOf
    split
    · exact not_mem_nil
    · revert p
      revert title
      decide
  have hput : ∀ {a b : Attribute} (i : Int), a.title ∈ ["X", "Y"] →
      (do return Attribute.value a.title (← pos.part (.int i)) a.description) = Except.ok (ε := Fault) b →
        Regular (steeringOf c.layer) (schemaOf c.layer) b := by
    intro a b i htitle hb
    obtain ⟨v, hpart, hb⟩ := exists_of_bind_eq_ok hb
    obtain rfl := Except.ok.inj hb
    exact ⟨hpos i v hpart, fun p hp => absurd hp (hcoordinate _ htitle p)⟩
  unfold Entry.at at hd
  dsimp only at hd
  obtain ⟨as, hmap, hd⟩ := exists_of_bind_eq_ok hd
  obtain rfl : { c with attributes := as } = d := Entry.component.inj (Except.ok.inj hd)
  intro b hb
  obtain ⟨a, ha, hab⟩ := exists_of_mem_mapM hmap hb
  unfold withPosition at hab
  dsimp only at hab
  split at hab
  case h_1 htitle => exact hput 0 (by simp [htitle]) hab
  case h_2 htitle => exact hput 1 (by simp [htitle]) hab
  case h_3 =>
    obtain rfl := Except.ok.inj hab
    exact h a ha

namespace Request

section

variable {s : Studio} {name : String} (h : s.panel.pages.find? (.text name) = none)

include h

theorem asks_click (hlookup : lookup name = .ok (.component c)) (htake : takeId.run s = .ok id t) :
    (click (.text name)).Asks s id c := by
  have hsource : (sourceOf (.text name)).run s = .ok (.component c) s := by
    rw [run_sourceOf h, hlookup]
    rfl
  refine ⟨t, ?_⟩
  unfold start
  rw [run_bind_ok hsource, run_bind_ok htake]
  rfl

theorem asks_drop {e : Entry} (hlookup : lookup name = .ok e) (hat : Entry.at e pos = .ok (.component c))
    (htake : takeId.run s = .ok id (s.withIds ids)) : (drop (.text name) pos).Asks s id c := by
  have hsource : (sourceOf (.text name)).run (s.withIds ids) = .ok e (s.withIds ids) := by
    rw [run_sourceOf (s := s.withIds ids) h, hlookup]
    rfl
  refine ⟨s.withIds ids, ?_⟩
  unfold start
  rw [run_bind_ok htake, run_bind_ok hsource, hat]
  rfl

theorem regular_click : (click (.text name)).Regular s := by
  rintro id c ⟨t, hrun⟩
  obtain ⟨e, t₁, hsource, hrun⟩ := exists_of_run_bind_ok hrun
  obtain ⟨id', t₂, -, hrun⟩ := exists_of_run_bind_ok hrun
  obtain ⟨heq, -⟩ := Result.ok.inj hrun
  obtain rfl : e = .component c := congrArg Prod.snd heq
  rw [run_sourceOf h] at hsource
  exact isRegular_of_lookup (eq_ok_of_require hsource)

theorem regular_drop (hpos : ∀ i v, pos.part (.int i) = .ok v → v.Carries) : (drop (.text name) pos).Regular s := by
  have hpages : Within (Keeps fun s : Studio => s.panel.pages) takeId := by
    refine within_get.bind fun s => ?_
    dsimp only
    split
    · exact Within.bind (fun _ => rfl) fun _ => within_pure _
    · exact within_throw _
  rintro id c ⟨t, hrun⟩
  obtain ⟨id', t₁, htake, hrun⟩ := exists_of_run_bind_ok hrun
  obtain ⟨e, t₂, hsource, hrun⟩ := exists_of_run_bind_ok hrun
  obtain ⟨e', t₃, hat, hrun⟩ := exists_of_run_bind_ok hrun
  obtain ⟨heq, -⟩ := Result.ok.inj hrun
  obtain rfl : e' = .component c := congrArg Prod.snd heq
  have hsame : t₁.panel.pages = s.panel.pages := by
    have hkeep := hpages s
    rwa [after_of_ok htake] at hkeep
  rw [run_sourceOf (hsame ▸ h)] at hsource
  have hlookup := eq_ok_of_require hsource
  have hcomponent := eq_ok_of_require hat
  cases e with
  | component d => exact (isRegular_of_lookup hlookup).at hpos hcomponent
  | maker => cases hcomponent
  | schema kinds =>
    have hother : ∀ x : Except Fault PUnit, (x >>= fun _ => Except.ok (Entry.schema kinds)) ≠
        .ok (.component c) := by
      intro x hx
      cases x <;> cases hx
    exact absurd hcomponent (hother _)

end

end Request

end WatchFace.Studio
