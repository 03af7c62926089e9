import WatchFace.Console.Panel
import WatchFace.Proofs.Studio.Resting
import WatchFace.Proofs.Studio.Summons

/-!
# Going from form to form

The last place of the trail is the form that is shown as long as nobody goes back further than the trail leads. Undoing
the command that showed a form goes back as well, in states in which the trail may be shorter than it was when the form
was added.
-/

namespace WatchFace

open EStateM Catalog List

variable {s : Studio} {kind : Kind} {p : Studio.Panel} {α : Type}

namespace Studio

/-! ### What holds along a run -/

def Command.AddsForm : Command → Prop
  | .addForm form _ _ _ => form ≠ 0
  | _ => False

/-- All choices are at rest, the trail is traced, and the history holds forms that were added. -/
structure Tracked (s : Studio) : Prop where
  restful : s.Restful
  grounded : s.panel.Grounded
  traced : s.panel.Traced
  forms : 0 < s.forms.length
  kept : ∀ c ∈ s.history.commands, c.AddsForm
  bound : s.history.index ≤ s.history.commands.length

def Current (s : Studio) : Prop := s.Tracked ∧ s.history.dropped = []

/-- Pages, trail and history are the same, and who was at rest is so still. -/
structure Idle (s t : Studio) : Prop where
  pages : t.panel.pages = s.panel.pages
  opened : t.panel.opened = s.panel.opened
  deleted : t.panel.deleted = s.panel.deleted
  history : t.history = s.history
  forms : s.forms.length ≤ t.forms.length
  restful : s.Restful → t.Restful

instance : IsPreorder Studio Idle where
  refl _ := ⟨rfl, rfl, rfl, rfl, Nat.le_refl _, id⟩
  trans _ _ _ hst htu := ⟨htu.pages.trans hst.pages, htu.opened.trans hst.opened,
    htu.deleted.trans hst.deleted, htu.history.trans hst.history, Nat.le_trans hst.forms htu.forms,
    htu.restful ∘ hst.restful⟩

section

variable {s t : Studio}

theorem Tracked.of_idle (hs : s.Tracked) (h : Idle s t) : t.Tracked := by
  obtain ⟨hpages, hopened, hdeleted, hhistory, hforms, hrest⟩ := h
  obtain ⟨home, bottom, shown, opened, deleted⟩ := hs.grounded
  have htraced := hs.traced
  refine ⟨hrest hs.restful, ⟨?_, ?_, ?_, ?_, ?_⟩, ?_, Nat.lt_of_lt_of_le hs.forms hforms, ?_, ?_⟩
  · rwa [hpages]
  · rwa [hpages]
  · rwa [hpages]
  · rwa [hpages, hopened]
  · rwa [hdeleted]
  · rwa [Panel.Traced, hpages, hopened]
  · rw [hhistory]
    exact hs.kept
  · rw [hhistory]
    exact hs.bound

theorem Current.of_idle (hs : s.Current) (h : Idle s t) : t.Current := by
  refine ⟨hs.1.of_idle h, ?_⟩
  rw [h.history]
  exact hs.2

theorem Idle.of_stilled (h : Stilled s t) : Idle s t := by
  obtain ⟨hrest, hbeside⟩ := h
  have hpanel : t.panel = s.panel := by rw [hbeside]
  have hforms : t.forms = s.forms := by rw [hbeside]
  exact ⟨by rw [hpanel], by rw [hpanel], by rw [hpanel], by rw [hbeside], Nat.le_of_eq (by rw [hforms]),
    fun _ => hrest⟩

theorem Idle.of_eq (hfields : t.fields = s.fields) (hchannels : t.channels = s.channels)
    (hfamilies : t.families = s.families) (hpanel : ∃ ids, t.panel = { s.panel with ids := ids })
    (hhistory : t.history = s.history) (hforms : s.forms.length ≤ t.forms.length) : Idle s t := by
  obtain ⟨ids, hids⟩ := hpanel
  refine ⟨by rw [hids], by rw [hids], by rw [hids], hhistory, hforms, fun hs => ?_⟩
  refine hs.of_fields hfamilies hchannels fun f x hx => ⟨x, ?_, rfl, rfl⟩
  rwa [hfields]

end

theorem current_of_idle {act : Act α} (h : Within Idle act) : Within (Upholds Current) act :=
  fun s hs => hs.of_idle (h s)

theorem tracked_of_idle {act : Act α} (h : Within Idle act) : Within (Upholds Tracked) act :=
  fun s hs => hs.of_idle (h s)

/-! ### Parts that stay on the spot -/

theorem idle_takeId : Within Idle takeId := by
  refine within_get.bind fun s => ?_
  dsimp only
  split
  · exact Within.bind (fun s => .of_eq rfl rfl rfl ⟨_, rfl⟩ rfl (Nat.le_refl _)) fun _ => within_pure _
  · exact within_throw _

theorem idle_changeForm (n : Nat) (g : Form → Form) : Within Idle (changeForm n g) := by
  intro s
  refine .of_eq rfl rfl rfl ⟨_, rfl⟩ rfl ?_
  show s.forms.length ≤ (s.forms.modify n g).length
  simp

theorem idle_endGroup : Within Idle endGroup :=
  fun _ => .of_eq rfl rfl rfl ⟨_, rfl⟩ rfl (Nat.le_refl _)

theorem idle_note (n : Note) : Within Idle (note n) :=
  fun _ => .of_eq rfl rfl rfl ⟨_, rfl⟩ rfl (Nat.le_refl _)

/-! ### Adding fields -/

theorem idle_addField {form c : Nat} {title description : String} {v : Value}
    (h : Stilled s ((makeField title v description kind c).after s)) :
    Idle s ((addField form title v description kind c).after s) := by
  have hmake : Idle s ((makeField title v description kind c).after s) := .of_stilled h
  have hrecord : ∀ f, Within Idle (changeField f fun x => { x with recorded := true }) := by
    intro f t
    refine ⟨rfl, rfl, rfl, rfl, Nat.le_refl _, fun ht => ht.of_fields rfl rfl fun g x hx => ?_⟩
    show ∃ y, (t.fields.modify f _)[g]? = some y ∧ _
    rw [getElem?_modify, hx]
    by_cases hfg : f = g <;> simp [hfg]
  refine within_bind_at hmake fun f => (hrecord f).bind fun _ => idle_changeForm form _

theorem idle_addChannel : Within Idle addChannel := fun _ =>
  ⟨rfl, rfl, rfl, rfl, Nat.le_refl _, fun hs => hs.withChannel⟩

theorem idle_addField_new (form : Nat) (title description : String) (v : Value) (hkind : kind.Unlisted) :
    ∀ s : Studio, s.Restful →
      Idle s ((addField form title v description kind s.channels.length).after s.withChannel) := by
  intro s hs
  have hnew : s.withChannel.channels[s.channels.length]? = some {} := by simp [withChannel]
  have hchannel : Idle s s.withChannel := idle_addChannel s
  exact trans_of Idle hchannel (idle_addField (stilled_makeField hs.withChannel title description hkind hnew))

/-! ### Opening forms -/

theorem Tracked.grounded_cleared (h : s.Tracked) : s.cleared.Grounded := by
  refine foldlRecOn (motive := Panel.Grounded) _ _ h.grounded fun p hp c hc => ?_
  have hform := h.kept c (mem_of_mem_drop (mem_reverse.mp hc))
  unfold Panel.relieved
  split
  · exact hp.without hform
  · exact hp

/-- **A form is opened by a command.** The trail is traced if it is shown at once, or if nothing was left to give up.
    -/
theorem current_openForm (hs : s.Tracked) (layer : String) (key : Value) {switch : Bool}
    (hswitch : switch = false → s.history.dropped = []) :
    Current ((openForm layer key switch true).after s) := by
  have hp := hs.grounded_cleared
  have hlength : (s.history.push (.addForm s.forms.length key switch false)).commands.length =
      s.history.index + 1 := by
    simp [History.push, History.add, History.advance, History.cut, Nat.min_eq_left hs.bound]
  rw [after_of_ok (run_openForm s layer key switch)]
  refine ⟨⟨?_, hp.placed _ key switch, Panel.Traced.placed hp _ key fun h => ?_, ?_, ?_, ?_⟩, ?_⟩
  · exact hs.restful.of_fields rfl rfl fun f x hx => ⟨x, hx, rfl, rfl⟩
  · rw [cleared_of_tranquil fun d hd => absurd (hswitch h ▸ hd) not_mem_nil]
    exact hs.traced
  · show 0 < (s.forms ++ [_]).length
    simp
  · intro d hd
    rcases mem_append.mp hd with hd | hd
    · exact hs.kept d (mem_of_mem_take hd)
    · -- the new form has the number of the forms so far, and the watch face has one
      rw [mem_singleton.mp hd]
      exact Nat.ne_of_gt hs.forms
  · exact Nat.le_of_eq hlength.symm
  · exact drop_eq_nil_of_le (Nat.le_of_eq hlength)

-- the induction follows the attributes of a form and those of its nested forms; the nested forms are added by
-- commands that do not show them, so that there must be nothing to give up
mutual

theorem current_addAttribute (form : Nat) {schema : Schema} (hschema : ∀ title, (schema.kindOf title).Unlisted)
    (channels : List (String × Nat)) :
    (a : Attribute) → Within (Upholds Current) (addAttribute form schema channels a)
  | .value title v description => by
    intro s hs
    have hadd := idle_addField_new form title description v (hschema title) s hs.1.restful
    unfold addAttribute
    rw [after_bind_ok (run_addChannel s)]
    generalize schema.kindOf title = kind at hadd ⊢
    split
    · exact hs.of_idle (idle_addChannel s)
    · rw [after_bind_pure]
      exact hs.of_idle hadd
  | .form title layer as description => by
    intro s hs
    have hadd := idle_addField_new form title description (Component.toValue ⟨layer, as⟩) (hschema title) s
      hs.1.restful
    have hinner := fun n => current_addAttributes n (unlisted_kindOf layer) [] as
    unfold addAttribute
    rw [after_bind_ok (run_addChannel s)]
    generalize schema.kindOf title = kind at hadd ⊢
    dsimp only
    split
    · -- the nested form is opened by a command of its own and filled before its button joins a channel
      have hs' : s.withChannel.Current := hs.of_idle (idle_addChannel s)
      refine Within.bind (R := Upholds Current) (within_require _) (fun shown => ?_) s.withChannel hs'
      refine (current_of_idle idle_takeId).bind fun id => ?_
      refine (within_demandFree _).bind fun _ => ?_
      refine Within.bind ?_ fun n => ?_
      · exact fun s hs => current_openForm hs.1 layer _ fun _ => hs.2
      refine (hinner n).bind fun inner => ?_
      refine (current_of_idle idle_endGroup).bind fun _ => ?_
      refine (within_formOf? _).bind fun child => ?_
      refine (current_of_idle (idle_changeForm form _)).bind fun _ => ?_
      refine (within_channelUnder n shown).bind fun c => ?_
      refine (current_of_idle (idle_changeForm form _)).bind fun _ => ?_
      refine Within.bind ?_ fun _ => within_pure _
      intro t ht
      exact ht.of_idle (idle_addField (stilled_makeField_nested ht.1.restful title description _))
    · rw [after_bind_pure]
      exact hs.of_idle hadd

theorem current_addAttributes (form : Nat) {schema : Schema}
    (hschema : ∀ title, (schema.kindOf title).Unlisted) (channels : List (String × Nat)) :
    (as : List Attribute) → Within (Upholds Current) (addAttributes form schema channels as)
  | [] => by
    unfold addAttributes
    exact within_pure _
  | a :: as => by
    unfold addAttributes
    exact (current_addAttribute form hschema channels a).bind fun channels =>
      current_addAttributes form hschema channels as

end

theorem tracked_addForm (e : Entry) (key : Value) : Within (Upholds Tracked) (addForm e (some key) true true) := by
  refine (within_demandFree _).bind fun _ => ?_
  split
  · exact within_throw _
  · exact within_throw _
  · rename_i c
    refine (within_pure key).bind fun key s hs => ?_
    have hopen : Current ((openForm c.layer key true true).after s) := current_openForm hs c.layer key nofun
    refine after_bind_of hopen.1 fun n t ht => ?_
    rw [after_of_ok ht] at hopen
    rw [after_bind_pure]
    exact (current_addAttributes n (unlisted_kindOf c.layer) [] c.attributes t hopen).1

theorem tracked_summonForm (e : Entry) (id : Option Value) : Within (Upholds Tracked) (do
    let key ← match id with
      | some k => pure k
      | none => pure (Value.int (← takeId))
    let (key, layer, channels) ← addForm e (some key) true true
    calmly (Console.tellMade layer channels key)
    endGroup) := by
  have hbuild : ∀ key, Within (Upholds Tracked) (do
      let made ← addForm e (some key) true true
      calmly (Console.tellMade made.2.1 made.2.2 made.1)
      endGroup) := by
    intro key
    refine (tracked_addForm e key).bind fun made => ?_
    refine Within.bind ?_ fun _ => tracked_of_idle idle_endGroup
    exact (tracked_of_idle (idle_note _)).tryCatch fun _ => within_pure _
  cases id with
  | some k => exact (within_pure k).bind fun key => hbuild key
  | none => exact (tracked_of_idle idle_takeId).bind fun n => (within_pure _).bind fun key => hbuild key

theorem tracked_summon (type : Value) (pos id : Option Value) :
    Within (Upholds Tracked) (summon Console.tellMade type pos id) := by
  refine (within_sourceOf type).bind fun e => ?_
  cases pos with
  | some p => exact (within_require _).bind fun e => tracked_summonForm e id
  | none => exact (within_pure _).bind fun e => tracked_summonForm e id

/-! ### Going from form to form -/

theorem Tracked.withPanel (hs : s.Tracked) (hp : p.Grounded) (htraced : p.Traced) :
    ({ s with panel := p } : Studio).Tracked :=
  ⟨hs.restful.of_fields rfl rfl fun _ x hx => ⟨x, hx, rfl, rfl⟩, hp, htraced, hs.forms, hs.kept, hs.bound⟩

theorem tracked_openNested (form : Nat) : Within (Upholds Tracked) (openNested form) := by
  refine (within_part _ form).bind fun x => ?_
  split
  · refine (within_formOf? _).bind fun found s hs => ?_
    cases found with
    | none => exact hs.withPanel hs.grounded.noted (Panel.traced_noted _)
    | some n => exact hs.withPanel (hs.grounded.showPage n).noted (Panel.traced_noted _)
  · exact within_pure _

theorem tracked_goHome : Within (Upholds Tracked) goHome := by
  intro s hs
  let p : Panel := { s.panel with pages := s.panel.pages.showPage 0, opened := [.form 0] }
  have hfind : (formOf? homeKey).run s = .ok (some 0) s := by
    rw [← hs.grounded.home]
    rfl
  have hrun : goHome.run s = .ok () { s with panel := p } := by
    have htoggle : (toggle homeKey).run s =
        .ok () { s with panel := { s.panel with pages := s.panel.pages.showPage 0 } } := by
      unfold toggle
      show run (formOf? homeKey >>= _) s = _
      rw [run_bind_ok hfind]
      rfl
    have hfind' : (formOf? homeKey).run { s with panel := { s.panel with pages := s.panel.pages.showPage 0 } } =
        .ok (some 0) { s with panel := { s.panel with pages := s.panel.pages.showPage 0 } } := by
      rw [← hs.grounded.home, ← Pages.find?_shows (s.panel.pages.shows_showPage 0) homeKey]
      rfl
    unfold goHome
    rw [run_bind_ok htoggle, run_bind_ok hfind']
    rfl
  have hshown : p.pages.shown? = some 0 := s.panel.pages.shown?_showPage hs.grounded.bottom
  rw [after_of_ok hrun]
  refine hs.withPanel ?_ ?_
  · obtain ⟨home, bottom, shown, -, deleted⟩ := hs.grounded.showPage 0
    refine ⟨home, bottom, shown, fun place hplace => ⟨0, bottom, mem_singleton.mp hplace⟩, deleted⟩
  · apply Panel.traced_of_getLast?
    rw [hshown]
    rfl

/-! ### Undoing and redoing -/

section

variable {s : Studio} {c : Command}

theorem Tracked.marked (hs : s.Tracked) (hp : p.Grounded) (htraced : p.Traced) (i : Nat)
    (cancelled : Bool) {index : Nat} (hindex : index ≤ s.history.commands.length) :
    (({ s with panel := p } : Studio).withHistory
      ⟨s.history.commands.modify i (Command.marked cancelled), index⟩).Tracked := by
  obtain ⟨hrest, -, -, hforms, hkept, -⟩ := hs.withPanel hp htraced
  refine ⟨hrest.of_fields rfl rfl fun _ x hx => ⟨x, hx, rfl, rfl⟩, hp, htraced, hforms, fun d hd => ?_, ?_⟩
  · have hmem : d ∈ s.history.commands.modify i (Command.marked cancelled) := hd
    obtain ⟨j, hj⟩ := getElem?_of_mem hmem
    rw [getElem?_modify] at hj
    obtain ⟨d', hd', rfl⟩ := Option.map_eq_some_iff.mp hj
    have hadds := hkept d' (mem_of_getElem? hd')
    split
    · cases d' <;> exact hadds
    · exact hadds
  · show index ≤ (s.history.commands.modify i _).length
    rwa [length_modify]

theorem tracked_redo : Within (Upholds Tracked) (redo reactions) := by
  intro s hs
  unfold redo
  rw [after_bind_ok (run_get s)]
  cases hc : s.history.commands[s.history.index]? with
  | none =>
    simp only [hc]
    exact hs
  | some c =>
    have hlt : s.history.index < s.history.commands.length := lt_of_getElem? hc
    have hadds := hs.kept c (mem_of_getElem? hc)
    simp only [hc]
    cases c with
    | addForm form key switch cancelled =>
      have hplaced : (carryOut reactions (.addForm form key switch cancelled)).run s =
        .ok () { s with panel := s.panel.placed form key switch } := run_placeForm s form key switch
      rw [after_bind_ok hplaced]
      exact hs.marked (hs.grounded.placed form key switch)
        (Panel.Traced.placed hs.grounded form key fun _ => hs.traced) _ false hlt
    | change | addLayer => exact absurd hadds id

/-- Undoing finds the places that it goes back: one, or two if the form that it hides comes up again. -/
def Panel.Reaches (p : Panel) (form : Nat) : Prop :=
  2 ≤ p.opened.length ∧ (p.opened.dropLast.getLast? = some (.form form) → 3 ≤ p.opened.length)

instance (p : Panel) (form : Nat) : Decidable (p.Reaches form) :=
  inferInstanceAs (Decidable (_ ∧ _))

section

variable {form : Nat} (key : Value) (cancelled : Bool)

theorem Panel.Grounded.exists_run_takeBack (h : s.panel.Grounded) (hreaches : s.panel.Reaches form) :
    ∃ p, (takeBack reactions (.addForm form key true cancelled)).run s = .ok () { s with panel := p } ∧
      p.Grounded ∧ p.Traced := by
  obtain ⟨htwo, hthree⟩ := hreaches
  obtain ⟨n, p, hlast, hrun, hp, htraced, hopened, hshown⟩ := h.exists_run_goBack htwo
  have hback : (takeBack reactions (.addForm form key true cancelled)).run s =
      (if p.pages.shown? = some form then goBack else pure ()).run { s with panel := p } := by
    show run (goBack >>= _) s = _
    rw [run_bind_ok hrun, run_bind_ok (run_get _)]
  by_cases hform : n = form
  · -- the form comes up again, and one has to go back once more
    subst hform
    have hlength : 2 ≤ p.opened.length := by
      rw [hopened, length_dropLast]
      have := hthree hlast
      omega
    obtain ⟨-, q, -, hrun', hq, htraced', -, -⟩ := Panel.Grounded.exists_run_goBack
      (s := { s with panel := p }) hp hlength
    refine ⟨q, ?_, hq, htraced'⟩
    rw [hback, if_pos hshown]
    exact hrun'
  · refine ⟨p, ?_, hp, htraced⟩
    rw [hback, hshown, if_neg fun heq => hform (Option.some.inj heq)]
    rfl

theorem Panel.Grounded.exists_run_takeBack_error (h : s.panel.Grounded) (hreaches : ¬ s.panel.Reaches form) :
    ∃ t, (takeBack reactions (.addForm form key true cancelled)).run s = .error .outOfRange t := by
  by_cases htwo : 2 ≤ s.panel.opened.length
  · obtain ⟨n, p, hlast, hrun, hp, htraced, hopened, hshown⟩ := h.exists_run_goBack htwo
    have hagain : s.panel.opened.dropLast.getLast? = some (.form form) ∧ ¬ 3 ≤ s.panel.opened.length := by
      rw [Panel.Reaches, not_and_or, Classical.not_imp] at hreaches
      exact hreaches.resolve_left (not_not_intro htwo)
    have hform : n = form := by
      have := hlast.symm.trans hagain.1
      simpa using this
    have hlone : p.opened.length ≤ 1 := by
      rw [hopened, length_dropLast]
      omega
    refine ⟨{ s with panel := { p with opened := [] } }, ?_⟩
    show run (goBack >>= _) s = _
    rw [run_bind_ok hrun, run_bind_ok (run_get _), if_pos (by rw [hshown, hform])]
    exact run_goBack_of_lone (s := { s with panel := p }) hlone
  · exact ⟨_, run_bind_error (run_goBack_of_lone (by omega))⟩

end

end

/-! ### Runs -/

/-- What a user does on the panel: a new component, a nested form, going back or home, undoing and redoing. -/
inductive Panel.Step where
  | summon (type : Value) (pos id : Option Value)
  | nested (form : Nat)
  | back
  | home
  | undo
  | redo

namespace Panel.Step

def act : Step → Act Unit
  | summon type pos id => Studio.summon Console.tellMade type pos id
  | nested form => openNested form
  | back => goBack
  | home => goHome
  | undo => Studio.undo reactions
  | redo => Studio.redo reactions

def goesBack : Step → Bool
  | back | undo => true
  | _ => false

def fails (m : Step) (s : Studio) : Bool :=
  m.goesBack && match m.act.run s with
    | .ok .. => false
    | .error .. => true

def Supplied (m : Step) (s : Studio) : Prop :=
  match m with
  | back => 2 ≤ s.panel.opened.length
  | undo =>
    match s.history.undo? with
    | some (_, .addForm form _ true _) => s.panel.Reaches form
    | _ => True
  | _ => True

end Panel.Step

open Panel (Step)

/-- All along a run there is a place where one was, the last is the form that is shown, and going back never fails. -/
def Smooth (s : Studio) : List Step → Prop
  | [] => s.panel.Traced
  | m :: ms => s.panel.Traced ∧ m.fails s = false ∧ Smooth (m.act.after s) ms

def Supplied (s : Studio) : List Step → Prop
  | [] => True
  | m :: ms => m.Supplied s ∧ Supplied (m.act.after s) ms

instance decidableSmooth : (s : Studio) → (ms : List Step) → Decidable (s.Smooth ms)
  | s, [] => inferInstanceAs (Decidable s.panel.Traced)
  | s, m :: ms =>
    have := decidableSmooth (m.act.after s) ms
    inferInstanceAs (Decidable (s.panel.Traced ∧ m.fails s = false ∧ Smooth (m.act.after s) ms))

section

variable {s t : Studio} {m : Step}

theorem fails_of_ok (h : m.act.run s = .ok () t) : m.fails s = false := by
  rw [Panel.Step.fails, h, Bool.and_false]

theorem fails_of_error (hm : m.goesBack = true) {e : Fault} (h : m.act.run s = .error e t) : m.fails s = true := by
  rw [Panel.Step.fails, h, hm]
  rfl

end

section

variable {s : Studio} (hs : s.Tracked)

include hs

theorem exists_run_undo (h : Step.undo.Supplied s) : ∃ t, (undo reactions).run s = .ok () t ∧ t.Tracked := by
  unfold Panel.Step.Supplied at h
  cases hundo : s.history.undo? with
  | none =>
    -- the index lies on the commands, so there is nothing to undo only at its start
    have hindex : s.history.index = 0 := by
      have hbound := hs.bound
      rw [History.undo?] at hundo
      split at hundo
      · assumption
      · rw [Option.map_eq_none_iff, List.getElem?_eq_none_iff] at hundo
        omega
    refine ⟨s, ?_, hs⟩
    rw [undo, run_bind_ok (run_get s), if_pos hindex]
    rfl
  | some entry =>
    obtain ⟨g, c⟩ := entry
    obtain ⟨-, rfl, hget⟩ := undo?_eq_some hundo
    have hadds := hs.kept c (mem_of_getElem? hget)
    have hbound : s.history.index - 1 ≤ s.history.commands.length := by
      have := hs.bound
      omega
    -- whatever the panel is like once the command is taken back, the command is marked and stays
    have hmark : ∀ p : Panel, p.Grounded → p.Traced → (takeBack reactions c).run (s.withHistory s.history.retreat) =
          .ok () { s.withHistory s.history.retreat with panel := p } →
        ∃ t, (undo reactions).run s = .ok () t ∧ t.Tracked := by
      intro p hp htraced hback
      refine ⟨_, ?_, hs.marked hp htraced (s.history.index - 1) true hbound⟩
      rw [run_undo_of_some reactions hundo, run_bind_ok hback]
      rfl
    cases c with
    | addForm form key switch cancelled =>
      cases switch with
      | false => exact hmark s.panel hs.grounded hs.traced rfl
      | true =>
        rw [hundo] at h
        obtain ⟨p, hback, hp, htraced⟩ := Panel.Grounded.exists_run_takeBack key cancelled
          (s := s.withHistory s.history.retreat) hs.grounded h
        exact hmark p hp htraced hback
    | change | addLayer => exact absurd hadds id

/-- **Where the trail is too short,** a step fails. -/
theorem exists_run_of_not_supplied {m : Step} (h : ¬ m.Supplied s) :
    m.goesBack = true ∧ ∃ t, m.act.run s = .error .outOfRange t := by
  unfold Panel.Step.Supplied at h
  cases m with
  | back => exact ⟨rfl, _, run_goBack_of_lone (by dsimp only at h; omega)⟩
  | undo =>
    refine ⟨rfl, ?_⟩
    dsimp only at h
    split at h
    · rename_i g form key cancelled hundo
      obtain ⟨-, rfl, -⟩ := undo?_eq_some hundo
      obtain ⟨t, hback⟩ := Panel.Grounded.exists_run_takeBack_error key cancelled
        (s := s.withHistory s.history.retreat) hs.grounded h
      refine ⟨t, ?_⟩
      show (undo reactions).run s = _
      rw [run_undo_of_some reactions hundo]
      exact run_bind_error hback
    · exact absurd trivial h
  | summon | nested | home | redo => exact absurd trivial h

/-- **One step** for which the trail is long enough does not fail, and keeps the panel on track. -/
theorem tracked_step {m : Step} (h : m.Supplied s) : m.fails s = false ∧ (m.act.after s).Tracked := by
  have hrun : ∀ t, m.act.run s = .ok () t → t.Tracked → m.fails s = false ∧ (m.act.after s).Tracked := by
    intro t ht htracked
    rw [after_of_ok ht]
    exact ⟨fails_of_ok ht, htracked⟩
  cases m with
  | summon type pos id => exact ⟨rfl, tracked_summon type pos id s hs⟩
  | nested form => exact ⟨rfl, tracked_openNested form s hs⟩
  | home => exact ⟨rfl, tracked_goHome s hs⟩
  | redo => exact ⟨rfl, tracked_redo s hs⟩
  | back =>
    obtain ⟨-, p, -, hback, hp, htraced, -, -⟩ := hs.grounded.exists_run_goBack h
    exact hrun _ hback (hs.withPanel hp htraced)
  | undo =>
    obtain ⟨t, hundo, htracked⟩ := exists_run_undo hs h
    exact hrun t hundo htracked

theorem supplied_of_not_fails {m : Step} (h : m.fails s = false) : m.Supplied s := by
  by_cases hm : m.Supplied s
  · exact hm
  · obtain ⟨hback, t, hrun⟩ := exists_run_of_not_supplied hs hm
    rw [fails_of_error hback hrun] at h
    cases h

end

/-- **Whole runs.** From a panel on track a run is smooth just if the trail is always long enough. -/
theorem Tracked.smooth_iff (hs : s.Tracked) (ms : List Step) : s.Smooth ms ↔ s.Supplied ms := by
  induction ms generalizing s with
  | nil => exact iff_of_true hs.traced trivial
  | cons m ms ih =>
    constructor
    · rintro ⟨-, hm, hms⟩
      have hsupplied := supplied_of_not_fails hs hm
      obtain ⟨-, htracked⟩ := tracked_step hs hsupplied
      exact ⟨hsupplied, (ih htracked).mp hms⟩
    · rintro ⟨hm, hms⟩
      obtain ⟨hfails, htracked⟩ := tracked_step hs hm
      exact ⟨hs.traced, hfails, (ih htracked).mpr hms⟩

theorem tracked_opened : opened.Tracked := by
  let s : Studio :=
    { forms := [{ layer := watchSetting.layer }], panel := ({} : Panel).placed 0 homeKey true }
  have hs : s.Current := by
    refine ⟨⟨⟨rfl, nofun⟩, ⟨rfl, ?_, ⟨0, rfl⟩, ?_, rfl⟩, ?_, ?_, nofun, Nat.le_refl _⟩, rfl⟩
    · decide
    · intro place hplace
      exact ⟨0, by decide, mem_singleton.mp hplace⟩
    · decide
    · decide
  have hopen : (openForm watchSetting.layer homeKey true false).run {} = .ok 0 s := rfl
  have hfree : (demandFree homeKey).run {} = .ok () {} := rfl
  have hfill := current_addAttributes 0 (unlisted_kindOf watchSetting.layer) [] watchSetting.attributes s hs
  have hform : ((addForm (.component watchSetting) (some homeKey) true false).after {}).Tracked := by
    unfold addForm
    rw [Option.getD_some, after_bind_ok hfree]
    dsimp only
    rw [after_bind_ok (run_pure _ _), after_bind_ok hopen, after_bind_pure]
    exact hfill.1
  unfold opened openPanel
  refine after_bind_of hform fun made t ht => ?_
  rw [after_of_ok ht] at hform
  -- the trail begins with the form that is shown
  obtain ⟨n, hn⟩ := hform.grounded.shown
  obtain ⟨home, bottom, shown, -, deleted⟩ := hform.grounded
  refine hform.withPanel ⟨home, bottom, shown, fun place hplace => ?_, deleted⟩ ?_
  · rw [hn] at hplace
    exact ⟨n, t.panel.pages.mem_stack_of_shown? hn, mem_singleton.mp hplace⟩
  · exact Panel.traced_of_getLast? rfl

/-- **A run is smooth just if the trail is long enough.** Whatever is summoned, opened, undone and redone: there is
    always a place where one was, the last one is the form that is shown, and no step fails to go back, if and only if
    each going back finds two places on the trail, and each undoing of a form that was shown finds two, or three if the
    place before the last is that form. -/
theorem smooth_opened_iff (steps : List Step) : opened.Smooth steps ↔ opened.Supplied steps :=
  tracked_opened.smooth_iff steps

/-- Going home leaves one place on the trail, and then the form that was summoned cannot be taken back. -/
theorem not_smooth_undo : ¬ opened.Smooth [.summon (.text "shape") none none, .home, .undo] := by
  decide +kernel

end Studio

end WatchFace
