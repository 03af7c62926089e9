import WatchFace.Proofs.Layer.Upright

/-!
# What edits record

Undoing and redoing give a field the values of the command again. The commands that were undone are given up once
another one is carried out: the forms that they had added go.
-/

namespace WatchFace

open EStateM List

variable {x y : Field} {s t : Studio} {f i : Nat} {cmds : List Studio.Command} {new old v : Value}

/-! ### Fields whose edits are kept -/

namespace Field

/-- A field with a value of its own, no edit in progress, and edits that go into the history. -/
structure Kept (x : Field) : Prop where
  choice : x.kind.isChoice = false
  single : x.kind ≠ .nested
  settled : x.settled = true
  recorded : x.recorded = true

theorem kind_of_shell (h : y.shell = x.shell) : y.kind = x.kind := by simpa using congrArg Field.kind h

theorem Kept.of_shell (hx : x.Kept) (h : y.shell = x.shell) : y.Kept := by
  have hkind := kind_of_shell h
  have hsettled : y.settled = x.settled := by simpa using congrArg Field.settled h
  have hrecorded : y.recorded = x.recorded := by simpa using congrArg Field.recorded h
  exact ⟨hkind ▸ hx.choice, hkind ▸ hx.single, hsettled ▸ hx.settled, hrecorded ▸ hx.recorded⟩

theorem shell_present (x : Field) (v : Value) (hk : x.kind.isChoice = false) : (x.present v).1.shell = x.shell := by
  unfold present
  split
  · rfl
  · cases hkind : x.kind <;> simp_all [Catalog.Kind.isChoice, shell, withValue, bare]

def spoken? (x : Field) (v : Value) : Option Value :=
  ((x.convert v >>= clamp x.kind) >>= x.convert).toOption

theorem convert_of_shell (h : y.shell = x.shell) : y.convert = x.convert := by
  funext v
  rw [convert, convert, kind_of_shell h]

theorem spoken?_of_shell (h : y.shell = x.shell) : y.spoken? = x.spoken? := by
  funext v
  rw [spoken?, spoken?, kind_of_shell h, convert_of_shell h]

theorem read_eq_true_iff : x.read v = (true, new) ↔ (x.convert v >>= clamp x.kind) = .ok new := by
  rw [read]
  cases x.convert v >>= clamp x.kind <;> simp

theorem read_of_shell (h : y.shell = x.shell) (hread : y.read v = (true, new)) : x.read v = (true, new) := by
  rw [read_eq_true_iff] at hread ⊢
  rwa [kind_of_shell h, convert_of_shell h] at hread

theorem read_cases (x : Field) (v : Value) : (x.read v = (false, x.value) ∧ x.spoken? v = none) ∨
      ∃ new, x.read v = (true, new) ∧ x.spoken? v = (x.convert new).toOption := by
  cases hread : x.convert v >>= clamp x.kind with
  | error e => exact .inl ⟨by rw [read, hread], by rw [spoken?, hread]; rfl⟩
  | ok new => exact .inr ⟨new, by rw [read, hread], by rw [spoken?, hread]; rfl⟩

theorem exists_of_clamp {low high step w : Value} (h : clamp (.limits low high step) v = .ok w) : ∃ b c,
    high.less v = .ok b ∧ (if b then high else v).less low = .ok c ∧ w = if c then low else if b then high else v := by
  obtain ⟨m, hm, h⟩ := exists_of_bind_eq_ok h
  obtain ⟨b, hhigh, hm⟩ := exists_of_bind_eq_ok hm
  obtain rfl := Except.ok.inj hm
  obtain ⟨c, hlow, h⟩ := exists_of_bind_eq_ok h
  exact ⟨b, c, hhigh, hlow, (Except.ok.inj h).symm⟩

theorem withValue_self (x : Field) : x.withValue x.value = x := rfl

theorem Kept.value_present (hx : x.Kept) (v : Value) : (x.present v).1.value = v := by
  obtain ⟨hchoice, hsingle, hsettled, -⟩ := hx
  unfold present
  rw [hsettled]
  cases hkind : x.kind <;> simp_all [Catalog.Kind.isChoice]

end Field

namespace Studio

def values (s : Studio) : List Value := s.fields.map Field.value

theorem values_of_calm (h : Calm s t) : t.values = s.values := by
  have hmap : ∀ l : List Field, l.map Field.value = (l.map Field.bare).map Field.value := by
    intro l
    rw [map_map]
    rfl
  rw [values, values, hmap, h.fields, ← hmap]

theorem getElem?_values (h : s.fields[f]? = some x) : s.values[f]? = some x.value := by
  simp [values, h]

section

variable {s : Studio} {f : Nat} {x : Field} (hx : s.fields[f]? = some x)

include hx

theorem kin_setField (hk : x.kind.isChoice = false) (v : Value) : Kin s (s.setField f x v) :=
  ⟨map_set_of_eq hx (x.shell_present v hk), rfl, rfl, rfl⟩

omit hx in
theorem values_setField (hkept : x.Kept) (v : Value) : (s.setField f x v).values = s.values.set f v := by
  show (s.fields.set f _).map Field.value = _
  rw [map_set, hkept.value_present v]
  rfl

theorem calm_setField_self (hkept : x.Kept) : Calm s (s.setField f x x.value) := by
  have hbare : (x.present x.value).1.bare = x.bare := by
    rw [← (x.present x.value).1.withValue_self, hkept.value_present]
    exact x.bare_present x.value hkept.choice
  exact ⟨map_set_of_eq hx hbare, rfl, rfl, rfl, rfl⟩

end

/-! ### The history -/

def withHistory (s : Studio) (h : History Command) : Studio := { s with history := h }

theorem Kin.withHistory (h : Kin s t) (g : History Command) : Kin s (t.withHistory g) :=
  ⟨h.shells, h.listeners, h.ports, h.tables⟩

theorem run_changeHistory (g : History Command → History Command) (s : Studio) :
    (changeHistory g).run s = .ok () (s.withHistory (g s.history)) := rfl

def OnlyChanges (cmds : List Command) : Prop := ∀ c ∈ cmds, ∃ f new old, c = .change f new old

theorem OnlyChanges.marked (h : OnlyChanges cmds) (cancelled : Bool) (i : Nat) :
    ∀ c, cmds[i]? = some c → c.marked cancelled = c := by
  intro c hc
  obtain ⟨f, new, old, rfl⟩ := h c (mem_of_getElem? hc)
  rfl

theorem mem_or_eq_of_mem_push {h : History Command} {c d : Command} (hc : c ∈ (h.push d).commands) : c ∈ h.commands ∨ c = d :=
  (mem_append.mp hc).imp mem_of_mem_take mem_singleton.mp

theorem onlyChanges_push {h : History Command} (hcmds : OnlyChanges h.commands) (f : Nat) (new old : Value) :
    OnlyChanges (h.push (.change f new old)).commands := by
  intro c hc
  obtain hc | rfl := mem_or_eq_of_mem_push hc
  · exact hcmds c hc
  · exact ⟨f, new, old, rfl⟩

/-- The panel once a form is given up. The form stays where striking it runs off the end of the trail. -/
def Panel.without (p : Panel) (form : Nat) : Panel :=
  let struck := strike (.form form) 0 p.opened.length p.opened
  { p with opened := struck.1, pages := if struck.2 then p.pages.remove form else p.pages }

theorem run_removeForm (form : Nat) (s : Studio) : (removeForm form).run s =
    if (strike (.form form) 0 s.panel.opened.length s.panel.opened).2 then
      .ok () { s with panel := s.panel.without form }
    else .error .outOfRange { s with panel := s.panel.without form } := by
  unfold removeForm strikePlace Panel.without
  rw [bind_assoc, run_bind_ok (run_get s)]
  dsimp only
  generalize strike (.form form) 0 s.panel.opened.length s.panel.opened = struck
  obtain ⟨left, whole⟩ := struck
  cases whole <;> rfl

def Panel.relieved (p : Panel) : Command → Panel
  | .addForm form _ _ true => p.without form
  | _ => p

theorem run_giveUp (c : Command) (s : Studio) :
    (giveUp c).run s = .ok () { s with panel := s.panel.relieved c } := by
  cases c with
  | addForm form key switch cancelled =>
    cases cancelled with
    | false => rfl
    | true =>
      show (calmly (removeForm form)).run s = _
      rw [run_calmly]
      have hrun := run_removeForm form s
      split at hrun
      · rw [after_of_ok hrun]
        rfl
      · rw [after_of_error hrun]
        rfl
  | _ => rfl

def cleared (s : Studio) : Panel := s.history.dropped.reverse.foldl Panel.relieved s.panel

/-- To give up the commands that are not in effect does nothing. -/
def Tranquil (s : Studio) : Prop := ∀ c ∈ s.history.dropped, giveUp c = pure ()

theorem cleared_of_tranquil (h : s.Tranquil) : s.cleared = s.panel := by
  refine foldlRecOn (motive := fun p => p = s.panel) _ _ rfl fun p hp c hc => ?_
  have hrun := run_giveUp c s
  rw [h c (mem_reverse.mp hc)] at hrun
  rw [hp]
  exact (congrArg Studio.panel (Result.ok.inj hrun).2).symm

def readied (s : Studio) (c : Command) : Studio :=
  { s with panel := s.cleared, history := s.history.cut.add c }

theorem readied_of_tranquil (h : s.Tranquil) (c : Command) : s.readied c = s.withHistory (s.history.cut.add c) := by
  rw [readied, cleared_of_tranquil h]
  rfl

theorem OnlyChanges.tranquil (h : OnlyChanges s.history.commands) : s.Tranquil := by
  intro c hc
  obtain ⟨f, new, old, rfl⟩ := h c (mem_of_mem_drop hc)
  rfl

/-- A command is added once those not in effect are given up, and then carried out. -/
theorem run_push (r : Reactions) (c : Command) (s : Studio) :
    (push r c).run s = (do carryOut r c; changeHistory History.advance : Act Unit).run (s.readied c) := by
  have hgive : ∀ (cmds : List Command) (s : Studio), (cmds.forM giveUp).run s =
      .ok () { s with panel := cmds.foldl Panel.relieved s.panel } := by
    intro cmds
    induction cmds with
    | nil => exact fun s => rfl
    | cons c cmds ih => exact fun s => (run_bind_ok (run_giveUp c s)).trans (ih _)
  unfold push
  rw [run_bind_ok (run_get s)]
  dsimp only
  rw [run_bind_ok (run_changeHistory _ s), run_bind_ok (hgive _ _), run_bind_ok (run_changeHistory _ _)]
  rfl

theorem within_push {R : Studio → Studio → Prop} [IsPreorder Studio R] {r : Reactions} {c : Command}
    (hready : ∀ s, R s (s.readied c)) (hcarry : Within R (carryOut r c))
    (hadvance : Within R (changeHistory History.advance)) : Within R (push r c) := by
  intro s
  rw [after_congr (run_push r c s)]
  exact trans_of R (hready s) ((hcarry.bind fun _ => hadvance) _)

section

variable {κ : Type} {h g : History κ} {c : κ}

theorem advance_add_cut (h : History κ) (c : κ) : (h.cut.add c).advance = h.push c := by
  simp [History.push, History.add, History.advance, History.cut, take_take]

theorem undo?_eq_some (hundo : h.undo? = some (g, c)) :
    h.index ≠ 0 ∧ g = h.retreat ∧ h.commands[h.index - 1]? = some c := by
  by_cases hindex : h.index = 0
  · rw [History.undo?, if_pos hindex] at hundo
    cases hundo
  · rw [History.undo?, if_neg hindex] at hundo
    obtain ⟨d, hd, heq⟩ := Option.map_eq_some_iff.mp hundo
    cases heq
    exact ⟨hindex, rfl, hd⟩

theorem redo?_eq_some (hredo : h.redo? = some (g, c)) : g = h.advance ∧ h.commands[h.index]? = some c := by
  obtain ⟨d, hd, heq⟩ := Option.map_eq_some_iff.mp hredo
  cases heq
  exact ⟨rfl, hd⟩

end

theorem run_push_change (r : Reactions) (hx : s.fields[f]? = some x) (hk : x.kind.isChoice = false)
    (hcmds : OnlyChanges s.history.commands) (new old : Value) :
    (push r (.change f new old)).run s =
      .ok () ((s.setField f x new).withHistory (s.history.push (.change f new old))) := by
  have hcarry : (carryOut r (.change f new old)).run (s.readied (.change f new old)) = .ok () _ :=
    run_setValue r (s := s.readied (.change f new old)) hx hk new
  rw [run_push, run_bind_ok hcarry, readied_of_tranquil hcmds.tranquil, ← advance_add_cut]
  rfl

theorem run_markAt {cancelled : Bool} (hc : ∀ c, s.history.commands[i]? = some c → c.marked cancelled = c) :
    (markAt i cancelled).run s = .ok () s := by
  have hsame : s.history.commands.modify i (Command.marked cancelled) = s.history.commands := by
    cases hget : s.history.commands[i]? with
    | none => exact modify_eq_self (List.getElem?_eq_none_iff.mp hget)
    | some c => rw [modify_eq_set hget, hc c hget, set_eq_self hget]
  rw [markAt, run_changeHistory, hsame]
  rfl

theorem marked_of_change (hc : cmds[i]? = some (.change f new old)) (cancelled : Bool) :
    ∀ c, cmds[i]? = some c → c.marked cancelled = c := by
  intro c hget
  rw [hc] at hget
  cases hget
  rfl

section

variable {r : Reactions} {s t : Studio} {c : Command}

theorem after_undo_of_none (h : s.history.undo? = none) : (undo r).after s = s.withHistory s.history.retreat := by
  unfold undo
  rw [after_bind_ok (run_get s)]
  by_cases hindex : s.history.index = 0
  · rw [if_pos hindex, History.retreat, show s.history.index - 1 = s.history.index by omega]
    rfl
  · -- the index lies beyond the commands: it has moved when the fault shows
    rw [History.undo?, if_neg hindex, Option.map_eq_none_iff] at h
    have h' : (s.withHistory s.history.retreat).history.commands[
      (s.withHistory s.history.retreat).history.index]? = none := h
    rw [if_neg hindex]
    show (changeHistory History.retreat >>= fun _ => _).after s = _
    rw [after_bind_ok (run_changeHistory _ s), after_bind_ok (run_get _)]
    simp only [h']
    rfl

theorem run_undo_of_some (r : Reactions) (h : s.history.undo? = some (s.history.retreat, c)) :
    (undo r).run s = (takeBack r c >>= fun _ => markAt (s.history.index - 1) true).run
      (s.withHistory s.history.retreat) := by
  obtain ⟨hindex, -, hget⟩ := undo?_eq_some h
  have hc : (s.withHistory s.history.retreat).history.commands[
    (s.withHistory s.history.retreat).history.index]? = some c := hget
  unfold undo
  rw [run_bind_ok (run_get s), if_neg hindex]
  show (changeHistory History.retreat >>= fun _ => _).run s = _
  rw [run_bind_ok (run_changeHistory _ s), run_bind_ok (run_get _)]
  simp only [hc]
  rfl

theorem run_undo_of_takeBack (h : s.history.undo? = some (s.history.retreat, c))
    (hback : (takeBack r c).run (s.withHistory s.history.retreat) = .ok () t)
    (hmark : ∀ d, t.history.commands[s.history.index - 1]? = some d → d.marked true = d) :
    (undo r).run s = .ok () t := by
  rw [run_undo_of_some r h, run_bind_ok hback]
  exact run_markAt hmark

theorem run_redo_of_none (h : s.history.redo? = none) : (redo r).run s = .ok () s := by
  rw [History.redo?, Option.map_eq_none_iff] at h
  unfold redo
  rw [run_bind_ok (run_get s)]
  simp only [h]
  rfl

theorem run_redo_of_carryOut (h : s.history.redo? = some (s.history.advance, c))
    (hcarry : (carryOut r c).run s = .ok () t)
    (hmark : ∀ d, t.history.commands[s.history.index]? = some d → d.marked false = d) :
    (redo r).run s = .ok () (t.withHistory t.history.advance) := by
  obtain ⟨-, hc⟩ := redo?_eq_some h
  unfold redo
  rw [run_bind_ok (run_get s)]
  simp only [hc]
  rw [run_bind_ok hcarry, run_bind_ok (run_markAt hmark)]
  exact run_changeHistory _ t

end

theorem run_undo (r : Reactions) (hx : s.fields[f]? = some x) (hk : x.kind.isChoice = false)
    (hindex : s.history.index ≠ 0) (hc : s.history.commands[s.history.index - 1]? = some (.change f new old)) :
    (undo r).run s = .ok () ((s.setField f x old).withHistory s.history.retreat) := by
  have hundo : s.history.undo? = some (s.history.retreat, .change f new old) := by
    rw [History.undo?, if_neg hindex, hc]
    rfl
  exact run_undo_of_takeBack hundo (run_setValue r (s := s.withHistory s.history.retreat) hx hk old)
    (marked_of_change hc true)

theorem run_redo (r : Reactions) (hx : s.fields[f]? = some x) (hk : x.kind.isChoice = false)
    (hc : s.history.commands[s.history.index]? = some (.change f new old)) :
    (redo r).run s = .ok () ((s.setField f x new).withHistory s.history.advance) := by
  have hredo : s.history.redo? = some (s.history.advance, .change f new old) := by
    rw [History.redo?, hc]
    rfl
  exact run_redo_of_carryOut hredo (run_setValue r hx hk new) (marked_of_change hc false)

/-! ### Edits -/

theorem run_keep (r : Reactions) (hx : s.fields[f]? = some x) (hkept : x.Kept)
    (hcmds : OnlyChanges s.history.commands) (new old : Value) :
    (keep r f new old).run s = .ok () ((s.setField f x new).withHistory (s.history.push (.change f new old))) := by
  unfold keep
  rw [run_bind_ok (run_field hx), if_pos hkept.recorded]
  exact run_tryCatch_ok (run_push_change r hx hkept.choice hcmds new old)

section

variable (r : Reactions) {s : Studio} {f : Nat} {x : Field} (hx : s.fields[f]? = some x)

include hx

theorem run_settle (hsettled : x.settled = true) :
    (changeField f fun x => { x with settled := true }).run s = .ok () s := by
  have hself : { x with settled := true } = x := by
    rw [← hsettled]
  rw [run_changeField hx, hself, set_eq_self hx]

theorem run_enter_of_accepted (hsettled : x.settled = true) (hread : x.read v = (true, new)) :
    (enter r f v true).run s = (do
      let said ← require (x.convert new)
      r.emit x.channel said
      let y ← field f
      keep r f new y.value
      setValue r f new).run s := by
  unfold enter
  rw [run_bind_ok (run_field hx)]
  simp only [hread]
  rw [run_bind_ok (run_settle hx hsettled)]
  rfl

variable (hkept : x.Kept)

include hkept

theorem run_enter_of_refused (hread : x.read v = (false, x.value)) :
    (enter r f v true).run s = .ok () (s.setField f x x.value) := by
  unfold enter
  rw [run_bind_ok (run_field hx)]
  simp only [hread]
  rw [run_bind_ok (run_settle hx hkept.settled)]
  exact run_setValue r hx hkept.choice x.value

theorem run_keep_setValue (hcalm : Calm s t) (hcmds : OnlyChanges s.history.commands) (new : Value) : ∃ u, (do
      let y ← field f
      keep r f new y.value
      setValue r f new).run t = .ok () u ∧ Kin t u ∧ u.channels = t.channels ∧
        u.values = t.values.set f new ∧ u.history = t.history.push (.change f new x.value) ∧
        ∃ z : Field, z.shell = x.shell ∧ u.fields[f]? = some (z.present new).1 := by
  -- the field may show something else by now, but it has its value still
  obtain ⟨y, hy, hxy⟩ := getElem?_of_map_eq hcalm.fields.symm hx
  have hshell : y.shell = x.shell := congrArg (fun z => (z.withValue .none).bare) hxy.symm
  have hvalue : x.bare.value = y.bare.value := congrArg Field.value hxy
  have hykept : y.Kept := hkept.of_shell hshell
  have hshell' : (y.present new).1.shell = y.shell := y.shell_present new hykept.choice
  have hkept' : (y.present new).1.Kept := hykept.of_shell hshell'
  rw [← hcalm.history] at hcmds
  -- the command gives the field its value, and the end of the edit gives it once more
  let h := t.history.push (.change f new y.value)
  let u := (t.setField f y new).withHistory h
  have hu : u.fields[f]? = some (y.present new).1 := getElem?_setField hy new
  refine ⟨u.setField f (y.present new).1 new, ?_, ?_, rfl, ?_, ?_, _, hshell'.trans hshell, getElem?_setField hu new⟩
  · rw [run_bind_ok (run_field hy)]
    rw [run_bind_ok (run_keep r hy hykept hcmds new y.value)]
    exact run_setValue r hu hkept'.choice new
  · have hset : Kin t u := (kin_setField hy hykept.choice new).withHistory h
    exact hset.trans (kin_setField hu hkept'.choice new)
  · rw [values_setField hkept']
    show (t.setField f y new).values.set f new = _
    rw [values_setField hykept, set_set]
  · show t.history.push (.change f new y.value) = _
    rw [show y.value = x.value from hvalue.symm]

end

/-- **What an edit does.** A refused entry changes nothing but what the field shows. Any other is carried, and if this
    does not fail the field takes the value, and the history the command. -/
theorem commit_cases (hx : s.fields[f]? = some x) (hkept : x.Kept) (htame : s.Tame x.channel)
    (hcmds : OnlyChanges s.history.commands) (v : Value) :
    let act := enter reactions f v true
    let t := act.after s
    (x.spoken? v = none ∧ Calm s t ∧ t.channels = s.channels ∧ (x.read v = (false, x.value) ∨ act.succeeds s = false)) ∨
      ∃ said, x.spoken? v = some said ∧
        let u := (emit x.channel said).after s
        Calm s u ∧ act.succeeds s = (emit x.channel said).succeeds s ∧
        (t = u ∧ (emit x.channel said).succeeds s = false ∨ ∃ new, x.read v = (true, new) ∧ Kin u t ∧
          t.channels = u.channels ∧ t.values = u.values.set f new ∧ t.history = u.history.push (.change f new x.value) ∧
          (∃ z : Field, z.shell = x.shell ∧ t.fields[f]? = some (z.present new).1) ∧
          (emit x.channel said).succeeds s = true) := by
  obtain ⟨hread, hspoken⟩ | ⟨new, hread, hspoken⟩ := x.read_cases v
  · left
    rw [after_of_ok (run_enter_of_refused reactions hx hkept hread)]
    exact ⟨hspoken, calm_setField_self hx hkept, rfl, .inl hread⟩
  · have hrun := run_enter_of_accepted reactions hx hkept.settled hread
    dsimp only
    rw [EStateM.after, EStateM.succeeds]
    cases hconvert : x.convert new with
    | error e =>
      -- what was read cannot be read again, and the edit stops before anything is carried
      rw [hrun, hspoken, hconvert]
      exact .inl ⟨rfl, Calm.refl s, rfl, .inr rfl⟩
    | ok said =>
      have hcalm : Calm s ((emit x.channel said).after s) :=
        (gentle_upTo depth).calm x.channel said s htame
      rw [hconvert, run_bind_ok (run_require_ok said s)] at hrun
      refine .inr ⟨said, by rw [hspoken, hconvert]; rfl, hcalm, ?_⟩
      cases hemit : (emit x.channel said).run s with
      | error e u =>
        -- the fault ends the edit, and it is not kept
        have hfails : (emit x.channel said).succeeds s = false := by rw [EStateM.succeeds, hemit]
        rw [hrun, run_bind_error (x := reactions.emit x.channel said) hemit, after_of_error hemit, hfails]
        exact ⟨rfl, .inl ⟨rfl, rfl⟩⟩
      | ok a u =>
        have hsucceeds : (emit x.channel said).succeeds s = true := by rw [EStateM.succeeds, hemit]
        rw [after_of_ok hemit] at hcalm ⊢
        obtain ⟨t, hkeep, hkin, hchannels, hvalues, hhistory, hz⟩ := run_keep_setValue reactions hx hkept hcalm hcmds new
        rw [hrun, run_bind_ok (x := reactions.emit x.channel said) hemit, hkeep, hsucceeds]
        exact ⟨rfl, .inr ⟨new, hread, hkin, hchannels, hvalues, hhistory, hz, rfl⟩⟩

def lone (kind : Catalog.Kind) (v : Value) : Studio :=
  { channels := [({} : Channel Listener).register (.field 0)]
    fields := [{ Field.start "" kind v "" 0 [] with recorded := true }] }

end Studio

def Value.Carries (v : Value) : Prop := ∀ n, v = .int n → (Number.ofInt? n).isSome

instance (v : Value) : Decidable v.Carries :=
  match v with
  | .int n => decidable_of_iff ((Number.ofInt? n).isSome = true)
      ⟨fun h _ hm => Value.int.inj hm ▸ h, fun h => h n rfl⟩
  | .none | .bool _ | .float _ | .text _ | .list _ | .tuple _ | .record _ | .other _ => .isTrue nofun

theorem Value.carries_text (s : String) : (Value.text s).Carries := nofun

theorem Value.carries_list (xs : List Value) : (Value.list xs).Carries := nofun

theorem Value.carries_of_carried {x : Float} (h : v.carried = .float x) : v.Carries := by
  rintro n rfl
  cases hn : Number.ofInt? n
  · simp [Value.carried, hn] at h
  · rfl

theorem Value.Carries.carried (h : v.Carries) : v.carried.Carries := by
  cases v
  case int n =>
    obtain ⟨x, hx⟩ := Option.isSome_iff_exists.mp (h n rfl)
    simp only [Value.carried, hx]
    intro m hm
    cases hm
  all_goals exact h

theorem Channel.exists_emit {L : Type} (c : Channel L) (hv : v.Carries) :
    ∃ ls ∈ [c.numbers, c.texts, c.flags], (c.emit v).2 = .ok (ls, v.carried) := by
  cases v
  case int n =>
    obtain ⟨x, hx⟩ := Option.isSome_iff_exists.mp (hv n rfl)
    exact ⟨c.numbers, by simp, by simp [emit, route, Value.carried, hx]⟩
  all_goals exact ⟨_, by simp, rfl⟩

theorem Studio.exists_run_emit_next {c : Nat} {ch : Channel Listener} (r : Reactions)
    (hch : s.channels[c]? = some ch) (hv : v.Carries) : ∃ t, (r.next.emit c v).run s = .ok () t := by
  obtain ⟨ls, -, hheard⟩ := ch.exists_emit hv
  obtain ⟨t, hrun⟩ := exists_run_announce (hear r) v.carried ls (s.remember c ch v)
  exact ⟨t, (run_emit_heard r hch hheard).trans hrun⟩

theorem Field.read_of_choice (x : Field) (v : Value) (hk : x.kind.isChoice = true) :
    x.read v = (true, .text v.shown) ∧ x.convert v = .ok (.text v.shown) := by
  cases hkind : x.kind <;> simp_all [Catalog.Kind.isChoice, read, convert, Catalog.Kind.reading]
  all_goals rfl

namespace Studio

theorem on_of_listeners
    (h : t.channels.map Channel.hushed = s.channels.map Channel.hushed) {d : Nat} {l : Listener}
    (hl : l.On t d) : l.On s d := by
  obtain ⟨ch, hch, hmem⟩ := hl
  obtain ⟨ch', hch', heq⟩ := getElem?_of_map_eq h hch
  exact ⟨ch', hch', Channel.listeners_of_hushed heq ▸ hmem⟩

def Upright (s : Studio) (l : Nat) : Prop := ∃ x, s.layers[l]? = some x ∧ x.Upright

theorem run_selectOption (r : Reactions) (hx : s.fields[f]? = some x)
    (i : Int) : (selectOption r f i).run s = .ok () ((selectOption r f i).after s) := by
  have hok : ∃ t, (selectOption r f i).run s = .ok () t := by
    unfold selectOption
    rw [run_bind_ok (run_field hx)]
    split
    · exact ⟨s, rfl⟩
    · rw [run_bind_ok (run_changeField hx _), run_calmly]
      exact ⟨_, rfl⟩
  obtain ⟨t, ht⟩ := hok
  rw [ht, after_of_ok ht]

/-! ### Commands that are given up -/

theorem tranquil_add {h : History Command} {c : Command} (hc : giveUp c = pure ()) :
    (s.withHistory (h.add c)).Tranquil := by
  intro d hd
  have hmem : d ∈ (h.commands.take h.index ++ [c]).drop h.index := hd
  rw [drop_append, mem_append] at hmem
  obtain hmem | hmem := hmem
  · simp at hmem
  · obtain rfl := mem_singleton.mp (mem_of_mem_drop hmem)
    exact hc

theorem tranquil_advance (ht : s.Tranquil) : (s.withHistory s.history.advance).Tranquil := by
  intro d hd
  have hmem : d ∈ s.history.commands.drop (s.history.index + 1) := hd
  rw [← drop_drop] at hmem
  exact ht d (mem_of_mem_drop hmem)

theorem cleared_ids_registry (s : Studio) : s.cleared.ids = s.panel.ids ∧
    s.cleared.pages.registry.Sublist s.panel.pages.registry := by
  refine foldlRecOn (motive := fun p : Panel =>
    p.ids = s.panel.ids ∧ p.pages.registry.Sublist s.panel.pages.registry) _ _ ⟨rfl, .refl _⟩ fun p hp c _ => ?_
  unfold Panel.relieved
  split
  · refine ⟨hp.1, ?_⟩
    unfold Panel.without
    dsimp only
    split
    · exact eraseP_sublist.trans hp.2
    · exact hp.2
  · exact hp

end Studio

end WatchFace
