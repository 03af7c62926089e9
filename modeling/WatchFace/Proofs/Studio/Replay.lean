import WatchFace.Proofs.Studio.Recording

/-!
# The history tells the values

At every moment the commands in effect tell the value of each field that is no choice: it is the one that the last of
them for this field gave it.
-/

namespace WatchFace.Studio

open EStateM List

variable {c f : Nat} {vs : List Value} {v : Value} {x : Field}

/-! ### Deeds -/

inductive Deed where
  /-- The user enters a value in a field, and the edit ends. -/
  | commit (f : Nat) (v : Value)
  /-- A channel carries a value from outside. -/
  | carry (c : Nat) (v : Value)
  /-- A layer takes another shape; it keeps its channels. -/
  | reshape (l : Nat) (shape : Layer)
  | undo
  | redo

namespace Deed

def act : Deed → Act Unit
  | commit f v => enter reactions f v true
  | carry c v => emit c v
  | reshape l shape => modify fun s =>
    { s with layers := s.layers.modify l fun x => { shape with channels := x.channels } }
  | undo => Studio.undo reactions
  | redo => Studio.redo reactions

/-- The deed involves no choice: neither the field that is edited nor those who hear what is carried. -/
def Fits (s : Studio) : Deed → Prop
  | commit f _ => ∀ x, s.fields[f]? = some x → x.Kept ∧ s.Tame x.channel
  | carry c _ => s.Tame c
  | _ => True

end Deed

def perform (s : Studio) (deeds : List Deed) : Studio := deeds.foldl (fun s d => d.act.after s) s

theorem perform_append (s : Studio) (ds es : List Deed) : s.perform (ds ++ es) = (s.perform ds).perform es :=
  foldl_append

theorem calm_carry {s : Studio} (hc : s.Tame c) (v : Value) : Calm s ((Deed.carry c v).act.after s) :=
  (gentle_upTo depth).calm c v s hc

theorem calm_reshape (s : Studio) (l : Nat) (shape : Layer) : Calm s ((Deed.reshape l shape).act.after s) := by
  refine ⟨rfl, rfl, rfl, rfl, ?_⟩
  refine map_modify_of_eq ?_ s.layers l
  exact fun _ => rfl

/-! ### What commands give -/

def Command.gives? (f : Nat) : Command → Option Value
  | .change g new _ => if g = f then some new else none
  | _ => none

def lastGiven? (f : Nat) (cmds : List Command) : Option Value :=
  cmds.reverse.findSome? (Command.gives? f)

def Command.onValues (vs : List Value) : Command → List Value
  | .change f new _ => vs.set f new
  | _ => vs

def replay (vs : List Value) (cmds : List Command) : List Value := cmds.foldl Command.onValues vs

theorem replay_concat (vs : List Value) (cmds : List Command) (c : Command) :
    replay vs (cmds ++ [c]) = c.onValues (replay vs cmds) := by
  simp [replay]

theorem Command.getElem?_onValues (hv : vs[f]? = some v) (c : Command) :
    (c.onValues vs)[f]? = some ((c.gives? f).getD v) := by
  cases c
  case change g new old =>
    by_cases hg : g = f
    · subst hg
      simp [onValues, gives?, lt_of_getElem? hv]
    · simp [onValues, gives?, hg, getElem?_set_ne hg, hv]
  all_goals exact hv

/-- **Replaying commands** leaves each field with the value of the last command for it. -/
theorem getElem?_replay (hv : vs[f]? = some v) (cmds : List Command) :
    (replay vs cmds)[f]? = some ((lastGiven? f cmds).getD v) := by
  induction cmds generalizing vs v with
  | nil => exact hv
  | cons c cmds ih =>
    have hlast : lastGiven? f (c :: cmds) = (lastGiven? f cmds).or (c.gives? f) := by
      simp [lastGiven?, findSome?_append]
    -- the first command counts just if no later one is for the field
    show (replay (c.onValues vs) cmds)[f]? = _
    rw [ih (c.getElem?_onValues hv), hlast]
    cases lastGiven? f cmds <;> rfl

/-! ### The invariant -/

/-- A command for a field whose edits are kept, with what the field reads; before it, the others leave the field with
    its old value. -/
def Reversible (s : Studio) (before : List Command) : Command → Prop
  | .change f new old => (∃ x, s.fields[f]? = some x ∧ x.Kept ∧ ∃ v, x.read v = (true, new)) ∧
    (replay s.values before)[f]? = some old
  | _ => False

/-- The history tells how the studio came from an earlier one: by the commands in effect, each of which can be taken
    back. -/
structure Faithful (s t : Studio) : Prop where
  kin : Kin s t
  bounded : t.history.index ≤ t.history.commands.length
  told : t.values = replay s.values (t.history.commands.take t.history.index)
  sound : ∀ i c, t.history.commands[i]? = some c → Reversible s (t.history.commands.take i) c

theorem faithful_refl {s : Studio} (hs : s.history = {}) : Faithful s s := by
  refine ⟨Kin.refl s, ?_, ?_, ?_⟩
  · simp [hs]
  · simp [hs, replay]
  · simp [hs]

namespace Faithful

variable {s t u : Studio} (h : Faithful s t)

include h

theorem onlyChanges : OnlyChanges t.history.commands := by
  intro c hc
  obtain ⟨i, hi⟩ := mem_iff_getElem?.mp hc
  have hrev := h.sound i c hi
  cases c
  case change f new old => exact ⟨f, new, old, rfl⟩
  all_goals exact absurd hrev id

theorem of_calm (hcalm : Calm t u) : Faithful s u := by
  refine ⟨h.kin.trans hcalm.kin, ?_, ?_, ?_⟩
  · rw [hcalm.history]
    exact h.bounded
  · rw [values_of_calm hcalm, hcalm.history]
    exact h.told
  · rw [hcalm.history]
    exact h.sound

theorem exists_kept (hx : s.fields[f]? = some x) (hkept : x.Kept) :
    ∃ y, t.fields[f]? = some y ∧ y.Kept ∧ y.shell = x.shell := by
  obtain ⟨y, hy, hxy⟩ := getElem?_of_map_eq h.kin.shells.symm hx
  exact ⟨y, hy, hkept.of_shell hxy.symm, hxy.symm⟩

theorem exists_of_fits (hfits : (Deed.commit f v).Fits s) (hx : s.fields[f]? = some x) :
    ∃ y, t.fields[f]? = some y ∧ y.Kept ∧ t.Tame y.channel ∧ y.shell = x.shell := by
  obtain ⟨hkept, htame⟩ := hfits x hx
  obtain ⟨y, hy, hykept, hshell⟩ := h.exists_kept hx hkept
  have hchannel : y.channel = x.channel := by simpa using congrArg Field.channel hshell
  refine ⟨y, hy, hykept, ?_, hshell⟩
  rw [hchannel]
  exact h.kin.tame htame

theorem after_enter_of_none (hx : s.fields[f]? = none) (v : Value) : (enter reactions f v true).after t = t :=
  after_bind_error (run_part_none (h.kin.getElem?_fields_none hx))

theorem of_push {new old : Value} (hx : s.fields[f]? = some x) (hkept : x.Kept)
    (hread : ∃ v, x.read v = (true, new)) (hold : t.values[f]? = some old) (hkin : Kin t u) (hvalues : u.values = t.values.set f new)
    (hhistory : u.history = t.history.push (.change f new old)) : Faithful s u := by
  -- the commands in effect, of which `told` speaks
  let cmds := t.history.commands.take t.history.index
  have hlength : cmds.length = t.history.index := length_take_of_le h.bounded
  have hcommands : u.history.commands = cmds ++ [.change f new old] := by
    rw [hhistory]
    rfl
  have hindex : u.history.index = t.history.index + 1 := by
    rw [hhistory]
    rfl
  refine ⟨h.kin.trans hkin, ?_, ?_, ?_⟩
  · rw [hcommands, hindex, length_append, hlength]
    exact Nat.le_refl _
  · rw [hvalues, hcommands, hindex, ← hlength, take_of_length_le (by simp), replay_concat,
      h.told]
    rfl
  · intro i c hc
    rw [hcommands] at hc ⊢
    by_cases hi : i < cmds.length
    · -- a command from before, with the same commands before it
      rw [getElem?_append_left hi] at hc
      have htake : (cmds ++ [Command.change f new old]).take i = t.history.commands.take i := by
        rw [take_append_of_le_length (by omega), take_take]
        congr 1
        omega
      rw [htake]
      exact h.sound i c (by rw [getElem?_take] at hc; split at hc <;> simp_all)
    · -- the new command: what the others left the field with is its old value
      rw [getElem?_append_right (by omega), getElem?_singleton] at hc
      split at hc
      case isTrue hzero =>
        obtain rfl : i = cmds.length := by omega
        cases hc
        rw [take_left]
        exact ⟨⟨x, hx, hkept, hread⟩, h.told ▸ hold⟩
      case isFalse => exact absurd hc (by simp)

theorem undo : Faithful s ((Studio.undo reactions).after t) ∧
    ((Studio.undo reactions).after t).history = t.history.retreat ∧
    ((Studio.undo reactions).after t).channels = t.channels := by
  by_cases hindex : t.history.index = 0
  · have hsame : t.history.retreat = t.history := by
      rw [History.retreat, show t.history.index - 1 = t.history.index by omega]
    rw [after_undo_of_none (if_pos hindex), hsame]
    exact ⟨h, rfl, rfl⟩
  · have hlt : t.history.index - 1 < t.history.commands.length := by
      have := h.bounded
      omega
    obtain ⟨f, new, old, hc⟩ := h.onlyChanges _ (getElem_mem hlt)
    have hc' : t.history.commands[t.history.index - 1]? = some (.change f new old) := by
      rw [getElem?_eq_getElem hlt, hc]
    obtain ⟨⟨x, hx, hkept, -⟩, hold⟩ := h.sound _ _ hc'
    obtain ⟨y, hy, hykept, -⟩ := h.exists_kept hx hkept
    rw [after_of_ok (run_undo reactions hy hykept.choice hindex hc')]
    refine ⟨⟨?_, ?_, ?_, h.sound⟩, rfl, rfl⟩
    · exact (h.kin.trans (kin_setField hy hykept.choice old)).withHistory _
    · exact Nat.le_of_lt hlt
    · -- the last command in effect gave the field its new value, and the old one was there before
      have hsplit : t.history.commands.take t.history.index =
          t.history.commands.take (t.history.index - 1) ++ [.change f new old] := by
        rw [show t.history.index = t.history.index - 1 + 1 by omega, take_add_one, hc']
        rfl
      show (t.setField f y old).values = replay s.values (t.history.commands.take _)
      rw [values_setField hykept, h.told, hsplit, replay_concat]
      show ((replay s.values _).set f new).set f old = _
      rw [set_set]
      exact set_eq_self hold

theorem redo : Faithful s ((Studio.redo reactions).after t) ∧ ((Studio.redo reactions).after t).history =
      ⟨t.history.commands, min (t.history.index + 1) t.history.commands.length⟩ ∧
    ((Studio.redo reactions).after t).channels = t.channels := by
  have hbounded := h.bounded
  cases hc : t.history.commands[t.history.index]? with
  | none =>
    have hredo : t.history.redo? = none := by
      rw [History.redo?, hc]
      rfl
    rw [after_of_ok (run_redo_of_none hredo)]
    refine ⟨h, ?_, rfl⟩
    have hle := List.getElem?_eq_none_iff.mp hc
    rw [show min (t.history.index + 1) t.history.commands.length = t.history.index by omega]
  | some c =>
    obtain ⟨f, new, old, rfl⟩ := h.onlyChanges c (mem_of_getElem? hc)
    have hlt := lt_of_getElem? hc
    obtain ⟨⟨x, hx, hkept, -⟩, -⟩ := h.sound _ _ hc
    obtain ⟨y, hy, hykept, -⟩ := h.exists_kept hx hkept
    rw [after_of_ok (run_redo reactions hy hykept.choice hc),
      show min (t.history.index + 1) t.history.commands.length = t.history.index + 1 by omega]
    refine ⟨⟨?_, hlt, ?_, h.sound⟩, rfl, rfl⟩
    · exact (h.kin.trans (kin_setField hy hykept.choice new)).withHistory _
    · show (t.setField f y new).values = replay s.values (t.history.commands.take _)
      rw [values_setField hykept, h.told]
      show _ = replay s.values (t.history.commands.take (t.history.index + 1))
      rw [take_add_one, hc]
      exact (replay_concat _ _ (.change f new old)).symm

theorem commit (hfits : (Deed.commit f v).Fits s) : Faithful s ((enter reactions f v true).after t) := by
  cases hx : s.fields[f]? with
  | none =>
    rw [h.after_enter_of_none hx v]
    exact h
  | some x =>
    obtain ⟨y, hy, hykept, htame, hshell⟩ := h.exists_of_fits hfits hx
    obtain ⟨-, hcalm, -⟩ | ⟨said, -, hcalm, -, ⟨heq, -⟩ | ⟨new, hread, hkin, -, hvalues, hhistory, -⟩⟩ :=
      commit_cases hy hykept htame h.onlyChanges v
    · exact h.of_calm hcalm
    · -- the channel failed on the value, and the edit ends there
      rw [heq]
      exact h.of_calm hcalm
    · refine (h.of_calm hcalm).of_push hx (hfits x hx).1 ⟨v, ?_⟩ ?_ hkin hvalues hhistory
      · exact Field.read_of_shell hshell hread
      rw [values_of_calm hcalm]
      exact getElem?_values hy

/-- **One deed** keeps the history faithful. -/
theorem act {d : Deed} (hd : d.Fits s) : Faithful s (d.act.after t) := by
  cases d
  case commit f v => exact h.commit hd
  case carry c v => exact h.of_calm (calm_carry (h.kin.tame hd) v)
  case reshape l shape => exact h.of_calm (calm_reshape t l shape)
  case undo => exact h.undo.1
  case redo => exact h.redo.1

theorem perform {deeds : List Deed} (hfits : ∀ d ∈ deeds, d.Fits s) : Faithful s (t.perform deeds) := by
  induction deeds generalizing t with
  | nil => exact h
  | cons d deeds ih =>
    exact ih (h.act (hfits d mem_cons_self)) fun e he => hfits e (mem_cons_of_mem d he)

theorem undo_times (k : Nat) : Faithful s (t.perform (List.replicate k .undo)) ∧
    (t.perform (List.replicate k .undo)).history = ⟨t.history.commands, t.history.index - k⟩ := by
  induction k generalizing t with
  | zero => exact ⟨h, rfl⟩
  | succ k ih =>
    obtain ⟨hfaithful, hhistory⟩ := ih h.undo.1
    refine ⟨hfaithful, hhistory.trans ?_⟩
    rw [h.undo.2.1, History.retreat, Nat.sub_sub, Nat.add_comm 1 k]

theorem redo_times (k : Nat) : Faithful s (t.perform (List.replicate k .redo)) ∧
    (t.perform (List.replicate k .redo)).history =
      ⟨t.history.commands, min (t.history.index + k) t.history.commands.length⟩ := by
  induction k generalizing t with
  | zero =>
    refine ⟨h, ?_⟩
    rw [Nat.add_zero, Nat.min_eq_left h.bounded]
    rfl
  | succ k ih =>
    obtain ⟨hfaithful, hhistory⟩ := ih h.redo.1
    refine ⟨hfaithful, hhistory.trans ?_⟩
    rw [h.redo.2.1]
    have hindex : min (min (t.history.index + 1) t.history.commands.length + k)
      t.history.commands.length = min (t.history.index + (k + 1)) t.history.commands.length := by omega
    rw [hindex]

/-- Undoing several times and redoing as often goes to a place that the history tells. -/
theorem undo_redo_times (k : Nat) : Faithful s (t.perform (List.replicate k .undo ++ List.replicate k .redo)) ∧
      (t.perform (List.replicate k .undo ++ List.replicate k .redo)).history =
        ⟨t.history.commands, max t.history.index (min k t.history.commands.length)⟩ := by
  have hbounded := h.bounded
  obtain ⟨hundo, hback⟩ := h.undo_times k
  obtain ⟨hredo, hforth⟩ := hundo.redo_times k
  rw [perform_append]
  refine ⟨hredo, hforth.trans ?_⟩
  rw [hback]
  have hindex : min (t.history.index - k + k) t.history.commands.length =
    max t.history.index (min k t.history.commands.length) := by omega
  rw [hindex]

theorem values_eq (hu : Faithful s u) (heq : u.history = t.history) : u.values = t.values := by
  rw [hu.told, h.told, heq]

end Faithful

/-- **The history tells the values.** After any run each field has the value that the last command in effect for it gave
    it, or the value it had at the start. Undoing `k` times and redoing `k` times restores all values unless it undoes
    more often than there are commands in effect, and others are left to redo. -/
theorem values_perform {s : Studio} (hnew : s.history = {}) (deeds : List Deed)
    (hfits : ∀ d ∈ deeds, d.Fits s) :
    let t := s.perform deeds
    (∀ f v, s.values[f]? = some v → t.values[f]? =
      some ((lastGiven? f (t.history.commands.take t.history.index)).getD v)) ∧
    ∀ k, let u := t.perform (List.replicate k .undo ++ List.replicate k .redo)
      u.history = ⟨t.history.commands, max t.history.index (min k t.history.commands.length)⟩ ∧
      (k ≤ t.history.index ∨ t.history.index = t.history.commands.length → u.values = t.values) := by
  have h : Faithful s (s.perform deeds) := (faithful_refl hnew).perform hfits
  refine ⟨fun f v hv => ?_, fun k => ?_⟩
  · rw [h.told]
    exact getElem?_replay hv _
  · obtain ⟨hu, hhistory⟩ := h.undo_redo_times k
    refine ⟨hhistory, fun hk => h.values_eq hu (hhistory.trans ?_)⟩
    have hindex : max (s.perform deeds).history.index (min k (s.perform deeds).history.commands.length) =
      (s.perform deeds).history.index := by omega
    rw [hindex]

section

variable (kind : Catalog.Kind) (v : Value) (hchoice : kind.isChoice = false) (hsingle : kind ≠ .nested)

include hchoice

theorem tame_lone : (lone kind v).Tame 0 := by
  rintro l ⟨ch, ⟨⟩, hl⟩
  obtain rfl : l = .field 0 := by
    simpa [Channel.listeners, Channel.register] using hl
  left
  rintro x ⟨⟩
  exact hchoice

include hsingle

theorem fits_commit_lone (w : Value) : (Deed.commit 0 w).Fits (lone kind v) := by
  rintro x ⟨⟩
  exact ⟨⟨hchoice, hsingle, rfl, rfl⟩, tame_lone kind v hchoice⟩

end

theorem values_perform_lone :
    let t := (lone (.limits (.int 0) (.int 100) (.int 1)) (.int 0)).perform [.commit 0 (.int 7),
      .carry 0 (.int 3), .commit 0 (.int 200), .commit 0 (.text "seven"), .undo]
    t.values[0]? =
      some ((lastGiven? 0 (t.history.commands.take t.history.index)).getD (.int 0)) ∧
    (t.perform (List.replicate 1 .undo ++ List.replicate 1 .redo)).values = t.values := by
  have hcommit := fits_commit_lone (.limits (.int 0) (.int 100) (.int 1)) (.int 0) rfl nofun
  have hcarry := tame_lone (.limits (.int 0) (.int 100) (.int 1)) (.int 0) rfl
  have h := values_perform (s := lone (.limits (.int 0) (.int 100) (.int 1)) (.int 0)) rfl
    [.commit 0 (.int 7), .carry 0 (.int 3), .commit 0 (.int 200), .commit 0 (.text "seven"), .undo]
    (by
      intro d hd
      simp only [List.mem_cons, List.not_mem_nil, or_false] at hd
      rcases hd with rfl | rfl | rfl | rfl | rfl
      · exact hcommit _
      · exact hcarry
      · exact hcommit _
      · exact hcommit _
      · trivial)
  exact ⟨h.1 0 (.int 0) rfl, (h.2 1).2 (.inl (by decide +kernel))⟩

/-- With two commands to redo and none in effect, redoing gives the field the value of the first command. -/
theorem values_ne_undo_redo :
    let t := (lone (.limits (.int 0) (.int 100) (.int 1)) (.int 0)).perform
      [.commit 0 (.int 1), .commit 0 (.int 2), .undo, .undo]
    (t.perform (List.replicate 1 .undo ++ List.replicate 1 .redo)).values ≠ t.values := by
  refine ne_of_apply_ne (List.map Value.shown) ?_
  decide +kernel

end WatchFace.Studio
