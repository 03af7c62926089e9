import WatchFace.Proofs.Studio.Resting

/-!
# Undoing the edits of a choice

A choice that is given a value moves to the option for it as if the user had picked that option: the value is carried on
its channel, and a command is kept. This happens in the middle of undoing and redoing as well.
-/

namespace WatchFace

open EStateM List

variable {x y : Field} {channel n : Nat} {options : List String} {r : Studio.Reactions} {new old v' : Value}
  {g : History Studio.Command} {ls : List Studio.Listener} {text : String} {Q : Studio → Prop}

structure Field.Offers (x : Field) (channel : Nat) (options : List String) : Prop where
  choice : x.kind.isChoice = true
  settled : x.settled = true
  recorded : x.recorded = true
  channel : x.channel = channel
  options : x.options = options

theorem Field.Offers.present (hx : x.Offers channel options) (v : Value) :
    x.present v = (x.withValue v, options.findIdx? (· == v.shown)) := by
  rw [x.present_of_choice hx.choice hx.settled, Field.optionFor?, hx.options]

theorem Field.Offers.withValue (hx : x.Offers channel options) (v : Value) : (x.withValue v).Offers channel options :=
  ⟨hx.choice, hx.settled, hx.recorded, hx.channel, hx.options⟩

namespace Studio

/-! ### Choices -/

/-- A choice: its field, its channel, its options, and who hears a text on the channel. -/
structure Choice where
  field : Nat
  channel : Nat
  options : List String
  listeners : List Listener

namespace Choice

variable (k : Choice)

def option? (v : Value) : Option Nat := k.options.findIdx? (· == v.shown)

/-- With the option `i` chosen, the choice shows the value without moving to another option. -/
def Rests (i : Int) (v : Value) : Prop := ∀ j : Nat, k.option? v = some j → (j : Int) = i

/-- The choice has the value `v` and the option `i`, the history is `h`, and its channel has no other choice and no
    item. -/
structure Poised (v : Value) (i : Int) (h : History Command) (s : Studio) : Prop where
  field : ∃ x, s.fields[k.field]? = some x ∧ x.Offers k.channel k.options ∧ x.value = v ∧ x.index = i
  history : s.history = h
  wired : ∃ ch, s.channels[k.channel]? = some ch ∧ ch.texts = k.listeners
  own : .field k.field ∈ k.listeners
  others : ∀ l ∈ k.listeners, l = .field k.field ∨ l.Quiet s

end Choice

variable {k : Choice} {v w : Value} {i j : Int} {h : History Command} {s t : Studio}

theorem Choice.Poised.of_calm (hs : k.Poised v i h s) (hcalm : Calm s t) : k.Poised v i h t := by
  obtain ⟨⟨x, hx, hoffers, rfl, rfl⟩, rfl, ⟨ch, hch, htexts⟩, hown, hothers⟩ := hs
  refine ⟨?_, hcalm.history, ?_, hown, fun l hl => (hothers l hl).imp_right hcalm.kin.quiet⟩
  · obtain ⟨y, hy, hxy⟩ := getElem?_of_map_eq hcalm.fields.symm hx
    obtain ⟨hchoice, hsettled, hrecorded, hchannel, hoptions⟩ := hoffers
    refine ⟨y, hy, ⟨?_, ?_, ?_, ?_, ?_⟩, ?_, ?_⟩
    · exact (congrArg (·.kind.isChoice) hxy).symm.trans hchoice
    · exact (congrArg Field.settled hxy).symm.trans hsettled
    · exact (congrArg Field.recorded hxy).symm.trans hrecorded
    · exact (congrArg Field.channel hxy).symm.trans hchannel
    · exact (congrArg Field.options hxy).symm.trans hoptions
    · exact (congrArg Field.value hxy).symm
    · exact (congrArg Field.index hxy).symm
  · obtain ⟨ch', hch', heq⟩ := getElem?_of_map_eq hcalm.listeners.symm hch
    exact ⟨ch', hch', (congrArg Channel.texts heq).symm.trans htexts⟩

theorem Choice.Poised.set (hs : k.Poised v i h s) (hy : y.Offers k.channel k.options) :
    k.Poised y.value y.index h { s with fields := s.fields.set k.field y } := by
  obtain ⟨⟨x, hx, hoffers, -, -⟩, rfl, hwired, hown, hothers⟩ := hs
  refine ⟨⟨y, getElem?_set_some hx, hy, rfl, rfl⟩, rfl, hwired, hown, fun l hl => (hothers l hl).imp_right ?_⟩
  intro hquiet
  cases l
  case field g =>
    by_cases hg : k.field = g
    · -- a choice is never quiet
      have hplain : x.kind.isChoice = false := hquiet x (hg ▸ hx)
      rw [hoffers.choice] at hplain
      cases hplain
    · intro z hz
      exact hquiet z (by rw [← hz]; exact (getElem?_set_ne hg).symm)
  all_goals exact hquiet

theorem Choice.Poised.withHistory (hs : k.Poised v i h s) (g : History Command) : k.Poised v i g (s.withHistory g) :=
  ⟨hs.field, rfl, hs.wired, hs.own, hs.others⟩

/-! ### Giving a choice a value -/

theorem leads_setValue_of_rests (r : Reactions) (hw : k.Rests i w) :
    Leads (k.Poised v i h) (setValue r k.field w) (k.Poised w i h) := by
  intro s hs
  obtain ⟨x, hx, hoffers, -, rfl⟩ := hs.field
  have hrests : x.Rests w := by
    intro j hj
    rw [Field.optionFor?, hoffers.options] at hj
    exact (hw j hj).symm
  have hrun := run_setValue_of_rests r hx hrests
  rw [setField, hoffers.present] at hrun
  exact ⟨(), _, hrun, hs.set (hoffers.withValue w)⟩

theorem leads_receive (hset : Leads (k.Poised v i h) (setValue r k.field w) (k.Poised v' j g)) :
    Leads (k.Poised v i h) (receive r k.field w false) (k.Poised v j g) := by
  intro s hs
  obtain ⟨x, hx, -, rfl, -⟩ := hs.field
  obtain ⟨_, t, hrun, ht⟩ := hset s hs
  obtain ⟨y, hy, hoffers, -, rfl⟩ := ht.field
  refine ⟨(), _, ?_, ht.set (hoffers.withValue x.value)⟩
  unfold receive
  rw [run_bind_ok (run_field hx)]
  dsimp only
  rw [run_bind_ok hrun]
  exact run_changeField hy _

/-! ### Carrying a value on the channel of a choice -/

theorem leads_attempt_of_ne (r : Reactions) {l : Listener} (hl : l ∈ k.listeners) (hne : l ≠ .field k.field) :
    Leads (k.Poised v i h) (attempt (hear r) w l) (k.Poised v i h) := by
  have hhear : ∀ o, Within (Upholds (k.Poised v i h)) (hear r l o) := by
    intro o s hs
    have hquiet : l.Quiet s := (hs.others l hl).resolve_left hne
    exact hs.of_calm (calm_hear r hquiet o).1
  intro s hs
  obtain ⟨t, hrun⟩ := exists_run_attempt (hear r) w l s
  have ht := within_attempt (hhear (some w)) (hhear none) s hs
  rw [after_of_ok hrun] at ht
  exact ⟨(), t, hrun, ht⟩

theorem leads_announce_of_rests (r : Reactions) (hw : k.Rests i w) (hls : ∀ l ∈ ls, l ∈ k.listeners) :
    Leads (k.Poised v i h) (announce (hear r) w ls) (k.Poised v i h) := by
  refine Leads.forM fun l hl => ?_
  by_cases hown : l = .field k.field
  · subst hown
    exact (leads_receive (leads_setValue_of_rests r hw)).tryCatch _
  · exact leads_attempt_of_ne r (hls l hl) hown

theorem leads_emit_next (r : Reactions) (hQ : Leads (k.Poised v i h) (announce (hear r) (.text text) k.listeners) Q) :
    Leads (k.Poised v i h) (r.next.emit k.channel (.text text)) Q := by
  intro s hs
  obtain ⟨ch, hch, htexts⟩ := hs.wired
  rw [run_emit_heard r hch rfl, htexts]
  exact hQ _ (hs.of_calm (calm_remember hch _))

/-! ### Keeping the edits of a choice -/

theorem leads_push_of_rests (r : Reactions) (hw : k.Rests i w) (hcmds : OnlyChanges h.commands)
    (old : Value) : Leads (k.Poised v i h) (push r (.change k.field w old))
      (k.Poised w i (h.push (.change k.field w old))) := by
  intro s hs
  obtain rfl := hs.history
  obtain ⟨_, t, hrun, ht⟩ := leads_setValue_of_rests r hw _
    (hs.withHistory (s.history.cut.add (.change k.field w old)))
  refine ⟨(), t.withHistory t.history.advance, ?_, ?_⟩
  · rw [run_push, readied_of_tranquil hcmds.tranquil]
    exact run_bind_ok hrun
  rw [ht.history, ← advance_add_cut]
  exact ht.withHistory _

theorem leads_keep_of_rests (r : Reactions) (hw : k.Rests i w) (hcmds : OnlyChanges h.commands)
    (old : Value) : Leads (k.Poised v i h) (keep r k.field w old)
      (k.Poised w i (h.push (.change k.field w old))) := by
  intro s hs
  obtain ⟨x, hx, hoffers, -, -⟩ := hs.field
  unfold keep
  rw [run_bind_ok (run_field hx), if_pos hoffers.recorded]
  exact (leads_push_of_rests r hw hcmds old).tryCatch _ s hs

theorem leads_enter (hemit : Leads (k.Poised v i h) (r.emit k.channel (.text text)) (k.Poised v j g))
    (hw : k.Rests j (.text text)) (hcmds : OnlyChanges g.commands) :
    Leads (k.Poised v i h) (enter r k.field (.text text) true)
      (k.Poised (.text text) j (g.push (.change k.field (.text text) v))) := by
  intro s hs
  obtain ⟨x, hx, hoffers, -, -⟩ := hs.field
  obtain ⟨hread, hconvert⟩ : x.read (.text text) = (true, .text text) ∧
    x.convert (.text text) = .ok (.text text) := x.read_of_choice (.text text) hoffers.choice
  obtain ⟨_, t, hrun, ht⟩ := hemit s hs
  obtain ⟨y, hy, -, rfl, -⟩ := ht.field
  rw [run_enter_of_accepted r hx hoffers.settled hread, hconvert, hoffers.channel,
    run_bind_ok (run_require_ok _ s), run_bind_ok hrun, run_bind_ok (run_field hy)]
  -- the command gives the choice its value, and the end of the entry gives it once more
  exact (leads_keep_of_rests r hw hcmds y.value).bind (fun _ => leads_setValue_of_rests r hw) t ht

theorem leads_enter_of_rests (r : Reactions) (hw : k.Rests i (.text text)) (hcmds : OnlyChanges h.commands) :
    Leads (k.Poised v i h) (enter r.next k.field (.text text) true)
      (k.Poised (.text text) i (h.push (.change k.field (.text text) v))) :=
  leads_enter (leads_emit_next r (leads_announce_of_rests r hw fun _ hl => hl)) hw hcmds

/-! ### Moving to another option -/

def Choice.chosen (k : Choice) (i : Int) : String :=
  if i < 0 then "" else k.options.getD i.toNat ""

theorem Choice.chosen_of_option? (hn : k.option? w = some n) : k.chosen n = w.shown := by
  have hget : k.options[n]? = some w.shown := getElem?_of_findIdx? hn
  rw [chosen, if_neg (by omega)]
  simp [hget]

theorem Choice.rests_of_option? (hn : k.option? w = some n) : k.Rests n w := by
  intro m hm
  rw [hn] at hm
  rw [Option.some.inj hm]

theorem Choice.rests_or_moves (k : Choice) (i : Int) (w : Value) :
    k.Rests i w ∨ ∃ n : Nat, k.option? w = some n ∧ i ≠ n := by
  by_cases hrests : k.Rests i w
  · exact .inl hrests
  · simp only [Rests, Classical.not_forall] at hrests
    obtain ⟨n, hn, hne⟩ := hrests
    exact .inr ⟨n, hn, Ne.symm hne⟩

theorem leads_selectOption (hne : i ≠ j) (hQ : Leads (k.Poised v j h) (enter r k.field (.text (k.chosen j)) true) Q) :
    Leads (k.Poised v i h) (selectOption r.next k.field j) Q := by
  intro s hs
  obtain ⟨x, hx, hoffers, rfl, rfl⟩ := hs.field
  have hmoved : Field.Offers { x with index := j } k.channel k.options :=
    ⟨hoffers.choice, hoffers.settled, hoffers.recorded, hoffers.channel, hoffers.options⟩
  have hchosen : Leads (k.Poised x.value j h) (r.next.chosen k.field) Q := by
    intro t ht
    obtain ⟨y, hy, hoffers, -, rfl⟩ := ht.field
    show ∃ a u, (Studio.field k.field >>= fun x => enter r k.field (.text x.chosen) true).run t =
      .ok a u ∧ Q u
    rw [run_bind_ok (run_field hy), show y.chosen = k.chosen y.index by
      rw [Field.chosen, hoffers.options, Choice.chosen]]
    exact hQ t ht
  unfold selectOption
  rw [run_bind_ok (run_field hx), if_neg hne]
  show ∃ a u, (changeField k.field _ >>= fun _ => calmly (r.next.chosen k.field)).run s = .ok a u ∧ Q u
  rw [run_bind_ok (run_changeField hx _)]
  exact hchosen.tryCatch _ _ (hs.set hmoved)

def Choice.moved (k : Choice) (h : History Command) (w : Value) : History Command :=
  h.push (.change k.field (.text w.shown) w)

section

variable (r : Reactions) {n : Nat} (hn : k.option? w = some n) (hne : i ≠ n)
  (hcmds : OnlyChanges h.commands)

include hn hne hcmds

theorem leads_setValue_of_moves : Leads (k.Poised v i h) (setValue r.next.next k.field w)
    (k.Poised (.text w.shown) n (k.moved h w)) := by
  intro s hs
  obtain ⟨x, hx, hoffers, -, rfl⟩ := hs.field
  have henter : Leads (k.Poised w n h) (enter r.next k.field (.text (k.chosen n)) true)
      (k.Poised (.text w.shown) n (k.moved h w)) := by
    rw [Choice.chosen_of_option? hn]
    exact leads_enter_of_rests r (Choice.rests_of_option? (w := .text w.shown) hn) hcmds
  unfold setValue
  rw [run_bind_ok (run_field hx), hoffers.present]
  dsimp only
  rw [run_bind_ok (run_changeField hx _), show k.options.findIdx? (· == w.shown) = some n from hn]
  exact leads_selectOption hne henter _ (hs.set (hoffers.withValue w))

theorem leads_announce_of_moves (hls : ∀ l ∈ ls, l ∈ k.listeners) (hown : .field k.field ∈ ls) :
    Leads (k.Poised v i h) (announce (hear r.next.next) w ls) (k.Poised v n (k.moved h w)) := by
  -- before its turn the choice stays in its place, and afterwards it rests
  induction ls with
  | nil => exact absurd hown not_mem_nil
  | cons l ls ih =>
    have hrest : ∀ m ∈ ls, m ∈ k.listeners := fun m hm => hls m (mem_cons_of_mem l hm)
    show Leads _ (attempt _ w l >>= fun _ => announce _ w ls) _
    by_cases hl : l = .field k.field
    · subst hl
      have hmoves := leads_receive (leads_setValue_of_moves (v := v) r hn hne hcmds)
      refine (hmoves.tryCatch _).bind fun _ => ?_
      exact leads_announce_of_rests _ (Choice.rests_of_option? hn) hrest
    · refine (leads_attempt_of_ne _ (hls l mem_cons_self) hl).bind fun _ => ?_
      exact ih hrest ((mem_cons.mp hown).resolve_left (Ne.symm hl))

end

theorem leads_enter_of_moves (r : Reactions) (hn : k.option? (.text text) = some n) (hne : i ≠ n)
    (hcmds : OnlyChanges h.commands) :
    Leads (k.Poised v i h) (enter r.next.next.next k.field (.text text) true) (k.Poised (.text text) n
        ((k.moved h (.text text)).push (.change k.field (.text text) v))) := by
  intro s hs
  refine leads_enter (leads_emit_next _ ?_) (Choice.rests_of_option? hn) (onlyChanges_push hcmds _ _ _) s hs
  exact leads_announce_of_moves r hn hne hcmds (fun _ hl => hl) hs.own

/-! ### Whole runs -/

def Choice.Texts (k : Choice) (cmds : List Command) : Prop :=
  ∀ c ∈ cmds, ∃ text old, c = .change k.field (.text text) old

theorem Choice.Texts.onlyChanges {cmds : List Command} (hcmds : k.Texts cmds) : OnlyChanges cmds := by
  intro c hc
  obtain ⟨text, old, rfl⟩ := hcmds c hc
  exact ⟨_, _, _, rfl⟩

theorem Choice.Texts.push (hcmds : k.Texts h.commands) (text : String) (old : Value) :
    k.Texts (h.push (.change k.field (.text text) old)).commands := by
  intro c hc
  obtain hc | rfl := mem_or_eq_of_mem_push hc
  · exact hcmds c hc
  · exact ⟨text, old, rfl⟩

theorem Choice.Texts.undo?_cases (hcmds : k.Texts h.commands) :
    h.undo? = none ∨ ∃ text old, h.undo? = some (h.retreat, .change k.field (.text text) old) := by
  cases hundo : h.undo? with
  | none => exact .inl rfl
  | some back =>
    obtain ⟨g, c⟩ := back
    obtain ⟨-, rfl, hc⟩ := undo?_eq_some hundo
    obtain ⟨text, old, rfl⟩ := hcmds c (mem_of_getElem? hc)
    exact .inr ⟨text, old, rfl⟩

theorem Choice.Texts.redo?_cases (hcmds : k.Texts h.commands) :
    h.redo? = none ∨ ∃ text old, h.redo? = some (h.advance, .change k.field (.text text) old) := by
  cases hredo : h.redo? with
  | none => exact .inl rfl
  | some forth =>
    obtain ⟨g, c⟩ := forth
    obtain ⟨rfl, hc⟩ := redo?_eq_some hredo
    obtain ⟨text, old, rfl⟩ := hcmds c (mem_of_getElem? hc)
    exact .inr ⟨text, old, rfl⟩

/-- Either nothing was edited yet, or the option that is chosen is the one for the value. -/
structure Choice.Sound (k : Choice) (v : Value) (i : Int) (h : History Command) : Prop where
  texts : k.Texts h.commands
  rests : h = {} ∨ k.Rests i v

theorem poised_select (hs : k.Poised v i h s) (hsound : k.Sound v i h) (j : Int) :
    ∃ v' i' h', k.Poised v' i' h' ((selectOption reactions k.field j).after s) ∧ k.Sound v' i' h' := by
  have hcmds := hsound.texts.onlyChanges
  -- the deepest case nests four reactions: two entries, each with a value that is carried
  let r : Reactions := .upTo (depth - 4)
  by_cases hj : i = j
  · obtain ⟨x, hx, -, -, rfl⟩ := hs.field
    have hrun : (selectOption reactions k.field j).run s = .ok () s := by
      rw [selectOption, run_bind_ok (run_field hx), if_pos hj]
      rfl
    rw [after_of_ok hrun]
    exact ⟨v, x.index, h, hs, hsound⟩
  · obtain hrests | ⟨n, hn, hne⟩ := k.rests_or_moves j (.text (k.chosen j))
    · have henter := leads_enter_of_rests (v := v) r.next.next hrests hcmds
      refine ⟨_, _, _, (leads_selectOption hj henter).after hs, hsound.texts.push _ _, .inr hrests⟩
    · -- the option that is picked is not the first one with its text
      have henter := leads_enter_of_moves (v := v) r hn hne hcmds
      refine ⟨_, _, _, (leads_selectOption hj henter).after hs, ?_, .inr (Choice.rests_of_option? hn)⟩
      exact (hsound.texts.push _ _).push _ _

/-- What giving the choice a value leads to. -/
inductive Choice.Given (k : Choice) (i : Int) (w : Value) (h : History Command) :
    Value → Int → History Command → Prop
  | rests (hrests : k.Rests i w) : Given k i w h w i h
  | moves {n : Nat} (hn : k.option? w = some n) (hne : i ≠ n) : Given k i w h (.text w.shown) n (k.moved h w)

theorem exists_given (w : Value) (hcmds : OnlyChanges h.commands) :
    ∃ v' i' h', k.Given i w h v' i' h' ∧ OnlyChanges h'.commands ∧
      Leads (k.Poised v i h) (setValue reactions k.field w) (k.Poised v' i' h') := by
  obtain hrests | ⟨n, hn, hne⟩ := k.rests_or_moves i w
  · exact ⟨w, i, h, .rests hrests, hcmds, leads_setValue_of_rests reactions hrests⟩
  · exact ⟨_, n, _, .moves hn hne, onlyChanges_push hcmds _ _ _,
      leads_setValue_of_moves (.upTo (depth - 2)) hn hne hcmds⟩

theorem poised_undo_of_none (hs : k.Poised v i h s) (hundo : h.undo? = none) :
    k.Poised v i h.retreat ((undo reactions).after s) := by
  obtain rfl := hs.history
  rw [after_undo_of_none hundo]
  exact hs.withHistory _

theorem poised_undo (hs : k.Poised v i h s) (hcmds : OnlyChanges h.commands)
    (hundo : h.undo? = some (h.retreat, .change k.field new old)) :
    ∃ v' i' h', k.Given i old h.retreat v' i' h' ∧ k.Poised v' i' h' ((undo reactions).after s) := by
  obtain rfl := hs.history
  obtain ⟨v', i', h', hgiven, hcmds', hleads⟩ :=
    exists_given (k := k) (v := v) (i := i) (h := s.history.retreat) old hcmds
  obtain ⟨_, t, hrun, ht⟩ := hleads _ (hs.withHistory _)
  refine ⟨v', i', h', hgiven, ?_⟩
  -- the command that is marked in the end can be another one by now; it has no mark either
  have hmark := hcmds'.marked true (s.history.index - 1)
  rw [← ht.history] at hmark
  rw [after_of_ok (run_undo_of_takeBack hundo hrun hmark)]
  exact ht

theorem poised_redo_of_none (hs : k.Poised v i h s) (hredo : h.redo? = none) :
    k.Poised v i h ((redo reactions).after s) := by
  obtain rfl := hs.history
  rw [after_of_ok (run_redo_of_none hredo)]
  exact hs

theorem poised_redo (hs : k.Poised v i h s) (hcmds : OnlyChanges h.commands)
    (hredo : h.redo? = some (h.advance, .change k.field new old)) :
    ∃ v' i' h', k.Given i new h v' i' h' ∧ k.Poised v' i' h'.advance ((redo reactions).after s) := by
  obtain rfl := hs.history
  obtain ⟨v', i', h', hgiven, hcmds', hleads⟩ :=
    exists_given (k := k) (v := v) (i := i) (h := s.history) new hcmds
  obtain ⟨_, t, hrun, ht⟩ := hleads s hs
  refine ⟨v', i', h', hgiven, ?_⟩
  have hmark := hcmds'.marked false s.history.index
  rw [← ht.history] at hmark
  rw [after_of_ok (run_redo_of_carryOut hredo hrun hmark), ht.history]
  exact ht.withHistory _

namespace Choice

variable {v' : Value} {i' : Int} {h' : History Command}

theorem Given.rests' (hgiven : k.Given i w h v' i' h') : k.Rests i' v' := by
  cases hgiven with
  | rests hrests => exact hrests
  | moves hn _ => exact rests_of_option? (w := .text w.shown) hn

theorem Given.texts (hgiven : k.Given i w h v' i' h') (htexts : k.Texts h.commands) : k.Texts h'.commands := by
  cases hgiven with
  | rests => exact htexts
  | moves => exact htexts.push _ _

theorem Given.eq_of_rests (hgiven : k.Given i w h v' i' h') (hrests : k.Rests i w) : v' = w ∧ i' = i ∧ h' = h := by
  cases hgiven with
  | rests => exact ⟨rfl, rfl, rfl⟩
  | moves hn hne => exact absurd (hrests _ hn).symm hne

theorem Given.eq_text (hgiven : k.Given i (.text text) h v' i' h') : v' = .text text := by
  cases hgiven <;> rfl

end Choice

inductive Pick where
  | select (i : Int)
  | undo
  | redo

def Pick.act (f : Nat) : Pick → Act Unit
  | select i => selectOption reactions f i
  | undo => Studio.undo reactions
  | redo => Studio.redo reactions

def picked (s : Studio) (f : Nat) (picks : List Pick) : Studio :=
  picks.foldl (fun s p => (p.act f).after s) s

/-- **One pick** leaves the choice in its place. -/
theorem poised_act (hs : k.Poised v i h s) (hsound : k.Sound v i h) (p : Pick) :
    ∃ v' i' h', k.Poised v' i' h' ((p.act k.field).after s) ∧ k.Sound v' i' h' := by
  cases p
  case select j => exact poised_select hs hsound j
  case undo =>
    obtain hundo | ⟨_, _, hundo⟩ := hsound.texts.undo?_cases
    · -- the index moves back at most, and an empty history stays empty
      refine ⟨v, i, _, poised_undo_of_none hs hundo, hsound.texts, hsound.rests.imp_left ?_⟩
      rintro rfl
      rfl
    · obtain ⟨v', i', h', hgiven, ht⟩ := poised_undo hs hsound.texts.onlyChanges hundo
      exact ⟨v', i', h', ht, hgiven.texts hsound.texts, .inr hgiven.rests'⟩
  case redo =>
    obtain hredo | ⟨_, _, hredo⟩ := hsound.texts.redo?_cases
    · exact ⟨v, i, h, poised_redo_of_none hs hredo, hsound⟩
    · obtain ⟨v', i', h', hgiven, ht⟩ := poised_redo hs hsound.texts.onlyChanges hredo
      exact ⟨v', i', h'.advance, ht, hgiven.texts hsound.texts, .inr hgiven.rests'⟩

theorem poised_picked (hs : k.Poised v i h s) (hsound : k.Sound v i h) (picks : List Pick) :
    ∃ v' i' h', k.Poised v' i' h' (s.picked k.field picks) ∧ k.Sound v' i' h' := by
  induction picks generalizing s v i h with
  | nil => exact ⟨v, i, h, hs, hsound⟩
  | cons p picks ih =>
    obtain ⟨v', i', h', ht, hsound'⟩ := poised_act hs hsound p
    exact ih ht hsound'

theorem Choice.Poised.values (hs : k.Poised v i h s) : s.values[k.field]? = some v := by
  obtain ⟨x, hx, -, rfl, -⟩ := hs.field
  exact getElem?_values hx

/-! ### Undoing, and redoing at once -/

theorem history_undo_iff (hs : k.Poised v i h s) (htexts : k.Texts h.commands) :
    ((undo reactions).after s).history = h.retreat ↔
      ∀ g new old, h.undo? = some (g, .change k.field new old) → k.Rests i old := by
  obtain hundo | ⟨text, old, hundo⟩ := htexts.undo?_cases
  · simp [(poised_undo_of_none hs hundo).history, hundo]
  · obtain ⟨v', i', h', hgiven, ht⟩ := poised_undo hs htexts.onlyChanges hundo
    rw [ht.history, hundo]
    constructor
    · rintro heq _ _ _ ⟨⟩
      cases hgiven with
      | rests hrests => exact hrests
      | moves =>
        -- a command was kept, so the index is one further on
        have hindex : h.retreat.index + 1 = h.retreat.index := congrArg History.index heq
        omega
    · intro hrests
      exact (hgiven.eq_of_rests (hrests _ _ _ rfl)).2.2

theorem redo_restores_iff (hs : k.Poised v i h s) (hcmds : OnlyChanges h.commands) (hrests : k.Rests i w)
    (hredo : h.redo? = some (h.advance, .change k.field (.text text) old)) :
    (((redo reactions).after s).values[k.field]? = some w ∧
      ((redo reactions).after s).history.commands.length = h.commands.length) ↔ .text text = w := by
  obtain ⟨v', i', h', hgiven, ht⟩ := poised_redo hs hcmds hredo
  rw [ht.values, ht.history, hgiven.eq_text]
  constructor
  · rintro ⟨hvalue, -⟩
    exact Option.some.inj hvalue
  · rintro rfl
    rw [(hgiven.eq_of_rests hrests).2.2]
    exact ⟨rfl, rfl⟩

theorem redo?_push (h : History Command) (c : Command) : (h.push c).redo? = none := by
  have hnone : (h.push c).commands[(h.push c).index]? = none := by
    rw [List.getElem?_eq_none_iff]
    show (h.commands.take h.index ++ [c]).length ≤ h.index + 1
    rw [length_append, length_take, length_singleton]
    omega
  rw [History.redo?, hnone]
  rfl

theorem Choice.Sound.rests_of_mem {c : Command} (hsound : k.Sound v i h) (hc : c ∈ h.commands) : k.Rests i v := by
  refine hsound.rests.resolve_left ?_
  rintro rfl
  exact absurd hc not_mem_nil

theorem undo_redo_iff_of_none (hs : k.Poised v i h s) (hsound : k.Sound v i h) (hundo : h.undo? = none) :
    let t := (redo reactions).after ((undo reactions).after s)
    (t.values[k.field]? = some v ∧ t.history.commands.length = h.commands.length) ↔
      (h.index = 0 → ∀ g new old, h.redo? = some (g, .change k.field new old) → new = v) := by
  have ht := poised_undo_of_none hs hundo
  by_cases hindex : h.index = 0
  · have hsame : h.retreat = h := by
      rw [History.retreat, show h.index - 1 = h.index by omega]
    rw [hsame] at ht
    obtain hredo | ⟨text, old, hredo⟩ := hsound.texts.redo?_cases
    · have hu := poised_redo_of_none ht hredo
      simp [hu.values, hu.history, hredo]
    · have hmem := mem_of_getElem? (redo?_eq_some hredo).2
      refine (redo_restores_iff ht hsound.texts.onlyChanges (hsound.rests_of_mem hmem) hredo).trans ?_
      simp [hindex, hredo]
  · -- the index lies beyond the commands, and the redo finds none either
    have hredo : h.retreat.redo? = none := by
      rw [History.undo?, if_neg hindex, Option.map_eq_none_iff] at hundo
      rw [History.redo?, Option.map_eq_none_iff]
      exact hundo
    have hu := poised_redo_of_none ht hredo
    simp [hu.values, hu.history, hindex, History.retreat]

theorem undo_redo_iff_of_some (hs : k.Poised v i h s) (hsound : k.Sound v i h)
    (hundo : h.undo? = some (h.retreat, .change k.field (.text text) old)) :
    let t := (redo reactions).after ((undo reactions).after s)
    (t.values[k.field]? = some v ∧ t.history.commands.length = h.commands.length) ↔
      k.Rests i old ∧ .text text = v := by
  have hcmds := hsound.texts.onlyChanges
  obtain ⟨-, -, hc⟩ := undo?_eq_some hundo
  have hrests : k.Rests i v := hsound.rests_of_mem (mem_of_getElem? hc)
  obtain ⟨v', i', h', hgiven, ht⟩ := poised_undo hs hcmds hundo
  cases hgiven with
  | rests hold =>
    have hredo : h.retreat.redo? = some (h.retreat.advance, .change k.field (.text text) old) := by
      rw [History.redo?, show h.retreat.commands[h.retreat.index]? = _ from hc]
      rfl
    exact (redo_restores_iff ht hcmds hrests hredo).trans ⟨fun htext => ⟨hold, htext⟩, fun hboth => hboth.2⟩
  | moves hn hne =>
    -- the undo was an edit: there is nothing to redo, and the value is the text of another option
    have hu := poised_redo_of_none ht (redo?_push h.retreat _)
    refine ⟨fun hleft => absurd ?_ hne, fun hright => absurd (hright.1 _ hn).symm hne⟩
    cases hu.values.symm.trans hleft.1
    exact (hrests _ hn).symm

/-- **Undoing the edits of a choice.** After any run of picks, an undo moves back by one command and keeps no other just
    if the choice rests on the old value of the command. An undo with a redo at once leaves the value and the length of
    the history as they were just if the choice rests on the old value and has the new one. -/
theorem undo_redo_choice (hs : k.Poised v i {} s) (picks : List Pick) :
    let t := s.picked k.field picks
    ∃ x, t.fields[k.field]? = some x ∧
      (((undo reactions).after t).history = t.history.retreat ↔
        ∀ g new old, t.history.undo? = some (g, .change k.field new old) → k.Rests x.index old) ∧
      (let u := (redo reactions).after ((undo reactions).after t)
      (u.values[k.field]? = some x.value ∧
          u.history.commands.length = t.history.commands.length) ↔
        (∀ g new old, t.history.undo? = some (g, .change k.field new old) →
          k.Rests x.index old ∧ new = x.value) ∧
        (t.history.index = 0 → ∀ g new old,
          t.history.redo? = some (g, .change k.field new old) → new = x.value)) := by
  have hempty : k.Sound v i {} := ⟨fun c hc => absurd hc List.not_mem_nil, .inl rfl⟩
  obtain ⟨v', i', h', ht, hsound⟩ := poised_picked hs hempty picks
  obtain ⟨x, hx, -, rfl, rfl⟩ := ht.field
  obtain rfl := ht.history
  refine ⟨x, hx, history_undo_iff ht hsound.texts, ?_⟩
  obtain hundo | ⟨text, old, hundo⟩ := hsound.texts.undo?_cases
  · refine (undo_redo_iff_of_none ht hsound hundo).trans ?_
    simp [hundo]
  · refine (undo_redo_iff_of_some ht hsound hundo).trans ?_
    simp [hundo, (undo?_eq_some hundo).1]

def letters : Choice := ⟨0, 0, ["a", "b", "c"], [.field 0]⟩

theorem poised_letters : letters.Poised (.text "a") 0 {}
    (lone (.options [.text "a", .text "b", .text "c"]) (.text "a")) := by
  refine ⟨⟨_, rfl, ⟨rfl, rfl, rfl, rfl, rfl⟩, rfl, rfl⟩, rfl, ⟨_, rfl, rfl⟩, ?_, ?_⟩
  · exact mem_singleton.mpr rfl
  · exact fun l hl => .inl (mem_singleton.mp hl)

theorem undo_redo_choice_letters :
    let s := lone (.options [.text "a", .text "b", .text "c"]) (.text "a")
    let t := s.picked letters.field [.select 1, .select 0]
    letters.Poised (.text "a") 0 {} s ∧ ∃ x, t.fields[letters.field]? = some x ∧
      (((undo reactions).after t).history = t.history.retreat ↔
        ∀ g new old, t.history.undo? = some (g, .change letters.field new old) →
          letters.Rests x.index old) ∧
      (let u := (redo reactions).after ((undo reactions).after t)
      (u.values[letters.field]? = some x.value ∧
          u.history.commands.length = t.history.commands.length) ↔
        (∀ g new old, t.history.undo? = some (g, .change letters.field new old) →
          letters.Rests x.index old ∧ new = x.value) ∧
        (t.history.index = 0 → ∀ g new old,
          t.history.redo? = some (g, .change letters.field new old) → new = x.value)) :=
  ⟨poised_letters, undo_redo_choice poised_letters [.select 1, .select 0]⟩

/-- Undoing a pick is an edit of its own: a command is kept, and a redo does not bring the pick
    back. -/
theorem undo_select_keeps_command :
    let t := (lone (.options [.text "a", .text "b", .text "c"]) (.text "a")).picked 0 [.select 1]
    ((undo reactions).after t).history ≠ t.history.retreat ∧
      ((redo reactions).after ((undo reactions).after t)).values ≠ t.values := by
  refine ⟨?_, ?_⟩
  · refine ne_of_apply_ne History.index ?_
    decide +kernel
  · refine ne_of_apply_ne (List.map Value.shown) ?_
    decide +kernel

end Studio

end WatchFace
