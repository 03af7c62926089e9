import WatchFace.Proofs.Studio.Replay

/-!
# When panel and preview agree

A field keeps a value, and its channel remembers the value that the layers of the preview were told
last. Edits, drags, undoing and redoing change the two by different ways.
-/

namespace WatchFace

open EStateM List

variable {s t : Studio} {c f l : Nat} {d : Studio.Deed} {deeds ds : List Studio.Deed} {title : String}
  {entry v : Value} {α : Type}

theorem Layer.keeps_pull (d : Option Direction) (dx dy : Float) : Within (Keeps Layer.channels) (pull d dx dy) := by
  unfold pull
  refine within_get.bind fun l => (within_require _).bind fun w => (within_require _).bind fun h => ?_
  dsimp only
  cases d with
  | none =>
    split
    · exact within_pure _
    · exact within_throw _
  | some d =>
    split
    · exact within_pure _
    · refine (within_require _).bind fun turn => (within_require _).bind fun size => ?_
      refine Within.bind (keeps_modify fun _ => rfl) fun _ => (within_require _).bind fun whole => ?_
      -- the new size does not matter, only that no step writes the channels
      generalize (if whole < 1 then (1 : Int) else whole) = new
      split
      · exact within_pure _
      · exact (within_require _).bind fun ratio => within_pure _

namespace Studio

/-! ### Drags -/

inductive Drag where
  | move (x y : Value)
  | movePoint (x y : Value)
  | turn (angle : Value)
  | pull (d : Option Layer.Direction) (dx dy : Float)

def Drag.act (l : Nat) : Drag → Act Unit
  | move x y => moveTo l x y
  | movePoint x y => movePointTo l x y
  | turn angle => turnTo l angle
  | pull d dx dy => pullHandle l d dx dy

def dragTitles : List String := ["X", "Y", "Rotation", "Text size"]

def Grip (s : Studio) (l c : Nat) : Prop :=
  ∃ x title, s.layers[l]? = some x ∧ title ∈ dragTitles ∧ x.channels.lookup title = some c

theorem Kin.grip (h : Kin s t) (hc : s.Grip l c) : t.Grip l c := by
  obtain ⟨x, title, hx, htitle, hlookup⟩ := hc
  obtain ⟨y, hy, hxy⟩ := getElem?_of_map_eq h.tables.symm hx
  exact ⟨y, title, hy, htitle, hxy ▸ hlookup⟩

def Handy (s : Studio) (l : Nat) : Prop := ∀ c, s.Grip l c → s.Tame c

theorem Kin.handy (h : Kin s t) (hl : s.Handy l) : t.Handy l :=
  fun c hc => h.tame (hl c (h.symm.grip hc))

def Deed.Drags (s : Studio) (l : Nat) : Deed → Prop
  | carry c _ => s.Grip l c
  | reshape k _ => k = l
  | _ => False

theorem Kin.drags (h : Kin s t) (hd : d.Drags s l) : d.Drags t l := by
  cases d
  case carry c v => exact h.grip hd
  all_goals exact hd

theorem calm_act_of_drags (hl : s.Handy l) (hd : d.Drags s l) : Calm s (d.act.after s) := by
  cases d
  case carry c v => exact calm_carry (hl c hd) v
  case reshape k shape => exact calm_reshape s k shape
  all_goals exact absurd hd id

theorem calm_perform_of_drags (hl : s.Handy l) (hds : ∀ d ∈ ds, d.Drags s l) : Calm s (s.perform ds) := by
  induction ds generalizing s with
  | nil => exact Calm.refl s
  | cons d ds ih =>
    have hcalm : Calm s (d.act.after s) := calm_act_of_drags hl (hds d mem_cons_self)
    refine hcalm.trans (ih (hcalm.kin.handy hl) fun e he => ?_)
    exact hcalm.kin.drags (hds e (mem_cons_of_mem d he))

def Dragged (l : Nat) (s t : Studio) : Prop :=
  s.Handy l → ∃ ds : List Deed, (∀ d ∈ ds, d.Drags s l) ∧ t = s.perform ds

instance (l : Nat) : IsPreorder Studio (Dragged l) where
  refl s _ := ⟨[], fun _ hd => absurd hd not_mem_nil, rfl⟩
  trans s t u hst htu hl := by
    -- the second drag is one of the later studio, where everyone listens as in the earlier
    obtain ⟨ds, hds, rfl⟩ := hst hl
    have hkin : Kin s (s.perform ds) := (calm_perform_of_drags hl hds).kin
    obtain ⟨es, hes, rfl⟩ := htu (hkin.handy hl)
    refine ⟨ds ++ es, fun d hd => ?_, (perform_append s ds es).symm⟩
    obtain hd | hd := mem_append.mp hd
    · exact hds d hd
    · exact hkin.symm.drags (hes d hd)

theorem dragged_emit (hc : s.Grip l c) (v : Value) : Dragged l s ((emit c v).after s) := by
  refine fun _ => ⟨[.carry c v], fun d hd => ?_, rfl⟩
  obtain rfl := mem_singleton.mp hd
  exact hc

theorem dragged_channelOf (htitle : title ∈ dragTitles) {k : Nat → Act α}
    (hk : ∀ s c, s.Grip l c → Dragged l s ((k c).after s)) :
    Within (Dragged l) (channelOf l title >>= k) := by
  intro s
  cases hx : s.layers[l]? with
  | none =>
    have hrun : (channelOf l title).run s = .error .missing s := run_bind_error (run_part_none hx)
    rw [after_bind_error hrun]
    exact refl_of _ s
  | some x =>
    cases hlookup : x.channels.lookup title with
    | none =>
      have hrun : (channelOf l title).run s = .error .noEntry s := by
        rw [channelOf, run_bind_ok (run_part hx)]
        simp only [hlookup]
        rfl
      rw [after_bind_error hrun]
      exact refl_of _ s
    | some c =>
      have hrun : (channelOf l title).run s = .ok c s := by
        rw [channelOf, run_bind_ok (run_part hx)]
        simp only [hlookup]
        rfl
      rw [after_bind_ok hrun]
      exact hk s c ⟨x, title, hx, htitle, hlookup⟩

theorem dragged_emitOn (htitle : title ∈ dragTitles) (v : Value) : Within (Dragged l) (emitOn l title v) :=
  dragged_channelOf htitle fun _ _ hc => dragged_emit hc v

theorem dragged_measured (htitle : title ∈ dragTitles) (m : Except Fault Float) (g : Float → Value) :
    Within (Dragged l) (channelOf l title >>= fun c => require m >>= fun a => emit c (g a)) := by
  refine dragged_channelOf htitle fun s c hc => ?_
  cases m with
  | error e => exact refl_of _ s
  | ok a =>
    rw [after_bind_ok (run_require_ok a s)]
    exact dragged_emit hc (g a)

theorem dragged_onLayer {act : Layer.Act α} (hact : Within (Keeps Layer.channels) act) :
    Within (Dragged l) (onLayer l act) := by
  intro s
  cases hx : s.layers[l]? with
  | none =>
    rw [after_onLayer, modify_eq_self (List.getElem?_eq_none_iff.mp hx)]
    exact refl_of _ s
  | some x =>
    refine fun _ => ⟨[.reshape l (act.after x)], fun d hd => ?_, ?_⟩
    · obtain rfl := mem_singleton.mp hd
      rfl
    · have hshape : { act.after x with channels := x.channels } = act.after x := by
        rw [← show (act.after x).channels = x.channels from hact x]
      show _ = { s with layers := s.layers.modify l _ }
      rw [after_onLayer, modify_eq_set hx, modify_eq_set hx, hshape]

/-- **Dragging a layer** comes to values carried on its channels, and to other shapes of it. -/
theorem dragged_act (l : Nat) (a : Drag) : Within (Dragged l) (a.act l) := by
  cases a
  case move x y =>
    -- bracketed so that each coordinate is one step
    have hmove : moveTo l x y = part Studio.layers l >>= fun layer =>
        (channelOf l "X" >>= fun c => require x.measure >>= fun a =>
          emit c (.float (a + layer.width * layer.offsetX))) >>= fun _ =>
        channelOf l "Y" >>= fun c => require y.measure >>= fun a =>
          emit c (.float (a + layer.height * layer.offsetY)) := by
      simp only [moveTo, bind_assoc]
    show Within (Dragged l) (moveTo l x y)
    rw [hmove]
    refine (within_part _ l).bind fun layer => ?_
    exact (dragged_measured (by decide) _ _).bind fun _ => dragged_measured (by decide) _ _
  case movePoint x y =>
    exact (dragged_emitOn (by decide) x).bind fun _ => dragged_emitOn (by decide) y
  case turn angle => exact dragged_emitOn (by decide) angle
  case pull d dx dy =>
    refine (dragged_onLayer (Layer.keeps_pull d dx dy)).bind fun p => ?_
    cases p with
    | none => exact within_pure _
    | some p =>
      refine (dragged_emitOn (by decide) _).bind fun _ => (within_part _ l).bind fun _ => ?_
      refine (dragged_emitOn (by decide) _).bind fun _ => (within_part _ l).bind fun _ => ?_
      refine (dragged_emitOn (by decide) _).bind fun _ => dragged_onLayer ?_
      exact Layer.keeps_fit fun _ _ _ _ _ => rfl

/-! ### Sessions -/

/-- What the user does: finished edits, drags of layers, undoing and redoing. -/
inductive Move where
  | edit (f : Nat) (v : Value)
  | drag (l : Nat) (a : Drag)
  | undo
  | redo

variable {m : Move}

namespace Move

def act : Move → Act Unit
  | edit f v => enter reactions f v true
  | drag l a => a.act l
  | undo => Studio.undo reactions
  | redo => Studio.redo reactions

def Fits (s : Studio) : Move → Prop
  | edit f v => (Deed.commit f v).Fits s
  | drag l _ => s.Handy l
  | _ => True

def Plays (s : Studio) : Move → List Deed → Prop
  | edit f v, ds => ds = [.commit f v]
  | drag l a, ds => (∀ d ∈ ds, d.Drags s l) ∧ s.perform ds = (a.act l).after s
  | undo, ds => ds = [.undo]
  | redo, ds => ds = [.redo]

theorem perform_of_plays (h : m.Plays s ds) : s.perform ds = m.act.after s := by
  cases m
  case drag l a => exact h.2
  all_goals
    obtain rfl := h
    rfl

theorem exists_plays (hkin : Kin s t) (hm : m.Fits s) : ∃ ds, m.Plays t ds := by
  cases m
  case drag l a =>
    obtain ⟨ds, hds, heq⟩ := dragged_act l a t (hkin.handy hm)
    exact ⟨ds, hds, heq.symm⟩
  all_goals exact ⟨_, rfl⟩

theorem fits_of_plays (hkin : Kin s t) (hm : m.Fits s) (h : m.Plays t ds) : ∀ d ∈ ds, d.Fits s := by
  intro d hd
  cases m
  case drag l a =>
    have hdrags : d.Drags s l := hkin.symm.drags (h.1 d hd)
    cases d
    case carry c v => exact hm c hdrags
    case reshape => trivial
    all_goals exact absurd hdrags id
  all_goals
    obtain rfl := h
    obtain rfl := mem_singleton.mp hd
    exact hm

end Move

def session (s : Studio) (moves : List Move) : Studio := moves.foldl (fun s m => m.act.after s) s

/-- The deeds that moves come to, one move after the other. -/
inductive Plays : Studio → List Move → List Deed → Prop
  | nil (s : Studio) : Plays s [] []
  | cons {s : Studio} {m : Move} {ms : List Move} {ds es : List Deed} (first : m.Plays s ds)
      (rest : Plays (m.act.after s) ms es) : Plays s (m :: ms) (ds ++ es)

theorem Plays.perform {moves : List Move} (h : Plays s moves deeds) : s.perform deeds = s.session moves := by
  induction h with
  | nil s => rfl
  | cons first rest ih =>
    rw [perform_append, Move.perform_of_plays first, ih]
    rfl

section

variable {s t : Studio} (h : Faithful s t) {moves : List Move} (hmoves : ∀ m ∈ moves, m.Fits s)

include h hmoves

theorem Faithful.exists_plays : ∃ deeds, Plays t moves deeds := by
  induction moves generalizing t with
  | nil => exact ⟨[], .nil t⟩
  | cons m moves ih =>
    have hm := hmoves m mem_cons_self
    obtain ⟨ds, hds⟩ := Move.exists_plays h.kin hm
    have hnext : Faithful s (m.act.after t) := by
      rw [← Move.perform_of_plays hds]
      exact h.perform (Move.fits_of_plays h.kin hm hds)
    obtain ⟨es, hes⟩ := ih hnext fun e he => hmoves e (mem_cons_of_mem m he)
    exact ⟨ds ++ es, .cons hds hes⟩

theorem Faithful.fits_of_plays (hplays : Plays t moves deeds) : ∀ d ∈ deeds, d.Fits s := by
  induction hplays with
  | nil => exact fun _ hd => absurd hd not_mem_nil
  | @cons t m moves ds es first rest ih =>
    have hds := Move.fits_of_plays h.kin (hmoves m mem_cons_self) first
    have hnext : Faithful s (m.act.after t) := by
      rw [← Move.perform_of_plays first]
      exact h.perform hds
    intro d hd
    obtain hd | hd := mem_append.mp hd
    · exact hds d hd
    · exact ih hnext (fun e he => hmoves e (mem_cons_of_mem m he)) d hd

end

/-! ### What channels remember -/

def Deed.spokenOn? (s : Studio) (c : Nat) : Deed → Option Value
  | commit f v => s.fields[f]?.bind fun x => if x.channel = c then x.spoken? v else none
  | carry d v => if d = c then some v else none
  | _ => none

def lastSpoken? (s : Studio) (c : Nat) (deeds : List Deed) : Option Value :=
  deeds.reverse.findSome? (Deed.spokenOn? s c)

def Remembers (s t : Studio) (c : Nat) (v : Value) : Prop :=
  ∃ w, t.last? c = some w ∧ (w = v ∨ s.Leveled c ∧ w = v.carried)

theorem Remembers.of_last? {u : Studio} (h : Remembers s t c v) (heq : u.last? c = t.last? c) :
    Remembers s u c v := by
  obtain ⟨w, hw, hv⟩ := h
  exact ⟨w, heq.trans hw, hv⟩

theorem getD_ite_some {p : Prop} [Decidable p] (v w : Value) :
    (if p then some w else none).getD v = if p then w else v := by
  split <;> rfl

theorem Remembers.emit (hkin : Kin s t) {d : Nat} (hunnamed : s.Unnamed c) (h : Remembers s t c v) (hd : s.Tame d)
    (w : Value) :
    Remembers s ((Studio.emit d w).after t) c (if d = c then w else v) := by
  split
  case isTrue heq =>
    subst heq
    obtain ⟨old, hold, -⟩ := h
    -- a channel that remembers something is there
    have hlt : d < t.channels.length := by
      obtain ⟨ch, hch, -⟩ := Option.map_eq_some_iff.mp hold
      exact lt_of_getElem? hch
    obtain hlast | ⟨hleveled, hlast⟩ := last?_emit hlt (hkin.tame hd) (hkin.unnamed hunnamed) w
    · exact ⟨w, hlast, .inl rfl⟩
    · exact ⟨w.carried, hlast, .inr ⟨hkin.symm.leveled hleveled, rfl⟩⟩
  case isFalse hne =>
    exact h.of_last? ((gentle_upTo depth).others d w t (hkin.tame hd) c (Ne.symm hne))

section

variable {s t : Studio} (h : Faithful s t) {c : Nat} (hunnamed : s.Unnamed c) {v : Value}
  (hv : Remembers s t c v)

include h hunnamed hv

theorem remembers_commit (hfits : (Deed.commit f entry).Fits s) :
    Remembers s ((enter reactions f entry true).after t) c (((Deed.commit f entry).spokenOn? s c).getD v) := by
  cases hx : s.fields[f]? with
  | none =>
    rw [h.after_enter_of_none hx, Deed.spokenOn?, hx]
    exact hv
  | some x =>
    obtain ⟨y, hy, hykept, htame, hshell⟩ := h.exists_of_fits hfits hx
    have hchannel : y.channel = x.channel := by simpa using congrArg Field.channel hshell
    have hspoken : (Deed.commit f entry).spokenOn? s c = if y.channel = c then y.spoken? entry else none := by
      rw [Deed.spokenOn?, hx, Field.spoken?_of_shell hshell, hchannel]
      rfl
    rw [hspoken]
    obtain ⟨hnone, -, hchannels, -⟩ | ⟨said, hsome, -, -, hcases⟩ :=
      commit_cases hy hykept htame h.onlyChanges entry
    · rw [hnone, ite_self]
      exact hv.of_last? (by rw [last?, hchannels, last?])
    · -- what is done once the value was carried touches no channel
      have hlast : ((enter reactions f entry true).after t).last? c =
          ((Studio.emit y.channel said).after t).last? c := by
        obtain ⟨heq, -⟩ | ⟨new, -, -, hchannels, -⟩ := hcases
        · rw [heq]
        · rw [last?, hchannels, last?]
      rw [hsome, getD_ite_some]
      exact (hv.emit h.kin hunnamed (h.kin.symm.tame htame) said).of_last? hlast

/-- **One deed**: the channel remembers what it was made to carry, or what it remembered before. -/
theorem remembers_act (hd : d.Fits s) : Remembers s (d.act.after t) c ((d.spokenOn? s c).getD v) := by
  cases d
  case commit f entry => exact remembers_commit h hunnamed hv hd
  case carry d w =>
    rw [Deed.spokenOn?, getD_ite_some]
    exact hv.emit h.kin hunnamed hd w
  case reshape l shape => exact hv
  case undo => exact hv.of_last? (by rw [last?, Deed.act, h.undo.2.2, last?])
  case redo => exact hv.of_last? (by rw [last?, Deed.act, h.redo.2.2, last?])

theorem remembers_perform (hfits : ∀ d ∈ deeds, d.Fits s) :
    Remembers s (t.perform deeds) c ((lastSpoken? s c deeds).getD v) := by
  induction deeds generalizing t v with
  | nil => exact hv
  | cons d deeds ih =>
    have hd := hfits d mem_cons_self
    have hlast : lastSpoken? s c (d :: deeds) = (lastSpoken? s c deeds).or (d.spokenOn? s c) := by
      simp [lastSpoken?, findSome?_append]
    have hrest := ih (h.act hd) (remembers_act h hunnamed hv hd) fun e he =>
      hfits e (mem_cons_of_mem d he)
    rw [hlast]
    show Remembers s ((d.act.after t).perform deeds) c _
    -- a later deed that carries a value wins over the first
    cases hspoken : lastSpoken? s c deeds with
    | none =>
      rw [hspoken] at hrest
      exact hrest
    | some w =>
      rw [hspoken] at hrest
      exact hrest

end

/-! ### Agreement -/

/-- Whether a field has the value that its channel carried last. Numbers agree if they are equal. -/
def agreed (s : Studio) (f : Nat) : Bool :=
  (s.fields[f]?.bind fun x => (s.last? x.channel).map x.value.same).getD false

/-- **Agreement of panel and preview.** After any session a field agrees with its channel just if the value that the
    commands in effect give the field equals the value that was carried last by an edit or a drag. Undoing and redoing
    carry nothing, and drags give no command; so these are the moves that end the agreement. -/
theorem agreed_session {s : Studio} (hnew : s.history = {}) {moves : List Move}
    (hmoves : ∀ m ∈ moves, m.Fits s) {f : Nat} {x : Field} (hx : s.fields[f]? = some x)
    {heard : Value} (hheard : s.last? x.channel = some heard) (hunnamed : s.Unnamed x.channel) :
    let t := s.session moves
    let given := (lastGiven? f (t.history.commands.take t.history.index)).getD x.value
    (∃ deeds, Plays s moves deeds) ∧ ∀ deeds, Plays s moves deeds →
      let spoken := (lastSpoken? s x.channel deeds).getD heard
      ∃ w, (w = spoken ∨ s.Leveled x.channel ∧ w = spoken.carried) ∧
        t.last? x.channel = some w ∧ t.agreed f = given.same w := by
  have hstart : Faithful s s := faithful_refl hnew
  refine ⟨hstart.exists_plays hmoves, fun deeds hplays => ?_⟩
  have hfits := hstart.fits_of_plays hmoves hplays
  have hend : Faithful s (s.session moves) := hplays.perform ▸ hstart.perform hfits
  obtain ⟨w, hw, hspoken⟩ : Remembers s (s.session moves) x.channel _ :=
    hplays.perform ▸ remembers_perform hstart hunnamed ⟨heard, hheard, .inl rfl⟩ hfits
  refine ⟨w, hspoken, hw, ?_⟩
  obtain ⟨y, hy, hshell⟩ := getElem?_of_map_eq hend.kin.shells.symm hx
  have hchannel : x.channel = y.channel := by simpa using congrArg Field.channel hshell
  have hvalue := getElem?_values hy
  rw [hend.told, getElem?_replay (getElem?_values hx)] at hvalue
  rw [Option.some.inj hvalue, agreed, hy]
  simp [← hchannel, hw]

def board : Studio :=
  { channels := [{ (({} : Channel Listener).register (.field 0)).register (.layer 0 .moveX) with
      last := .float 0 }]
    fields := [{ Field.start "X" (.limits (.int (-500)) (.int 500) (.int 0)) (.float 0) "" 0 [] with
      recorded := true }]
    layers := [{ channels := [("X", 0)] }] }

theorem on_board {l : Listener} (hl : l.On board c) : l = .field 0 ∨ l = .layer 0 .moveX := by
  obtain ⟨ch, hch, hmem⟩ := hl
  obtain rfl := mem_singleton.mp (mem_of_getElem? hch)
  simp only [Channel.listeners, Channel.register, nil_append, cons_append, mem_cons, not_mem_nil, or_false] at hmem
  grind

theorem tame_board (c : Nat) : board.Tame c := by
  intro l hl
  left
  obtain rfl | rfl := on_board hl
  · rintro x ⟨⟩
    rfl
  · trivial

theorem agreed_session_board :
    let moves := [.edit 0 (.text "12.5"), .drag 0 (.movePoint (.int 3) (.int 4)), .undo]
    let t := board.session moves
    let given := (lastGiven? 0 (t.history.commands.take t.history.index)).getD (.float 0)
    (∃ deeds, Plays board moves deeds) ∧ ∀ deeds, Plays board moves deeds →
      let spoken := (lastSpoken? board 0 deeds).getD (.float 0)
      ∃ w, (w = spoken ∨ board.Leveled 0 ∧ w = spoken.carried) ∧
        t.last? 0 = some w ∧ t.agreed 0 = given.same w := by
  have hunnamed : board.Unnamed 0 := by
    intro i hi
    obtain h | h := on_board hi <;> cases h
  refine agreed_session (s := board) rfl ?_ (f := 0) rfl rfl hunnamed
  intro m hm
  simp only [List.mem_cons, List.not_mem_nil, or_false] at hm
  rcases hm with rfl | rfl | rfl
  · rintro x ⟨⟩
    exact ⟨⟨rfl, nofun, rfl, rfl⟩, tame_board 0⟩
  · exact fun c _ => tame_board c
  · trivial

/-- Undoing an edit takes the value of the field back, and leaves the layer where it is. -/
theorem not_agreed_undo :
    board.agreed 0 = true ∧ (board.session [.edit 0 (.text "12.5")]).agreed 0 = true ∧
      (board.session [.edit 0 (.text "12.5"), .undo]).agreed 0 = false ∧
      (board.session [.drag 0 (.movePoint (.float 12.5) (.float 0))]).agreed 0 = false := by
  decide +kernel

end Studio

end WatchFace
