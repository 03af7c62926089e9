import WatchFace.Editor
import WatchFace.Proofs.Studio.Leaving

/-!
# Drops on the explorer

An item that is dropped on the explorer exchanges places with the reference item. Any other drop is a fault, and the
explorer stays covered.
-/

namespace EStateM

variable {ε σ α β : Type} {x : EStateM ε σ α} {f : α → EStateM ε σ β} {s t : σ} {a : α} {e : ε}

theorem succeeds_bind_ok (h : x.run s = .ok a t) : (x >>= f).succeeds s = (f a).succeeds t := by
  rw [succeeds, run_bind_ok h, succeeds]

theorem succeeds_bind_error (h : x.run s = .error e t) : (x >>= f).succeeds s = false := by
  rw [succeeds, run_bind_error h]

theorem succeeds_seq_iff {x : EStateM ε σ Unit} {y : EStateM ε σ β} :
    (x >>= fun _ => y).succeeds s = true ↔ x.succeeds s = true ∧ y.succeeds (x.after s) = true := by
  cases hx : x.run s with
  | ok a t => simp [after_of_ok hx, succeeds, hx]
  | error e t => simp [succeeds, hx]

end EStateM

namespace WatchFace

open EStateM

/-! ### Exchanging places -/

namespace Studio

variable {s : Studio} {i ref : Nat} {v : Value}

def CanTake (s : Studio) (i : Nat) (v : Value) : Prop :=
  ∃ item, s.items[i]? = some item ∧ ((v == item.level) = true ∨ item.levels < s.channels.length ∧ v.Carries)

theorem succeeds_part_iff {α β : Type} {parts : Studio → List α} {n : Nat} {g : α → Act β} :
    (part parts n >>= g).succeeds s = true ↔ ∃ a, (parts s)[n]? = some a ∧ (g a).succeeds s = true := by
  cases ha : (parts s)[n]? with
  | none => simp [succeeds_bind_error (run_part_none ha)]
  | some a => simp [succeeds_bind_ok (run_part ha)]

theorem succeeds_setLevel_iff : (setLevel reactions i v).succeeds s = true ↔ s.CanTake i v := by
  refine succeeds_part_iff.trans (exists_congr fun item => and_congr_right fun _ => ?_)
  by_cases hsame : (v == item.level) = true
  · rw [if_pos hsame]
    exact iff_of_true rfl (.inl hsame)
  · let t : Studio := { s with items := s.items.modify i fun x => { x with level := v } }
    rw [if_neg hsame, or_iff_right hsame]
    show (emit item.levels v).succeeds t = true ↔ _
    refine ⟨fun h => ?_, fun h => (succeeds_emit_iff (s := t) (List.getElem?_eq_getElem h.1)).mpr h.2⟩
    obtain ⟨ch, hch, -⟩ := succeeds_part_iff.mp h
    exact ⟨lt_of_getElem? hch, (succeeds_emit_iff hch).mp h⟩

/-- An item that can exchange places with another: a group takes it in, and any other item takes its place and then
    lets it have the own one. -/
def CanExchange (s : Studio) (i ref : Nat) : Prop :=
  ∃ target, s.items[ref]? = some target ∧ (target.isGroup = true ∨ ∃ item, s.items[i]? = some item ∧
    s.CanTake ref item.level ∧ ((setLevel reactions ref item.level).after s).CanTake i target.level)

def wiring (s : Studio) : List (Nat × Nat) × Nat := (s.items.map Item.ports, s.channels.length)

theorem keeps_wiring_setLevel (i : Nat) (v : Value) : Within (Keeps wiring) (setLevel reactions i v) := by
  have hports : ∀ x : Item, ({ x with level := v } : Item).ports = x.ports := fun _ => rfl
  refine (within_part _ i).bind fun item => ?_
  split
  · exact within_pure _
  · refine (keeps_modify fun s => ?_).bind fun _ s => ?_
    · exact Prod.ext (map_modify_of_eq hports s.items i) rfl
    · have hripple := ((rippling_upTo depth).emit item.levels v s).toRipple
      exact Prod.ext hripple.ports (length_of_map_eq hripple.listeners)

def Placed (s : Studio) (i : Nat) : Prop :=
  ∃ item, s.items[i]? = some item ∧ item.levels < s.channels.length ∧ item.level.Carries

theorem canExchange_of_placed (hi : s.Placed i) (href : s.Placed ref) : s.CanExchange i ref := by
  obtain ⟨item, hitem, hlevels, hcarries⟩ := hi
  obtain ⟨target, htarget, hlevels', hcarries'⟩ := href
  have hwiring := keeps_wiring_setLevel ref item.level s
  obtain ⟨now, hnow, hports⟩ := getElem?_of_map_eq (congrArg Prod.fst hwiring).symm hitem
  have hlength : ((setLevel reactions ref item.level).after s).channels.length = s.channels.length :=
    congrArg Prod.snd hwiring
  have hsame : item.levels = now.levels := congrArg Prod.fst hports
  refine ⟨target, htarget, .inr ⟨item, hitem, ⟨target, htarget, .inr ⟨hlevels', hcarries⟩⟩, now, hnow, .inr ⟨?_, hcarries'⟩⟩⟩
  rwa [hlength, ← hsame]

theorem succeeds_drop_iff : (drop i).succeeds s = true ↔
    ∃ ref, s.explorer.reference = some ref ∧ (i = ref ∨ s.CanExchange i ref) := by
  unfold drop
  rw [succeeds_bind_ok (run_get s)]
  cases href : s.explorer.reference with
  | none => exact iff_of_false Bool.false_ne_true (by simp)
  | some ref =>
    simp only [Option.some.injEq, exists_eq_left']
    by_cases hi : i = ref
    · rw [if_pos hi]
      exact iff_of_true rfl (.inl hi)
    · rw [if_neg hi, or_iff_right hi]
      refine succeeds_part_iff.trans (exists_congr fun target => and_congr_right fun _ => ?_)
      cases hgroup : target.isGroup with
      | true => exact iff_of_true rfl (.inl rfl)
      | false =>
        show (part Studio.items i >>= fun item => setLevel reactions ref item.level >>= fun _ =>
          setLevel reactions i target.level).succeeds s = true ↔ _
        simp [succeeds_part_iff, succeeds_seq_iff, succeeds_setLevel_iff]

theorem after_drop_none (href : s.explorer.reference = none) : (drop i).after s = s := by
  unfold drop
  rw [after_bind_ok (run_get s), href]
  rfl

def item? (s : Studio) (v : Value) : Option Nat := v.text?.bind fun id => s.explorer.items.lookup id

theorem run_dropText_some (h : s.item? v = some i) : (dropText v).run s = (drop i).run s := by
  obtain ⟨name, hname, hi⟩ := Option.bind_eq_some_iff.mp h
  cases v
  case text id =>
    obtain rfl := Option.some.inj hname
    have hitem : (itemOf id).run s = .ok i s := by
      unfold itemOf
      rw [run_bind_ok (run_get s), hi]
      rfl
    exact run_bind_ok hitem
  all_goals cases hname

theorem exists_run_dropText_none (h : s.item? v = none) : ∃ f, (dropText v).run s = .error f s := by
  cases v
  case text id =>
    have hid : s.explorer.items.lookup id = none := h
    have hitem : (itemOf id).run s = .error .noEntry s := by
      unfold itemOf
      rw [run_bind_ok (run_get s), hid]
      rfl
    exact ⟨_, run_bind_error hitem⟩
  all_goals exact ⟨_, rfl⟩

theorem succeeds_dropText_iff : (dropText v).succeeds s = true ↔
    ∃ i ref, s.item? v = some i ∧ s.explorer.reference = some ref ∧ (i = ref ∨ s.CanExchange i ref) := by
  cases hv : s.item? v with
  | none =>
    obtain ⟨f, hrun⟩ := exists_run_dropText_none hv
    simp [EStateM.succeeds, hrun]
  | some i =>
    have hdrop : (dropText v).succeeds s = (drop i).succeeds s := by rw [EStateM.succeeds, run_dropText_some hv]; rfl
    simp [hdrop, succeeds_drop_iff]

theorem exists_of_after_dropText (h : (dropText v).after s ≠ s) :
    ∃ i ref, s.item? v = some i ∧ s.explorer.reference = some ref := by
  cases hv : s.item? v with
  | none =>
    obtain ⟨f, hrun⟩ := exists_run_dropText_none hv
    exact absurd (after_of_error hrun) h
  | some i =>
    cases href : s.explorer.reference with
    | none => exact absurd ((after_congr (run_dropText_some hv)).trans (after_drop_none href)) h
    | some ref => exact ⟨i, ref, rfl, rfl⟩

end Studio

namespace Editor

def brought (text : Option Value) : Studio.Act Unit := text.elim (pure ()) Studio.dropText

theorem drop_explorer_cases (e : Editor) (x y : Value) (text : Option Value) :
    (drop .explorer x y text).succeeds e = (brought text).succeeds e.studio ∧
      (drop .explorer x y text).after e =
        { e with
          studio := (brought text).after e.studio
          zones := if (brought text).succeeds e.studio then e.zones.change ({ · with covered := false }) .explorer
            else e.zones } := by
  cases text with
  | none => exact ⟨rfl, rfl⟩
  | some v =>
    let uncover : Act (Option Reply) := changeZone .explorer ({ · with covered := false }) >>= fun _ => pure none
    have hdrop : drop .explorer x y (some v) = onStudio (Studio.dropText v) >>= fun _ => uncover := rfl
    have hrun : (onStudio (Studio.dropText v)).run e = match (Studio.dropText v).run e.studio with
      | .ok a t => .ok a { e with studio := t }
      | .error f t => .error f { e with studio := t } := by
      unfold onStudio
      rw [run_bind_ok (run_get e)]
      cases (Studio.dropText v).run e.studio <;> rfl
    rw [hdrop, brought, Option.elim_some, EStateM.succeeds, EStateM.after, EStateM.succeeds]
    cases hv : (Studio.dropText v).run e.studio with
    | ok a t =>
      rw [hv] at hrun
      rw [run_bind_ok hrun, after_of_ok hv]
      exact ⟨rfl, rfl⟩
    | error f t =>
      rw [hv] at hrun
      rw [run_bind_error hrun, after_of_error hv]
      exact ⟨rfl, rfl⟩

/-- **A drop on the explorer succeeds and uncovers it, exactly if it brings no text, or the id of an item that can
    exchange places with the reference item.** Any other drop leaves all covers as they are. -/
theorem drop_explorer_iff (e : Editor) (x y : Value) (text : Option Value) :
    ((drop .explorer x y text).succeeds e = true ∧
        ((drop .explorer x y text).after e).zones.explorer.covered = false ↔
      ∀ v, text = some v → ∃ i ref, e.studio.item? v = some i ∧ e.studio.explorer.reference = some ref ∧
        (i = ref ∨ e.studio.CanExchange i ref)) ∧
    (∀ i ref, e.studio.Placed i → e.studio.Placed ref → e.studio.CanExchange i ref) ∧
    ((drop .explorer x y text).succeeds e = false → ((drop .explorer x y text).after e).zones = e.zones) ∧
    ∀ k, ((drop .explorer x y text).after e).studio.level? k ≠ e.studio.level? k →
      ∃ v i ref, text = some v ∧ e.studio.item? v = some i ∧ e.studio.explorer.reference = some ref := by
  obtain ⟨hsucceeds, hafter⟩ := drop_explorer_cases e x y text
  rw [hsucceeds, hafter]
  refine ⟨?_, fun i ref => Studio.canExchange_of_placed, fun hfails => by simp [hfails], fun k hk => ?_⟩
  · have huncovered : ∀ b : Bool, (b = true ∧ (if b = true then e.zones.change ({ · with covered := false }) .explorer
        else e.zones).explorer.covered = false) ↔ b = true := by
      rintro (_ | _) <;> simp [Zones.change]
    rw [huncovered]
    cases text with
    | none => exact iff_of_true rfl (by simp)
    | some v => exact Studio.succeeds_dropText_iff.trans (by simp)
  · cases text with
    | none => exact absurd rfl hk
    | some v =>
      obtain ⟨i, ref, hi, href⟩ := Studio.exists_of_after_dropText fun heq => hk (congrArg (Studio.level? · k) heq)
      exact ⟨v, i, ref, rfl, hi, href⟩

def covered : Editor := { zones := Zones.cover {} true }

/-- A component that is dropped on the explorer is a fault, and the explorer stays covered. -/
theorem not_succeeds_drop_shape : (drop .explorer (.int 5) (.int 5) (some (.text "shape"))).succeeds covered = false ∧
    ((drop .explorer (.int 5) (.int 5) (some (.text "shape"))).after covered).zones.explorer.covered = true := by
  decide +kernel

end Editor

end WatchFace
