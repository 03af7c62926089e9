import WatchFace.Proofs.Studio.Retaining
import WatchFace.Proofs.Studio.Summons

/-!
# Groups of commands that stay open

The group of a nested form is ended by the form around it, and that of a new component by its summons; nobody ends the
group of a form for the settings that components start with. Whoever fails on the way leaves groups open.
-/

namespace WatchFace.Studio

open EStateM Catalog

/-! ### What opens no groups -/

def tally (s : Studio) : Nat × Nat := (s.groups, s.forms.length)

theorem Retains.tally_eq {k : Nat} {s t : Studio} (h : Retains k s t) : t.tally = s.tally := by
  rw [tally, tally, h.groups, h.forms]

theorem keeps_changeForm (form : Nat) (g : Form → Form) : Within (Keeps tally) (changeForm form g) :=
  keeps_modify fun s => by simp [tally]

theorem keeps_addField (form : Nat) (title : String) (v : Value) (description : String) (kind : Kind) (c : Nat) :
    Within (Keeps tally) (addField form title v description kind c) := by
  have hmake : Within (Keeps tally) (makeField title v description kind c) :=
    fun s => (retains_makeField (Nat.zero_le _) title v description kind c).tally_eq
  refine hmake.bind fun f => ?_
  exact Within.bind (keeps_modify fun _ => rfl) fun _ => keeps_changeForm form _

theorem keeps_takeId : Within (Keeps tally) takeId := by
  refine within_get.bind fun s => ?_
  dsimp only
  split
  · exact Within.bind (keeps_modify fun _ => rfl) fun _ => within_pure _
  · exact within_throw _

/-! ### Filling forms -/

section

variable {α β : Type} {x : Act α} {f : α → Act β}

/-- An action that leaves no group open if it succeeds, ends none if it fails, and only adds forms. -/
structure Tallies (act : Act α) : Prop where
  ok : ∀ {s a t}, act.run s = .ok a t → t.groups = s.groups ∧ s.forms.length ≤ t.forms.length
  error : ∀ {s e t}, act.run s = .error e t → s.groups ≤ t.groups ∧ s.forms.length ≤ t.forms.length

theorem tally_of_keeps {act : Act α} (h : Within (Keeps tally) act) {s t : Studio} (ht : act.after s = t) :
    t.groups = s.groups ∧ t.forms.length = s.forms.length := by
  subst ht
  exact ⟨congrArg Prod.fst (h s), congrArg Prod.snd (h s)⟩

theorem tallies_of_keeps {act : Act α} (h : Within (Keeps tally) act) : Tallies act := by
  constructor
  · intro s a t hrun
    obtain ⟨hgroups, hforms⟩ := tally_of_keeps h (after_of_ok hrun)
    omega
  · intro s e t hrun
    obtain ⟨hgroups, hforms⟩ := tally_of_keeps h (after_of_error hrun)
    omega

theorem Tallies.bind (hx : Tallies x) (hf : ∀ a, Tallies (f a)) : Tallies (x >>= f) := by
  constructor
  · intro s b u hrun
    obtain ⟨a, t, hfirst, hrest⟩ := exists_of_run_bind_ok hrun
    have hthere := hx.ok hfirst
    have hon := (hf a).ok hrest
    omega
  · intro s e u hrun
    obtain hfirst | ⟨a, t, hfirst, hrest⟩ := run_bind_error_cases hrun
    · exact hx.error hfirst
    · have hthere := hx.ok hfirst
      have hon := (hf a).error hrest
      omega

/-- An action that adds a form and leaves `k` groups open. If it fails it has done neither, or left groups open. -/
structure Opens (k : Nat) (act : Act α) : Prop where
  ok : ∀ {s a t}, act.run s = .ok a t → t.groups = s.groups + k ∧ s.forms.length < t.forms.length
  error : ∀ {s e t}, act.run s = .error e t →
    t.tally = s.tally ∨ s.groups < t.groups ∧ s.forms.length < t.forms.length

theorem opens_fill {key : Value} {fill : Nat → Act α} (hfill : ∀ n, Tallies (fill n)) (layer : String)
    (switch : Bool) : Opens 1 (do
      demandFree key
      let n ← openForm layer key switch true
      fill n) := by
  constructor
  · intro s a t hrun
    obtain ⟨⟨⟩, s', hfree, hrun⟩ := exists_of_run_bind_ok hrun
    obtain ⟨u, hopen, hu⟩ := exists_run_openForm_of_free hfree layer switch
    rw [run_bind_ok hopen] at hrun
    have hfilled := (hfill _).ok hrun
    have hlonger : u.forms.length = s.forms.length + 1 := by simp [hu.forms]
    have hopened := hu.groups
    omega
  · intro s e t hrun
    obtain hfree | ⟨⟨⟩, s', hfree, hrun⟩ := run_bind_error_cases hrun
    · left
      have hkeep := within_demandFree (R := Keeps tally) key s
      rwa [after_of_error hfree] at hkeep
    · obtain ⟨u, hopen, hu⟩ := exists_run_openForm_of_free hfree layer switch
      rw [run_bind_ok hopen] at hrun
      have hfilled := (hfill _).error hrun
      have hlonger : u.forms.length = s.forms.length + 1 := by simp [hu.forms]
      have hopened := hu.groups
      omega

theorem run_endGroup (s : Studio) : endGroup.run s = .ok () { s with groups := s.groups - 1 } := rfl

theorem Opens.tallies {rest : α → Act β} (hx : Opens 1 x) (hrest : ∀ a, Tallies (rest a)) :
    Tallies (do let a ← x; endGroup; rest a) := by
  constructor
  · intro s b v hrun
    obtain ⟨a, t, hfirst, hrun⟩ := exists_of_run_bind_ok hrun
    rw [run_bind_ok (run_endGroup t)] at hrun
    have hopened := hx.ok hfirst
    have hon := (hrest a).ok hrun
    dsimp only at hon
    omega
  · intro s e v hrun
    obtain hfirst | ⟨a, t, hfirst, hrun⟩ := run_bind_error_cases hrun
    · obtain hsame | hopened := hx.error hfirst
      · obtain ⟨hgroups, hforms⟩ := Prod.mk.inj hsame
        omega
      · omega
    · rw [run_bind_ok (run_endGroup t)] at hrun
      have hopened := hx.ok hfirst
      have hon := (hrest a).error hrun
      dsimp only at hon
      omega

end

mutual

theorem tallies_addAttribute (form : Nat) (schema : Schema) (channels : List (String × Nat)) :
    (a : Attribute) → Tallies (addAttribute form schema channels a)
  | .value title v description => by
    have hchannel : Within (Keeps tally) addChannel := fun _ => rfl
    unfold addAttribute
    refine (tallies_of_keeps hchannel).bind fun c => tallies_of_keeps ?_
    split
    · exact within_throw _
    · exact (keeps_addField form title v description _ c).bind fun _ => within_pure _
  | .form title layer as description => by
    have hchannel : Within (Keeps tally) addChannel := fun _ => rfl
    have hinner := fun n => tallies_addAttributes n (schemaOf layer) [] as
    unfold addAttribute
    refine (tallies_of_keeps hchannel).bind fun c => ?_
    dsimp only
    split
    · -- the nested form is filled inside its group, and its field is added behind it
      refine (tallies_of_keeps (within_require _)).bind fun shown => ?_
      refine (tallies_of_keeps keeps_takeId).bind fun id => ?_
      have hopens := @opens_fill _ (.int id) _
        (fun n => (hinner n).bind fun inner => tallies_of_keeps (within_pure (n, inner))) layer false
      have hfield : ∀ p : Nat × List (String × Nat), Within (Keeps tally) (do
          let child ← formOf? (.int id)
          changeForm form fun x => { x with child := child }
          let d ← channelUnder p.1 shown
          changeForm form fun x => { x with opens := some (.int id) }
          addField form title (.list (attributeValues as)) description .nested d
          pure (p.2.foldl (fun t e => assign t e.1 e.2) (assign channels title c)) :
            Act (List (String × Nat))) := fun p =>
        (within_formOf? _).bind fun _ => (keeps_changeForm form _).bind fun _ =>
          (within_channelUnder p.1 shown).bind fun _ => (keeps_changeForm form _).bind fun _ =>
            (keeps_addField form _ _ _ _ _).bind fun _ => within_pure _
      have htallies := hopens.tallies fun p => tallies_of_keeps (hfield p)
      simpa only [bind_assoc, pure_bind] using htallies
    · exact tallies_of_keeps ((keeps_addField form title _ description _ c).bind fun _ => within_pure _)

theorem tallies_addAttributes (form : Nat) (schema : Schema) (channels : List (String × Nat)) :
    (as : List Attribute) → Tallies (addAttributes form schema channels as)
  | [] => by
    unfold addAttributes
    exact tallies_of_keeps (within_pure _)
  | a :: as => by
    unfold addAttributes
    exact (tallies_addAttribute form schema channels a).bind fun channels =>
      tallies_addAttributes form schema channels as

end

/-! ### Additions -/

section

variable {α β : Type} {k : Nat}

theorem Opens.preceded {x : Act α} {f : α → Act β} (hx : Within (Keeps tally) x) (hf : ∀ a, Opens k (f a)) :
    Opens k (x >>= f) := by
  constructor
  · intro s b u hrun
    obtain ⟨a, t, hfirst, hrest⟩ := exists_of_run_bind_ok hrun
    have hthere := tally_of_keeps hx (after_of_ok hfirst)
    have hon := (hf a).ok hrest
    omega
  · intro s e u hrun
    obtain hfirst | ⟨a, t, hfirst, hrun⟩ := run_bind_error_cases hrun
    · obtain ⟨hgroups, hforms⟩ := tally_of_keeps hx (after_of_error hfirst)
      exact .inl (Prod.ext hgroups hforms)
    · obtain ⟨hgroups, hforms⟩ := tally_of_keeps hx (after_of_ok hfirst)
      obtain hnone | hopened := (hf a).error hrun
      · obtain ⟨hgroups', hforms'⟩ := Prod.mk.inj hnone
        exact .inl (Prod.ext (hgroups'.trans hgroups) (hforms'.trans hforms))
      · omega

theorem opens_throw (e : Fault) : Opens k (throw e : Act α) := by
  constructor
  · intro s a t hrun
    cases hrun
  · intro s e' t hrun
    cases hrun
    exact .inl rfl

theorem Opens.discarded {x : Act α} (hx : Opens k x) : Opens k (do let _ ← x) := by
  constructor
  · intro s b u hrun
    obtain ⟨a, t, hfirst, hrest⟩ := exists_of_run_bind_ok hrun
    cases hrest
    exact hx.ok hfirst
  · intro s e u hrun
    obtain hfirst | ⟨a, t, -, hrest⟩ := run_bind_error_cases hrun
    · exact hx.error hfirst
    · cases hrest

theorem Opens.ended {x : Act α} {follow : α → Act Unit} (hx : Opens 1 x)
    (hfollow : ∀ a, Within (Keeps tally) (follow a)) :
    Opens 0 (do let a ← x; calmly (follow a); endGroup) := by
  constructor
  · intro s b u hrun
    obtain ⟨a, t, hfirst, hrun⟩ := exists_of_run_bind_ok hrun
    rw [run_bind_ok (run_calmly _ t), run_endGroup] at hrun
    cases hrun
    obtain ⟨hgroups, hforms⟩ := Prod.mk.inj (hfollow a t)
    have hopened := hx.ok hfirst
    dsimp only
    omega
  · intro s e u hrun
    obtain hfirst | ⟨a, t, -, hrun⟩ := run_bind_error_cases hrun
    · exact hx.error hfirst
    -- faults of those who follow are passed over
    · rw [run_bind_ok (run_calmly _ t)] at hrun
      cases hrun

end

theorem opens_addForm (e : Entry) (key : Value) : Opens 1 (addForm e (some key) true true) := by
  have hdemand : Within (Keeps tally) (demandFree key) := within_demandFree key
  unfold addForm
  rw [Option.getD_some]
  cases e with
  | schema s => exact .preceded hdemand fun _ => opens_throw _
  | maker => exact .preceded hdemand fun _ => opens_throw _
  | component c =>
    have hfill := @opens_fill _ key _ (fun n => (tallies_addAttributes n (schemaOf c.layer) [] c.attributes).bind
      fun channels => tallies_of_keeps (within_pure (key, c.layer, channels))) c.layer true
    simpa only [bind_assoc, pure_bind] using hfill

/-- What adds a form to the panel: a summons by a name or a key, and the form for the settings of components with a
    name. -/
inductive Addition where
  | summon (type : Value) (pos id : Option Value)
  | preset (name : Value)

namespace Addition

def act (w : Audience) : Addition → Act Unit
  | summon type pos id => Studio.summon w.follow type pos id
  | preset name => dropName name

def isSummons : Addition → Bool
  | summon .. => true
  | preset _ => false

theorem opens_summoned (w : Audience) (e : Entry) (id : Option Value) : Opens 0 (do
    let key ← match id with
      | some k => pure k
      | none => pure (Value.int (← takeId))
    let made ← addForm e (some key) true true
    calmly (w.follow made.2.1 made.2.2 made.1)
    endGroup) := by
  have hadd : ∀ key, Opens 0 (do
      let made ← addForm e (some key) true true
      calmly (w.follow made.2.1 made.2.2 made.1)
      endGroup) := fun key =>
    (opens_addForm e key).ended fun made s => (retains_follow (k := 0) w made.2.1 made.2.2 made.1 s).tally_eq
  cases id with
  | some k => exact hadd k
  | none => exact .preceded keeps_takeId fun n => hadd (.int n)

theorem opens_act (w : Audience) (a : Addition) : Opens (if a.isSummons then 0 else 1) (a.act w) := by
  cases a with
  | preset name =>
    refine .preceded (within_namedEntry name) fun e => ?_
    exact (opens_addForm e name).discarded
  | summon type pos id =>
    refine .preceded (within_sourceOf type) fun e => ?_
    cases pos with
    | some p => exact .preceded (within_require _) fun e => opens_summoned w e id
    | none => exact opens_summoned w e id

end Addition

/-- **An addition leaves as many groups open as there were just if it adds no form, or is a summons that
    succeeds**; it never ends a group of others. So the group of a preset stays open, and so do those of a
    summons that fails once its form is there. -/
theorem groups_act_iff (w : Audience) (a : Addition) (s : Studio) :
    let t := (a.act w).after s
    s.groups ≤ t.groups ∧ (t.groups = s.groups ↔
      t.forms.length = s.forms.length ∨ a.isSummons = true ∧ (a.act w).run s = .ok () t) := by
  have hopens := a.opens_act w
  cases hrun : (a.act w).run s with
  | error e t =>
    rw [after_of_error hrun]
    simp only [reduceCtorEq, and_false, or_false]
    obtain hnone | hopened := hopens.error hrun
    · obtain ⟨hgroups, hforms⟩ := Prod.mk.inj hnone
      omega
    · omega
  | ok _ t =>
    rw [after_of_ok hrun]
    simp only [and_true]
    obtain ⟨hgroups, hforms⟩ := hopens.ok hrun
    cases hsummons : a.isSummons with
    | true =>
      rw [hsummons] at hgroups
      exact ⟨Nat.le_of_eq hgroups.symm, iff_of_true hgroups (.inr rfl)⟩
    | false =>
      rw [hsummons, if_neg Bool.false_ne_true] at hgroups
      simp only [Bool.false_eq_true, or_false]
      omega

/-- The group of a preset for new shapes stays open. -/
theorem groups_preset_shape :
    (((Addition.preset (.text "shape")).act .outside).after opened).groups = opened.groups + 1 := by
  decide +kernel

end WatchFace.Studio
