import Mathlib.Order.Defs.Unbundled
import WatchFace.Channel

/-!
# Actions and the states they lead to

An action can fail, and what it did before stays done. So the state that it leads to matters whether
it succeeds or not.
-/

namespace EStateM

open List

variable {ε σ α β : Type}
variable {act act' x : EStateM ε σ α} {s t u : σ} {a : α} {e : ε} {f : α → EStateM ε σ β} {P : σ → Prop}
  {l : List α}

/-- The state that an action leads to, whether it succeeds or fails. -/
def after (act : EStateM ε σ α) (s : σ) : σ :=
  match act.run s with
  | .ok _ t => t
  | .error _ t => t

theorem after_of_ok (h : act.run s = .ok a t) : act.after s = t := by
  rw [after, h]

theorem after_of_error (h : act.run s = .error e t) : act.after s = t := by
  rw [after, h]

def succeeds (act : EStateM ε σ α) (s : σ) : Bool :=
  match act.run s with
  | .ok _ _ => true
  | .error _ _ => false

theorem exists_of_succeeds (h : act.succeeds s = true) : ∃ a t, act.run s = .ok a t := by
  unfold succeeds at h
  cases hrun : act.run s with
  | ok a t => exact ⟨a, t, rfl⟩
  | error e t =>
    rw [hrun] at h
    cases h

theorem run_of_succeeds {act : EStateM ε σ Unit} (h : act.succeeds s = true) : act.run s = .ok () (act.after s) := by
  obtain ⟨⟨⟩, t, hrun⟩ := exists_of_succeeds h
  rw [after_of_ok hrun]
  exact hrun

theorem after_congr {s' : σ} (h : act.run s = act'.run s') : act.after s = act'.after s' := by
  rw [after, after, h]

theorem run_bind_ok (h : x.run s = .ok a t) : (x >>= f).run s = (f a).run t := by
  rw [run_bind, h]

theorem run_bind_error (h : x.run s = .error e t) : (x >>= f).run s = .error e t := by
  rw [run_bind, h]

theorem exists_of_run_bind_ok {b : β} (h : (x >>= f).run s = .ok b u) :
    ∃ a t, x.run s = .ok a t ∧ (f a).run t = .ok b u := by
  cases hx : x.run s with
  | ok a t => exact ⟨a, t, rfl, (run_bind_ok hx).symm.trans h⟩
  | error e t =>
    rw [run_bind_error hx] at h
    cases h

theorem exists_of_bind_eq_ok {x : Except ε α} {f : α → Except ε β} {b : β} (h : x >>= f = .ok b) :
    ∃ a, x = .ok a ∧ f a = .ok b := by
  cases x with
  | error e => cases h
  | ok a => exact ⟨a, rfl, h⟩

theorem run_bind_error_cases (h : (x >>= f).run s = .error e u) :
    x.run s = .error e u ∨ ∃ a t, x.run s = .ok a t ∧ (f a).run t = .error e u := by
  cases hx : x.run s with
  | ok a t => exact .inr ⟨a, t, rfl, (run_bind_ok hx).symm.trans h⟩
  | error e' t =>
    rw [run_bind_error hx] at h
    cases h
    exact .inl rfl

theorem after_bind_ok (h : x.run s = .ok a t) : (x >>= f).after s = (f a).after t := by
  rw [after, run_bind_ok h, after]

theorem after_bind_error (h : x.run s = .error e t) : (x >>= f).after s = t :=
  after_of_error (run_bind_error h)

theorem after_bind_of (herror : P (x.after s)) (hok : ∀ a t, x.run s = .ok a t → P ((f a).after t)) :
    P ((x >>= f).after s) := by
  cases hrun : x.run s with
  | ok a t =>
    rw [after_bind_ok hrun]
    exact hok a t hrun
  | error e t =>
    rw [after_of_error hrun] at herror
    rw [after_bind_error hrun]
    exact herror

theorem after_bind_pure (x : EStateM ε σ α) (f : α → β) (s : σ) :
    (x >>= fun a => pure (f a)).after s = x.after s := by
  cases hx : x.run s with
  | ok a t =>
    rw [after_bind_ok hx, after_of_ok hx]
    rfl
  | error e t => rw [after_bind_error hx, after_of_error hx]

theorem run_tryCatch_ok {f : ε → EStateM ε σ α} (h : x.run s = .ok a t) : (tryCatch x f).run s = .ok a t := by
  have hx : x s = .ok a t := h
  show EStateM.tryCatch x f s = _
  delta EStateM.tryCatch
  simp only [hx]

theorem run_tryCatch_error {f : ε → EStateM ε σ α} (h : x.run s = .error e t) :
    (tryCatch x f).run s = (f e).run t := by
  have hx : x s = .error e t := h
  show EStateM.tryCatch x f s = _
  delta EStateM.tryCatch
  simp only [hx]
  rfl

/-! ### Staying within a preorder -/

/-- The action relates the state before to the state after by `R`. -/
def Within (R : σ → σ → Prop) (act : EStateM ε σ α) : Prop := ∀ s, R s (act.after s)

variable {R : σ → σ → Prop} [IsPreorder σ R]

theorem within_pure (a : α) : Within R (pure a : EStateM ε σ α) := fun s => refl_of R s

theorem within_throw (e : ε) : Within R (throw e : EStateM ε σ α) := fun s => refl_of R s

theorem within_get : Within R (get : EStateM ε σ σ) := fun s => refl_of R s

omit [IsPreorder σ R] in
theorem within_modify {f : σ → σ} (h : ∀ s, R s (f s)) : Within R (modify f : EStateM ε σ PUnit) := h

theorem within_bind_at (hx : R s (x.after s)) (hf : ∀ a, Within R (f a)) : R s ((x >>= f).after s) := by
  cases hrun : x.run s with
  | ok a t =>
    rw [after_of_ok hrun] at hx
    rw [after_bind_ok hrun]
    exact trans_of R hx (hf a t)
  | error e t =>
    rw [after_of_error hrun] at hx
    rw [after_bind_error hrun]
    exact hx

theorem Within.bind (hx : Within R x) (hf : ∀ a, Within R (f a)) : Within R (x >>= f) :=
  fun s => within_bind_at (hx s) hf

theorem Within.tryCatch {f : ε → EStateM ε σ α} (hx : Within R x) (hf : ∀ e, Within R (f e)) :
    Within R (tryCatch x f) := by
  intro s
  have hs := hx s
  cases hrun : x.run s with
  | ok a t =>
    rw [after_of_ok hrun] at hs
    rw [after_of_ok (run_tryCatch_ok hrun)]
    exact hs
  | error e t =>
    -- what was done before the fault stays done, and the recovery goes on from there
    rw [after_of_error hrun] at hs
    rw [after, run_tryCatch_error hrun]
    exact trans_of R hs (hf e t)

theorem Within.forM {f : α → EStateM ε σ PUnit} (h : ∀ a ∈ l, Within R (f a)) : Within R (l.forM f) := by
  induction l with
  | nil => exact within_pure _
  | cons a l ih =>
    show Within R (f a >>= fun _ => l.forM f)
    exact (h a mem_cons_self).bind fun _ => ih fun b hb => h b (mem_cons_of_mem a hb)

theorem Within.mapM (h : ∀ a ∈ l, Within R (f a)) : Within R (l.mapM f) := by
  induction l with
  | nil => exact within_pure _
  | cons a l ih =>
    rw [mapM_cons]
    refine (h a mem_cons_self).bind fun b => ?_
    exact (ih fun c hc => h c (mem_cons_of_mem a hc)).bind fun bs => within_pure _

/-! ### Keeping a part of the state -/

/-- The part `f` of the state is the same before and after. -/
def Keeps (f : σ → β) (s t : σ) : Prop := f t = f s

instance (f : σ → β) : IsPreorder σ (Keeps f) where
  refl _ := rfl
  trans _ _ _ hst htu := Eq.trans htu hst

theorem keeps_modify {f : σ → β} {g : σ → σ} (h : ∀ s, f (g s) = f s) :
    Within (Keeps f) (modify g : EStateM ε σ PUnit) := h

omit [IsPreorder σ R] in
theorem state_eq_of_keeps (h : Within (Keeps fun s : σ => s) act) (hrun : act.run s = .ok a t) : t = s := by
  rw [← after_of_ok hrun]
  exact h s

/-- The state has a property afterwards if it had it before. -/
def Upholds (P : σ → Prop) (s t : σ) : Prop := P s → P t

instance (P : σ → Prop) : IsPreorder σ (Upholds P) where
  refl _ := id
  trans _ _ _ hst htu := htu ∘ hst

theorem after_bind_upholds (hx : P (x.after s)) (hf : ∀ a, Within (Upholds P) (f a)) : P ((x >>= f).after s) :=
  after_bind_of hx fun a t hrun => hf a t (after_of_ok hrun ▸ hx)

/-! ### Leading to a state -/

/-- From every state in `P` the action succeeds and ends in a state in `Q`. -/
def Leads (P : σ → Prop) (act : EStateM ε σ α) (Q : σ → Prop) : Prop :=
  ∀ s, P s → ∃ a t, act.run s = .ok a t ∧ Q t

section

variable {P Q S : σ → Prop}

theorem Leads.after (h : Leads P act Q) (hs : P s) : Q (act.after s) := by
  obtain ⟨a, t, hrun, ht⟩ := h s hs
  rw [after_of_ok hrun]
  exact ht

theorem Leads.bind (hx : Leads P x Q) (hf : ∀ a, Leads Q (f a) S) : Leads P (x >>= f) S := by
  intro s hs
  obtain ⟨a, t, hrun, ht⟩ := hx s hs
  rw [run_bind_ok hrun]
  exact hf a t ht

theorem Leads.tryCatch (hx : Leads P x Q) (f : ε → EStateM ε σ α) : Leads P (tryCatch x f) Q := by
  intro s hs
  obtain ⟨a, t, hrun, ht⟩ := hx s hs
  exact ⟨a, t, run_tryCatch_ok hrun, ht⟩

theorem Leads.forM {f : α → EStateM ε σ PUnit} (h : ∀ a ∈ l, Leads P (f a) P) : Leads P (l.forM f) P := by
  induction l with
  | nil => exact fun s hs => ⟨_, s, rfl, hs⟩
  | cons a l ih =>
    show Leads P (f a >>= fun _ => l.forM f) P
    exact (h a mem_cons_self).bind fun _ => ih fun b hb => h b (mem_cons_of_mem a hb)

theorem Leads.forIn {f : α → PUnit → EStateM ε σ (ForInStep PUnit)}
    (h : ∀ a ∈ l, ∀ s, P s → ∃ t, (f a ⟨⟩).run s = .ok (.yield ⟨⟩) t ∧ P t) : Leads P (forIn l ⟨⟩ f) P := by
  induction l with
  | nil => exact fun s hs => ⟨⟨⟩, s, rfl, hs⟩
  | cons a l ih =>
    intro s hs
    obtain ⟨t, ht, hP⟩ := h a mem_cons_self s hs
    obtain ⟨⟨⟩, u, hu, hQ⟩ := ih (fun b hb => h b (mem_cons_of_mem _ hb)) t hP
    refine ⟨⟨⟩, u, ?_, hQ⟩
    rw [forIn_cons, run_bind_ok ht]
    exact hu

end

end EStateM

namespace WatchFace

open List

variable {L σ : Type} {R : σ → σ → Prop} [IsPreorder σ R]
variable {call : L → Option Value → EStateM Fault σ Unit} {ls : List L}

theorem within_attempt {v : Value} {l : L} (hsome : EStateM.Within R (call l (some v)))
    (hnone : EStateM.Within R (call l none)) :
    EStateM.Within R (attempt call v l) := by
  refine hsome.tryCatch fun e => ?_
  split
  · exact hnone.tryCatch fun _ => EStateM.within_pure _
  · exact EStateM.within_pure _

theorem within_announce {v : Value} (hsome : ∀ l ∈ ls, EStateM.Within R (call l (some v)))
    (hnone : ∀ l ∈ ls, EStateM.Within R (call l none)) :
    EStateM.Within R (announce call v ls) :=
  EStateM.Within.forM fun l hl => within_attempt (hsome l hl) (hnone l hl)

theorem exists_run_attempt (call : L → Option Value → EStateM Fault σ Unit) (v : Value) (l : L)
    (s : σ) : ∃ t, (attempt call v l).run s = .ok () t := by
  unfold attempt
  cases hsome : (call l (some v)).run s with
  | ok a t => exact ⟨t, EStateM.run_tryCatch_ok hsome⟩
  | error e t =>
    rw [EStateM.run_tryCatch_error hsome]
    -- a listener that cannot take the value is called again without it
    split
    · cases hnone : (call l none).run t with
      | ok a u => exact ⟨u, EStateM.run_tryCatch_ok hnone⟩
      | error e u => exact ⟨u, EStateM.run_tryCatch_error hnone⟩
    · exact ⟨t, rfl⟩

section

variable {call' : L → Option Value → EStateM Fault σ Unit} {v : Value}

theorem run_attempt_congr {l : L} {s : σ} (hsome : (call' l (some v)).run s = (call l (some v)).run s)
    (hnone : call' l none = call l none) : (attempt call' v l).run s = (attempt call v l).run s := by
  unfold attempt
  rw [hnone]
  cases hrun : (call l (some v)).run s with
  | ok a t => rw [EStateM.run_tryCatch_ok hrun, EStateM.run_tryCatch_ok (hsome.trans hrun)]
  | error e t => rw [EStateM.run_tryCatch_error hrun, EStateM.run_tryCatch_error (hsome.trans hrun)]

theorem run_announce_congr {P : σ → Prop}
    (hsame : ∀ l ∈ ls, ∀ s, P s → (attempt call' v l).run s = (attempt call v l).run s)
    (hkeep : ∀ l ∈ ls, EStateM.Within (EStateM.Upholds P) (attempt call v l)) {s : σ} (hs : P s) :
    (announce call' v ls).run s = (announce call v ls).run s := by
  induction ls generalizing s with
  | nil => rfl
  | cons l ls ih =>
    obtain ⟨t, ht⟩ := exists_run_attempt call v l s
    have ht' := (hsame l mem_cons_self s hs).trans ht
    have hPt : P t := by
      have := hkeep l mem_cons_self s hs
      rwa [EStateM.after_of_ok ht] at this
    show (attempt call' v l >>= fun _ => announce call' v ls).run s =
      (attempt call v l >>= fun _ => announce call v ls).run s
    rw [EStateM.run_bind_ok ht, EStateM.run_bind_ok ht']
    exact ih (fun k hk => hsame k (mem_cons_of_mem l hk))
      (fun k hk => hkeep k (mem_cons_of_mem l hk)) hPt

theorem exists_run_announce (call : L → Option Value → EStateM Fault σ Unit) (v : Value)
    (ls : List L) (s : σ) : ∃ t, (announce call v ls).run s = .ok () t := by
  induction ls generalizing s with
  | nil => exact ⟨s, rfl⟩
  | cons l ls ih =>
    obtain ⟨t, ht⟩ := exists_run_attempt call v l s
    obtain ⟨u, hu⟩ := ih t
    exact ⟨u, (EStateM.run_bind_ok ht).trans hu⟩

theorem after_announce_cons (call : L → Option Value → EStateM Fault σ Unit) (v : Value) (l : L) (ls : List L) (s : σ) :
    (announce call v (l :: ls)).after s = (announce call v ls).after ((attempt call v l).after s) := by
  obtain ⟨t, ht⟩ := exists_run_attempt call v l s
  rw [EStateM.after_of_ok ht]
  exact EStateM.after_bind_ok ht

end

end WatchFace
