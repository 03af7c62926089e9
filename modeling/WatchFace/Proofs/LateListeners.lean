import Mathlib.Data.List.Induction
import WatchFace.Proofs.Studio.Recording

/-!
# Listeners that join late

A channel tells numbers, texts and flags to separate lists of listeners, and tells the last value once more to everyone
as soon as somebody joins.
-/

namespace WatchFace.Channel

open EStateM List

variable {L σ : Type}
variable {c : Channel L} {last v : Value}

/-- A channel among all that its listeners act on, and who was told what, in order. -/
structure Hall (L σ : Type) where
  world : σ
  channel : Channel L := {}
  heard : List (L × Value) := []

inductive Turn (L : Type) where
  | join (l : L)
  | carry (v : Value)

namespace Turn

def joined? : Turn L → Option L
  | join l => some l
  | carry _ => none

def carried? : Turn L → Option Value
  | join _ => none
  | carry v => some v

def heed (c : Channel L) : Turn L → Channel L × Except Fault (List L × Value)
  | join l => c.connect l
  | carry v => c.emit v

def Proper (t : Turn L) : Prop := ∀ v, t.carried? = some v → v.isNone = false ∧ v.Carries

end Turn

def joined (turns : List (Turn L)) : List L := turns.filterMap Turn.joined?

def lastCarried (turns : List (Turn L)) : Option Value := (turns.filterMap Turn.carried?).getLast?

def lastHeard [DecidableEq L] (l : L) (heard : List (L × Value)) : Option Value :=
  ((heard.filter fun e => e.1 = l).getLast?).map Prod.snd

/-! ### Taking turns -/

section

variable (call : L → Option Value → EStateM Fault (Hall L σ) Unit)

def noted (l : L) (told : Option Value) : EStateM Fault (Hall L σ) Unit := do
  modify fun h => { h with heard := h.heard ++ told.toList.map (l, ·) }
  call l told

def tell : Except Fault (List L × Value) → EStateM Fault (Hall L σ) Unit
  | .ok (ls, v) => announce (noted call) v ls
  | .error e => throw e

def take (turn : Turn L) : EStateM Fault (Hall L σ) Unit := do
  let heard := turn.heed (← get).channel
  modify fun h => { h with channel := heard.1 }
  tell call heard.2

def hold (turns : List (Turn L)) : EStateM Fault (Hall L σ) Unit := turns.forM (take call)

/-- Listeners take every value, and leave the channel and the record to others. -/
structure Tactful : Prop where
  succeeds : ∀ l v h, (call l (some v)).succeeds h = true
  channel : ∀ l v, Within (Keeps Hall.channel) (call l (some v))
  heard : ∀ l v, Within (Keeps Hall.heard) (call l (some v))

end

/-! ### Telling a value -/

section

variable {call : L → Option Value → EStateM Fault (Hall L σ) Unit}

theorem run_take {turn : Turn L} {h : Hall L σ} {told : Except Fault (List L × Value)}
    (hturn : turn.heed h.channel = (c, told)) :
    (take call turn).run h = (tell call told).run { h with channel := c } := by
  show (tell call (turn.heed h.channel).2).run { h with channel := (turn.heed h.channel).1 } = _
  rw [hturn]

theorem Tactful.exists_run_noted (hcall : Tactful call) (l : L) (v : Value) (h : Hall L σ) :
    ∃ h', (noted call l (some v)).run h = .ok () h' ∧ h'.channel = h.channel ∧ h'.heard = h.heard ++ [(l, v)] := by
  let g : Hall L σ := { h with heard := h.heard ++ [(l, v)] }
  refine ⟨(call l (some v)).after g, ?_, hcall.channel l v g, hcall.heard l v g⟩
  have hnote : (modify fun h => { h with heard := h.heard ++ [(l, v)] } : EStateM Fault (Hall L σ) PUnit).run h =
    .ok ⟨⟩ g := rfl
  exact (run_bind_ok hnote).trans (run_of_succeeds (hcall.succeeds l v g))

theorem Tactful.exists_run_announce (hcall : Tactful call) (v : Value) (ls : List L) (h : Hall L σ) :
    ∃ h', (announce (noted call) v ls).run h = .ok () h' ∧ h'.channel = h.channel ∧
      h'.heard = h.heard ++ ls.map (·, v) := by
  induction ls generalizing h with
  | nil => exact ⟨h, rfl, rfl, (append_nil _).symm⟩
  | cons l ls ih =>
    obtain ⟨g, hg, hchannel, hheard⟩ := hcall.exists_run_noted l v h
    obtain ⟨k, hk, hchannel', hheard'⟩ := ih g
    refine ⟨k, ?_, hchannel'.trans hchannel, ?_⟩
    · have hattempt : (attempt (noted call) v l).run h = .ok () g := run_tryCatch_ok hg
      exact (run_bind_ok hattempt).trans hk
    · rw [hheard', hheard, append_assoc]
      rfl

theorem lastHeard_append [DecidableEq L] (l : L) (heard : List (L × Value)) (ls : List L) (v : Value) :
    lastHeard l (heard ++ ls.map (·, v)) = if l ∈ ls then some v else lastHeard l heard := by
  induction ls using List.reverseRecOn generalizing heard with
  | nil => simp
  | append_singleton ls k ih =>
    by_cases hk : k = l
    · subst hk
      simp [lastHeard]
    · have hskip : lastHeard l (heard ++ (ls ++ [k]).map (·, v)) = lastHeard l (heard ++ ls.map (·, v)) := by
        simp [lastHeard, hk]
      rw [hskip, ih]
      simp [Ne.symm hk]

theorem route_of_carries {ls : List L} (hnumbers : c.numbers = ls) (htexts : c.texts = ls) (hflags : c.flags = ls)
    (hv : v.Carries) : c.route v = .ok (ls, v.carried) := by
  obtain ⟨ls', hls', hroute⟩ := c.exists_emit hv
  obtain rfl : ls' = ls := by simpa [hnumbers, htexts, hflags] using hls'
  exact hroute

theorem proper_lastCarried {turns : List (Turn L)} (hturns : ∀ t ∈ turns, t.Proper) (hv : lastCarried turns = some v) :
    v.isNone = false ∧ v.Carries := by
  obtain ⟨t, ht, hcarried⟩ := mem_filterMap.mp (mem_of_getLast? hv)
  exact hturns t ht v hcarried

/-! ### One turn -/

/-- Whoever joined is on each list and was told last what was carried last, and nobody else was told anything. -/
structure Attuned [DecidableEq L] (turns : List (Turn L)) (h : Hall L σ) : Prop where
  numbers : h.channel.numbers = joined turns
  texts : h.channel.texts = joined turns
  flags : h.channel.flags = joined turns
  last : h.channel.last = (lastCarried turns).getD .none
  heard : ∀ l, lastHeard l h.heard = if l ∈ joined turns then (lastCarried turns).map Value.carried else none

variable [DecidableEq L] {turns : List (Turn L)} {h : Hall L σ}

theorem attuned_nil (w : σ) : Attuned ([] : List (Turn L)) ({ world := w } : Hall L σ) :=
  ⟨rfl, rfl, rfl, rfl, fun _ => rfl⟩

theorem Tactful.exists_attuned (hcall : Tactful call) (hlast : lastCarried turns = some last)
    (hnumbers : h.channel.numbers = joined turns) (htexts : h.channel.texts = joined turns)
    (hflags : h.channel.flags = joined turns) (hchannel : h.channel.last = last)
    (hothers : ∀ l, l ∉ joined turns → lastHeard l h.heard = none) :
    ∃ h', (announce (noted call) last.carried (joined turns)).run h = .ok () h' ∧ Attuned turns h' := by
  obtain ⟨h', hrun, hsame, hheard⟩ := hcall.exists_run_announce last.carried (joined turns) h
  refine ⟨h', hrun, hsame ▸ hnumbers, hsame ▸ htexts, hsame ▸ hflags, ?_, fun l => ?_⟩
  · rw [hsame, hchannel, hlast]
    rfl
  · rw [hheard, lastHeard_append, hlast]
    split
    · rfl
    case isFalse hl => exact hothers l hl

theorem Attuned.carry (hcall : Tactful call) (hh : Attuned turns h) (hv : v.Carries) :
    ∃ h', (take call (.carry v)).run h = .ok () h' ∧ Attuned (turns ++ [.carry v]) h' := by
  have hjoined : joined (turns ++ [.carry v]) = joined turns := by simp [joined, Turn.joined?]
  have hlast : lastCarried (turns ++ [.carry v]) = some v := by simp [lastCarried, Turn.carried?]
  let g : Hall L σ := { h with channel := (h.channel.emit v).1 }
  have hheed : Turn.heed h.channel (.carry v) = (g.channel, .ok (joined turns, v.carried)) := by
    rw [Turn.heed, emit, route_of_carries hh.numbers hh.texts hh.flags hv]
    rfl
  rw [run_take hheed, ← hjoined]
  show ∃ h', (announce (noted call) v.carried (joined (turns ++ [.carry v]))).run g = .ok () h' ∧ _
  refine hcall.exists_attuned hlast ?_ ?_ ?_ rfl fun l hl => ?_
  · exact hh.numbers.trans hjoined.symm
  · exact hh.texts.trans hjoined.symm
  · exact hh.flags.trans hjoined.symm
  · rw [hjoined] at hl
    exact (hh.heard l).trans (if_neg hl)

theorem Attuned.join (hcall : Tactful call) (hh : Attuned turns h)
    (hproper : ∀ v, lastCarried turns = some v → v.isNone = false ∧ v.Carries) (l : L) :
    ∃ h', (take call (.join l)).run h = .ok () h' ∧ Attuned (turns ++ [.join l]) h' := by
  have hjoined : joined (turns ++ [.join l]) = joined turns ++ [l] := by simp [joined, Turn.joined?]
  have hlast : lastCarried (turns ++ [.join l]) = lastCarried turns := by simp [lastCarried, Turn.carried?]
  let g : Hall L σ := { h with channel := h.channel.register l }
  have hnumbers : g.channel.numbers = joined (turns ++ [.join l]) := by
    rw [hjoined, ← hh.numbers]
    rfl
  have htexts : g.channel.texts = joined (turns ++ [.join l]) := by
    rw [hjoined, ← hh.texts]
    rfl
  have hflags : g.channel.flags = joined (turns ++ [.join l]) := by
    rw [hjoined, ← hh.flags]
    rfl
  cases hcarried : lastCarried turns with
  | none =>
    -- nothing was carried, so nobody was told anything
    have hquiet : g.channel.last = .none := by
      show h.channel.last = .none
      rw [hh.last, hcarried]
      rfl
    have hheed : Turn.heed h.channel (.join l) = (g.channel, .ok ([], .none)) := by
      show (if g.channel.last.isNone = true then _ else _) = _
      rw [hquiet]
      rfl
    refine ⟨g, ?_, hnumbers, htexts, hflags, ?_, fun k => ?_⟩
    · rw [run_take hheed]
      rfl
    · rw [hquiet, hlast, hcarried]
      rfl
    · have hheard : lastHeard k h.heard = none := by
        rw [hh.heard, hcarried]
        exact ite_self _
      rw [hlast, hcarried]
      exact hheard.trans (ite_self _).symm
  | some v =>
    obtain ⟨hsome, hv⟩ := hproper v hcarried
    have hlast' : g.channel.last = v := by
      show h.channel.last = v
      rw [hh.last, hcarried]
      rfl
    have hheed : Turn.heed h.channel (.join l) = (g.channel, .ok (joined (turns ++ [.join l]), v.carried)) := by
      show (if g.channel.last.isNone = true then _ else g.channel.emit g.channel.last) = _
      rw [hlast', if_neg (by rw [hsome]; exact Bool.false_ne_true), emit, route_of_carries hnumbers htexts hflags hv,
        ← hlast']
    rw [run_take hheed]
    refine hcall.exists_attuned (hlast.trans hcarried) hnumbers htexts hflags hlast' fun k hk => ?_
    refine (hh.heard k).trans (if_neg fun hmem => hk ?_)
    rw [hjoined]
    exact mem_append_left _ hmem

/-! ### Any number of turns -/

theorem Attuned.take (hcall : Tactful call) (hh : Attuned turns h) (hturns : ∀ t ∈ turns, t.Proper) {turn : Turn L}
    (hturn : turn.Proper) : ∃ h', (take call turn).run h = .ok () h' ∧ Attuned (turns ++ [turn]) h' := by
  cases turn with
  | join l => exact hh.join hcall (fun _ => proper_lastCarried hturns) l
  | carry v => exact hh.carry hcall (hturn v rfl).2

theorem Attuned.hold (hcall : Tactful call) {done : List (Turn L)} (hh : Attuned done h) (hdone : ∀ t ∈ done, t.Proper)
    (hturns : ∀ t ∈ turns, t.Proper) : ∃ h', (hold call turns).run h = .ok () h' ∧ Attuned (done ++ turns) h' := by
  induction turns generalizing done h with
  | nil => exact ⟨h, rfl, by rwa [append_nil]⟩
  | cons turn turns ih =>
    obtain ⟨hturn, hturns⟩ := forall_mem_cons.mp hturns
    obtain ⟨g, hg, hattuned⟩ := hh.take hcall hdone hturn
    have hdone' : ∀ t ∈ done ++ [turn], t.Proper := by
      intro t ht
      obtain ht | ht := mem_append.mp ht
      · exact hdone t ht
      · exact mem_singleton.mp ht ▸ hturn
    obtain ⟨k, hk, hend⟩ := ih hattuned hdone' hturns
    exact ⟨k, (run_bind_ok hg).trans hk, by rwa [append_cons]⟩

end

/-- **Everyone who joined was told last what the channel carried last**, in whatever order listeners joined and values
    were carried, and who did not join was told nothing. -/
theorem exists_run_hold [DecidableEq L] {call : L → Option Value → EStateM Fault (Hall L σ) Unit}
    (hcall : Tactful call) {turns : List (Turn L)} (hturns : ∀ t ∈ turns, t.Proper) (w : σ) :
    ∃ h, (hold call turns).run { world := w } = .ok () h ∧ ∀ l, lastHeard l h.heard =
      if l ∈ joined turns then (lastCarried turns).map Value.carried else none := by
  obtain ⟨h, hrun, hh⟩ := (attuned_nil w).hold hcall (List.forall_mem_nil _) hturns
  exact ⟨h, hrun, hh.heard⟩

def counting (_ : String) (_ : Option Value) : EStateM Fault (Hall String Nat) Unit :=
  modify fun h => { h with world := h.world + 1 }

def sampleTurns : List (Turn String) :=
  [.join "a", .carry (.int 2), .join "b", .carry (.bool true), .join "a", .carry (.int 3), .join "c"]

theorem exists_run_hold_sampleTurns : Tactful counting ∧ (∀ t ∈ sampleTurns, t.Proper) ∧
    ∃ h, (hold counting sampleTurns).run { world := 0 } = .ok () h ∧
      ∀ l ∈ ["a", "b", "c"], lastHeard l h.heard = some (Value.int 3).carried := by
  have hcall : Tactful counting := ⟨fun _ _ _ => rfl, fun _ _ _ => rfl, fun _ _ _ => rfl⟩
  have hturns : ∀ t ∈ sampleTurns, t.Proper := by
    have hcarries : ∀ v ∈ [Value.int 2, .bool true, .int 3], v.isNone = false ∧ v.Carries := by decide +kernel
    intro t ht v hv
    exact hcarries v (List.mem_filterMap.mpr ⟨t, ht, hv⟩)
  obtain ⟨h, hrun, hheard⟩ := exists_run_hold hcall hturns 0
  refine ⟨hcall, hturns, h, hrun, fun l hl => (hheard l).trans (if_pos ?_)⟩
  have hjoined : ∀ l ∈ ["a", "b", "c"], l ∈ joined sampleTurns := by decide
  exact hjoined l hl

end WatchFace.Channel
