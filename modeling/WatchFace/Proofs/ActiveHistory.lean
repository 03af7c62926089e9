import WatchFace.Proofs.Alignment
import WatchFace.Workspace

/-!
# The history that takes commands

A workspace gives every key a history of its own, and one history takes the commands. Adding a page enters the history
of its key; showing a page by its position and taking a page away enter nothing.
-/

namespace WatchFace

open List

namespace Workspace

variable {κ π c : Type} [DecidableEq κ] [DecidableEq π]

/-! ### Runs -/

inductive Step (κ π : Type) where
  | add (p : π) (key : κ) (switch : Bool)
  | remove (p : π)
  | showAt (i : Int)
  | showPage (p : π)
  deriving Repr

def step (w : Workspace κ π c) : Step κ π → Workspace κ π c
  | .add p key switch => (w.add p key switch).1
  | .remove p => { w with pages := w.pages.remove p }
  | .showAt i => { w with pages := w.pages.showAt i }
  | .showPage p => { w with pages := w.pages.showPage p }

def run (steps : List (Step κ π)) : Workspace κ π c := steps.foldl step {}

/-- Commands go to the history of the page that is shown, under whatever key it is registered. -/
def Served (w : Workspace κ π c) : Prop :=
  ∀ p key, w.pages.shown? = some p → w.pages.find? key = some p → w.target? = w.historyOf? key

/-! ### The holder -/

/-- The key whose history takes the commands after a step, if `h` is that key before it. A key that gets a new history
    without being shown, and is not the first, no longer holds: the commands still go to its old one. -/
def nextHolder (w : Workspace κ π c) (h : Option κ) : Step κ π → Option κ
  | .add _ key switch =>
    if switch || (w.pages.find? key).isSome || w.histories.isEmpty then some key
    else if h = some key then none
    else h
  | _ => h

def holderFrom (w : Workspace κ π c) (h : Option κ) : List (Step κ π) → Option κ
  | [] => h
  | st :: steps => holderFrom (w.step st) (w.nextHolder h st) steps

def holder (c : Type) (steps : List (Step κ π)) : Option κ :=
  holderFrom ({} : Workspace κ π c) none steps

/-! ### Histories and their keys -/

omit [DecidableEq π] in
theorem lookup_map_renew (l : List (κ × Nat)) (key k : κ) (n : Nat) :
    (l.map fun e => if e.1 == key then (e.1, n) else e).lookup k =
      if k = key then (l.lookup k).map fun _ => n else l.lookup k := by
  induction l with
  | nil => simp
  | cons e l ih =>
    obtain ⟨k', i⟩ := e
    rw [map_cons]
    by_cases hk : k = k'
    · subst hk
      by_cases hkey : k = key <;> simp [hkey]
    · have hb : (k == k') = false := by simpa using hk
      have hhead : (if k' == key then (k', n) else (k', i)).1 = k' := by split <;> rfl
      rw [lookup_cons, lookup_cons, hhead, hb]
      exact ih

omit [DecidableEq π] in
theorem historyOf?_openHistory (w : Workspace κ π c) (key k : κ) : (w.openHistory key).historyOf? k =
      if k = key then some w.histories.length else w.historyOf? k := by
  unfold openHistory historyOf?
  by_cases hany : w.owner.any (·.1 == key)
  · simp only [hany, if_true, lookup_map_renew]
    by_cases hk : k = key
    · -- the key has an entry, so its look-up does not fail
      obtain ⟨e, he, hkey⟩ := any_eq_true.mp hany
      have hsome : (w.owner.lookup k).isSome := by
        rw [lookup_isSome_iff]
        exact ⟨e, he, by rw [hk]; exact BEq.symm hkey⟩
      obtain ⟨i, hi⟩ := Option.isSome_iff_exists.mp hsome
      rw [if_pos hk, if_pos hk, hi]
      rfl
    · rw [if_neg hk, if_neg hk]
  · simp only [hany, Bool.false_eq_true, if_false, lookup_append]
    by_cases hk : k = key
    · have hnone : w.owner.lookup k = none := by
        rw [lookup_eq_none_iff]
        intro e he
        have hne : (e.1 == key) ≠ true := fun h => hany (any_eq_true.mpr ⟨e, he, h⟩)
        rw [bne_iff_ne, hk]
        exact fun h => hne (beq_iff_eq.mpr h.symm)
      rw [hnone, hk, if_pos rfl, lookup_cons_self]
      rfl
    · rw [if_neg hk, lookup_cons, beq_false_of_ne hk, lookup_nil, Option.or_none]

omit [DecidableEq κ] [DecidableEq π] in
theorem target?_of_ne_nil (w : Workspace κ π c) (h : w.histories ≠ []) : w.target? = some (w.active.getD 0) := by
  unfold target?
  cases w.active <;> simp [h]

/-! ### Adding a page -/

theorem add_taken (w : Workspace κ π c) (p q : π) (key : κ) (switch : Bool) (i : Nat)
    (hq : w.pages.find? key = some q) (hi : w.historyOf? key = some i) :
    (w.add p key switch).1 = { w with pages := (w.pages.add p key switch).1, active := some i } := by
  have htarget : (w.pages.add p key switch).2 = .existing q := by simp [Pages.add, Pages.register, hq]
  unfold add
  simp only [htarget]
  unfold activate
  rw [show historyOf? { w with pages := (w.pages.add p key switch).1 } key = some i from hi]

theorem add_free (w : Workspace κ π c) (p : π) (key : κ) (switch : Bool) (hq : w.pages.find? key = none) :
    (w.add p key switch).1.pages = (w.pages.add p key switch).1 ∧
      (w.add p key switch).1.histories = w.histories ++ [({} : History c)] ∧
      (w.add p key switch).1.active = (if switch then some w.histories.length else w.active) ∧
      ∀ k, (w.add p key switch).1.historyOf? k = if k = key then some w.histories.length else w.historyOf? k := by
  have htarget : (w.pages.add p key switch).2 = .fresh w.pages.stack.length := by
    simp [Pages.add, Pages.register, hq]
  have hopen : ∀ k, (openHistory { w with pages := (w.pages.add p key switch).1 } key).historyOf? k =
      if k = key then some w.histories.length else w.historyOf? k :=
    historyOf?_openHistory _ key
  unfold add
  simp only [htarget]
  cases switch
  case false => exact ⟨rfl, rfl, rfl, hopen⟩
  case true =>
    have hkey := hopen key
    rw [if_pos rfl] at hkey
    simp only [if_true]
    unfold activate
    rw [hkey]
    exact ⟨rfl, rfl, rfl, hopen⟩

/-! ### The invariant -/

/-- Commands go to the history of `h`: every key with a page has a history, no two share one, the active one is there,
    and the history of a key takes the commands exactly if the key is `h`. -/
structure Held (w : Workspace κ π c) (h : Option κ) : Prop where
  owned : ∀ key, (w.pages.find? key).isSome → (w.historyOf? key).isSome
  bounded : ∀ key i, w.historyOf? key = some i → i < w.histories.length
  apart : ∀ key key' i, w.historyOf? key = some i → w.historyOf? key' = some i → key = key'
  live : ∀ i, w.active = some i → i < w.histories.length
  target : ∀ key i, w.historyOf? key = some i → (w.target? = some i ↔ h = some key)

omit [DecidableEq π] in
theorem held_empty : Held ({} : Workspace κ π c) none where
  owned := by simp [Pages.find?]
  bounded := by simp [historyOf?]
  apart := by simp [historyOf?]
  live := by simp
  target := by simp [historyOf?]

omit [DecidableEq π] in
theorem Held.withPages {w : Workspace κ π c} {h : Option κ} (hw : Held w h) (ps : Pages κ π)
    (hps : ∀ key, (ps.find? key).isSome → (w.pages.find? key).isSome) :
    Held { w with pages := ps } h where
  owned key hkey := hw.owned key (hps key hkey)
  bounded := hw.bounded
  apart := hw.apart
  live := hw.live
  target := hw.target

omit [DecidableEq π] in
theorem Held.active_eq_none {w : Workspace κ π c} {h : Option κ} (hw : Held w h)
    (hnil : w.histories = []) : w.active = none := by
  rw [Option.eq_none_iff_forall_ne_some]
  intro i hi
  have hlt := hw.live i hi
  simp [hnil] at hlt

omit [DecidableEq π] in
theorem Held.target?_lt {w : Workspace κ π c} {h : Option κ} (hw : Held w h) {i : Nat}
    (hi : w.target? = some i) : i < w.histories.length := by
  by_cases hnil : w.histories = []
  · simp [target?, hw.active_eq_none hnil, hnil] at hi
  · rw [target?_of_ne_nil w hnil, Option.some_inj] at hi
    subst hi
    cases hact : w.active with
    | none => exact length_pos_iff.mpr hnil
    | some i => exact hw.live i hact

theorem Held.add_taken {w : Workspace κ π c} {h : Option κ} (hw : Held w h) (p : π) (key : κ)
    (switch : Bool) (hkey : (w.pages.find? key).isSome) :
    Held (w.add p key switch).1 (some key) := by
  obtain ⟨q, hq⟩ := Option.isSome_iff_exists.mp hkey
  obtain ⟨i, hi⟩ := Option.isSome_iff_exists.mp (hw.owned key hkey)
  rw [w.add_taken p q key switch i hq hi]
  constructor
  case owned =>
    intro k hk
    rw [Pages.find?_shows (Pages.shows_add hq p switch)] at hk
    exact hw.owned k hk
  case bounded => exact hw.bounded
  case apart => exact hw.apart
  case live =>
    intro j hj
    obtain rfl : i = j := by simpa using hj
    exact hw.bounded key i hi
  case target =>
    intro k j hj
    have htarget : target? { w with
        pages := (w.pages.add p key switch).1, active := some i } = some i := rfl
    rw [htarget, Option.some_inj, Option.some_inj]
    constructor
    · rintro rfl
      exact hw.apart key k i hi hj
    · rintro rfl
      exact Option.some_inj.mp (hi.symm.trans hj)

section

variable {w : Workspace κ π c} {h : Option κ} (hw : Held w h) (p : π) {key : κ} (switch : Bool)
  (hkey : w.pages.find? key = none)

include hw hkey

theorem Held.historyOf?_add_cases {k : κ} {i : Nat} (hi : (w.add p key switch).1.historyOf? k = some i) :
    (k = key ∧ i = w.histories.length) ∨ (k ≠ key ∧ w.historyOf? k = some i ∧ i < w.histories.length) := by
  obtain ⟨-, -, -, hof⟩ := w.add_free p key switch hkey
  rw [hof] at hi
  split at hi
  case isTrue hk => exact .inl ⟨hk, (Option.some_inj.mp hi).symm⟩
  case isFalse hk => exact .inr ⟨hk, hi, hw.bounded k i hi⟩

theorem Held.target?_add : (w.add p key switch).1.target? =
    if switch || w.histories.isEmpty then some w.histories.length else w.target? := by
  obtain ⟨-, hhist, hactive, -⟩ := w.add_free p key switch hkey
  have hne : (w.add p key switch).1.histories ≠ [] := by simp [hhist]
  rw [target?_of_ne_nil _ hne, hactive]
  cases switch with
  | true => rfl
  | false =>
    by_cases hnil : w.histories = []
    · have hnone : w.active = none := hw.active_eq_none hnil
      simp [hnil, hnone]
    · rw [if_neg (by simp), if_neg (by simpa using hnil), target?_of_ne_nil w hnil]

theorem Held.add_free : Held (w.add p key switch).1
    (if switch || w.histories.isEmpty then some key else if h = some key then none else h) := by
  obtain ⟨hpages, hhist, hactive, hof⟩ := w.add_free p key switch hkey
  have hlen : (w.add p key switch).1.histories.length = w.histories.length + 1 := by simp [hhist]
  constructor
  case owned =>
    intro k hk
    rw [hof]
    by_cases hkk : k = key
    · simp [hkk]
    · have hfind : (w.pages.add p key switch).1.find? k = _ := w.pages.find?_act_add p key k switch
      rw [if_neg (by simpa using Ne.symm hkk), Option.or_none] at hfind
      rw [if_neg hkk]
      rw [hpages, hfind] at hk
      exact hw.owned k hk
  case bounded =>
    intro k i hi
    rw [hlen]
    obtain ⟨-, rfl⟩ | ⟨-, -, hlt⟩ := hw.historyOf?_add_cases p switch hkey hi
    · exact Nat.lt_succ_self _
    · exact Nat.lt_succ_of_lt hlt
  case apart =>
    intro k k' i hk hk'
    obtain ⟨rfl, hi⟩ | ⟨-, hold, hlt⟩ := hw.historyOf?_add_cases p switch hkey hk
    · obtain ⟨rfl, -⟩ | ⟨-, -, hlt'⟩ := hw.historyOf?_add_cases p switch hkey hk'
      · rfl
      · omega
    · obtain ⟨-, hi⟩ | ⟨-, hold', -⟩ := hw.historyOf?_add_cases p switch hkey hk'
      · omega
      · exact hw.apart k k' i hold hold'
  case live =>
    intro i hi
    rw [hlen]
    rw [hactive] at hi
    split at hi
    · obtain rfl : w.histories.length = i := Option.some_inj.mp hi
      exact Nat.lt_succ_self _
    · exact Nat.lt_succ_of_lt (hw.live i hi)
  case target =>
    intro k i hi
    rw [hw.target?_add p switch hkey]
    obtain ⟨rfl, rfl⟩ | ⟨hne, hold, hlt⟩ := hw.historyOf?_add_cases p switch hkey hi
    · split
      · simp
      · -- the new history takes no commands, and whoever held before, it is not this key
        have hother : w.target? ≠ some w.histories.length := by
          intro heq
          exact absurd (hw.target?_lt heq) (Nat.lt_irrefl _)
        refine ⟨fun heq => absurd heq hother, fun heq => ?_⟩
        split at heq
        case isTrue => cases heq
        case isFalse hh => exact absurd heq hh
    · split
      · rw [Option.some_inj, Option.some_inj]
        exact ⟨fun heq => absurd heq (by omega), fun heq => absurd heq.symm hne⟩
      · rw [hw.target k i hold]
        split
        case isTrue hh =>
          rw [hh, Option.some_inj]
          exact ⟨fun heq => absurd heq.symm hne, nofun⟩
        case isFalse => rfl

end

theorem Held.step {w : Workspace κ π c} {h : Option κ} (hw : Held w h) (st : Step κ π) :
    Held (w.step st) (w.nextHolder h st) := by
  cases st
  case add p key switch =>
    show Held (w.add p key switch).1 _
    cases hkey : w.pages.find? key with
    | none => simpa [nextHolder, hkey] using hw.add_free p switch hkey
    | some q => simpa [nextHolder, hkey] using hw.add_taken p key switch (by simp [hkey])
  case remove p =>
    refine hw.withPages _ fun key hkey => ?_
    rw [Pages.find?, Option.isSome_map, find?_isSome] at hkey ⊢
    obtain ⟨e, he, hek⟩ := hkey
    exact ⟨e, mem_of_mem_eraseP he, hek⟩
  case showAt i =>
    refine hw.withPages _ fun key hkey => ?_
    rwa [Pages.find?_shows (w.pages.shows_showAt i)] at hkey
  case showPage p =>
    refine hw.withPages _ fun key hkey => ?_
    rwa [Pages.find?_shows (w.pages.shows_showPage p)] at hkey

theorem Held.foldl {w : Workspace κ π c} {h : Option κ} (hw : Held w h) (steps : List (Step κ π)) :
    Held (steps.foldl Workspace.step w) (w.holderFrom h steps) := by
  induction steps generalizing w h with
  | nil => exact hw
  | cons st steps ih => exact ih (hw.step st)

theorem held_run (steps : List (Step κ π)) : Held (run steps : Workspace κ π c) (holder c steps) :=
  held_empty.foldl steps

/-! ### Who is served -/

/-- **Whose history takes the commands.** After any run, commands go to the history of the page that
    is shown exactly if every key of that page is the holder. -/
theorem served_run_iff (steps : List (Step κ π)) :
    (run steps : Workspace κ π c).Served ↔
      ∀ p key, (run steps : Workspace κ π c).pages.shown? = some p →
        (run steps : Workspace κ π c).pages.find? key = some p → holder c steps = some key := by
  have hheld : Held (run steps : Workspace κ π c) (holder c steps) := held_run steps
  -- for a registered key the two sides agree key by key
  have hone : ∀ p key, (run steps : Workspace κ π c).pages.find? key = some p →
      ((run steps : Workspace κ π c).target? = (run steps : Workspace κ π c).historyOf? key ↔
        holder c steps = some key) := by
    intro p key hkey
    obtain ⟨i, hi⟩ := Option.isSome_iff_exists.mp (hheld.owned key (by simp [hkey]))
    rw [hi]
    exact hheld.target key i hi
  constructor
  · intro hserved p key hshown hkey
    exact (hone p key hkey).mp (hserved p key hshown hkey)
  · intro hholder p key hshown hkey
    exact (hone p key hkey).mpr (hholder p key hshown hkey)

/-- The gallery is added, the face of a watch is opened, and the sidebar shows the gallery again:
    commands still go to the history of the face. -/
theorem not_served_gallery :
    ¬ (run [.add "gallery" "gallery" false, .add "face" "watch" true, .showAt 0] :
        Workspace String String String).Served := by
  intro h
  have hgallery := h "gallery" "gallery" (by decide) (by decide)
  exact absurd hgallery (by decide)

end Workspace

end WatchFace
