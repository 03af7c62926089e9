import WatchFace.Proofs.Alignment
import WatchFace.Proofs.Studio.Recording
import WatchFace.Studio.Forms

/-!
# The trail of the panel

Going back drops the last place and shows the form of the one before. A form that is given up is struck from the trail
first; this runs off the end of the trail unless the form is nowhere but at its end.
-/

namespace WatchFace

open EStateM List

variable {l opened : List Studio.Place} {form i n : Nat} {s : Studio}

/-! ### Pages -/

namespace Pages

variable {κ : Type} (s : Pages κ Nat) {k m n : Nat}

theorem exists_shown?_shows {t : Pages κ Nat} (h : s.shown? = some k) (ht : s.Shows t) : ∃ m, t.shown? = some m := by
  obtain rfl | ⟨i, hi, rfl⟩ := ht
  · exact ⟨k, h⟩
  · exact ⟨_, getElem?_eq_getElem hi⟩

theorem stack_takeOff (n : Nat) : (s.takeOff n).stack = s.stack.erase n := by
  rw [erase_eq_eraseP']
  exact s.stack_remove n

theorem mem_takeOff (hm : m ∈ s.stack) (hne : m ≠ n) : m ∈ (s.takeOff n).stack := by
  rw [stack_takeOff]
  exact (mem_erase_of_ne hne).mpr hm

theorem exists_shown?_takeOff (h : s.shown? = some k) (hm : m ∈ s.stack) (hne : m ≠ n) :
    ∃ k, (s.takeOff n).shown? = some k := by
  have hmem := s.mem_takeOff hm hne
  obtain ⟨c, hcurrent, hget⟩ := Option.bind_eq_some_iff.mp h
  have hc : c < s.stack.length := Studio.lt_of_getElem? hget
  unfold takeOff at hmem ⊢
  cases hidx : s.stack.findIdx? (· == n) with
  | none => exact ⟨k, h⟩
  | some i =>
    obtain ⟨hi, -, -⟩ := findIdx?_eq_some_iff_getElem.mp hidx
    simp only [hidx] at hmem
    have hlength : (s.stack.eraseIdx i).length = s.stack.length - 1 := length_eraseIdx_of_lt hi
    have hpos : 0 < (s.stack.eraseIdx i).length := length_pos_of_mem hmem
    -- whichever position is shown then, it lies on the stack that is left
    have hshown : ∀ d, d < (s.stack.eraseIdx i).length → ∃ k, (s.stack.eraseIdx i)[d]? = some k :=
      fun d hd => ⟨_, getElem?_eq_getElem hd⟩
    simp only [shown?, hcurrent, Option.bind_some]
    split
    · rename_i hleft
      rw [if_neg (by omega)]
      exact hshown (c - 1) (by omega)
    · exact hshown c (by omega)

variable [BEq κ] {key : κ}

theorem find?_remove (h : s.find? key = some m) (hne : m ≠ n) : (s.remove n).find? key = some m := by
  have herase : ∀ l : List (κ × Nat), (l.find? (·.1 == key)).map (·.2) = some m →
      ((l.eraseP (·.2 == n)).find? (·.1 == key)).map (·.2) = some m := by
    intro l hl
    induction l with
    | nil => exact hl
    | cons e l ih =>
      by_cases hkey : (e.1 == key) = true
      · -- this entry is found, so it is not the one that goes
        obtain rfl : e.2 = m := by simpa [find?_cons, hkey] using hl
        simp [hkey, hne]
      · have hl' : (l.find? (·.1 == key)).map (·.2) = some m := by simpa [find?_cons, hkey] using hl
        by_cases hgone : e.2 = n
        · simpa [hgone] using hl'
        · simpa [find?_cons, hkey, hgone] using ih hl'
  exact herase s.registry h

section

variable (n) (key)

theorem mem_stack_add (hm : m ∈ s.stack) (switch : Bool) : m ∈ (s.add n key switch).1.stack := by
  cases hkey : s.find? key with
  | none =>
    rw [add_eq_of_free hkey]
    exact mem_append_left _ hm
  | some q => rwa [(shows_add hkey n switch).stack_eq]

theorem find?_add {key' : κ} (h : s.find? key' = some m) (switch : Bool) :
    (s.add n key switch).1.find? key' = some m := by
  cases hkey : s.find? key with
  | none =>
    obtain ⟨e, he, hem⟩ := Option.map_eq_some_iff.mp h
    rw [add_eq_of_free hkey, find?, find?_append, he, Option.some_or, Option.map_some, hem]
  | some q => exact (find?_shows (shows_add hkey n switch) key').trans h

theorem shown?_add_false (h : s.shown? = some k) : (s.add n key false).1.shown? = some k := by
  cases hkey : s.find? key with
  | none =>
    obtain ⟨c, hcurrent, hget⟩ := Option.bind_eq_some_iff.mp h
    rw [add_eq_of_free hkey, hcurrent]
    exact (getElem?_append_left (Studio.lt_of_getElem? hget)).trans hget
  | some q =>
    rw [add, register, hkey]
    exact h

theorem shown?_add_true (h : s.find? key = none) : (s.add n key true).1.shown? = some n := by
  simp [add_eq_of_free h, shown?]

theorem exists_shown?_add (h : s.shown? = some k) (switch : Bool) : ∃ m, (s.add n key switch).1.shown? = some m := by
  cases hkey : s.find? key with
  | some q => exact s.exists_shown?_shows h (shows_add hkey n switch)
  | none =>
    cases switch with
    | false => exact ⟨k, s.shown?_add_false n key h⟩
    | true => exact ⟨n, s.shown?_add_true n key hkey⟩

end

end Pages

namespace Studio

/-! ### Places on the stack -/

/-- The form of the watch face stays, some form is shown, and every place where one was is a form on the stack. -/
structure Panel.Grounded (p : Panel) : Prop where
  home : p.pages.find? homeKey = some 0
  bottom : 0 ∈ p.pages.stack
  shown : ∃ n, p.pages.shown? = some n
  opened : ∀ place ∈ p.opened, ∃ n ∈ p.pages.stack, place = .form n
  deleted : p.deleted = []

/-- There is a place where one was, and the last one is the form that is shown. -/
def Panel.Traced (p : Panel) : Prop :=
  p.opened ≠ [] ∧ p.opened.getLast? = some (.ofShown p.pages.shown?)

instance (p : Panel) : Decidable p.Traced :=
  inferInstanceAs (Decidable (p.opened ≠ [] ∧ p.opened.getLast? = some (.ofShown p.pages.shown?)))

namespace Panel

variable {p : Panel}

theorem traced_of_getLast? (h : p.opened.getLast? = some (.ofShown p.pages.shown?)) : p.Traced := by
  refine ⟨?_, h⟩
  intro hnil
  rw [hnil] at h
  cases h

def noted (p : Panel) : Panel :=
  let place := Place.ofShown p.pages.shown?
  if p.opened.getLast? = some place then p else { p with opened := p.opened ++ [place] }

theorem traced_noted (p : Panel) : p.noted.Traced := by
  apply traced_of_getLast?
  unfold noted
  dsimp only
  split
  · assumption
  · simp

theorem Grounded.noted (h : p.Grounded) : p.noted.Grounded := by
  obtain ⟨n, hn⟩ := h.shown
  unfold Panel.noted
  dsimp only
  split
  · exact h
  · refine ⟨h.home, h.bottom, h.shown, fun place hplace => ?_, h.deleted⟩
    rcases mem_append.mp hplace with hold | hnew
    · exact h.opened place hold
    · rw [hn] at hnew
      exact ⟨n, p.pages.mem_stack_of_shown? hn, mem_singleton.mp hnew⟩

def placed (p : Panel) (form : Nat) (key : Value) (switch : Bool) : Panel :=
  let q := { p with pages := (p.pages.add form key switch).1 }
  if switch then q.noted else q

theorem Grounded.add (h : p.Grounded) (form : Nat) (key : Value) (switch : Bool) :
    ({ p with pages := (p.pages.add form key switch).1 } : Panel).Grounded := by
  obtain ⟨n, hn⟩ := h.shown
  refine ⟨p.pages.find?_add form key h.home switch, p.pages.mem_stack_add form key h.bottom switch,
    p.pages.exists_shown?_add form key hn switch, fun place hplace => ?_, h.deleted⟩
  obtain ⟨m, hm, rfl⟩ := h.opened place hplace
  exact ⟨m, p.pages.mem_stack_add form key hm switch, rfl⟩

theorem Grounded.placed (h : p.Grounded) (form : Nat) (key : Value) (switch : Bool) :
    (p.placed form key switch).Grounded := by
  cases switch with
  | false => exact h.add form key false
  | true => exact (h.add form key true).noted

theorem Traced.placed (h : p.Grounded) (form : Nat) (key : Value) {switch : Bool}
    (htraced : switch = false → p.Traced) : (p.placed form key switch).Traced := by
  cases switch with
  | false =>
    obtain ⟨n, hn⟩ := h.shown
    obtain ⟨-, hlast⟩ := htraced rfl
    apply traced_of_getLast?
    show p.opened.getLast? = some (.ofShown (p.pages.add form key false).1.shown?)
    rw [p.pages.shown?_add_false form key hn, hlast, hn]
  | true => exact traced_noted _

theorem Grounded.showPage (h : p.Grounded) (n : Nat) : ({ p with pages := p.pages.showPage n } : Panel).Grounded := by
  obtain ⟨k, hk⟩ := h.shown
  have hshows := p.pages.shows_showPage n
  have hstack := hshows.stack_eq
  refine ⟨(Pages.find?_shows hshows homeKey).trans h.home, ?_, p.pages.exists_shown?_shows hk hshows,
    fun place hplace => ?_, h.deleted⟩
  · rw [hstack]
    exact h.bottom
  · rw [hstack]
    exact h.opened place hplace

theorem Grounded.of_subset (h : p.Grounded) (hsub : ∀ q ∈ opened, q ∈ p.opened) :
    ({ p with opened := opened } : Panel).Grounded :=
  ⟨h.home, h.bottom, h.shown, fun place hplace => h.opened place (hsub place hplace), h.deleted⟩

end Panel

theorem run_placeForm (s : Studio) (form : Nat) (key : Value) (switch : Bool) :
    (placeForm form key switch).run s = .ok () { s with panel := s.panel.placed form key switch } := by
  cases switch <;> rfl

/-! ### Taking forms away -/

theorem mem_of_mem_strike (place : Place) {q : Place} (h : q ∈ (strike place i n l).1) : q ∈ l := by
  induction n generalizing i l with
  | zero => exact h
  | succ n ih =>
    unfold strike at h
    cases hget : l[i]? with
    | none => simpa [hget] using h
    | some x =>
      simp only [hget] at h
      have hmem := ih h
      split at hmem
      · exact mem_of_mem_eraseIdx hmem
      · exact hmem

theorem strike_runs_off (place : Place) (hn : n ≠ 0) (h : l.length < i + n) : (strike place i n l).2 = false := by
  induction n generalizing i l with
  | zero => exact absurd rfl hn
  | succ n ih =>
    unfold strike
    cases hget : l[i]? with
    | none => rfl
    | some x =>
      have hi : i < l.length := lt_of_getElem? hget
      have hle : (if x = place then l.eraseIdx i else l).length ≤ l.length := by
        split
        · exact length_eraseIdx_le l i
        · exact Nat.le_refl _
      exact ih (by omega) (by omega)

/-- **A place that stands nowhere before the end of the trail is struck whole;** else the walk runs off. -/
theorem strike_eq (place : Place) (hlength : i + n = l.length) :
    if place ∈ (l.drop i).dropLast then (strike place i n l).2 = false
    else strike place i n l = (l.take i ++ (l.drop i).filter (· ≠ place), true) := by
  induction n generalizing i l with
  | zero =>
    rw [drop_of_length_le (by omega), take_of_length_le (by omega)]
    simp [strike]
  | succ n ih =>
    have hi : i < l.length := by omega
    rw [drop_eq_getElem_cons hi, strike, getElem?_eq_getElem hi]
    dsimp only
    by_cases hx : l[i] = place
    · have hleft : (l.eraseIdx i).length = l.length - 1 := length_eraseIdx_of_lt hi
      obtain rfl | hn := Nat.eq_zero_or_pos n
      · have hend : l.drop (i + 1) = [] := drop_eq_nil_of_le (by omega)
        simp [hx, strike, eraseIdx_eq_take_drop_succ, hend]
      · -- found before the last position, so the walk is too long by now
        rw [if_pos hx, if_pos]
        · exact strike_runs_off place (Nat.ne_of_gt hn) (by omega)
        · rw [dropLast_cons_of_ne_nil (by simp; omega)]
          simp [hx]
    · have hrest := ih (i := i + 1) (l := l) (by omega)
      have hmem : place ∈ (l[i] :: l.drop (i + 1)).dropLast ↔ place ∈ (l.drop (i + 1)).dropLast := by
        cases l.drop (i + 1) <;> simp [Ne.symm hx]
      rw [if_neg hx, filter_cons_of_pos (by simpa using hx)]
      simp only [hmem]
      rwa [take_succ_eq_append_getElem hi, append_assoc] at hrest

theorem Panel.Grounded.without {p : Panel} (h : p.Grounded) (hform : form ≠ 0) : (p.without form).Grounded := by
  have hstrike := strike_eq (.form form) (Nat.zero_add p.opened.length)
  have hleft := h.of_subset fun q hq => mem_of_mem_strike (.form form) (i := 0) (n := p.opened.length) hq
  rw [drop_zero, take_zero, nil_append] at hstrike
  unfold Panel.without
  dsimp only
  split at hstrike
  · rwa [hstrike, if_neg Bool.false_ne_true]
  · -- the form goes; it is not the one at the bottom, and nowhere on the trail
    obtain ⟨k, hk⟩ := h.shown
    rw [hstrike, if_pos rfl]
    refine ⟨p.pages.find?_remove h.home hform.symm, p.pages.mem_takeOff h.bottom hform.symm,
      p.pages.exists_shown?_takeOff hk h.bottom hform.symm, fun place hplace => ?_, h.deleted⟩
    obtain ⟨hold, hother⟩ := mem_filter.mp hplace
    obtain ⟨m, hm, rfl⟩ := h.opened place hold
    refine ⟨m, p.pages.mem_takeOff hm ?_, rfl⟩
    rintro rfl
    simp at hother

/-! ### Going back -/

theorem withoutDeleted_nil (opened : List Place) : withoutDeleted [] opened = opened := by
  have hkeep : ∀ l : List Place, l.dropWhile ([] : List Place).contains = l := by
    intro l
    cases l <;> rfl
  rw [withoutDeleted, hkeep, reverse_reverse]

theorem run_goBack (hdeleted : s.panel.deleted = []) (h : s.panel.opened.dropLast.getLast? = some (.form n)) :
    goBack.run s = .ok () { s with panel := { s.panel with
      opened := s.panel.opened.dropLast, pages := s.panel.pages.showPage n } } := by
  have hopened : s.panel.opened.isEmpty = false := by
    cases hl : s.panel.opened with
    | nil =>
      rw [hl] at h
      cases h
    | cons => rfl
  have hleft : withoutDeleted s.panel.deleted s.panel.opened.dropLast = s.panel.opened.dropLast := by
    rw [hdeleted, withoutDeleted_nil]
  unfold goBack
  rw [run_bind_ok (run_get s)]
  simp only [hopened, hleft, h]
  rfl

/-- **Where there is no way back,** going back fails and forgets the last place as well. -/
theorem run_goBack_of_lone (h : s.panel.opened.length ≤ 1) :
    goBack.run s = .error .outOfRange { s with panel := { s.panel with opened := [] } } := by
  have hleft : withoutDeleted s.panel.deleted s.panel.opened.dropLast = [] := by
    have hnil : s.panel.opened.dropLast = [] := eq_nil_of_length_eq_zero (by simp; omega)
    rw [hnil]
    rfl
  unfold goBack
  rw [run_bind_ok (run_get s)]
  cases hempty : s.panel.opened.isEmpty with
  | true =>
    have hopened : s.panel.opened = [] := List.isEmpty_iff.mp hempty
    simp only [hopened]
    show Result.error Fault.outOfRange s = _
    rw [← hopened]
  | false =>
    simp only [hempty, hleft]
    rfl

theorem Panel.Grounded.exists_run_goBack (h : s.panel.Grounded) (hlength : 2 ≤ s.panel.opened.length) :
    ∃ n p, s.panel.opened.dropLast.getLast? = some (.form n) ∧
      goBack.run s = .ok () { s with panel := p } ∧ p.Grounded ∧ p.Traced ∧
      p.opened = s.panel.opened.dropLast ∧ p.pages.shown? = some n := by
  have hne : s.panel.opened.dropLast ≠ [] := by
    intro hnil
    have hzero := congrArg List.length hnil
    simp at hzero
    omega
  obtain ⟨place, hlast⟩ : ∃ place, s.panel.opened.dropLast.getLast? = some place :=
    ⟨_, getLast?_eq_some_getLast hne⟩
  obtain ⟨n, hn, rfl⟩ := h.opened place (dropLast_subset _ (mem_of_getLast? hlast))
  have hshown := s.panel.pages.shown?_showPage hn
  refine ⟨n, _, hlast, run_goBack h.deleted hlast, ?_, ?_, rfl, hshown⟩
  · exact (h.showPage n).of_subset fun q hq => dropLast_subset _ hq
  · apply traced_of_getLast?
    show s.panel.opened.dropLast.getLast? = some (.ofShown (s.panel.pages.showPage n).shown?)
    rw [hlast, hshown]
    rfl

end Studio

end WatchFace
