import Mathlib.Data.List.Pairwise
import WatchFace.Pages

/-!
# Pages and their keys

Pages are kept twice: on the stack, and in the registry under their keys. The position that is shown moves along with
the stack.
-/

namespace WatchFace.Pages

open List

variable {κ π : Type}
variable {p q : π} {s t : Pages κ π} {key : κ}

inductive Move (κ π : Type) where
  | add (p : π) (key : κ) (switch : Bool)
  | remove (p : π)
  | showAt (i : Int)
  deriving Repr

def Move.entry? : Move κ π → Option (κ × π)
  | .add p key _ => some (key, p)
  | _ => none

variable [BEq κ]

def Move.pageUnder? (key : κ) : Move κ π → Option π
  | .add p key' _ => if key' == key then some p else none
  | _ => none

variable [DecidableEq π]

def act (s : Pages κ π) : Move κ π → Pages κ π
  | .add p key switch => (s.add p key switch).1
  | .remove p => s.remove p
  | .showAt i => s.showAt i

def after (moves : List (Move κ π)) : Pages κ π := moves.foldl act {}

def Fresh (s : Pages κ π) : List (Move κ π) → Prop
  | [] => True
  | m :: moves => (∀ e ∈ m.entry?, e.2 ∉ s.stack) ∧ Fresh (s.act m) moves

instance (s : Pages κ π) : (moves : List (Move κ π)) → Decidable (s.Fresh moves)
  | [] => inferInstanceAs (Decidable True)
  | m :: moves =>
    have := instDecidableFresh (s.act m) moves
    inferInstanceAs (Decidable (_ ∧ _))

/-- Whether a move drops a key: the key has a page before it and none afterwards. -/
def drops (s : Pages κ π) (key : κ) (m : Move κ π) : Bool :=
  (s.find? key).isSome && ((s.act m).find? key).isNone

def sinceDroppedFrom (s : Pages κ π) (key : κ) (kept : List (Move κ π)) : List (Move κ π) → List (Move κ π)
  | [] => kept
  | m :: moves => sinceDroppedFrom (s.act m) key (if s.drops key m then [] else kept ++ [m]) moves

/-- The moves of a run since it last dropped a key, and all of them if it never did. -/
def sinceDropped (key : κ) (moves : List (Move κ π)) : List (Move κ π) :=
  sinceDroppedFrom ({} : Pages κ π) key [] moves

/-! ### Showing a page -/

def Shows (s t : Pages κ π) : Prop :=
  t = s ∨ ∃ i < s.stack.length, t = { s with current := some i }

omit [BEq κ] [DecidableEq π] in
theorem Shows.stack_eq (h : s.Shows t) : t.stack = s.stack := by
  obtain rfl | ⟨i, -, rfl⟩ := h <;> rfl

omit [BEq κ] [DecidableEq π] in
theorem shows_showAt (s : Pages κ π) (i : Int) : s.Shows (s.showAt i) := by
  unfold showAt
  split
  case isTrue h => exact .inr ⟨i.toNat, by omega, rfl⟩
  case isFalse => exact .inl rfl

omit [BEq κ] in
theorem shows_showPage (s : Pages κ π) (p : π) : s.Shows (s.showPage p) := by
  unfold showPage
  cases hidx : s.stack.findIdx? (· == p) with
  | none => exact .inl rfl
  | some i => exact .inr ⟨i, (findIdx?_eq_some_iff_getElem.mp hidx).1, rfl⟩

omit [BEq κ] [DecidableEq π] in
theorem mem_stack_of_shown? (s : Pages κ π) (h : s.shown? = some p) : p ∈ s.stack := by
  obtain ⟨c, -, hget⟩ := Option.bind_eq_some_iff.mp h
  exact mem_of_getElem? hget

omit [BEq κ] in
theorem shown?_showPage (s : Pages κ π) (h : p ∈ s.stack) : (s.showPage p).shown? = some p := by
  unfold showPage
  cases hidx : s.stack.findIdx? (· == p) with
  | none =>
    have hne := findIdx?_eq_none_iff.mp hidx p h
    simp at hne
  | some i =>
    obtain ⟨hlt, heq, -⟩ := findIdx?_eq_some_iff_getElem.mp hidx
    simp only [beq_iff_eq] at heq
    show s.stack[i]? = some p
    rw [getElem?_eq_getElem hlt, heq]

/-! ### Adding a page -/

theorem shows_add (h : s.find? key = some q) (p : π) (switch : Bool) : s.Shows (s.add p key switch).1 := by
  have hadd : (s.add p key switch).1 = if switch then s.showPage q else s := by
    simp only [add, register, h, present]
  rw [hadd]
  split
  · exact s.shows_showPage q
  · exact .inl rfl

theorem add_eq_of_free (h : s.find? key = none) (p : π) (switch : Bool) : (s.add p key switch).1 =
      { registry := s.registry ++ [(key, p)]
        stack := s.stack ++ [p]
        current := some (if switch then s.stack.length else s.current.getD 0) } := by
  unfold add register
  rw [h]
  cases switch with
  | false => rfl
  | true =>
    have hlt : (0 : Int) ≤ s.stack.length ∧ (s.stack.length : Int) < (s.stack ++ [p]).length := by
      simp only [length_append, length_singleton]
      omega
    show showAt { s.place p with registry := s.registry ++ [(key, p)] } s.stack.length = _
    exact (if_pos hlt).trans rfl

/-! ### The invariant -/

structure Listed (s : Pages κ π) : Prop where
  stack_eq : s.stack = s.registry.map Prod.snd
  nodup : s.stack.Nodup

omit [BEq κ] [DecidableEq π] in
theorem Listed.shows (h : s.Listed) (ht : s.Shows t) : t.Listed := by
  obtain rfl | ⟨i, -, rfl⟩ := ht
  · exact h
  · exact ⟨h.stack_eq, h.nodup⟩

theorem Listed.add (h : s.Listed) (hp : p ∉ s.stack) (key : κ) (switch : Bool) : (s.add p key switch).1.Listed := by
  cases hkey : s.find? key with
  | some q => exact h.shows (shows_add hkey p switch)
  | none =>
    rw [add_eq_of_free hkey]
    refine ⟨by simp [h.stack_eq], nodup_append.mpr ⟨h.nodup, by simp, fun a ha b hb => ?_⟩⟩
    exact mem_singleton.mp hb ▸ ne_of_mem_of_not_mem ha hp

/-- The stack holds the pages of the registry in order; no two entries have one key; and a page is shown if there is
    one. -/
structure Aligned (s : Pages κ π) : Prop where
  stack_eq : s.stack = s.registry.map Prod.snd
  nodup : s.stack.Nodup
  keys : s.registry.Pairwise fun e e' => (e.1 == e'.1) = false
  current_eq_none : s.current = none ↔ s.stack = []
  current_lt : ∀ i, s.current = some i → i < s.stack.length

omit [DecidableEq π] in
theorem Aligned.listed (h : s.Aligned) : s.Listed := ⟨h.stack_eq, h.nodup⟩

omit [DecidableEq π] in
theorem aligned_empty : Aligned ({} : Pages κ π) where
  stack_eq := rfl
  nodup := .nil
  keys := .nil
  current_eq_none := by simp
  current_lt := by simp

omit [DecidableEq π] in
theorem Aligned.shows (h : s.Aligned) (ht : s.Shows t) : t.Aligned := by
  obtain rfl | ⟨i, hi, rfl⟩ := ht
  · exact h
  · refine ⟨h.stack_eq, h.nodup, h.keys, ?_, ?_⟩
    · have hne : s.stack ≠ [] := ne_nil_of_length_pos (by omega)
      simp [hne]
    · rintro j hj
      cases hj
      exact hi

theorem Aligned.add [PartialEquivBEq κ] (h : s.Aligned) (hp : p ∉ s.stack) (key : κ) (switch : Bool) :
    (s.add p key switch).1.Aligned := by
  cases hkey : s.find? key with
  | some q => exact h.shows (shows_add hkey p switch)
  | none =>
    have hlisted := h.listed.add hp key switch
    rw [add_eq_of_free hkey] at hlisted ⊢
    have hnone : ∀ e ∈ s.registry, (e.1 == key) = false := by
      simpa [find?, find?_eq_none] using hkey
    constructor
    case stack_eq => exact hlisted.stack_eq
    case nodup => exact hlisted.nodup
    case keys => exact pairwise_append.mpr ⟨h.keys, by simp, by simpa using fun a b hab => hnone (a, b) hab⟩
    case current_eq_none => simp
    case current_lt =>
      intro i hi
      cases hi
      simp only [length_append, length_singleton]
      split
      · omega
      · -- what was shown before is shown still, and the first page is shown at once
        cases hcurrent : s.current with
        | none => simp
        | some j =>
          have hj := h.current_lt j hcurrent
          simp only [Option.getD_some]
          omega

/-! ### Taking a page away -/

omit [BEq κ] in
theorem stack_remove (s : Pages κ π) (p : π) : (s.remove p).stack = s.stack.eraseP (· == p) := by
  rw [eraseP_eq_eraseIdx]
  unfold remove takeOff
  cases s.stack.findIdx? (· == p) <;> rfl

theorem Aligned.current_remove (h : s.Aligned) (p : π) : ((s.remove p).current = none ↔ (s.remove p).stack = []) ∧
      ∀ i, (s.remove p).current = some i → i < (s.remove p).stack.length := by
  unfold Pages.remove takeOff
  cases hidx : s.stack.findIdx? (· == p) with
  | none => exact ⟨h.current_eq_none, h.current_lt⟩
  | some i =>
    obtain ⟨hi, -⟩ := findIdx?_eq_some_iff_getElem.mp hidx
    have hlength : (s.stack.eraseIdx i).length = s.stack.length - 1 := length_eraseIdx_of_lt hi
    cases hcurrent : s.current with
    | none =>
      -- where nothing is shown there is nothing to take off
      rw [h.current_eq_none.mp hcurrent] at hi
      cases hi
    | some c =>
      have hc : c < s.stack.length := h.current_lt c hcurrent
      simp only [Option.bind_some, ← length_eq_zero_iff]
      -- the shown position moves down if it is past the page, or at it and at the end
      split
      · split
        · simp only [reduceCtorEq, false_implies, implies_true, and_true, true_iff]
          omega
        · simp only [reduceCtorEq, false_iff, Option.some.injEq, forall_eq']
          omega
      · simp only [reduceCtorEq, false_iff, Option.some.injEq, forall_eq']
        omega

omit [BEq κ] in
theorem Listed.remove (h : s.Listed) (p : π) : (s.remove p).Listed where
  stack_eq := by
    rw [stack_remove, h.stack_eq, eraseP_map]
    rfl
  nodup := by
    rw [stack_remove]
    exact h.nodup.sublist eraseP_sublist

theorem Aligned.remove (h : s.Aligned) (p : π) : (s.remove p).Aligned where
  stack_eq := (h.listed.remove p).stack_eq
  nodup := (h.listed.remove p).nodup
  keys := h.keys.sublist eraseP_sublist
  current_eq_none := (h.current_remove p).1
  current_lt := (h.current_remove p).2

/-! ### Keys -/

section

variable [PartialEquivBEq κ]

omit [DecidableEq π] in
theorem find?_congr (s : Pages κ π) {key' : κ} (h : (key == key') = true) : s.find? key = s.find? key' := by
  have hiff : ∀ e : κ × π, (e.1 == key) = (e.1 == key') := fun e =>
    Bool.eq_iff_iff.mpr ⟨fun he => BEq.trans he h, fun he => BEq.trans he (BEq.symm h)⟩
  simp only [find?, hiff]

omit [DecidableEq π] in
theorem Aligned.find?_eq_some_iff (h : s.Aligned) :
    s.find? key = some p ↔ ∃ e ∈ s.registry, (e.1 == key) = true ∧ e.2 = p := by
  have hfound : ∀ {e}, s.registry.find? (·.1 == key) = some e → e ∈ s.registry ∧ (e.1 == key) = true :=
    fun he => ⟨mem_of_find?_eq_some he, find?_some (p := fun e : κ × π => e.1 == key) he⟩
  constructor
  · intro hfind
    obtain ⟨e, he, rfl⟩ := Option.map_eq_some_iff.mp hfind
    exact ⟨e, (hfound he).1, (hfound he).2, rfl⟩
  · rintro ⟨e, he, hkey, rfl⟩
    have hsome : (s.registry.find? (·.1 == key)).isSome := find?_isSome.mpr ⟨e, he, hkey⟩
    obtain ⟨e', he'⟩ := Option.isSome_iff_exists.mp hsome
    -- two entries with this key would be two entries with the same key
    obtain rfl : e = e' := by
      by_contra hne
      have : Std.Symm fun a b : κ × π => (a.1 == b.1) = false := ⟨fun a b hab => by rwa [BEq.comm]⟩
      have happart := h.keys.forall he (hfound he').1 hne
      rw [BEq.trans hkey (BEq.symm (hfound he').2)] at happart
      cases happart
    rw [find?, he']
    rfl

end

theorem Aligned.find?_remove [PartialEquivBEq κ] (h : s.Aligned) (p : π) (key : κ) :
    (s.remove p).find? key = (s.find? key).filter (· ≠ p) := by
  have hgone : ∀ e ∈ (s.remove p).registry, e.2 ≠ p := by
    rintro e he rfl
    have hmem : e.2 ∈ s.stack.erase e.2 := by
      rw [erase_eq_eraseP', ← stack_remove, (h.remove e.2).stack_eq]
      exact mem_map_of_mem he
    exact h.nodup.not_mem_erase hmem
  ext q
  rw [Option.filter_eq_some_iff, (h.remove p).find?_eq_some_iff, h.find?_eq_some_iff]
  constructor
  · rintro ⟨e, he, hkey, rfl⟩
    exact ⟨⟨e, mem_of_mem_eraseP he, hkey, rfl⟩, by simpa using hgone e he⟩
  · rintro ⟨⟨e, he, hkey, rfl⟩, hne⟩
    exact ⟨e, (mem_eraseP_of_neg (by simpa using hne)).mpr he, hkey, rfl⟩

/-! ### Runs -/

omit [DecidableEq π] in
theorem find?_shows (h : s.Shows t) (key : κ) : t.find? key = s.find? key := by
  obtain rfl | ⟨i, -, rfl⟩ := h <;> rfl

theorem find?_act_add [PartialEquivBEq κ] (s : Pages κ π) (p : π) (key' key : κ) (switch : Bool) :
    (s.act (.add p key' switch)).find? key = (s.find? key).or (if key' == key then some p else none) := by
  show (s.add p key' switch).1.find? key = _
  cases hkey' : s.find? key' with
  | some q =>
    rw [find?_shows (shows_add hkey' p switch)]
    by_cases hkey : (key' == key) = true
    · rw [← s.find?_congr hkey, hkey']
      rfl
    · rw [if_neg hkey, Option.or_none]
  | none =>
    rw [add_eq_of_free hkey', find?, find?_append, Option.map_or, find?]
    by_cases hkey : (key' == key) = true <;> simp [hkey]

theorem Aligned.act [PartialEquivBEq κ] (h : s.Aligned) {m : Move κ π} (hm : ∀ e ∈ m.entry?, e.2 ∉ s.stack) :
    (s.act m).Aligned := by
  cases m with
  | add p key switch => exact h.add (hm (key, p) rfl) key switch
  | remove p => exact h.remove p
  | showAt i => exact h.shows (s.shows_showAt i)

theorem Aligned.find?_act [PartialEquivBEq κ] (h : s.Aligned) (key : κ) (m : Move κ π) :
    (s.act m).find? key = if s.drops key m then none else (s.find? key).or (m.pageUnder? key) := by
  -- a move after which the old page of the key is still there does not drop the key
  have hkept : ∀ {m : Move κ π} {x : Option π}, (s.act m).find? key = (s.find? key).or x →
      (s.act m).find? key = if s.drops key m then none else (s.find? key).or x := by
    intro m x hx
    have hdrops : s.drops key m = false := by
      rw [drops, hx]
      cases s.find? key <;> rfl
    rw [hdrops, hx]
    rfl
  cases m with
  | add p key' switch => exact hkept (s.find?_act_add p key' key switch)
  | showAt i => exact hkept ((find?_shows (s.shows_showAt i) key).trans Option.or_none.symm)
  | remove p =>
    have hremove : (s.act (.remove p)).find? key = (s.find? key).filter (· ≠ p) := h.find?_remove p key
    unfold drops
    rw [hremove]
    cases s.find? key with
    | none => rfl
    | some q => by_cases hq : q = p <;> simp [Move.pageUnder?, hq]

theorem Aligned.foldl [PartialEquivBEq κ] (h : s.Aligned) {moves : List (Move κ π)} (hfresh : s.Fresh moves) :
    (moves.foldl Pages.act s).Aligned := by
  induction moves generalizing s with
  | nil => exact h
  | cons m moves ih => exact ih (h.act hfresh.1) hfresh.2

/-- If a key has the page that was added under it first since it was dropped, so it has after a run. -/
theorem Aligned.find?_foldl [PartialEquivBEq κ] (h : s.Aligned) {moves : List (Move κ π)} (hfresh : s.Fresh moves)
    {kept : List (Move κ π)} (hkey : s.find? key = kept.findSome? (Move.pageUnder? key)) :
    (moves.foldl Pages.act s).find? key = (s.sinceDroppedFrom key kept moves).findSome? (Move.pageUnder? key) := by
  induction moves generalizing s kept with
  | nil => exact hkey
  | cons m moves ih =>
    refine ih (h.act hfresh.1) hfresh.2 ?_
    rw [h.find?_act key m, hkey]
    split
    · rfl
    · simp [findSome?_append]

theorem registry_foldl_sublist (s : Pages κ π) {past : List (κ × π)} (h : s.registry.Sublist past)
    (moves : List (Move κ π)) :
    (moves.foldl act s).registry.Sublist (past ++ moves.filterMap Move.entry?) := by
  induction moves generalizing s past with
  | nil => simpa using h
  | cons m moves ih =>
    have hstep : (s.act m).registry.Sublist (past ++ m.entry?.toList) := by
      cases m with
      | add p key switch =>
        show (s.add p key switch).1.registry.Sublist (past ++ [(key, p)])
        cases hkey : s.find? key with
        | none =>
          rw [add_eq_of_free hkey]
          exact h.append (.refl _)
        | some q =>
          obtain hsame | ⟨i, -, hsame⟩ := shows_add hkey p switch <;> rw [hsame] <;>
            exact h.trans (sublist_append_left _ _)
      | remove p => exact (eraseP_sublist.trans h).trans (sublist_append_left _ _)
      | showAt i =>
        obtain hsame | ⟨j, -, hsame⟩ := s.shows_showAt i <;> simpa [act, Move.entry?, hsame] using h
    have hrest := ih (s.act m) hstep
    cases hentry : m.entry? <;> simpa [filterMap_cons, hentry] using hrest

/-- **Pages stay with their keys.** After every run in which no page is added twice: the stack holds the pages of the
    registry in the order in which they were added, each once and under a key of its own; under a key there is the page
    that was added under it first since the key was dropped; and a page is shown if there is one. -/
theorem aligned_after [PartialEquivBEq κ] (moves : List (Move κ π)) (hfresh : Fresh {} moves) :
    ((after moves).stack = (after moves).registry.map Prod.snd ∧ (after moves).stack.Nodup ∧
        (after moves).registry.Pairwise (fun e e' => (e.1 == e'.1) = false) ∧
        (after moves).registry.Sublist (moves.filterMap Move.entry?)) ∧
      (∀ key, (after moves).find? key = (sinceDropped key moves).findSome? (Move.pageUnder? key)) ∧
      ((after moves).current = none ↔ (after moves).stack = []) ∧
      ∀ i, (after moves).current = some i → i < (after moves).stack.length := by
  have haligned : (after moves).Aligned := aligned_empty.foldl hfresh
  refine ⟨⟨haligned.stack_eq, haligned.nodup, haligned.keys, ?_⟩, fun key => ?_, haligned.current_eq_none,
    haligned.current_lt⟩
  · exact registry_foldl_sublist {} (.refl []) moves
  · exact aligned_empty.find?_foldl hfresh rfl

theorem aligned_after_exchange :
    Fresh {} [.add "a" 1 true, .add "b" 2 false, .add "c" 1 true, .remove "a", .add "c" 1 false, .showAt 7] ∧
      (after [.add "a" 1 true, .add "b" 2 false, .add "c" 1 true, .remove "a", .add "c" 1 false,
        .showAt 7]).find? 1 = some "c" := by
  have hfresh : Fresh {} [.add "a" 1 true, .add "b" 2 false, .add "c" 1 true, .remove "a", .add "c" 1 false,
      .showAt 7] := by decide
  refine ⟨hfresh, ?_⟩
  rw [(aligned_after _ hfresh).2.1 1]
  decide

end WatchFace.Pages
