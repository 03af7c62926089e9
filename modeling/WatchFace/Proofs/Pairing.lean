import WatchFace.Proofs.Alignment

/-!
# Pages that lose their keys

A key that is dropped leaves the registry only, and a page that is put under a taken key comes to the stack only: both
ways lead to pages that can be shown and not be found.
-/

namespace WatchFace.Pages

open List

variable {κ π : Type} {s : Pages κ π} {p : π}

/-- The pages under keys are those on the stack. -/
def Paired (s : Pages κ π) : Prop := ∀ p, p ∈ s.stack ↔ p ∈ s.registry.map Prod.snd

theorem Listed.paired (h : s.Listed) : s.Paired := fun p => by rw [h.stack_eq]

variable [BEq κ] {key : κ}

/-- A key that is dropped takes along the entry under which its page is found. -/
theorem exists_registry_of_find? (h : s.find? key = some p) :
    ∃ before k after, s.registry = before ++ (k, p) :: after ∧ s.registry.eraseP (·.1 == key) = before ++ after := by
  obtain ⟨⟨k, _⟩, he, rfl⟩ := Option.map_eq_some_iff.mp h
  obtain ⟨hk, before, after, heq, hbefore⟩ := find?_eq_some_iff_append.mp he
  refine ⟨before, k, after, heq, ?_⟩
  have hnone : ∀ e ∈ before, ¬(e.1 == key) = true := fun e he => by simpa using hbefore e he
  rw [heq, eraseP_append_right _ hnone]
  exact congrArg (before ++ ·) (eraseP_cons_of_pos hk)

theorem mem_registry_of_find? (h : s.find? key = some p) : p ∈ s.registry.map Prod.snd := by
  obtain ⟨before, k, after, heq, -⟩ := exists_registry_of_find? h
  simp [heq]

/-- The page of a key that is dropped stays on the stack, so it has to have another key. -/
theorem Paired.eraseP_iff (h : s.Paired) (hkey : s.find? key = some p) :
    Paired { s with registry := s.registry.eraseP (·.1 == key) } ↔
      p ∈ (s.registry.eraseP (·.1 == key)).map Prod.snd := by
  have hp : p ∈ s.stack := (h p).mpr (mem_registry_of_find? hkey)
  obtain ⟨before, k, after, heq, herase⟩ := exists_registry_of_find? hkey
  constructor
  · exact fun hpaired => (hpaired p).mp hp
  · intro hother q
    show q ∈ s.stack ↔ q ∈ (s.registry.eraseP (·.1 == key)).map Prod.snd
    rw [herase] at hother ⊢
    rw [h q, heq]
    simp only [map_append, map_cons, mem_append, mem_cons] at hother ⊢
    constructor
    · rintro (hq | rfl | hq)
      · exact .inl hq
      · exact hother
      · exact .inr hq
    · exact Or.imp_right .inr

variable [DecidableEq π]

/-- A new page comes to the stack at its position, and to the registry if its key is free. -/
theorem insert_eq (hp : p ∉ s.stack) {i : Nat} (hi : i ≤ s.stack.length) (key : κ) (switch : Bool) :
    (s.insert i p key switch).stack = s.stack.insertIdx i p ∧
      (s.insert i p key switch).registry = s.registry ++ if (s.find? key).isSome then [] else [(key, p)] := by
  have hnone : s.stack.findIdx? (· == p) = none := by
    rw [findIdx?_eq_none_iff]
    rintro q hq
    exact beq_eq_false_iff_ne.mpr (ne_of_mem_of_not_mem hq hp)
  have hoff : s.takeOff p = s := by rw [takeOff, hnone]
  have hclaim : (s.claim p key).stack = s.stack ∧
      (s.claim p key).registry = s.registry ++ if (s.find? key).isSome then [] else [(key, p)] := by
    unfold claim
    split
    · rw [hoff, append_nil]
      exact ⟨rfl, rfl⟩
    · exact ⟨rfl, rfl⟩
  have hplace : ((s.claim p key).placeAt i p).stack = s.stack.insertIdx i p := by
    have hwithin : (0 : Int) ≤ i ∧ (i : Int) ≤ (s.claim p key).stack.length := by
      rw [hclaim.1]
      omega
    show (s.claim p key).stack.insertIdx (if _ then _ else _) p = _
    rw [if_pos hwithin, hclaim.1, Int.toNat_natCast]
  unfold insert
  cases switch
  · exact ⟨hplace, hclaim.2⟩
  · obtain hshown | ⟨j, -, hshown⟩ := ((s.claim p key).placeAt i p).shows_showAt i
    all_goals
      rw [if_pos rfl, hshown]
      exact ⟨hplace, hclaim.2⟩

/-- **Keys and pages part.** Where the pages under keys are those on the stack: to drop a key never comes to the same as
    to take its page away, as the page stays on the stack. A new page that is put at a position is found under its key,
    and the pages under keys are those on the stack still, just if the key was free. -/
theorem unregister_insert_iff [ReflBEq κ] (h : s.Paired) :
    (∀ key p, s.find? key = some p → ∃ t, s.unregister key = .ok t ∧ t.stack = s.stack ∧ t.current = s.current ∧
      p ∈ t.stack ∧ t.stack ≠ (s.remove p).stack ∧ (t.Paired ↔ p ∈ t.registry.map Prod.snd)) ∧
    ∀ key p switch, p ∉ s.stack → ∀ i ≤ s.stack.length, (s.insert i p key switch).stack[i]? = some p ∧
      ((s.insert i p key switch).find? key = some p ↔ s.find? key = none) ∧
      ((s.insert i p key switch).Paired ↔ s.find? key = none) := by
  constructor
  · intro key p hkey
    have hp : p ∈ s.stack := (h p).mpr (mem_registry_of_find? hkey)
    refine ⟨{ s with registry := s.registry.eraseP (·.1 == key) }, ?_, rfl, rfl, hp, ?_, h.eraseP_iff hkey⟩
    · rw [unregister, hkey]
      rfl
    · intro hsame
      have hlength : s.stack.length = (s.remove p).stack.length := congrArg length hsame
      rw [stack_remove, ← erase_eq_eraseP', length_erase_of_mem hp] at hlength
      have hpos := length_pos_of_mem hp
      omega
  · intro key p switch hp i hi
    obtain ⟨hstack, hregistry⟩ := insert_eq hp hi key switch
    have hnew : p ∉ s.registry.map Prod.snd := fun hmem => hp ((h p).mpr hmem)
    have hfind : (s.insert i p key switch).find? key = some ((s.find? key).getD p) := by
      rw [find?, hregistry, find?_append, Option.map_or]
      show (s.find? key).or _ = _
      cases s.find? key <;> simp
    have hget : (s.insert i p key switch).stack[i]? = some p := by
      rw [hstack, getElem?_insertIdx_self, if_pos hi]
    refine ⟨hget, ?_, ?_⟩
    · rw [hfind]
      cases hkey : s.find? key with
      | none => simp
      | some q =>
        have hne : q ≠ p := ne_of_mem_of_not_mem (mem_registry_of_find? hkey) hnew
        simpa using hne
    · constructor
      · intro hpaired
        have hmem := (hpaired p).mp (mem_of_getElem? hget)
        by_contra hkey
        rw [hregistry, if_pos (Option.isSome_iff_ne_none.mpr hkey), append_nil] at hmem
        exact hnew hmem
      · intro hkey q
        rw [hstack, hregistry, hkey, mem_insertIdx hi, h q]
        simp [or_comm]

theorem unregister_insert_iff_single :
    Paired (after [.add "a" 1 true]) ∧ ((after [.add "a" 1 true]).insert 0 "b" 1 true).stack[0]? = some "b" ∧
      ((after [.add "a" 1 true]).insert 0 "b" 1 true).find? 1 ≠ some "b" := by
  have hpaired : Paired (after [.add "a" 1 true]) :=
    (aligned_empty.foldl (by decide : ({} : Pages Nat String).Fresh [.add "a" 1 true])).listed.paired
  obtain ⟨hget, hfind, -⟩ := (unregister_insert_iff hpaired).2 1 "b" true (by decide) 0 (by decide)
  exact ⟨hpaired, hget, fun heq => absurd (hfind.mp heq) (by decide)⟩

/-- The key is dropped and the page stays, while the page that is taken away is gone. -/
theorem not_unregister_eq_remove : ((after [.add "a" 1 true]).unregister 1).toOption.map stack = some ["a"] ∧
    ((after [.add "a" 1 true]).remove "a").stack = [] := by
  decide

end WatchFace.Pages
