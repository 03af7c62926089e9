import WatchFace.Proofs.Actions
import WatchFace.Studio.Forms

/-!
# Ids are not shared

The stack of ids is a counter and a list of free ids at once: the number at its bottom is the next one that was never
used, and the ones above it were given back.
-/

namespace WatchFace.Studio

open EStateM List

variable {s : Studio} {id next : Int} {free live : List Int}

def withIds (s : Studio) (ids : List Int) : Studio :=
  { s with panel := { s.panel with ids := ids } }

/-- A run of takes and returns leads to the studio; `live` are the ids that were taken and not given back. In between
    all may happen that does not touch the ids. -/
inductive Lent : Studio → (live : List Int) → Prop
  | start {s : Studio} (hids : s.panel.ids = [2]) : Lent s []
  | take {s t : Studio} {live : List Int} {id : Int} (h : Lent s live)
      (hrun : takeId.run s = .ok id t) : Lent t (id :: live)
  | give {s t : Studio} {live : List Int} {id : Int} (h : Lent s live) (hid : id ∈ live)
      (hrun : (freeId id).run s = .ok () t) : Lent t (live.erase id)
  | other {s t : Studio} {live : List Int} (h : Lent s live) (hids : t.panel.ids = s.panel.ids) : Lent t live

/-- The number at the bottom of the stack is above all ids ever taken; those above it are free and distinct. -/
structure Stocked (ids live : List Int) (next : Int) (free : List Int) : Prop where
  ids_eq : ids = next :: free
  nodup : (free ++ live).Nodup
  two_le : ∀ id ∈ next :: (free ++ live), 2 ≤ id
  lt_next : ∀ id ∈ free ++ live, id < next

/-! ### Taking an id -/

theorem run_takeId_next (hids : s.panel.ids = [next]) : takeId.run s = .ok next (s.withIds [next + 1]) := by
  simp only [takeId, run_bind, run_get, hids]
  rfl

theorem run_takeId_free (hids : s.panel.ids = next :: (free ++ [id])) (hne : id ≠ next) :
    takeId.run s = .ok id (s.withIds (next :: free)) := by
  have hlast : (next :: (free ++ [id])).getLast? = some id := by
    rw [← cons_append, getLast?_concat]
  have hdrop : (next :: (free ++ [id])).dropLast = next :: free := by
    rw [← cons_append, dropLast_concat]
  have hbottom : atBottom (next :: (free ++ [id])) id next = false := by
    simp [atBottom, hne]
  simp only [takeId, run_bind, run_get, hids, hlast, hdrop, headD_cons, hbottom]
  simp [changePanel, withIds, run_modify]

/-! ### The invariant -/

theorem Stocked.take (h : Stocked s.panel.ids live next free) : ∃ id t next' free', takeId.run s = .ok id t ∧
      id ∉ live ∧ id ≠ 1 ∧ Stocked t.panel.ids (id :: live) next' free' := by
  have htwo : 2 ≤ next := h.two_le next mem_cons_self
  obtain rfl | ⟨free, id, rfl⟩ := free.eq_nil_or_concat
  · have hnot : next ∉ live := fun hmem => absurd (h.lt_next next hmem) (Int.lt_irrefl next)
    refine ⟨next, _, next + 1, [], run_takeId_next h.ids_eq, hnot, by omega, rfl, nodup_cons.mpr ⟨hnot, h.nodup⟩,
      ?_, ?_⟩
    · intro id hid
      obtain rfl | hid := mem_cons.mp hid
      · omega
      · exact h.two_le id hid
    · intro id hid
      obtain rfl | hid := mem_cons.mp hid
      · omega
      · have := h.lt_next id hid
        omega
  · -- the id moves from the free ones to those in use, and the counter stays
    rw [concat_eq_append] at h
    have hperm : (free ++ [id] ++ live).Perm (free ++ id :: live) := by simp
    have hlt : id < next := h.lt_next id (by simp)
    have hid := h.two_le id (by simp)
    have hnodup := hperm.nodup_iff.mp h.nodup
    have hnot : id ∉ live := (nodup_cons.mp (nodup_append.mp hnodup).2.1).1
    refine ⟨id, _, next, free, run_takeId_free h.ids_eq (by omega), hnot, by omega, rfl, hnodup, ?_, ?_⟩
    · exact fun x hx => h.two_le x ((hperm.cons next).mem_iff.mpr hx)
    · exact fun x hx => h.lt_next x (hperm.mem_iff.mpr hx)

theorem Stocked.give {ids : List Int} (h : Stocked ids live next free) (hid : id ∈ live) :
    Stocked (ids ++ [id]) (live.erase id) next (free ++ [id]) := by
  have hperm : (free ++ live).Perm (free ++ [id] ++ live.erase id) := by
    rw [append_assoc]
    exact (perm_cons_erase hid).append_left free
  refine ⟨by rw [h.ids_eq]; rfl, hperm.nodup_iff.mp h.nodup, ?_, ?_⟩
  · exact fun x hx => h.two_le x ((hperm.cons next).mem_iff.mpr hx)
  · exact fun x hx => h.lt_next x (hperm.mem_iff.mpr hx)

theorem Lent.stocked (h : Lent s live) : ∃ next free, Stocked s.panel.ids live next free := by
  induction h with
  | start hids =>
    refine ⟨2, [], hids, nodup_nil, ?_, nofun⟩
    simp
  | take h hrun ih =>
    obtain ⟨next, free, hs⟩ := ih
    obtain ⟨id, t, next', free', hrun', -, -, ht⟩ := hs.take
    obtain ⟨rfl, rfl⟩ := Result.ok.inj (hrun.symm.trans hrun')
    exact ⟨next', free', ht⟩
  | give h hid hrun ih =>
    obtain ⟨next, free, hs⟩ := ih
    obtain ⟨-, rfl⟩ := Result.ok.inj hrun
    exact ⟨next, _, hs.give hid⟩
  | other h hids ih => rwa [hids]

/-- **Ids are not shared.** After any run of takes and returns there are ids left, and the next one to
    be taken is neither in use nor the id of the settings of the watch face. -/
theorem takeId_fresh {s : Studio} {live : List Int} (h : Lent s live) :
    s.panel.ids ≠ [] ∧ ∃ id t, takeId.run s = .ok id t ∧ id ∉ live ∧ Value.int id ≠ homeKey := by
  obtain ⟨next, free, hs⟩ := h.stocked
  obtain ⟨id, t, -, -, hrun, hlive, hone, -⟩ := hs.take
  refine ⟨by simp [hs.ids_eq], id, t, hrun, hlive, ?_⟩
  exact fun heq => hone (Value.int.inj heq)

theorem takeId_fresh_reused :
    let s : Studio := { panel := { ids := [4, 2] } }
    Lent s [3] ∧ s.panel.ids ≠ [] ∧
      ∃ id t, takeId.run s = .ok id t ∧ id ∉ [3] ∧ Value.int id ≠ homeKey := by
  have htwo : Lent { panel := { ids := [4] } } [3, 2] :=
    .take (.take (.start (s := {}) rfl) (run_takeId_next rfl)) (run_takeId_next rfl)
  have hone : Lent { panel := { ids := [4, 2] } } [3] := .give htwo (by decide : (2 : Int) ∈ [3, 2]) rfl
  exact ⟨hone, takeId_fresh hone⟩

end WatchFace.Studio
