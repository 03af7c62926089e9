import Mathlib.Data.List.Nodup
import Mathlib.Data.List.Perm.Basic
import Mathlib.Data.List.Perm.Subperm
import WatchFace.Proofs.Studio.Listening

/-!
# Names of items

An item that is asked to take a name gets the one asked for, or the first of its numbered variants that is free. It
carries the name that it gets, so that the others hear it.
-/

namespace WatchFace

open EStateM List

variable {c n : Nat} {v : Value} {ns ns' : List String} {base name new : String} {s t : Studio} {N : Nat → Prop}
  {l : Studio.Listener}

namespace Value

theorem text_beq_text (m n : String) : (Value.text m == Value.text n) = (n == m) := rfl

theorem text_beq_none (n : String) : (Value.text n == Value.none) = false := rfl

theorem text_beq_iff {n : String} : (Value.text n == v) = true ↔ v = .text n := by
  show (v.text? == some n) = true ↔ _
  rw [beq_iff_eq]
  cases v <;> simp [text?]

theorem erase_text (ns : List String) (n : String) :
    (ns.map Value.text).erase (.text n) = (ns.erase n).map .text := by
  induction ns with
  | nil => rfl
  | cons m ns ih =>
    rw [map_cons, erase_cons, erase_cons, text_beq_text, ih, Bool.beq_comm (a := n)]
    cases m == n <;> rfl

theorem erase_none (ns : List String) : (ns.map Value.text).erase .none = ns.map .text := by
  induction ns with
  | nil => rfl
  | cons m ns ih =>
    rw [map_cons, erase_cons, text_beq_none, ih]
    rfl

theorem contains_text (ns : List String) (n : String) : (ns.map Value.text).contains (.text n) = ns.contains n := by
  induction ns with
  | nil => rfl
  | cons m ns ih =>
    rw [map_cons, contains_cons, contains_cons, ih, text_beq_text, Bool.beq_comm (a := n)]

end Value

namespace Studio

/-! ### The search for a name -/

def candidate (base : String) : Nat → String
  | 0 => base
  | k + 1 => s!"{base} {k + 1}"

theorem candidate_succ (base : String) (k : Nat) : candidate base (k + 1) = base ++ " " ++ Nat.repr (k + 1) := rfl

theorem candidate_injective (base : String) : Function.Injective (candidate base) := by
  have hlong : ∀ k, candidate base 0 ≠ candidate base (k + 1) := by
    intro k h
    have hlength := congrArg String.length h
    rw [candidate_succ, candidate, String.length_append, String.length_append] at hlength
    have hspace : " ".length = 1 := rfl
    omega
  intro j k h
  match j, k with
  | 0, 0 => rfl
  | 0, k + 1 => exact absurd h (hlong k)
  | j + 1, 0 => exact absurd h.symm (hlong j)
  | j + 1, k + 1 =>
    rw [candidate_succ, candidate_succ, String.append_right_inj, Nat.repr_eq_ofList_toDigits,
      Nat.repr_eq_ofList_toDigits, String.ofList_inj] at h
    -- the digits of a number tell the number
    rw [← Nat.ofDigitChars_toDigits (b := 10) (n := j + 1) (by decide) (by decide), h,
      Nat.ofDigitChars_toDigits (by decide) (by decide)]

/-- A search that ends with a name in use has found all names in use that it tried. -/
theorem candidate_mem_of_freeName_mem {k : Nat} (h : freeName (ns.map .text) base n (k + 1) (candidate base k) ∈ ns) :
    ∀ j, k ≤ j → j ≤ k + n → candidate base j ∈ ns := by
  induction n generalizing k with
  | zero =>
    intro j hj hj'
    obtain rfl : j = k := by omega
    exact h
  | succ n ih =>
    rw [freeName, Value.contains_text] at h
    split at h
    case isTrue hk =>
      intro j hj hj'
      obtain rfl | hlt := Nat.eq_or_lt_of_le hj
      · exact contains_iff_mem.mp hk
      · exact ih h j hlt (by omega)
    case isFalse hk => exact absurd (contains_iff_mem.mpr h) hk

/-- **The search ends with a free name.** It tries one name more than there are names in use. -/
theorem freeName_not_mem (ns : List String) (base : String) : freeName (ns.map .text) base ns.length 1 base ∉ ns := by
  intro h
  have hall := candidate_mem_of_freeName_mem (k := 0) h
  have hnodup : ((List.range (ns.length + 1)).map (candidate base)).Nodup :=
    List.Nodup.map (candidate_injective base) nodup_range
  have hsubset : (List.range (ns.length + 1)).map (candidate base) ⊆ ns := by
    intro a ha
    obtain ⟨j, hj, rfl⟩ := mem_map.mp ha
    exact hall j (Nat.zero_le j) (by simpa [Nat.lt_succ_iff] using hj)
  have hlength := (hnodup.subperm hsubset).length_le
  rw [length_map, length_range] at hlength
  omega

theorem freeName_congr {names names' : List Value} (h : ∀ v, names.contains v = names'.contains v)
    (base : String) (n k : Nat) (c : String) :
    freeName names base n k c = freeName names' base n k c := by
  induction n generalizing k c with
  | zero => rfl
  | succ n ih => rw [freeName, freeName, h, ih]

def freshName (others : List Value) (name : String) : String :=
  if others.contains (.text name) then freeName others (baseName name) others.length 1 (baseName name)
  else name

theorem freshName_not_mem (ns : List String) (name : String) : freshName (ns.map .text) name ∉ ns := by
  rw [freshName, Value.contains_text]
  split
  · rw [length_map]
    exact freeName_not_mem ns (baseName name)
  · rename_i hname
    exact fun hmem => hname (contains_iff_mem.mpr hmem)

theorem freshName_of_not_mem (h : name ∉ ns) : freshName (ns.map .text) name = name := by
  rw [freshName, Value.contains_text, if_neg (fun hmem => h (contains_iff_mem.mp hmem))]

theorem freshName_congr (h : ns.Perm ns') (name : String) :
    freshName (ns.map .text) name = freshName (ns'.map .text) name := by
  have hcontains : ∀ v, (ns.map Value.text).contains v = (ns'.map Value.text).contains v := by
    intro v
    exact (h.map _).contains_eq
  rw [freshName, freshName, hcontains, freeName_congr hcontains, (h.map Value.text).length_eq]

/-! ### Items and their names -/

def itemNames (s : Studio) : List Value := s.items.map Item.name

def titles (s : Studio) : List String := s.itemNames.filterMap Value.text?

/-- Items have texts for names, all different, and the explorer lists these names and no others. -/
structure Tidy (s : Studio) : Prop where
  texts : ∀ v ∈ s.itemNames, v = .none ∨ ∃ n, v = .text n
  nodup : s.titles.Nodup
  listed : ∃ ns : List String, s.explorer.names = ns.map .text ∧ ns.Perm s.titles

def othersOf (s : Studio) (item : Item) : List Value := s.explorer.names.erase item.name

def newName (s : Studio) (item : Item) (name : String) : String := freshName (s.othersOf item) name

def listing (s : Studio) (i : Nat) (item : Item) (name : String) : Studio :=
  { s with
    items := s.items.set i { item with shown := .text name }
    explorer := { s.explorer with names := s.othersOf item ++ [.text (s.newName item name)] } }

def naming (s : Studio) (i : Nat) (item : Item) (name : String) : Studio :=
  let new := Value.text (s.newName item name)
  { s.listing i item name with items := s.items.set i { item with shown := new, name := new } }

theorem filterMap_set_perm {α β : Type} {f : α → Option β} {l : List α} {a : α} (h : l[n]? = some a) (b : α) :
    ((l.set n b).filterMap f).Perm ((f b).toList ++ (l.eraseIdx n).filterMap f) := by
  have hlt := lt_of_getElem? h
  refine ((set_perm_cons_eraseIdx hlt b).filterMap f).trans (.of_eq ?_)
  cases hb : f b <;> simp [hb]

theorem has_name_iff : (!v.isNone && Value.text name == v) = true ↔ v = .text name := by
  rw [Bool.and_eq_true, Value.text_beq_iff]
  refine ⟨And.right, fun h => ⟨?_, h⟩⟩
  rw [h]
  rfl

theorem run_changeExplorer (g : Explorer → Explorer) (s : Studio) :
    (changeExplorer g).run s = .ok () { s with explorer := g s.explorer } := rfl

theorem after_claimName (r : Reactions) (s : Studio) (i : Nat) (name : String) (old : Value) :
    (claimName r i (.text name) old).after s = let others := s.explorer.names.erase old
      let new := freshName others name
      (settleName r i (.text new)).after
        { s with explorer := { s.explorer with names := others ++ [.text new] } } := by
  unfold claimName freshName
  rw [after_bind_ok (run_changeExplorer _ s), after_bind_ok (run_get _)]
  dsimp only
  split
  · rfl
  · rfl

theorem Tidy.filter_itemNames (h : s.Tidy) : s.itemNames.filter (!·.isNone) = s.titles.map .text := by
  have htexts := h.texts
  rw [titles]
  generalize s.itemNames = vs at htexts
  induction vs with
  | nil => rfl
  | cons v vs ih =>
    have ih := ih fun u hu => htexts u (mem_cons_of_mem v hu)
    obtain rfl | ⟨n, rfl⟩ := htexts v mem_cons_self
    · exact ih
    · exact congrArg (Value.text n :: ·) ih

theorem Tidy.of_names (h : s.Tidy) (hitems : t.itemNames = s.itemNames) (hnames : t.explorer.names = s.explorer.names) :
    t.Tidy := by
  have htitles : t.titles = s.titles := by rw [titles, hitems, titles]
  exact ⟨hitems ▸ h.texts, htitles ▸ h.nodup, by rw [hnames, htitles]; exact h.listed⟩

theorem Tidy.of_append (h : s.Tidy) (hitems : t.itemNames = s.itemNames ++ [.none])
    (hnames : t.explorer.names = s.explorer.names) : t.Tidy := by
  have htitles : t.titles = s.titles := by
    rw [titles, hitems, filterMap_append]
    exact append_nil _
  refine ⟨fun v hv => ?_, htitles ▸ h.nodup, by rw [hnames, htitles]; exact h.listed⟩
  rw [hitems] at hv
  obtain hv | hv := mem_append.mp hv
  · exact h.texts v hv
  · exact .inl (mem_singleton.mp hv)

section

variable {s : Studio} {i : Nat} {item : Item} (hi : s.items[i]? = some item)

include hi

theorem getElem?_itemNames : s.itemNames[i]? = some item.name := by
  rw [itemNames, getElem?_map, hi]
  rfl

theorem Tidy.exists_others (h : s.Tidy) : ∃ os : List String, s.othersOf item = os.map .text ∧
    os.Perm ((s.itemNames.eraseIdx i).filterMap Value.text?) := by
  obtain ⟨ns, hns, hperm⟩ := h.listed
  have hname := getElem?_itemNames hi
  have hsplit := filterMap_set_perm (f := Value.text?) hname item.name
  rw [set_eq_self hname] at hsplit
  obtain hnone | ⟨n, hn⟩ := h.texts item.name (mem_of_getElem? hname)
  · rw [hnone] at hsplit
    exact ⟨ns, by rw [othersOf, hns, hnone, Value.erase_none], hperm.trans hsplit⟩
  · rw [hn] at hsplit
    refine ⟨ns.erase n, by rw [othersOf, hns, hn, Value.erase_text], ?_⟩
    have := (hperm.trans hsplit).erase n
    rwa [Value.text?, Option.toList_some, singleton_append, erase_cons_head] at this

theorem Tidy.naming (h : s.Tidy) (name : String) : (s.naming i item name).Tidy := by
  obtain ⟨os, hos, hperm⟩ := h.exists_others hi
  have hname := getElem?_itemNames hi
  have hsplit := filterMap_set_perm (f := Value.text?) hname item.name
  rw [set_eq_self hname] at hsplit
  have hnew : s.newName item name ∉ os := by
    rw [newName, hos]
    exact freshName_not_mem os name
  have hnames : (s.naming i item name).itemNames = s.itemNames.set i (.text (s.newName item name)) :=
    map_set
  have htitles := filterMap_set_perm (f := Value.text?) hname (.text (s.newName item name))
  rw [← hnames] at htitles
  have hall : (s.naming i item name).titles.Perm (s.newName item name :: os) :=
    htitles.trans (hperm.symm.cons _)
  refine ⟨?_, ?_, os ++ [s.newName item name], ?_, ?_⟩
  · intro v hv
    rw [hnames] at hv
    obtain hv | rfl := mem_or_eq_of_mem_set hv
    · exact h.texts v hv
    · exact .inr ⟨_, rfl⟩
  · refine hall.nodup_iff.mpr (nodup_cons.mpr ⟨hnew, hperm.nodup_iff.mpr ?_⟩)
    exact (nodup_append.mp (hsplit.nodup_iff.mp h.nodup)).2.1
  · show s.othersOf item ++ [_] = _
    rw [hos, map_append]
    rfl
  · exact (perm_append_singleton _ os).trans hall.symm

theorem Tidy.listing (h : s.Tidy) (hsame : item.name = .text (s.newName item name)) :
    (s.listing i item name).Tidy := by
  refine (h.naming hi name).of_names ?_ rfl
  show (s.items.set i _).map Item.name = (s.items.set i _).map Item.name
  rw [map_set, map_set, hsame]

theorem Tidy.newName_congr (hs : s.Tidy) (ht : t.Tidy) {item' : Item} (hi' : t.items[i]? = some item')
    (h : t.itemNames.eraseIdx i = s.itemNames.eraseIdx i) (name : String) :
    t.newName item' name = s.newName item name := by
  obtain ⟨os, hos, hperm⟩ := hs.exists_others hi
  obtain ⟨os', hos', hperm'⟩ := ht.exists_others hi'
  rw [h] at hperm'
  rw [newName, newName, hos, hos']
  exact freshName_congr (hperm'.trans hperm.symm) name

theorem Tidy.newName_self (hs : s.Tidy) (hname : item.name = .text name) : s.newName item name = name := by
  obtain ⟨os, hos, hperm⟩ := hs.exists_others hi
  have hsplit := filterMap_set_perm (f := Value.text?) (getElem?_itemNames hi) item.name
  rw [set_eq_self (getElem?_itemNames hi), hname] at hsplit
  have hnodup : (name :: (s.itemNames.eraseIdx i).filterMap Value.text?).Nodup :=
    hsplit.nodup_iff.mp hs.nodup
  rw [newName, hos]
  refine freshName_of_not_mem fun hmem => ?_
  exact (nodup_cons.mp hnodup).1 (hperm.mem_iff.mp hmem)

/-! ### Asking for a name -/

theorem run_rename_same (r : Reactions) (hname : item.name = .text name) :
    (rename r i (.text name)).run s = .ok () s := by
  unfold rename
  rw [run_bind_ok (run_part hi), if_pos (has_name_iff.mpr hname)]
  rfl

theorem run_rename (r : Reactions) (hname : item.name ≠ .text name) : (rename r i (.text name)).run s = .ok ()
      ((settleName r i (.text (s.newName item name))).after (s.listing i item name)) := by
  unfold rename
  rw [run_bind_ok (run_part hi), if_neg (mt has_name_iff.mp hname)]
  rw [run_bind_ok (run_changeItem hi _), run_calmly, after_claimName]
  rfl

theorem after_settleName_same (r : Reactions) (hnew : item.name = .text new) :
    (settleName r i (.text new)).after s = s := by
  unfold settleName
  rw [after_bind_ok (run_part hi), if_pos (has_name_iff.mpr hnew)]
  rfl

theorem after_settleName (r : Reactions) (hnew : item.name ≠ .text new) :
    (settleName r i (.text new)).after s = (r.emit item.names (.text new)).after
      { s with items := s.items.set i { item with shown := .text new, name := .text new } } := by
  unfold settleName
  rw [after_bind_ok (run_part hi), if_neg (mt has_name_iff.mp hnew), after_bind_ok (run_changeItem hi _)]

theorem getElem?_listing (name : String) :
    (s.listing i item name).items[i]? = some { item with shown := .text name } := getElem?_set_some hi

theorem run_rename_listing (r : Reactions) (hname : item.name ≠ .text name)
    (hsame : item.name = .text (s.newName item name)) :
    (rename r i (.text name)).run s = .ok () (s.listing i item name) := by
  rw [run_rename hi r hname, after_settleName_same (getElem?_listing hi name) r hsame]

theorem run_rename_naming (r : Reactions) (hname : item.name ≠ .text name)
    (hnew : item.name ≠ .text (s.newName item name)) :
    (rename r i (.text name)).run s = .ok ()
      ((r.emit item.names (.text (s.newName item name))).after (s.naming i item name)) := by
  rw [run_rename hi r hname, after_settleName (getElem?_listing hi name) r hnew]
  show Result.ok () ((r.emit item.names _).after { s.listing i item name with
    items := (s.items.set i _).set i _ }) = _
  rw [set_set]
  rfl

end

/-! ### Reactions keep names in order -/

/-- The channels in `N` have carried texts only, if anything. -/
def Hears (N : Nat → Prop) (s : Studio) : Prop :=
  ∀ c, N c → ∀ v, s.last? c = some v → v = .none ∨ ∃ n, v = .text n

/-- The names of the items are in order, and the channels in `N` have carried names only. -/
structure Neat (N : Nat → Prop) (s : Studio) : Prop where
  tidy : s.Tidy
  hears : s.Hears N

def NamedBy (N : Nat → Prop) (s : Studio) (c : Nat) : Prop := ∀ i, (Listener.title i).On s c → N c

theorem Kin.namedBy (h : Kin s t) (hc : s.NamedBy N c) : t.NamedBy N c := fun i hi => hc i (h.symm.on hi)

def Reactions.Neat (N : Nat → Prop) (r : Reactions) : Prop :=
  ∀ c v s, s.Tame c → s.NamedBy N c → (N c → ∃ n, v = .text n) → s.Neat N → ((r.emit c v).after s).Neat N

theorem Neat.of_eq (h : s.Neat N) (hitems : t.itemNames = s.itemNames) (hnames : t.explorer.names = s.explorer.names)
    (hchannels : t.channels = s.channels) :
    t.Neat N := by
  refine ⟨h.tidy.of_names hitems hnames, fun c hc v hv => h.hears c hc v ?_⟩
  rwa [last?, hchannels] at hv

theorem Neat.remember (h : s.Neat N) {ch : Channel Listener} (hch : s.channels[c]? = some ch)
    (hv : N c → ∃ n, v = .text n) :
    (s.remember c ch v).Neat N := by
  refine ⟨h.tidy.of_names rfl rfl, fun d hd u hu => ?_⟩
  by_cases hdc : d = c
  · subst hdc
    rw [last?_remember_self hch v] at hu
    cases hu
    exact .inr (hv hd)
  · rw [last?_remember_of_ne s ch v hdc] at hu
    exact h.hears d hd u hu

section

variable {N : Nat → Prop} {r : Reactions} (hr : r.Neat N) {c : Nat} {w : Value}
  (hw : N c → ∃ n, w = .text n)

include hr hw

theorem neat_hear (hc : s.Tame c) (hnamed : s.NamedBy N c) (hl : l.On s c) {o : Option Value}
    (ho : ∀ v, o = some v → v = w) (hs : s.Neat N) :
    ((hear r l o).after s).Neat N := by
  obtain hquiet | hjoined := hc l hl
  · obtain ⟨-, hchannels, hitems, hexplorer⟩ := calm_hear r hquiet o
    exact hs.of_eq (congrArg (List.map Item.name) hitems) (congrArg Explorer.names hexplorer) hchannels
  · cases l <;> cases o
    case level.some i v =>
      obtain rfl := ho v rfl
      show ((setLevel r i v).after s).Neat N
      cases hi : s.items[i]? with
      | none => rwa [show (setLevel r i v).after s = s from after_bind_error (run_part_none hi)]
      | some item =>
        obtain rfl := hjoined item hi
        have hrun := run_setLevel r hi v
        split at hrun
        · rwa [after_of_ok hrun]
        · have hcalm : Calm s (s.withLevel i item v) := ⟨rfl, rfl, rfl, map_set_of_eq hi rfl, rfl⟩
          rw [after_congr hrun]
          refine hr _ v _ (hcalm.kin.tame hc) (hcalm.kin.namedBy hnamed) hw ?_
          exact hs.of_eq (map_set_of_eq hi rfl) rfl rfl
    case title.some i v =>
      obtain rfl := ho v rfl
      obtain ⟨name, rfl⟩ := hw (hnamed i hl)
      show ((rename r i (.text name)).after s).Neat N
      cases hi : s.items[i]? with
      | none => rwa [show (rename r i (.text name)).after s = s from after_bind_error (run_part_none hi)]
      | some item =>
        obtain rfl := hjoined item hi
        by_cases hname : item.name = .text name
        · rwa [after_of_ok (run_rename_same hi r hname)]
        · by_cases hnew : item.name = .text (s.newName item name)
          · rw [after_of_ok (run_rename_listing hi r hname hnew)]
            exact ⟨hs.tidy.listing hi hnew, hs.hears⟩
          · rw [after_of_ok (run_rename_naming hi r hname hnew)]
            have hcalm : Calm s (s.naming i item name) :=
              ⟨rfl, rfl, rfl, map_set_of_eq hi rfl, rfl⟩
            refine hr _ _ _ (hcalm.kin.tame hc) (hcalm.kin.namedBy hnamed) (fun _ => ⟨_, rfl⟩) ?_
            exact ⟨hs.tidy.naming hi name, hs.hears⟩
    case level.none | title.none => exact hs
    all_goals exact absurd hjoined id

theorem neat_announce (hgentle : r.Gentle) (hc : s.Tame c) (hnamed : s.NamedBy N c) (hcarried : w.carried = w)
    {ls : List Listener} (hls : ∀ l ∈ ls, l.On s c) (hs : s.Neat N) :
    ((announce (hear r) w ls).after s).Neat N := by
  -- what stays: the names in order, and everyone listens as at the start
  let P : Studio → Prop := fun t => Kin s t ∧ t.Neat N
  have hhear : ∀ l ∈ ls, ∀ o : Option Value, (∀ v, o = some v → v = w) → Within (Upholds P) (hear r l o) := by
    rintro l hl o ho t ⟨hkin, ht⟩
    have hmem : ∀ k ∈ [l], k.On t c := by
      intro k hk
      obtain rfl := mem_singleton.mp hk
      exact hkin.on (hls k hl)
    have hsteady := undisturbed_hear hgentle mem_cons_self hcarried ho t (hkin.tame hc) hmem
    refine ⟨hkin.trans hsteady.calm.kin, ?_⟩
    exact neat_hear hr hw (hkin.tame hc) (hkin.namedBy hnamed) (hkin.on (hls l hl)) ho ht
  have hall : Within (Upholds P) (announce (hear r) w ls) :=
    within_announce (fun l hl => hhear l hl _ fun _ hv => (Option.some.inj hv).symm)
      fun l hl => hhear l hl _ nofun
  exact (hall s ⟨Kin.refl s, hs⟩).2

end

theorem Reactions.Neat.next {r : Reactions} (hgentle : r.Gentle) (hr : r.Neat N) : r.next.Neat N := by
  intro c v s hc hnamed hv hs
  cases hch : s.channels[c]? with
  | none => rwa [after_emit_next_none r hch]
  | some ch =>
    have hkin : Kin s (s.remember c ch v) := (calm_remember hch v).kin
    obtain ⟨ls, hls, hafter⟩ := exists_after_emit_next r hch v
    rw [hafter]
    refine neat_announce hr ?_ hgentle (hkin.tame hc) (hkin.namedBy hnamed) v.carried_carried ?_ (hs.remember hch hv)
    · intro hN
      obtain ⟨n, rfl⟩ := hv hN
      exact ⟨n, rfl⟩
    · exact fun l hl => hkin.on ⟨ch, hch, hls l hl⟩

/-- **Carrying a value leaves the names in order**, however deep the reactions nest. -/
theorem neat_upTo (N : Nat → Prop) (n : Nat) : (Reactions.upTo n).Neat N := by
  induction n with
  | zero => exact fun c v s _ _ _ hs => hs
  | succ n ih => exact ih.next (gentle_upTo n)

end Studio

end WatchFace
