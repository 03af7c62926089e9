import Mathlib.Data.List.TakeWhile
import WatchFace.Lua.Tag

/-!
# Tags and their placeholders

Showing tags changes a text just if a placeholder stands in it. So a text without placeholders comes back from hiding.
-/

namespace WatchFace.Lua.Tag

open List

variable {before cs name u v : List Char} {c : Char}

/-! ### Reading tags from the left -/

def IsName (name : List Char) : Prop := name ≠ [] ∧ ∀ c ∈ name, isTagChar c = true

theorem takeWhile_name (h : ∀ c ∈ name, isTagChar c = true) (rest : List Char) :
    (name ++ '\x7d' :: rest).takeWhile isTagChar = name := by
  rw [takeWhile_append_of_pos h]
  simp [isTagChar]

theorem tagAt?_eq_some_iff : tagAt? cs = some name ↔ IsName name ∧ ∃ rest, cs = tag name ++ rest := by
  cases cs with
  | nil => simp [tagAt?, tag]
  | cons c cs =>
    constructor
    · intro h
      simp only [tagAt?] at h
      split at h
      case isFalse => cases h
      case isTrue hc =>
        obtain ⟨rfl, hne, hclose⟩ := hc
        cases h
        refine ⟨⟨hne, fun c hc => mem_takeWhile_imp hc⟩, ?_⟩
        cases hrest : cs.dropWhile isTagChar with
        | nil => simp [hrest] at hclose
        | cons d rest =>
          obtain rfl : d = '\x7d' := by simpa [hrest] using hclose
          refine ⟨rest, ?_⟩
          rw [tag, cons_append, cons_append, append_assoc, singleton_append, ← hrest, takeWhile_append_dropWhile]
    · rintro ⟨⟨hne, hname⟩, rest, heq⟩
      obtain ⟨rfl, rfl⟩ : c = '\x7b' ∧ cs = name ++ '\x7d' :: rest := by simpa [tag] using heq
      have htake := takeWhile_name hname rest
      have hdrop : (name ++ '\x7d' :: rest).dropWhile isTagChar = '\x7d' :: rest := by
        rw [dropWhile_append_of_pos hname]
        simp [isTagChar]
      simp only [tagAt?, htake, hdrop, head?_cons]
      rw [if_pos ⟨trivial, hne, trivial⟩]

theorem tagAt?_of_ne (h : c ≠ '\x7b') (cs : List Char) : tagAt? (c :: cs) = none := by
  simp [tagAt?, h]

theorem hide_cons (h : tagAt? (c :: cs) = none) : hide (c :: cs) = c :: hide cs := by
  rw [hide, hideAfter, h]
  rfl

theorem hide_tag (h : IsName name) (rest : List Char) : hide (tag name ++ rest) = placeholder name ++ hide rest := by
  have htag : tagAt? ('\x7b' :: (name ++ '\x7d' :: rest)) = some name :=
    tagAt?_eq_some_iff.mpr ⟨h, rest, by simp [tag]⟩
  have hdrop : (name ++ '\x7d' :: rest).drop (name.length + 1) = rest := by
    rw [← singleton_append, ← append_assoc, drop_left' (by simp)]
  rw [show tag name ++ rest = '\x7b' :: (name ++ '\x7d' :: rest) by simp [tag], hide, hideAfter, htag]
  show placeholder name ++ hideAfter (name.length + 1) (name ++ '\x7d' :: rest) = _
  rw [hideAfter_eq_drop, hdrop]

/-- Induction along a text from the left: over a tag as a whole, and over any other character. -/
@[elab_as_elim]
theorem hide_induction {motive : List Char → Prop} (nil : motive [])
    (tag : ∀ name rest, IsName name → motive rest → motive (tag name ++ rest))
    (cons : ∀ c cs, tagAt? (c :: cs) = none → motive cs → motive (c :: cs)) (cs : List Char) :
    motive cs := by
  induction hn : cs.length using Nat.strongRecOn generalizing cs with
  | _ n ih =>
    cases cs with
    | nil => exact nil
    | cons c cs =>
      cases htag : tagAt? (c :: cs) with
      | none =>
        exact cons c cs htag (ih cs.length (by simp [← hn]) cs rfl)
      | some name =>
        obtain ⟨hname, rest, heq⟩ := tagAt?_eq_some_iff.mp htag
        have hlen : rest.length < n := by
          have := congrArg List.length heq
          simp only [Tag.tag, length_append, length_cons] at this hn
          omega
        rw [heq]
        exact tag name rest hname (ih rest.length hlen rest rfl)

/-! ### Parts of a text -/

/-- What starts so is not the end of a tag. -/
def Parts (v : List Char) : Prop := ∀ c ∈ v.head?, isTagChar c = false ∧ c ≠ '\x7d'

theorem parts_cons (htag : isTagChar c = false) (hc : c ≠ '\x7d') (cs : List Char) : Parts (c :: cs) := by
  rintro d hd
  cases hd
  exact ⟨htag, hc⟩

theorem tagAt?_append (hv : Parts v) (h : tagAt? (c :: u) = none) : tagAt? (c :: (u ++ v)) = none := by
  cases htag : tagAt? (c :: (u ++ v)) with
  | none => rfl
  | some name =>
    obtain ⟨hname, rest, heq⟩ := tagAt?_eq_some_iff.mp htag
    rw [← cons_append] at heq
    obtain ⟨w, hu, -⟩ | ⟨w, hw, hv'⟩ := append_eq_append_iff.mp heq.symm
    · rw [tagAt?_eq_some_iff.mpr ⟨hname, w, hu⟩] at h
      cases h
    · -- the tag goes on into `v`
      cases w with
      | nil =>
        rw [append_nil] at hw
        rw [tagAt?_eq_some_iff.mpr ⟨hname, [], by rw [append_nil, hw]⟩] at h
        cases h
      | cons d w =>
        obtain ⟨hd, hclose⟩ := hv d (by rw [hv']; rfl)
        have hmem : d ∈ name ++ ['\x7d'] := by
          have hsplit : name ++ ['\x7d'] = u ++ d :: w := (List.cons.inj hw).2
          rw [hsplit]
          simp
        obtain hmem | hmem := mem_append.mp hmem
        · rw [hname.2 d hmem] at hd
          cases hd
        · exact absurd (mem_singleton.mp hmem) hclose

theorem hide_append (u : List Char) (hv : Parts v) : hide (u ++ v) = hide u ++ hide v := by
  induction u using hide_induction with
  | nil => rfl
  | tag name rest hname ih =>
    rw [append_assoc, hide_tag hname, hide_tag hname, ih, append_assoc]
  | cons c cs htag ih =>
    rw [cons_append, hide_cons (tagAt?_append hv htag), hide_cons htag, ih, cons_append]

theorem hide_append_of_not_mem (h : '\x7b' ∉ u) (v : List Char) : hide (u ++ v) = u ++ hide v := by
  induction u with
  | nil => rfl
  | cons c u ih =>
    obtain ⟨hc, hu⟩ := not_or.mp (mt mem_cons.mpr h)
    rw [cons_append, hide_cons (tagAt?_of_ne (Ne.symm hc) _), ih hu, cons_append]

theorem hide_of_not_mem (h : '\x7b' ∉ u) : hide u = u := by
  have := hide_append_of_not_mem h []
  rwa [append_nil, show hide [] = [] from rfl, append_nil] at this

/-! ### Showing hidden tags -/

theorem takeWhile_hide (cs : List Char) : (hide cs).takeWhile isTagChar = cs.takeWhile isTagChar := by
  induction cs using hide_induction with
  | nil => rfl
  | tag name rest hname ih =>
    rw [hide_tag hname]
    simp [placeholder, tag, isTagChar]
  | cons c cs htag ih => rw [hide_cons htag, takeWhile_cons, takeWhile_cons, ih]

theorem bareAt?_takeWhile (cs : List Char) : bareAt? (cs.takeWhile isTagChar) = bareAt? cs := by
  have hmarker : ∀ c ∈ marker, isTagChar c = true := all_eq_true.mp (by decide)
  by_cases h : marker <+: cs
  · obtain ⟨rest, rfl⟩ := h
    rw [takeWhile_append_of_pos hmarker]
    simp [bareAt?, isPrefixOf_iff_prefix, takeWhile_idem]
  · have h' : ¬ marker <+: cs.takeWhile isTagChar :=
      fun hp => h (hp.trans (List.takeWhile_prefix _))
    simp [bareAt?, isPrefixOf_iff_prefix, h, h']

theorem bareAt?_hide (cs : List Char) : bareAt? (hide cs) = bareAt? cs := by
  rw [← bareAt?_takeWhile, takeWhile_hide, bareAt?_takeWhile]

theorem exists_of_beforeLastMark (h : beforeLastMark cs = some before) :
    ∃ after, cs = before ++ '_' :: '_' :: after := by
  induction cs generalizing before with
  | nil => cases h
  | cons c cs ih =>
    rw [beforeLastMark] at h
    cases hcs : beforeLastMark cs with
    | some b =>
      rw [hcs] at h
      cases h
      obtain ⟨after, rfl⟩ := ih hcs
      exact ⟨after, rfl⟩
    | none =>
      rw [hcs] at h
      dsimp only at h
      split at h
      case isFalse => cases h
      case isTrue hc =>
        obtain ⟨rfl, hhead⟩ := hc
        cases h
        cases cs with
        | nil => cases hhead
        | cons d cs =>
          cases hhead
          exact ⟨cs, rfl⟩

theorem beforeLastMark_append (name : List Char) : beforeLastMark (name ++ ['_', '_']) = some name := by
  induction name with
  | nil => rfl
  | cons c name ih =>
    rw [cons_append, beforeLastMark, ih]

theorem bare_prefix_of_bareAt? (h : bareAt? cs = some name) : IsName name ∧ bare name <+: cs := by
  unfold bareAt? at h
  split at h
  case isFalse => cases h
  case isTrue hmarker =>
    obtain ⟨rest, rfl⟩ := isPrefixOf_iff_prefix.mp hmarker
    rw [drop_left] at h
    obtain ⟨hbefore, hne⟩ := Option.filter_eq_some_iff.mp h
    obtain ⟨after, hrun⟩ := exists_of_beforeLastMark hbefore
    refine ⟨⟨by simpa using hne, fun c hc => ?_⟩, ?_⟩
    · have hmem : c ∈ rest.takeWhile isTagChar := by
        rw [hrun]
        exact mem_append_left _ hc
      exact mem_takeWhile_imp hmem
    · have hstart : name ++ ['_', '_'] <+: rest.takeWhile isTagChar := ⟨after, by rw [hrun]; simp⟩
      rw [bare, append_assoc]
      exact prefix_append_right_inj marker |>.mpr (hstart.trans (List.takeWhile_prefix _))

theorem placeholderAt?_length {n : Nat} (h : placeholderAt? cs = some (name, n)) :
    (tag name).length < n ∧ (tag name).length < cs.length := by
  unfold placeholderAt? at h
  obtain ⟨name', hname, heq⟩ := Option.map_eq_some_iff.mp h
  obtain ⟨rfl, rfl⟩ := Prod.mk.inj heq
  have hle := (bare_prefix_of_bareAt? hname).2.length_le
  have hbare : (bare name').length = name'.length + 11 := by
    simp only [bare, length_append, length_cons, length_nil]
    have : marker.length = 9 := by decide
    omega
  rw [length_drop, hbare] at hle
  simp only [tag, length_append, length_cons, length_nil, hbare]
  omega

theorem length_reveal_le (cs : List Char) : (reveal cs).length ≤ cs.length := by
  induction hn : cs.length using Nat.strongRecOn generalizing cs with
  | _ n ih =>
    cases cs with
    | nil => simp [reveal, revealAfter]
    | cons c cs =>
      rw [reveal, revealAfter]
      rw [length_cons] at hn
      cases hp : placeholderAt? (c :: cs) with
      | none =>
        have := ih cs.length (by omega) cs rfl
        simp only [length_cons, reveal] at this ⊢
        omega
      | some e =>
        obtain ⟨name, m⟩ := e
        obtain ⟨hm, hlen⟩ := placeholderAt?_length hp
        have := ih (cs.drop (m - 1)).length (by rw [length_drop]; omega) _ rfl
        simp only [revealAfter_eq_drop, length_append, length_drop, length_cons] at this hlen ⊢
        omega

theorem of_reveal_cons (h : reveal (c :: cs) = c :: cs) : placeholderAt? (c :: cs) = none ∧ reveal cs = cs := by
  rw [reveal, revealAfter] at h
  cases hp : placeholderAt? (c :: cs) with
  | none =>
    rw [hp] at h
    exact ⟨rfl, (List.cons.inj h).2⟩
  | some e =>
    obtain ⟨name, m⟩ := e
    obtain ⟨hm, hlen⟩ := placeholderAt?_length hp
    rw [hp] at h
    have hle := length_reveal_le (cs.drop (m - 1))
    have heq := congrArg List.length h
    simp only [revealAfter_eq_drop, length_append, length_drop, length_cons] at hle hlen heq
    omega

theorem of_reveal_append (h : reveal (u ++ v) = u ++ v) : reveal v = v := by
  induction u with
  | nil => exact h
  | cons c u ih => exact ih (of_reveal_cons h).2

theorem reveal_placeholder (h : IsName name) (rest : List Char) :
    reveal (placeholder name ++ rest) = tag name ++ reveal rest := by
  have hmarks : ∀ c ∈ name ++ ['_', '_'], isTagChar c = true := by
    intro c hc
    obtain hc | hc := mem_append.mp hc
    · exact h.2 c hc
    · obtain rfl : c = '_' := by simpa using hc
      rfl
  have hbare : bareAt? (bare name ++ '"' :: rest) = some name := by
    have hrun : (name ++ '_' :: '_' :: '"' :: rest).takeWhile isTagChar = name ++ ['_', '_'] := by
      rw [show name ++ '_' :: '_' :: '"' :: rest = (name ++ ['_', '_']) ++ '"' :: rest by simp,
        takeWhile_append_of_pos hmarks]
      simp [isTagChar]
    rw [bareAt?, if_pos (List.isPrefixOf_iff_prefix.mpr ⟨name ++ '_' :: '_' :: '"' :: rest, by simp [bare]⟩)]
    rw [show bare name ++ '"' :: rest = marker ++ (name ++ '_' :: '_' :: '"' :: rest) by simp [bare],
      drop_left, hrun, beforeLastMark_append]
    simp [h.1]
  have hplace : placeholderAt? ('"' :: (bare name ++ '"' :: rest)) =
      some (name, (bare name).length + 2) := by
    have hquote : quoteLength ('"' :: (bare name ++ '"' :: rest)) = 1 := rfl
    have hclose : quoteLength ('"' :: rest) = 1 := rfl
    simp only [placeholderAt?, hquote, drop_succ_cons, drop_zero, hbare, Option.map_some, drop_left, hclose]
    congr 2
    omega
  rw [show placeholder name ++ rest = '"' :: (bare name ++ '"' :: rest) by simp [placeholder], reveal,
    revealAfter, hplace]
  show tag name ++ revealAfter ((bare name).length + 1) (bare name ++ '"' :: rest) = _
  rw [revealAfter_eq_drop, ← singleton_append, ← append_assoc, drop_left' (by simp)]

theorem reveal_hide (h : reveal cs = cs) : reveal (hide cs) = cs := by
  induction cs using hide_induction with
  | nil => rfl
  | tag name rest hname ih => rw [hide_tag hname, reveal_placeholder hname, ih (of_reveal_append h)]
  | cons c cs htag ih =>
    obtain ⟨hnone, hcs⟩ := of_reveal_cons h
    have hnone' : placeholderAt? (c :: hide cs) = none := by
      have hquote : quoteLength (c :: hide cs) = quoteLength (c :: cs) := rfl
      have hbody : bareAt? ((c :: hide cs).drop (quoteLength (c :: cs))) =
          bareAt? ((c :: cs).drop (quoteLength (c :: cs))) := by
        by_cases hc : isQuote c
        · rw [show quoteLength (c :: cs) = 1 by simp [quoteLength, hc]]
          exact bareAt?_hide cs
        · rw [show quoteLength (c :: cs) = 0 by simp [quoteLength, hc]]
          rw [drop_zero, drop_zero, ← hide_cons htag]
          exact bareAt?_hide (c :: cs)
      simp only [placeholderAt?, Option.map_eq_none_iff] at hnone ⊢
      rw [hquote, hbody, hnone]
    rw [hide_cons htag, reveal, revealAfter, hnone']
    show c :: reveal (hide cs) = _
    rw [ih hcs]

/-! ### Where placeholders are found -/

theorem exists_beforeLastMark (before after : List Char) :
    ∃ b, beforeLastMark (before ++ '_' :: '_' :: after) = some b ∧ before.length ≤ b.length := by
  induction before with
  | nil =>
    rw [nil_append, beforeLastMark]
    split
    · exact ⟨_, rfl, Nat.zero_le _⟩
    · exact ⟨[], rfl, Nat.le_refl _⟩
  | cons c before ih =>
    obtain ⟨b, hb, hle⟩ := ih
    exact ⟨c :: b, by rw [cons_append, beforeLastMark, hb], Nat.succ_le_succ hle⟩

theorem bareAt?_eq_none_iff : bareAt? cs = none ↔ ∀ name, IsName name → ¬ bare name <+: cs := by
  constructor
  · rintro h name ⟨hne, hname⟩ ⟨rest, rfl⟩
    -- the run of name characters reaches at least to the end of this placeholder
    obtain ⟨b, hb, hle⟩ := exists_beforeLastMark name (rest.takeWhile isTagChar)
    have hrun : (name ++ '_' :: '_' :: rest).takeWhile isTagChar = name ++ '_' :: '_' :: rest.takeWhile isTagChar := by
      rw [takeWhile_append_of_pos hname]
      rfl
    have hb' : b ≠ [] := by
      rintro rfl
      exact hne (eq_nil_of_length_eq_zero (Nat.le_zero.mp hle))
    have hsplit : bare name ++ rest = marker ++ (name ++ '_' :: '_' :: rest) := by simp [bare]
    rw [hsplit, bareAt?, if_pos (List.isPrefixOf_iff_prefix.mpr (prefix_append ..)), drop_left, hrun, hb,
      Option.filter_some, if_pos (by simpa using hb')] at h
    cases h
  · intro h
    cases hbare : bareAt? cs with
    | none => rfl
    | some name =>
      obtain ⟨hname, hstart⟩ := bare_prefix_of_bareAt? hbare
      exact absurd hstart (h name hname)

theorem placeholderAt?_eq_none_iff : placeholderAt? cs = none ↔ bareAt? (cs.drop (quoteLength cs)) = none := by
  rw [placeholderAt?, Option.map_eq_none_iff]

theorem reveal_eq_self_iff : reveal cs = cs ↔ ∀ name, IsName name → ¬ bare name <:+: cs := by
  induction cs with
  | nil => simp [reveal, revealAfter, bare]
  | cons c cs ih =>
    constructor
    · intro h name hname hin
      obtain ⟨hnone, hcs⟩ := of_reveal_cons h
      obtain hstart | hin := infix_cons_iff.mp hin
      · -- a placeholder starts with an underscore, which is no quote
        obtain rfl : c = '_' := by
          obtain ⟨rest, hrest⟩ := hstart
          exact (List.cons.inj hrest).1.symm
        exact bareAt?_eq_none_iff.mp (placeholderAt?_eq_none_iff.mp hnone) name hname hstart
      · exact ih.mp hcs name hname hin
    · intro h
      have hcs : reveal cs = cs := ih.mpr fun name hname hin => h name hname (infix_cons hin)
      have hnone : placeholderAt? (c :: cs) = none := by
        refine placeholderAt?_eq_none_iff.mpr (bareAt?_eq_none_iff.mpr fun name hname hstart => ?_)
        exact h name hname (hstart.isInfix.trans (drop_suffix _ _).isInfix)
      rw [reveal, revealAfter, hnone]
      exact congrArg (c :: ·) hcs

/-! ### What hiding leaves -/

theorem head?_dropWhile_hide (cs : List Char) :
    ((hide cs).dropWhile isTagChar).head? = some '\x7d' → (cs.dropWhile isTagChar).head? = some '\x7d' := by
  induction cs using hide_induction with
  | nil => exact id
  | tag name rest hname ih =>
    rw [hide_tag hname]
    intro h
    have hquote : isTagChar '"' = false := by decide
    simp [placeholder, hquote] at h
  | cons c cs htag ih =>
    rw [hide_cons htag, dropWhile_cons, dropWhile_cons]
    split
    · exact ih
    · exact id

/-- Where there is no tag, hiding the tags that follow makes none. -/
theorem tagAt?_cons_hide (h : tagAt? (c :: cs) = none) : tagAt? (c :: hide cs) = none := by
  simp only [tagAt?, takeWhile_hide] at h ⊢
  split at h
  · cases h
  case isFalse hno => exact if_neg fun hyes => hno ⟨hyes.1, hyes.2.1, head?_dropWhile_hide cs hyes.2.2⟩

theorem tag_infix_of_cons (hname : IsName name) (hc : tagAt? (c :: cs) = none) (h : tag name <:+: c :: cs) :
    tag name <:+: cs := by
  refine (infix_cons_iff.mp h).resolve_left ?_
  rintro ⟨rest, hrest⟩
  rw [tagAt?_eq_some_iff.mpr ⟨hname, rest, hrest.symm⟩] at hc
  cases hc

theorem tag_infix_of_append (hname : IsName name) (hu : '\x7b' ∉ u) (h : tag name <:+: u ++ v) :
    tag name <:+: v := by
  induction u with
  | nil => exact h
  | cons c u ih =>
    obtain ⟨hc, hu⟩ := not_or.mp (mt mem_cons.mpr hu)
    exact ih hu (tag_infix_of_cons hname (tagAt?_of_ne (Ne.symm hc) _) h)

theorem brace_not_mem_placeholder (h : IsName name) : '\x7b' ∉ placeholder name := by
  intro hmem
  have hbrace : isTagChar '\x7b' = false := by decide
  have hname : '\x7b' ∉ name := fun hmem => by simp [h.2 _ hmem] at hbrace
  have hmarker : '\x7b' ∉ marker := by decide
  simp [placeholder, bare, hname, hmarker] at hmem

theorem not_tag_infix_hide (hname : IsName name) (cs : List Char) : ¬ tag name <:+: hide cs := by
  induction cs using hide_induction with
  | nil => simp [hide, hideAfter, tag]
  | tag name' rest hname' ih =>
    rw [hide_tag hname']
    exact fun h => ih (tag_infix_of_append hname (brace_not_mem_placeholder hname') h)
  | cons c cs htag ih =>
    rw [hide_cons htag]
    exact fun h => ih (tag_infix_of_cons hname (tagAt?_cons_hide htag) h)

/-! ### Hiding and showing -/

/-- **A script in which no placeholder stands comes back from hiding its tags**, of which none is left
    while they are hidden. -/
theorem reveal_hide_of_unmarked {code : List Char} (h : ∀ name, IsName name → ¬ bare name <:+: code) :
    reveal (hide code) = code ∧ ∀ name, IsName name → ¬ tag name <:+: hide code :=
  ⟨reveal_hide (reveal_eq_self_iff.mpr h), fun _ hname => not_tag_infix_hide hname code⟩

def sampleTags : List Char := "\x7ba___\x7d\x7bb\x7d \"\x7bc\x7d\" __wm_tag___ \x7b__wm_tag_d\x7d".toList

theorem reveal_hide_of_unmarked_sampleTags :
    (∀ name, IsName name → ¬ bare name <:+: sampleTags) ∧ reveal (hide sampleTags) = sampleTags ∧
      tag ['b'] <:+: sampleTags ∧ ¬ tag ['b'] <:+: hide sampleTags :=
  have hfree : ∀ name, IsName name → ¬ bare name <:+: sampleTags := reveal_eq_self_iff.mp (by decide)
  have hback := reveal_hide_of_unmarked hfree
  have hname : IsName ['b'] := ⟨List.cons_ne_nil _ _, List.all_eq_true.mp (by decide)⟩
  ⟨hfree, hback.1, ⟨sampleTags.take 6, sampleTags.drop 9, by decide⟩, hback.2 _ hname⟩

end WatchFace.Lua.Tag
