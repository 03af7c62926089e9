import WatchFace.Proofs.Lua.Quoting

/-!
# Reading a text with hidden tags

A lexeme is read together with the text that follows it. With tags hidden, it is the same lexeme with its own tags
hidden, if it does not stand between double quotes and is not passed over.
-/

namespace WatchFace.Lua

open Tag List

variable {q : Char} {before cs w : List Char}

/-! ### Quotes -/

theorem hide_quote (hq : q = '"' ∨ q = '\'') (body rest : List Char) :
    hide (q :: body ++ [q] ++ rest) = q :: hide body ++ [q] ++ hide rest := by
  have hbrace : q ≠ '\x7b' := by obtain rfl | rfl := hq <;> decide
  have hparts : Parts (q :: rest) := by
    refine parts_cons ?_ ?_ rest <;> obtain rfl | rfl := hq <;> decide
  rw [append_assoc, singleton_append, cons_append, hide_cons (tagAt?_of_ne hbrace _),
    hide_append _ hparts, hide_cons (tagAt?_of_ne hbrace _)]
  simp

theorem stringValue_quote (hq : q = '"' ∨ q = '\'') (body : List Char) :
    stringValue (q :: body ++ [q]) = body := by
  have htake : (body ++ [q]).take ((body ++ [q]).length - 1) = body := by simp
  obtain rfl | rfl := hq
  · exact htake
  · exact htake

theorem stringValue_hide_quote (hq : q = '"' ∨ q = '\'') (body : List Char) :
    stringValue (hide (q :: body ++ [q])) = hide (stringValue (q :: body ++ [q])) := by
  have hhide := hide_quote hq body []
  rw [append_nil, show hide [] = [] from rfl, append_nil] at hhide
  rw [hhide, stringValue_quote hq, stringValue_quote hq]

/-! ### Long brackets -/

theorem hide_closing (level : Nat) (body rest : List Char) :
    hide (body ++ closing level ++ rest) = hide body ++ closing level ++ hide rest := by
  have hparts : Parts (closing level ++ rest) := parts_cons rfl (by decide) _
  rw [append_assoc, hide_append _ hparts, hide_append_of_not_mem (not_mem_closing (by decide) (by decide) level),
    append_assoc]

theorem hide_bracket (level : Nat) (body : List Char) :
    hide (opening level ++ body ++ closing level) = opening level ++ hide body ++ closing level := by
  have hinner := hide_closing level body []
  rw [append_nil, show hide [] = [] from rfl, append_nil] at hinner
  rw [append_assoc, hide_append_of_not_mem (not_mem_opening (by decide) (by decide) level), hinner,
    append_assoc]

theorem dropWhile_hide (cs : List Char) : (hide cs).dropWhile (· == '=') = hide (cs.dropWhile (· == '=')) := by
  induction cs with
  | nil => rfl
  | cons c cs ih =>
    by_cases hc : c = '='
    · subst hc
      rw [hide_cons (tagAt?_of_ne (by decide) cs)]
      exact ih
    · have hstay : ∀ cs : List Char, cs.head? ≠ some '=' → cs.dropWhile (· == '=') = cs := by
        intro cs hcs
        cases cs with
        | nil => rfl
        | cons d cs =>
          have hd : (d == '=') = false := beq_eq_false_iff_ne.mpr fun hd => hcs (congrArg some hd)
          rw [dropWhile_cons, hd]
          rfl
      have hhead : (c :: cs).head? ≠ some '=' := fun h => hc (Option.some.inj h)
      rw [hstay _ hhead, hstay _ (mt (head?_hide (by decide)) hhead)]

theorem exists_of_beforeLastClose (h : beforeLastClose cs = some before) : ∃ after, cs = before ++ after := by
  induction cs generalizing before with
  | nil => cases h
  | cons c cs ih =>
    rw [beforeLastClose] at h
    split at h
    case h_1 before' hbefore =>
      cases h
      obtain ⟨after, rfl⟩ := ih hbefore
      exact ⟨after, rfl⟩
    case h_2 =>
      split at h
      case isTrue =>
        cases h
        exact ⟨c :: cs, rfl⟩
      case isFalse => cases h

theorem beforeLastClose_append_of_not_mem (h : ']' ∉ w) (cs : List Char) :
    beforeLastClose (w ++ cs) = (beforeLastClose cs).map (w ++ ·) := by
  induction w with
  | nil => simp
  | cons c w ih =>
    obtain ⟨hc, hw⟩ := not_or.mp (mt mem_cons.mpr h)
    rw [cons_append, beforeLastClose, ih hw]
    cases beforeLastClose cs with
    | none => simp [Ne.symm hc]
    | some before => rfl

theorem beforeLastClose_hide (cs : List Char) : beforeLastClose (hide cs) = (beforeLastClose cs).map hide := by
  have hneutral : Neutral fun c => ']' ≠ c :=
    ⟨by decide, by decide, by decide, fun c hc => (ne_of_isTagChar hc rfl).symm⟩
  induction cs using hide_induction with
  | nil => rfl
  | tag name rest hname ih =>
    rw [hide_tag hname, beforeLastClose_append_of_not_mem fun hmem => hneutral.placeholder hname _ hmem rfl,
      beforeLastClose_append_of_not_mem fun hmem => hneutral.tag hname _ hmem rfl, ih, Option.map_map,
      Option.map_map]
    congr 1
    funext before
    exact (hide_tag hname before).symm
  | cons c cs htag ih =>
    rw [hide_cons htag, beforeLastClose, beforeLastClose, ih]
    cases hbefore : beforeLastClose cs with
    | some before =>
      obtain ⟨after, rfl⟩ := exists_of_beforeLastClose hbefore
      exact congrArg some (hide_cons (tagAt?_of_append htag)).symm
    | none =>
      simp only [Option.map_none, dropWhile_hide, ← recasts_hide.head?_iff (c := '=') rfl rfl,
        ← recasts_hide.head?_iff (c := ']') rfl rfl]
      split <;> rfl

theorem stringValue_opening_zero (body : List Char) : stringValue (opening 0 ++ body ++ closing 0) = body := by
  show (body ++ [']', ']']).take ((body ++ [']', ']']).length - 2) = body
  simp

theorem stringValue_opening_succ (level : Nat) (body : List Char) :
    stringValue (opening (level + 1) ++ body ++ closing (level + 1)) =
      (beforeLastClose ((body ++ closing (level + 1)).takeWhile (· != '\n'))).getD
        (opening (level + 1) ++ body ++ closing (level + 1)) := by
  have hdrop : (List.replicate (level + 1) '=' ++ '[' :: (body ++ closing (level + 1))).dropWhile (· == '=') =
      '[' :: (body ++ closing (level + 1)) := by
    rw [dropWhile_append_of_pos (by simp)]
    rfl
  rw [append_assoc, opening_append]
  show (beforeLastClose (((List.replicate (level + 1) '=' ++ '[' :: (body ++ closing (level + 1))).dropWhile
    (· == '=')).drop 1 |>.takeWhile (· != '\n'))).getD _ = _
  rw [hdrop]
  rfl

theorem stringValue_hide_bracket (level : Nat) (body : List Char) :
    stringValue (hide (opening level ++ body ++ closing level)) =
      hide (stringValue (opening level ++ body ++ closing level)) := by
  have hhide := hide_bracket level body
  cases level with
  | zero => rw [hhide, stringValue_opening_zero, stringValue_opening_zero]
  | succ level =>
    have hneutral : Neutral fun c => (c != '\n') = true :=
      ⟨rfl, rfl, rfl, fun c hc => bne_iff_ne.mpr (ne_of_isTagChar hc rfl)⟩
    have hinner : hide (body ++ closing (level + 1)) = hide body ++ closing (level + 1) := by
      simpa [show hide [] = [] from rfl] using hide_closing (level + 1) body []
    rw [hhide, stringValue_opening_succ, stringValue_opening_succ, ← hinner, (hide_takeWhile hneutral _).1,
      beforeLastClose_hide, ← hhide]
    cases beforeLastClose ((body ++ closing (level + 1)).takeWhile (· != '\n')) <;> rfl

/-- Between double quotes, and where nothing can be read, a tag changes the lexeme it stands in. -/
def exposes (k : LexClass) (text : List Char) : Bool :=
  k == .junk || (k == .string && text.head? == some '"')

/-- Only strings and what is passed over have tags, and the contents of a string have those of the string. -/
structure Faithful (k : LexClass) (text : List Char) : Prop where
  value : k = .string → stringValue (hide text) = hide (stringValue text)
  plain : k ∉ [.string, .comment, .junk] → hide text = text

/-- The lexeme at the start of a text; it is the same lexeme with tags hidden if it may have any. -/
def Kept (cs : List Char) : Prop :=
  ∃ k text rest, Reads cs k text rest ∧ Faithful k text ∧
    ((exposes k text = true → Bare text.length cs) → Reads (hide cs) k (hide text) (hide rest))

/-! ### Strings -/

theorem hide_eq_of_bare (text rest : List Char) (h : Bare text.length (text ++ rest)) :
    hide text = text ∧ hide (text ++ rest) = text ++ hide rest := by
  have htext : Bare text.length text := by
    intro i hi
    have hall := h i hi
    rw [drop_append_of_le_length (Nat.le_of_lt hi)] at hall
    rw [drop_eq_getElem_cons hi] at hall ⊢
    exact tagAt?_of_append hall
  have hself := hide_of_bare htext
  have hall := hide_of_bare h
  rw [take_length, drop_length, show hide [] = [] from rfl, append_nil] at hself
  rw [take_left, drop_left] at hall
  exact ⟨hself, hall⟩

theorem reads_quote (hq : q = '"' ∨ q = '\'') {body : List Char} (hbody : Body q body)
    (rest : List Char) : Reads (q :: body ++ [q] ++ rest) .string (q :: body ++ [q]) rest := by
  refine reads_of_lexeme (by simp) rfl ?_
  rw [append_assoc, singleton_append, cons_append, lexeme_quote hq, hbody.quotedFrom_eq hq]
  simp only [length_append, length_cons, length_nil]
  congr 1
  omega

theorem kept_quote (hq : q = '"' ∨ q = '\'') (cs : List Char) : Kept (q :: cs) := by
  have hlexeme := lexeme_quote hq cs
  cases hquoted : quotedFrom q 1 cs with
  | closed m =>
    obtain ⟨body, rest, rfl, hbody⟩ := exists_body hquoted
    rw [show q :: (body ++ q :: rest) = q :: body ++ [q] ++ rest by simp]
    have hfaithful : Faithful .string (q :: body ++ [q]) :=
      ⟨fun _ => stringValue_hide_quote hq body, fun h => absurd (by simp) h⟩
    refine ⟨.string, q :: body ++ [q], rest, reads_quote hq hbody rest, hfaithful, fun hexposed => ?_⟩
    -- no tag may stand between double quotes; between single quotes it may be hidden
    by_cases hdouble : q = '"'
    · subst hdouble
      obtain ⟨htext, hall⟩ := hide_eq_of_bare _ _ (hexposed rfl)
      rw [htext, hall]
      exact reads_quote hq hbody _
    · obtain rfl := hq.resolve_left hdouble
      have htext := hide_quote hq body []
      rw [append_nil, show hide [] = [] from rfl, append_nil] at htext
      rw [htext, hide_quote hq]
      exact reads_quote hq (body_hide hbody) _
  | spoiled m =>
    rw [hquoted] at hlexeme
    refine ⟨.junk, (q :: cs).take (m + 1), (q :: cs).drop (m + 1), ⟨by simp, by simp, m + 1, hlexeme, rfl⟩,
      ⟨nofun, fun h => absurd (by simp) h⟩, fun hexposed => ?_⟩
    -- past the end of the text there is no tag either
    have hbare : Bare (m + 1) (q :: cs) := by
      intro i hi
      by_cases hlen : i < (q :: cs).length
      · exact hexposed rfl i (by rw [length_take]; omega)
      · rw [drop_eq_nil_of_le (Nat.le_of_not_lt hlen)]
        rfl
    have hcs : quotedFrom q 1 (hide cs) = .spoiled m := by
      rw [← hquoted]
      refine quotedFrom_hide_of_bare fun i hi => ?_
      rw [hquoted] at hi
      exact (bare_succ hbare).2 i hi
    have hall := hide_of_bare hbare
    have htext := (hide_eq_of_bare ((q :: cs).take (m + 1)) ((q :: cs).drop (m + 1))
      (by rw [take_append_drop]; exact hexposed rfl)).1
    rw [htext]
    refine ⟨by simp, hall, m + 1, ?_, ?_⟩
    · rw [hide_cons (bare_succ hbare).1, lexeme_quote hq, hcs]
    · rw [hall, take_append, take_take, Nat.min_self, length_take]
      obtain hle | hle := Nat.le_total (m + 1) (q :: cs).length
      · rw [Nat.min_eq_left hle, Nat.sub_self, take_zero, append_nil]
      · rw [drop_eq_nil_of_le hle, show hide [] = [] from rfl, take_nil, append_nil]

/-! ### Long brackets and comments -/

def Veiled (k : LexClass) (text rest text' rest' : List Char) : Prop :=
  Faithful k text ∧ text' = hide text ∧ rest' = hide rest

theorem recasting_hide : Recasting isTagMark (fun cs ds => ds = hide cs) Veiled where
  toRecasts := recasts_hide
  parting := parting_isTagMark
  marks := rfl
  gap _ := .inl rfl
  grow := by
    rintro c cs ds hc rfl
    rw [hide_cons (tagAt?_of_ne (by rintro rfl; cases hc) cs)]
  same := by
    rintro k w cs ds hk hw rfl
    have hself : hide w = w := hide_of_not_mem fun hmem => any_eq_false.mp hw _ hmem rfl
    exact ⟨⟨fun h => absurd h hk, fun _ => hself⟩, hself.symm, rfl⟩
  cons := by
    rintro c text rest text' rest' hc ⟨-, rfl, rfl⟩
    refine ⟨⟨nofun, fun h => absurd (by simp) h⟩, ?_, rfl⟩
    rw [hide_cons (tagAt?_of_ne (by rintro rfl; cases hc) text)]
  line := by
    rintro cs ds rfl
    obtain ⟨htake, hdrop⟩ := hide_takeWhile neutral_inLine cs
    exact ⟨⟨nofun, fun h => absurd (by simp) h⟩, htake, hdrop⟩
  bracket := by
    rintro cs ds level rfl
    rw [findSub?_closing_hide]
    cases hfind : Text.findSub? (closing level) cs with
    | none => exact .inl ⟨rfl, rfl⟩
    | some i =>
      obtain ⟨u, v, rfl, rfl⟩ := Text.exists_of_findSub? hfind
      refine .inr ⟨u, v, hide u, hide v, rfl, hide_closing level u v, rfl, ?_, fun k hk =>
        ⟨⟨fun _ => stringValue_hide_bracket level u, fun h => absurd ?_ h⟩, (hide_bracket level u).symm, rfl⟩⟩
      · rw [Option.map_some, append_assoc, take_left]
      · simp only [mem_cons, not_mem_nil, or_false] at hk ⊢
        exact hk.imp_right .inl

/-! ### All lexemes -/

/-- **A text that does not start with a tag starts with a lexeme**, the same with tags hidden. -/
theorem kept_of_tagAt? {c : Char} (htag : tagAt? (c :: cs) = none) : Kept (c :: cs) := by
  by_cases hquote : c = '"' ∨ c = '\''
  · exact kept_quote hquote cs
  by_cases hbrace : c = '\x7b'
  · -- a brace that starts no tag
    have hread : ∀ cs, lexeme (c :: cs) = (.operator, 1) := by
      rw [hbrace]
      exact fun _ => rfl
    have htext : hide [c] = [c] := hide_cons (tagAt?_of_append (v := cs) htag)
    refine ⟨.operator, [c], cs, reads_of_lexeme (by simp) rfl (hread cs), ⟨nofun, fun _ => htext⟩, fun _ => ?_⟩
    rw [hide_cons htag, htext]
    exact reads_of_lexeme (by simp) rfl (hread _)
  · have hc : isTagMark c = false := by simp_all [isTagMark]
    obtain ⟨k, text, rest, _, _, hreads, hreads', hfaithful, rfl, rfl⟩ :=
      recasting_hide.step hc (by simpa using hquote) (Eq.refl (hide cs))
    refine ⟨k, text, rest, hreads, hfaithful, fun _ => ?_⟩
    rwa [hide_cons htag]

end WatchFace.Lua
