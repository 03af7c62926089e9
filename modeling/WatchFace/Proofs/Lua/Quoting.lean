import WatchFace.Proofs.Lua.Hiding
import WatchFace.Proofs.Lua.Recasting

/-!
# Strings, lines and long brackets with hidden tags

What may hold tags ends where it did once they are hidden. A string between double quotes has to be
free of them.
-/

namespace WatchFace.Lua

open Tag List

variable {c e q : Char} {body cs name rest u v w : List Char} {m n : Nat} {p : Char → Prop}

/-! ### Braces and double quotes -/

def isTagMark (c : Char) : Bool := c == '\x7b' || c == '"'

theorem parting_isTagMark : Parting isTagMark where
  name c hc := by
    simp only [isTagMark, Bool.or_eq_true, beq_iff_eq] at hc
    obtain rfl | rfl := hc <;> rfl
  mark c hc := by
    simp only [isTagMark, Bool.or_eq_true, beq_iff_eq] at hc
    obtain rfl | rfl := hc <;> rfl
  operator := by decide

theorem head?_hide (hc : c ≠ '"') (h : (hide cs).head? = some c) :
    cs.head? = some c := by
  cases cs using hide_induction with
  | nil => cases h
  | tag name rest hname _ =>
    rw [hide_tag hname] at h
    exact absurd (Option.some.inj h).symm hc
  | cons d cs htag _ =>
    rw [hide_cons htag] at h
    exact h

theorem recasts_hide : Recasts isTagMark fun cs ds => ds = hide cs where
  head := by
    rintro c cs ds hc rfl
    have hbrace : c ≠ '\x7b' := by rintro rfl; cases hc
    exact ⟨hide cs, hide_cons (tagAt?_of_ne hbrace cs), rfl⟩
  back := by
    intro c cs ds hc h
    have hquote : c ≠ '"' := by rintro rfl; cases hc
    have hbrace : c ≠ '\x7b' := by rintro rfl; cases hc
    obtain ⟨cs, rfl⟩ := head?_eq_some_iff.mp (head?_hide hquote (by rw [← h]; rfl))
    rw [hide_cons (tagAt?_of_ne hbrace cs)] at h
    exact ⟨cs, rfl, (List.cons.inj h).2⟩

theorem isPrefixOf_hide (hw : w.any isTagMark = false) (cs : List Char) : w.isPrefixOf (hide cs) = w.isPrefixOf cs :=
  recasts_hide.isPrefixOf hw rfl

/-! ### Quoted strings -/

def Quoted.reach : Quoted → Nat
  | .closed n => n
  | .spoiled n => n + 1

theorem le_reach (q : Char) (n : Nat) (cs : List Char) : n ≤ (quotedFrom q n cs).reach := by
  fun_induction quotedFrom q n cs <;> simp only [Quoted.reach] at * <;> omega

def Bare (n : Nat) (cs : List Char) : Prop := ∀ i < n, tagAt? (cs.drop i) = none

theorem bare_succ (h : Bare (n + 1) (c :: cs)) : tagAt? (c :: cs) = none ∧ Bare n cs :=
  ⟨h 0 (Nat.zero_lt_succ n), fun i hi => h (i + 1) (Nat.succ_lt_succ hi)⟩

theorem hide_of_bare (h : Bare n cs) : hide cs = cs.take n ++ hide (cs.drop n) := by
  induction n generalizing cs with
  | zero => rfl
  | succ n ih =>
    cases cs with
    | nil => rfl
    | cons c cs =>
      obtain ⟨htag, hcs⟩ := bare_succ h
      rw [hide_cons htag, ih hcs, take_succ_cons, drop_succ_cons, cons_append]

theorem Bare.cut {r : Nat} (h : Bare (r - n) cs) (hm : n + m ≤ r) :
    hide cs = cs.take m ++ hide (cs.drop m) ∧ Bare (r - (n + m)) (cs.drop m) := by
  refine ⟨hide_of_bare fun i hi => h i (by omega), fun i hi => ?_⟩
  rw [drop_drop]
  exact h (m + i) (by omega)

theorem quotedFrom_escape (hx : e ≠ 'x') (hbreak : e = '\r' → cs.head? ≠ some '\n') (q : Char) (n : Nat) :
    quotedFrom q n ('\\' :: e :: cs) =
      if simpleEscapes.contains e || e == '\r' || isDecimal e then quotedFrom q (n + 2) cs
      else .spoiled (n + 1) := by
  rw [quotedFrom]
  · exact hx
  · intro cs he hcs
    exact hbreak he (by rw [hcs]; rfl)

theorem quotedFrom_plain (hc : c ≠ '\\') (q : Char) (n : Nat) (cs : List Char) : quotedFrom q n (c :: cs) =
      if c == q then .closed (n + 1) else if inLine c then quotedFrom q (n + 1) cs else .spoiled n := by
  rw [quotedFrom] <;> intros <;> contradiction

theorem ne_backslash (hend : c = '\\' → cs = [] → False) (hmore : ∀ e cs', c = '\\' → cs = e :: cs' → False) :
    c ≠ '\\' := by
  intro hc
  cases cs with
  | nil => exact hend hc rfl
  | cons e cs => exact hmore e cs hc rfl

theorem quotedFrom_hex {h : Char} (hh : isHex h = false) (q : Char) (n : Nat) (cs : List Char) :
    quotedFrom q n ('\\' :: 'x' :: h :: cs) = .spoiled (n + 2) := by
  cases cs <;> simp [quotedFrom, hh]

theorem quotedFrom_hide_of_bare (h : Bare ((quotedFrom q n cs).reach - n) cs) :
    quotedFrom q n (hide cs) = quotedFrom q n cs := by
  -- as far as the string reaches, the text is the same
  fun_induction quotedFrom q n cs with
  | case1 => rfl
  | case2 => rfl
  | case3 n d e cs hhex ih =>
    obtain ⟨hhide, hcs⟩ := h.cut (le_reach q (n + 4) cs)
    rw [hhide, ← ih hcs]
    exact (quotedFrom.eq_3 ..).trans (if_pos hhex)
  | case4 n d e cs hhex hd =>
    obtain ⟨hhide, -⟩ := h.cut (m := 4) (Nat.le_refl _)
    rw [hhide]
    exact (quotedFrom.eq_3 ..).trans ((if_neg hhex).trans (if_pos hd))
  | case5 n d e cs _ hd =>
    obtain ⟨hhide, -⟩ := h.cut (m := 3) (Nat.le_refl _)
    rw [hhide]
    exact quotedFrom_hex (Bool.eq_false_iff.mpr hd) q n _
  | case6 n d hd =>
    obtain ⟨hhide, -⟩ := h.cut (m := 4) (Nat.le_refl _)
    rw [hhide]
    exact (quotedFrom.eq_4 ..).trans (if_pos hd)
  | case7 n d hd =>
    obtain ⟨hhide, -⟩ := h.cut (m := 3) (Nat.le_refl _)
    rw [hhide]
    exact quotedFrom_hex (Bool.eq_false_iff.mpr hd) q n _
  | case8 => rfl
  | case9 n cs ih =>
    obtain ⟨hhide, hcs⟩ := h.cut (le_reach q (n + 3) cs)
    rw [hhide, ← ih hcs]
    exact quotedFrom.eq_6 ..
  | case10 n e cs hx hbreak he ih =>
    obtain ⟨hhide, hcs⟩ := h.cut (le_reach q (n + 2) cs)
    have hbreak' : e = '\r' → (hide cs).head? ≠ some '\n' := by
      intro he hhead
      obtain ⟨d, hd⟩ := head?_eq_some_iff.mp (head?_hide (by decide) hhead)
      exact hbreak d he hd
    rw [hhide, ← ih hcs]
    exact (quotedFrom_escape hx hbreak' q n).trans (if_pos he)
  | case11 n e cs hx _ he =>
    obtain ⟨hhide, -⟩ := h.cut (m := 2) (Nat.le_refl _)
    have hbreak : e ≠ '\r' := by
      rintro rfl
      exact he rfl
    rw [hhide]
    exact (quotedFrom_escape hx (fun h => absurd h hbreak) q n).trans (if_neg he)
  | case12 n c cs hend _ _ hmore hq =>
    obtain ⟨hhide, -⟩ := h.cut (m := 1) (Nat.le_refl _)
    rw [hhide]
    exact (quotedFrom_plain (ne_backslash hend hmore) q n _).trans (if_pos hq)
  | case13 n c cs hend _ _ hmore hq hline ih =>
    obtain ⟨hhide, hcs⟩ := h.cut (le_reach q (n + 1) cs)
    rw [hhide, ← ih hcs]
    exact (quotedFrom_plain (ne_backslash hend hmore) q n _).trans ((if_neg hq).trans (if_pos hline))
  | case14 n c cs hend _ _ hmore hq hline =>
    obtain ⟨hhide, -⟩ := h.cut (m := 1) (Nat.le_refl _)
    rw [hhide]
    exact (quotedFrom_plain (ne_backslash hend hmore) q n _).trans ((if_neg hq).trans (if_neg hline))

/-- The contents of a string between quotes `q`. -/
inductive Body (q : Char) : List Char → Prop
  | nil : Body q []
  | plain {c : Char} {cs : List Char} (hc : c ≠ '\\') (hq : (c == q) = false) (hline : inLine c = true)
      (h : Body q cs) : Body q (c :: cs)
  | hex {d e : Char} {cs : List Char} (hhex : (isHex d && isHex e) = true) (h : Body q cs) :
      Body q ('\\' :: 'x' :: d :: e :: cs)
  | lineBreak {cs : List Char} (h : Body q cs) : Body q ('\\' :: '\r' :: '\n' :: cs)
  | escape {e : Char} {cs : List Char} (he : (simpleEscapes.contains e || e == '\r' || isDecimal e) = true)
      (hbreak : e = '\r' → cs.head? ≠ some '\n') (h : Body q cs) : Body q ('\\' :: e :: cs)

theorem exists_body (h : quotedFrom q n cs = .closed m) :
    ∃ body rest, cs = body ++ q :: rest ∧ Body q body := by
  fun_induction quotedFrom q n cs with
  | case1 | case2 | case4 | case5 | case6 | case7 | case8 | case11 | case14 => cases h
  | case3 n d e cs hhex ih =>
    obtain ⟨body, rest, rfl, hbody⟩ := ih h
    exact ⟨_, rest, rfl, hbody.hex hhex⟩
  | case9 n cs ih =>
    obtain ⟨body, rest, rfl, hbody⟩ := ih h
    exact ⟨_, rest, rfl, hbody.lineBreak⟩
  | case10 n e cs _ hbreak he ih =>
    obtain ⟨body, rest, rfl, hbody⟩ := ih h
    refine ⟨_, rest, rfl, hbody.escape he fun hr hhead => ?_⟩
    obtain ⟨body, rfl⟩ := head?_eq_some_iff.mp hhead
    exact hbreak _ hr rfl
  | case12 n c cs _ _ _ _ hq =>
    obtain rfl := eq_of_beq hq
    exact ⟨[], cs, rfl, .nil⟩
  | case13 n c cs hend _ _ hmore hq hline ih =>
    obtain ⟨body, rest, rfl, hbody⟩ := ih h
    exact ⟨_, rest, rfl, hbody.plain (ne_backslash hend hmore) (Bool.eq_false_iff.mpr hq) hline⟩

theorem Body.quotedFrom_eq (hq : q = '"' ∨ q = '\'') (h : Body q body) (n : Nat) (rest : List Char) :
    quotedFrom q n (body ++ q :: rest) = .closed (n + body.length + 1) := by
  induction h generalizing n with
  | nil =>
    have hne : q ≠ '\\' := by obtain rfl | rfl := hq <;> decide
    exact (quotedFrom_plain hne q n rest).trans (if_pos (beq_self_eq_true q))
  | @plain c cs hc hne hline h ih =>
    rw [cons_append, quotedFrom_plain hc, hne, hline, if_neg Bool.false_ne_true, if_pos rfl, ih, length_cons]
    congr 1
    omega
  | @hex d e cs hhex h ih =>
    simp only [cons_append]
    rw [quotedFrom, if_pos hhex, ih]
    congr 1
    simp only [length_cons]
    omega
  | lineBreak h ih =>
    simp only [cons_append]
    rw [quotedFrom, ih]
    congr 1
    simp only [length_cons]
    omega
  | @escape e cs he hbreak h ih =>
    simp only [cons_append]
    have hx : e ≠ 'x' := by
      rintro rfl
      revert he
      decide
    rw [quotedFrom_escape hx, if_pos he, ih]
    · congr 1
      simp only [length_cons]
      omega
    · intro hr hhead
      cases cs with
      | nil =>
        obtain rfl | rfl := hq <;> cases hhead
      | cons d cs => exact hbreak hr hhead

theorem Body.of_append (hw : '\\' ∉ w) (h : Body q (w ++ rest)) : Body q rest := by
  induction w with
  | nil => exact h
  | cons c w ih =>
    obtain ⟨hc, hw⟩ := not_or.mp (mt mem_cons.mpr hw)
    refine ih hw ?_
    rw [cons_append] at h
    generalize w ++ rest = cs at h
    cases h with
    | plain _ _ _ h => exact h
    | hex | lineBreak | escape => exact absurd rfl hc

theorem Body.append (hw : ∀ c ∈ w, c ≠ '\\' ∧ (c == q) = false ∧ inLine c = true) (h : Body q rest) :
    Body q (w ++ rest) := by
  induction w with
  | nil => exact h
  | cons c w ih =>
    obtain ⟨hc, hq, hline⟩ := hw c mem_cons_self
    exact (ih fun d hd => hw d (.tail _ hd)).plain hc hq hline

/-! ### Characters of tags and placeholders -/

/-- What holds of braces, double quotes and the characters of names holds of tags and placeholders. -/
structure Neutral (p : Char → Prop) : Prop where
  opening : p '\x7b'
  closing : p '\x7d'
  quote : p '"'
  name : ∀ c, isTagChar c = true → p c

theorem Neutral.tag (hp : Neutral p) (h : IsName name) : ∀ c ∈ tag name, p c := by
  intro c hc
  simp only [Tag.tag, cons_append, mem_cons, mem_append, not_mem_nil, or_false] at hc
  obtain rfl | hc | rfl := hc
  · exact hp.opening
  · exact hp.name c (h.2 c hc)
  · exact hp.closing

theorem isTagChar_bare (h : IsName name) : ∀ c ∈ bare name, isTagChar c = true := by
  have hmarks : ∀ c ∈ marker ++ ['_', '_'], isTagChar c = true := all_eq_true.mp (by decide)
  intro c hc
  simp only [bare, mem_append] at hc
  obtain (hc | hc) | hc := hc
  · exact hmarks c (mem_append_left _ hc)
  · exact h.2 c hc
  · exact hmarks c (mem_append_right _ hc)

theorem Neutral.placeholder (hp : Neutral p) (h : IsName name) : ∀ c ∈ placeholder name, p c := by
  intro c hc
  simp only [Tag.placeholder, cons_append, mem_cons, mem_append, not_mem_nil, or_false] at hc
  obtain rfl | hc | rfl := hc
  · exact hp.quote
  · exact hp.name c (isTagChar_bare h c hc)
  · exact hp.quote

theorem ne_of_isTagChar {d : Char} (hc : isTagChar c = true) (hd : isTagChar d = false) : c ≠ d := by
  rintro rfl
  rw [hc] at hd
  cases hd

theorem neutral_inLine : Neutral fun c => inLine c = true where
  opening := rfl
  closing := rfl
  quote := rfl
  name c hc := by simp [inLine, ne_of_isTagChar hc (d := '\r') rfl, ne_of_isTagChar hc (d := '\n') rfl]

theorem neutral_plain : Neutral fun c => c ≠ '\\' ∧ (c == '\'') = false ∧ inLine c = true where
  opening := by decide
  closing := by decide
  quote := by decide
  name c hc := ⟨ne_of_isTagChar hc rfl, beq_eq_false_iff_ne.mpr (ne_of_isTagChar hc rfl), neutral_inLine.name c hc⟩

/-- Between single quotes tags may be hidden. -/
theorem body_hide (h : Body '\'' body) : Body '\'' (hide body) := by
  -- a tag holds no backslash, so it lies between two escapes and never across one
  induction hn : body.length using Nat.strongRecOn generalizing body with
  | _ n ih =>
    cases htag : tagAt? body with
    | some name =>
      obtain ⟨hname, rest, rfl⟩ := tagAt?_eq_some_iff.mp htag
      have hrest : Body '\'' rest :=
        h.of_append fun hmem => (neutral_plain.tag hname _ hmem).1 rfl
      rw [hide_tag hname]
      refine Body.append (neutral_plain.placeholder hname) (ih rest.length ?_ hrest rfl)
      simp only [← hn, length_append, tag, length_cons]
      omega
    | none =>
      have hshort : ∀ {cs}, cs.length < n → Body '\'' cs → Body '\'' (hide cs) :=
        fun hlt h => ih _ hlt h rfl
      cases h with
      | nil => exact .nil
      | plain hc hq hline h =>
        rw [hide_cons htag]
        exact (hshort (by simp [← hn]) h).plain hc hq hline
      | @hex d e cs hhex h =>
        have hunit : '\x7b' ∉ ['\\', 'x', d, e] := by
          intro hmem
          simp only [mem_cons, not_mem_nil, or_false] at hmem
          obtain hmem | hmem | rfl | rfl := hmem
          · cases hmem
          · cases hmem
          · cases hhex
          · rw [show isHex '\x7b' = false from rfl, Bool.and_false] at hhex
            cases hhex
        rw [show '\\' :: 'x' :: d :: e :: cs = ['\\', 'x', d, e] ++ cs from rfl, hide_append_of_not_mem hunit]
        exact (hshort (by simp only [← hn, length_cons]; omega) h).hex hhex
      | @lineBreak cs h =>
        rw [show '\\' :: '\r' :: '\n' :: cs = ['\\', '\r', '\n'] ++ cs from rfl, hide_append_of_not_mem (by decide)]
        exact (hshort (by simp only [← hn, length_cons]; omega) h).lineBreak
      | @escape e cs he hbreak h =>
        have hunit : '\x7b' ∉ ['\\', e] := by
          intro hmem
          simp only [mem_cons, not_mem_nil, or_false] at hmem
          obtain hmem | rfl := hmem
          · cases hmem
          · cases he
        rw [show '\\' :: e :: cs = ['\\', e] ++ cs from rfl, hide_append_of_not_mem hunit]
        refine (hshort (by simp only [← hn, length_cons]; omega) h).escape he fun hr hhead => ?_
        exact hbreak hr (head?_hide (by decide) hhead)

/-! ### Lines -/

theorem tagAt?_of_append (h : tagAt? (c :: (u ++ v)) = none) : tagAt? (c :: u) = none := by
  cases htag : tagAt? (c :: u) with
  | none => rfl
  | some name =>
    obtain ⟨hname, rest, heq⟩ := tagAt?_eq_some_iff.mp htag
    rw [← cons_append, heq, append_assoc, tagAt?_eq_some_iff.mpr ⟨hname, rest ++ v, rfl⟩] at h
    cases h

theorem hide_takeWhile {p : Char → Bool} (hp : Neutral fun c => p c = true) (cs : List Char) :
    (hide cs).takeWhile p = hide (cs.takeWhile p) ∧ (hide cs).dropWhile p = hide (cs.dropWhile p) := by
  induction cs using hide_induction with
  | nil => exact ⟨rfl, rfl⟩
  | tag name rest hname ih =>
    rw [hide_tag hname, takeWhile_append_of_pos (hp.placeholder hname),
      takeWhile_append_of_pos (hp.tag hname), dropWhile_append_of_pos (hp.placeholder hname),
      dropWhile_append_of_pos (hp.tag hname), hide_tag hname, ih.1, ih.2]
    exact ⟨rfl, rfl⟩
  | cons c cs htag ih =>
    rw [hide_cons htag, takeWhile_cons, takeWhile_cons, dropWhile_cons, dropWhile_cons]
    cases p c with
    | false => exact ⟨rfl, (hide_cons htag).symm⟩
    | true =>
      have htag' : tagAt? (c :: cs.takeWhile p) = none := by
        rw [← takeWhile_append_dropWhile (p := p) (l := cs)] at htag
        exact tagAt?_of_append htag
      exact ⟨by rw [if_pos rfl, if_pos rfl, hide_cons htag', ih.1], ih.2⟩

/-! ### Long brackets -/

theorem findSub?_closing_hide (level : Nat) (cs : List Char) : Text.findSub? (closing level) (hide cs) =
      (Text.findSub? (closing level) cs).map fun i => (hide (cs.take i)).length := by
  have hneutral : Neutral fun c => ']' ≠ c :=
    ⟨by decide, by decide, by decide, fun c hc => (ne_of_isTagChar hc rfl).symm⟩
  -- neither a tag nor a placeholder holds a closing bracket, so the search passes them whole
  induction cs using hide_induction with
  | nil => rfl
  | tag name rest hname ih =>
    rw [hide_tag hname, findSub?_closing_append fun hmem => hneutral.placeholder hname _ hmem rfl,
      findSub?_closing_append fun hmem => hneutral.tag hname _ hmem rfl, ih, Option.map_map, Option.map_map]
    congr 1
    funext i
    have htake : (tag name ++ rest).take (i + (tag name).length) = tag name ++ rest.take i := by
      rw [Nat.add_comm, take_length_add_append]
    rw [Function.comp_apply, Function.comp_apply, htake, hide_tag hname, length_append, Nat.add_comm]
  | cons c cs htag ih =>
    have hpre : (closing level).isPrefixOf (hide (c :: cs)) = (closing level).isPrefixOf (c :: cs) :=
      isPrefixOf_hide (by simp [closing, isTagMark]) (c :: cs)
    rw [hide_cons htag] at hpre ⊢
    rw [Text.findSub?, Text.findSub?, hpre]
    split
    · rfl
    · rw [ih, Option.map_map, Option.map_map]
      congr 1
      funext i
      have htag' : tagAt? (c :: cs.take i) = none := by
        rw [← take_append_drop i cs] at htag
        exact tagAt?_of_append htag
      simp [hide_cons htag']

end WatchFace.Lua
