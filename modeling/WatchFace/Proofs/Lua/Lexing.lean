import Mathlib.Data.List.Basic
import WatchFace.Lua.Lexer

/-!
# The lexeme at the start of a text

The first character tells which rule decides.
-/

namespace WatchFace.Lua

open List

variable {c q : Char} {S p : Char → Bool} {a b o : Option Nat} {cs cs' marks u v : List Char} {n : Nat}
  {k k' : LexClass}

/-! ### Up to a character of a class -/

def Stops (S : Char → Bool) (v : List Char) : Prop := ∀ c ∈ v.head?, S c = true

def Ends (S p : Char → Bool) : Prop := ∀ c, S c = true → p c = false

section

variable {S p : Char → Bool} (hp : Ends S p) (u : List Char) {v : List Char} (hv : Stops S v)

include hp hv

theorem takeWhile_append_stops : (u ++ v).takeWhile p = u.takeWhile p := by
  have hnil : v.takeWhile p = [] := by
    cases v with
    | nil => rfl
    | cons c v =>
      rw [takeWhile_cons, hp c (hv c rfl)]
      rfl
  rw [takeWhile_append]
  split
  case isTrue h => rw [hnil, append_nil, (List.takeWhile_prefix p).eq_of_length h]
  case isFalse => rfl

theorem spanLength_append_stops : spanLength p (u ++ v) = spanLength p u := by
  rw [spanLength, takeWhile_append_stops hp u hv, spanLength]

end

theorem spanLength_le (p : Char → Bool) (cs : List Char) : spanLength p cs ≤ cs.length :=
  (List.takeWhile_prefix p).length_le

theorem Ends.mono (h : Ends S p) {p' : Char → Bool} (hp : ∀ c, p' c = true → p c = true) : Ends S p' := by
  intro c hc
  refine Bool.eq_false_iff.mpr fun hp' => ?_
  cases (h c hc).symm.trans (hp c hp')

theorem isNameChar_of_isHex (h : isHex c = true) : isNameChar c = true := by
  simp only [isHex, isNameChar, isNameStart, Bool.or_eq_true, Bool.and_eq_true, decide_eq_true_eq] at h ⊢
  obtain (h | ⟨hle, hge⟩) | ⟨hle, hge⟩ := h
  · exact .inr h
  · exact .inl (.inl (.inl ⟨hle, Char.le_trans hge (by decide)⟩))
  · exact .inl (.inl (.inr ⟨hle, Char.le_trans hge (by decide)⟩))

def isNumberChar (c : Char) : Bool := isHex c || ['x', 'X', 'p', 'P', '.', '+', '-'].contains c

theorem isNumberChar_of_isHex (h : isHex c = true) : isNumberChar c = true := by
  rw [isNumberChar, h, Bool.true_or]

theorem isNumberChar_of_isDecimal (h : isDecimal c = true) : isNumberChar c = true :=
  isNumberChar_of_isHex (by rw [isHex, h, Bool.true_or, Bool.true_or])

/-- Characters that no name and no number has, and no operator but alone. -/
structure Parting (S : Char → Bool) : Prop where
  name : Ends S isNameChar
  mark : Ends S ['.', '+', '-'].contains
  operator : ∀ o ∈ operators, o.length = 1 ∨ o.toList.any S = false

theorem Parting.number (hS : Parting S) : Ends S isNumberChar := by
  intro c hc
  refine Bool.or_eq_false_iff.mpr ⟨hS.name.mono (fun _ => isNameChar_of_isHex) c hc, ?_⟩
  refine Bool.eq_false_iff.mpr fun h => ?_
  simp only [contains_iff_mem, mem_cons, not_mem_nil, or_false] at h
  obtain rfl | rfl | rfl | rfl | h := h
  iterate 4 cases hS.name _ hc
  obtain rfl | rfl | rfl := h <;> cases hS.mark _ hc

/-! ### Names, numbers and operators -/

/-- At a text that starts with `c` the rule sees nothing beyond a character of a class. -/
def Local (S : Char → Bool) (c : Char) (f : List Char → Option Nat) : Prop :=
  ∀ u v, Stops S v → f (c :: (u ++ v)) = f (c :: u) ∧ ∀ n, f (c :: u) = some n → 0 < n ∧ n ≤ (c :: u).length

theorem local_of_none {f : List Char → Option Nat} (h : ∀ cs, f (c :: cs) = none) : Local S c f := by
  intro u v _
  rw [h, h]
  exact ⟨rfl, nofun⟩

theorem local_runLength (h : Ends S p ∨ p c = false) : Local S c (runLength p) := by
  obtain hp | hc := h
  case inr =>
    refine local_of_none fun cs => ?_
    simp [runLength, spanLength, hc]
  intro u v hv
  refine ⟨?_, fun n hn => ?_⟩
  · rw [runLength, runLength, ← cons_append, spanLength_append_stops hp _ hv]
  · have hle := spanLength_le p (c :: u)
    simp only [runLength] at hn
    split at hn
    · cases hn
    case isFalse hne =>
      cases hn
      exact ⟨Nat.pos_of_ne_zero hne, hle⟩

theorem isPrefixOf_append {o : List Char} (u : List Char) (hv : ∀ c ∈ v.head?, c ∉ o) :
    o.isPrefixOf (u ++ v) = o.isPrefixOf u := by
  induction o generalizing u with
  | nil => rfl
  | cons a o ih =>
    cases u with
    | nil =>
      cases v with
      | nil => rfl
      | cons c v =>
        have hac : (a == c) = false := beq_eq_false_iff_ne.mpr fun hac => hv c rfl (hac ▸ mem_cons_self)
        rw [nil_append, isPrefixOf_cons_cons, hac]
        rfl
    | cons c u =>
      have htail : ∀ c ∈ v.head?, c ∉ o := fun c hc hmem => hv c hc (.tail _ hmem)
      rw [cons_append, List.isPrefixOf, List.isPrefixOf, ih u htail]

theorem operatorLength_eq_none (hp : ∀ o ∈ operators, o.toList.head?.any p = false) (hc : p c = true) (cs : List Char) :
    operatorLength (c :: cs) = none := by
  have hfilled : ∀ o ∈ operators, o.toList ≠ [] := by decide
  rw [operatorLength, Option.map_eq_none_iff, find?_eq_none]
  intro o ho hpre
  cases heq : o.toList with
  | nil => exact hfilled o ho heq
  | cons d ds =>
    rw [heq, isPrefixOf_cons_cons, Bool.and_eq_true, beq_iff_eq] at hpre
    obtain ⟨rfl, -⟩ := hpre
    have hfirst := hp o ho
    rw [heq, head?_cons, Option.any_some, hc] at hfirst
    cases hfirst

theorem exponentLength_le (marks u : List Char) : exponentLength marks u ≤ u.length := by
  match u with
  | [] => exact Nat.le_refl 0
  | [e] =>
    simp only [exponentLength]
    split <;> omega
  | e :: s :: ds =>
    have h₁ := spanLength_le isDecimal ds
    have h₂ := spanLength_le isDecimal (s :: ds)
    simp only [length_cons] at h₂ ⊢
    simp only [exponentLength]
    repeat' split
    all_goals omega

theorem fractionLength_le (p : Char → Bool) (u : List Char) : fractionLength p u ≤ u.length := by
  unfold fractionLength
  split
  · have := spanLength_le p ‹_›
    rw [length_cons]
    omega
  · omega

theorem scaledLength_bounds (h : scaledLength p marks u = some n) : 0 < n ∧ n ≤ u.length := by
  have hdigits := spanLength_le p u
  have hfraction := fractionLength_le p (u.drop (spanLength p u))
  have hexponent := exponentLength_le marks (u.drop (spanLength p u + fractionLength p (u.drop (spanLength p u))))
  rw [length_drop] at hfraction hexponent
  simp only [scaledLength] at h
  split at h
  · cases h
  · cases h
    omega

theorem longer_cases (h : longer a b = some n) : a = some n ∨ b = some n := by
  cases a with
  | none => exact .inr h
  | some k =>
    cases b with
    | none => exact .inl h
    | some m =>
      rw [← h, longer]
      obtain hle | hle := Nat.le_total k m
      · exact .inr (by rw [Nat.max_eq_right hle])
      · exact .inl (by rw [Nat.max_eq_left hle])

namespace Parting

variable {S : Char → Bool} (hS : Parting S)

include hS

theorem nameLength (c : Char) : Local S c nameLength := by
  intro u v hv
  refine ⟨?_, fun n hn => ?_⟩
  · rw [Lua.nameLength, Lua.nameLength, spanLength_append_stops hS.name u hv]
  · have hle := spanLength_le isNameChar u
    rw [Lua.nameLength] at hn
    split at hn
    · cases hn
      rw [length_cons]
      omega
    · cases hn

theorem operatorLength (c : Char) : Local S c operatorLength := by
  intro u v hv
  refine ⟨?_, fun n hn => ?_⟩
  · have hsame : ∀ o ∈ operators, o.toList.isPrefixOf (c :: (u ++ v)) = o.toList.isPrefixOf (c :: u) := by
      intro o ho
      obtain hone | hfree := hS.operator o ho
      · obtain ⟨d, hd⟩ := length_eq_one_iff.mp (String.length_toList.trans hone)
        rw [hd]
        rfl
      · refine (congrArg _ cons_append.symm).trans (isPrefixOf_append _ fun d hd hmem => ?_)
        exact any_eq_false.mp hfree d hmem (hv d hd)
    rw [Lua.operatorLength, Lua.operatorLength, ← head?_filter, ← head?_filter, filter_congr hsame]
  · obtain ⟨o, ho, rfl⟩ := Option.map_eq_some_iff.mp hn
    have hpos : ∀ o ∈ operators, 0 < o.length := by decide
    have hpre := find?_some ho
    exact ⟨hpos o (mem_of_find?_eq_some ho), (List.isPrefixOf_iff_prefix.mp hpre).length_le⟩

end Parting

namespace Ends

variable {S : Char → Bool} (hS : Ends S isNumberChar)

include hS

theorem hex : Ends S isHex := hS.mono fun _ => isNumberChar_of_isHex

theorem decimal : Ends S isDecimal := hS.mono fun _ => isNumberChar_of_isDecimal

section

variable (u : List Char) {v : List Char} (hv : Stops S v)

include hv

theorem exponentLength (hmarks : marks.all isNumberChar = true) :
    exponentLength marks (u ++ v) = exponentLength marks u := by
  have hends : Ends S marks.contains := hS.mono fun c hc => all_eq_true.mp hmarks c (contains_iff_mem.mp hc)
  match u with
  | [] =>
    cases v with
    | nil => rfl
    | cons c v => simp only [nil_append, Lua.exponentLength, hends c (hv c rfl), Bool.false_eq_true, if_false]
  | [e] =>
    cases v with
    | nil => rfl
    | cons c v =>
      have hsign : c ≠ '+' ∧ c ≠ '-' := by
        constructor <;> rintro rfl <;> cases hS _ (hv _ rfl)
      simp [Lua.exponentLength, hsign, spanLength, hS.decimal c (hv c rfl)]
  | e :: s :: ds =>
    simp only [cons_append, Lua.exponentLength]
    rw [spanLength_append_stops hS.decimal ds hv, ← cons_append, spanLength_append_stops hS.decimal (s :: ds) hv]

theorem fractionLength (hp : Ends S p) : fractionLength p (u ++ v) = fractionLength p u := by
  cases u with
  | nil =>
    cases v with
    | nil => rfl
    | cons c v =>
      have hpoint : c ≠ '.' := by
        rintro rfl
        cases hS '.' (hv '.' rfl)
      simp [Lua.fractionLength, hpoint]
  | cons c u =>
    by_cases hc : c = '.'
    · rw [hc, cons_append, Lua.fractionLength, Lua.fractionLength, spanLength_append_stops hp u hv]
    · simp [Lua.fractionLength, hc]

theorem scaledLength (hp : Ends S p) (hmarks : marks.all isNumberChar = true) :
    scaledLength p marks (u ++ v) = scaledLength p marks u := by
  have hdigits := spanLength_le p u
  have hfraction := fractionLength_le p (u.drop (spanLength p u))
  rw [length_drop] at hfraction
  unfold Lua.scaledLength
  simp only [spanLength_append_stops hp u hv]
  rw [drop_append_of_le_length hdigits, hS.fractionLength _ hv hp,
    drop_append_of_le_length (by omega), hS.exponentLength _ hv hmarks]

end

theorem hexLength (c : Char) : Local S c hexLength := by
  intro u v hv
  by_cases hc : c = '0'
  case neg => simp [Lua.hexLength, hc]
  case pos =>
    cases u with
    | nil =>
      refine ⟨?_, fun n hn => ?_⟩
      · cases v with
        | nil => rfl
        | cons d v =>
          have hd : d ≠ 'x' ∧ d ≠ 'X' := by
            constructor <;> rintro rfl <;> cases hS _ (hv _ rfl)
          simp [Lua.hexLength, hc, hd]
      · simp [Lua.hexLength] at hn
    | cons x u =>
      rw [hc, cons_append, Lua.hexLength, Lua.hexLength, hS.scaledLength u hv hS.hex rfl]
      refine ⟨rfl, fun n hn => ?_⟩
      split at hn
      · obtain ⟨m, hm, rfl⟩ := Option.map_eq_some_iff.mp hn
        have := scaledLength_bounds hm
        simp only [length_cons]
        omega
      · cases hn

theorem pointedLength (c : Char) : Local S c pointedLength := by
  intro u v hv
  by_cases hc : c = '.'
  case neg => simp [Lua.pointedLength, hc]
  case pos =>
    have hle := spanLength_le isDecimal u
    have hexp := exponentLength_le ['e', 'E'] (('.' :: u).drop (1 + spanLength isDecimal u))
    rw [length_drop, length_cons] at hexp
    rw [hc, Lua.pointedLength, Lua.pointedLength, spanLength_append_stops hS.decimal u hv, ← cons_append,
      drop_append_of_le_length (by rw [length_cons]; omega), hS.exponentLength _ hv rfl]
    refine ⟨rfl, fun n hn => ?_⟩
    split at hn
    · cases hn
    · cases hn
      rw [length_cons]
      omega

theorem numberLength (c : Char) : Local S c numberLength := by
  intro u v hv
  obtain ⟨hhex, hhex'⟩ := hS.hexLength c u v hv
  obtain ⟨hpoint, hpoint'⟩ := hS.pointedLength c u v hv
  refine ⟨?_, fun n hn => ?_⟩
  · rw [Lua.numberLength, Lua.numberLength, hhex, hpoint, ← cons_append, hS.scaledLength _ hv hS.decimal rfl]
  · obtain hn | hn := longer_cases hn
    · exact hhex' n hn
    · obtain hn | hn := longer_cases hn
      · exact scaledLength_bounds hn
      · exact hpoint' n hn

end Ends

theorem numberLength_eq_none (hdigit : isDecimal c = false) (hpoint : c ≠ '.') (cs : List Char) :
    numberLength (c :: cs) = none := by
  have hzero : c ≠ '0' := by
    rintro rfl
    exact absurd hdigit (by decide)
  have hhex : hexLength (c :: cs) = none := by simp [hexLength, hzero]
  have hscaled : scaledLength isDecimal ['e', 'E'] (c :: cs) = none := by
    simp [scaledLength, spanLength, hdigit]
  have hpointed : pointedLength (c :: cs) = none := by simp [pointedLength, hpoint]
  rw [numberLength, hhex, hscaled, hpointed]
  rfl

theorem isNumberChar_of_numberLength (h : numberLength cs = some n) : ∀ c ∈ cs.take n, isNumberChar c = true := by
  cases cs with
  | nil => cases h
  | cons c cs =>
    have hc : isNumberChar c = true := by
      by_contra hc
      rw [numberLength_eq_none] at h
      · cases h
      · exact Bool.eq_false_iff.mpr fun hd => hc (isNumberChar_of_isDecimal hd)
      · rintro rfl
        exact hc rfl
    have hstops : Stops (!isNumberChar ·) (cs.dropWhile isNumberChar) := by
      intro d hd
      have hnot := head?_dropWhile_not isNumberChar cs
      rw [Option.mem_def.mp hd] at hnot
      exact congrArg not hnot
    have hends : Ends (!isNumberChar ·) isNumberChar := fun d hd => Bool.not_inj hd
    obtain ⟨hsame, hle⟩ := hends.numberLength c (cs.takeWhile isNumberChar) _ hstops
    rw [takeWhile_append_dropWhile] at hsame
    intro d hd
    rw [← takeWhile_append_dropWhile (p := isNumberChar) (l := cs), ← cons_append,
      take_append_of_le_length (hle n (hsame.symm.trans h)).2] at hd
    obtain rfl | hd := mem_cons.mp (mem_of_mem_take hd)
    · exact hc
    · exact all_eq_true.mp all_takeWhile d hd

/-! ### The longest lexeme -/

theorem longerLexeme_eq_some {best : Option (LexClass × Nat)} (h : longerLexeme best k' o = some (k, n)) :
    best = some (k, n) ∨ k' = k ∧ o = some n := by
  cases o with
  | none => exact .inl h
  | some m =>
    have hnew : some (k', m) = some (k, n) → k' = k ∧ some m = some n := by
      intro heq
      obtain ⟨hk, hm⟩ := Prod.mk.inj (Option.some.inj heq)
      exact ⟨hk, congrArg some hm⟩
    cases best with
    | none => exact .inr (hnew h)
    | some b =>
      simp only [longerLexeme] at h
      split at h
      · exact .inr (hnew h)
      · exact .inl h

theorem exists_of_longestLexeme (h : longestLexeme cs = some (k, n)) :
    ∃ rule ∈ lexRules, rule.1 = k ∧ rule.2 cs = some n := by
  have hfold : ∀ (rules : List (LexClass × (List Char → Option Nat))) best,
      rules.foldl (fun best rule => longerLexeme best rule.1 (rule.2 cs)) best = some (k, n) →
        best = some (k, n) ∨ ∃ rule ∈ rules, rule.1 = k ∧ rule.2 cs = some n := by
    intro rules
    induction rules with
    | nil => exact fun best h => .inl h
    | cons rule rules ih =>
      intro best h
      obtain hbest | ⟨rule', hmem, hrule'⟩ := ih _ h
      · obtain hbest | hrule := longerLexeme_eq_some hbest
        · exact .inl hbest
        · exact .inr ⟨rule, mem_cons_self, hrule⟩
      · exact .inr ⟨rule', .tail _ hmem, hrule'⟩
  obtain hnone | hrule := hfold lexRules none h
  · cases hnone
  · exact hrule

theorem longestLexeme_congr (h : ∀ rule ∈ lexRules, rule.2 cs = rule.2 cs') : longestLexeme cs = longestLexeme cs' :=
  foldl_ext _ _ _ fun _ rule hmem => by rw [h rule hmem]

/-! ### The lexeme at the start of a text -/

structure Reads (cs : List Char) (k : LexClass) (text rest : List Char) : Prop where
  ne_nil : text ≠ []
  split : cs = text ++ rest
  lexeme : ∃ n, lexeme cs = (k, n) ∧ cs.take n = text

theorem reads_of_lexeme {text rest : List Char} (hne : text ≠ []) (hcs : cs = text ++ rest)
    (h : lexeme cs = (k, text.length)) : Reads cs k text rest :=
  ⟨hne, hcs, text.length, h, by rw [hcs, take_left]⟩

def gaps : List Char := [' ', '\t', '\r', '\n', '\x0c']

theorem exists_reads_plain (hS : Parting S) (hc : c ∉ ['"', '\'', '[', '-', '#'])
    (hgap : gaps.any S = false ∨ c ∉ gaps) (u : List Char) :
    ∃ k n, k ≠ .string ∧
      ∀ w, Stops S w → Reads (c :: (u ++ w)) k ((c :: u).take n) ((c :: u).drop n ++ w) := by
  simp only [mem_cons, not_mem_nil, or_false, not_or] at hc
  obtain ⟨hdouble, hsingle, hbracket, hhyphen, hhash⟩ := hc
  have hquoted : ∀ w, quoted? (c :: w) = none := fun w => by simp [quoted?, hdouble, hsingle]
  have hjunk : ∀ w, junkLength (c :: w) = 1 := fun w => by rw [junkLength, hquoted]
  have hstring : ∀ w, stringLength (c :: w) = none := by
    intro w
    rw [stringLength, hquoted]
    simp [longBracketLength, hbracket]
  have hrun : ∀ {p : Char → Bool}, (∀ d, p d = true → d ∈ gaps) → Local S c (runLength p) := by
    intro p hp
    refine local_runLength (hgap.imp (fun hfree d hd => ?_) fun hc => ?_) <;> refine Bool.eq_false_iff.mpr fun h => ?_
    · exact any_eq_false.mp hfree d (hp d h) hd
    · exact hc (hp c h)
  -- no rule looks beyond the first character of the class
  have hlocal : ∀ rule ∈ lexRules, Local S c rule.2 := by
    simp only [lexRules, forall_mem_cons]
    refine ⟨hS.nameLength c, hS.number.numberLength c, local_of_none hstring,
      local_of_none fun w => by simp [commentLength, hhyphen],
      local_of_none fun w => by simp [shebangLength, hhash],
      hrun fun d hd => ?_, hrun fun d hd => ?_, hS.operatorLength c, forall_mem_nil _⟩
    · obtain hd | hd := Bool.or_eq_true_iff.mp hd <;> simp [gaps, eq_of_beq hd]
    · obtain hd | hd := Bool.or_eq_true_iff.mp hd
      · obtain hd | hd := Bool.or_eq_true_iff.mp hd <;> simp [gaps, eq_of_beq hd]
      · simp [gaps, eq_of_beq hd]
  have hlexeme : ∀ w, Stops S w → lexeme (c :: (u ++ w)) = lexeme (c :: u) := by
    intro w hw
    rw [lexeme, lexeme, longestLexeme_congr fun rule hrule => (hlocal rule hrule u w hw).1, hjunk, hjunk]
  obtain ⟨k, n, hread, hk, hpos, hle⟩ :
      ∃ k n, lexeme (c :: u) = (k, n) ∧ k ≠ .string ∧ 0 < n ∧ n ≤ (c :: u).length := by
    cases hlex : longestLexeme (c :: u) with
    | none => exact ⟨.junk, 1, by rw [lexeme, hlex, hjunk]; rfl, by decide, Nat.one_pos, by simp⟩
    | some e =>
      obtain ⟨rule, hrule, hclass, hlen⟩ := exists_of_longestLexeme hlex
      refine ⟨e.1, e.2, by rw [lexeme, hlex]; rfl, fun he => ?_, (hlocal rule hrule u [] nofun).2 _ hlen⟩
      have honly : ∀ rule ∈ lexRules, rule.1 = .string → rule.2 = stringLength := by
        simp [lexRules]
      rw [honly rule hrule (hclass.trans he), hstring] at hlen
      cases hlen
  have htake : ((c :: u).take n).length = n := by rw [length_take, Nat.min_eq_left hle]
  have hne : (c :: u).take n ≠ [] := by
    intro hnil
    rw [hnil] at htake
    exact absurd htake (Nat.ne_of_lt hpos)
  refine ⟨k, n, hk, fun w hw => reads_of_lexeme hne ?_ ?_⟩
  · rw [← append_assoc, take_append_drop, cons_append]
  · rw [hlexeme w hw, hread, htake]

/-! ### Lexemes by their first character -/

theorem longestLexeme_of_mark (hc : c ∈ ['"', '\'', '[', '-', '#']) (cs : List Char) :
    longestLexeme (c :: cs) =
      longerLexeme (longerLexeme (longerLexeme (longerLexeme none .string (stringLength (c :: cs)))
        .comment (commentLength (c :: cs))) .comment (shebangLength (c :: cs)))
        .operator (operatorLength (c :: cs)) := by
  simp only [mem_cons, not_mem_nil, or_false] at hc
  obtain rfl | rfl | rfl | rfl | rfl := hc <;> rfl

theorem lexeme_quote (hq : q = '"' ∨ q = '\'') (cs : List Char) :
    lexeme (q :: cs) = match quotedFrom q 1 cs with
      | .closed n => (.string, n)
      | .spoiled n => (.junk, n + 1) := by
  have hlongest : longestLexeme (q :: cs) = (stringLength (q :: cs)).map (.string, ·) := by
    rw [longestLexeme_of_mark (by obtain rfl | rfl := hq <;> simp)]
    obtain rfl | rfl := hq <;> cases stringLength _ <;> rfl
  have hquoted : quoted? (q :: cs) = some (quotedFrom q 1 cs) := by
    obtain rfl | rfl := hq <;> rfl
  have hlong : longBracketLength (q :: cs) = none := by
    obtain rfl | rfl := hq <;> rfl
  rw [lexeme, hlongest, stringLength, junkLength, hquoted, hlong]
  cases quotedFrom q 1 cs <;> rfl

theorem lexeme_of_longer (ho : ∀ n, o = some n → 1 ≤ n)
    (h : longestLexeme cs = longerLexeme (longerLexeme none k o) .operator (some 1)) :
    lexeme cs = (o.map (k, ·)).getD (.operator, 1) := by
  rw [lexeme, h]
  cases o with
  | none => rfl
  | some n => simp [longerLexeme, Nat.not_lt.mpr (ho n rfl)]

theorem lexeme_bracket (cs : List Char) :
    lexeme ('[' :: cs) = ((longBracketLength ('[' :: cs)).map (.string, ·)).getD (.operator, 1) := by
  refine lexeme_of_longer (fun n hn => ?_) (longestLexeme_of_mark (by simp) cs)
  rw [longBracketLength] at hn
  split at hn
  · obtain ⟨m, -, rfl⟩ := Option.map_eq_some_iff.mp hn
    omega
  · cases hn

theorem lexeme_hyphen (cs : List Char) :
    lexeme ('-' :: cs) = ((commentLength ('-' :: cs)).map (.comment, ·)).getD (.operator, 1) := by
  refine lexeme_of_longer (fun n hn => ?_) (longestLexeme_of_mark (by simp) cs)
  unfold commentLength at hn
  split at hn
  · have := Option.some.inj hn
    omega
  · cases hn

theorem lexeme_hash (cs : List Char) :
    lexeme ('#' :: cs) = ((shebangLength ('#' :: cs)).map (.comment, ·)).getD (.operator, 1) := by
  refine lexeme_of_longer (fun n hn => ?_) (longestLexeme_of_mark (by simp) cs)
  unfold shebangLength at hn
  split at hn
  · have := Option.some.inj hn
    omega
  · cases hn

end WatchFace.Lua
