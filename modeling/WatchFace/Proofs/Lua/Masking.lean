import WatchFace.Proofs.Lua.Mirroring
import WatchFace.Proofs.Lua.Reading

/-!
# The tokens of a script with hidden tags

Where there is a tag, a script has a brace, a few words and a brace, and the script with its tags hidden a string.
-/

namespace WatchFace.Lua

open Tag List

variable {p p' : Place} {k : LexClass} {cs name text : List Char} {c : Char}

/-- No tag stands between double quotes or in what cannot be read. -/
def isSheltered : List Char → Bool
  | [] => true
  | c :: cs =>
    let (k, n) := lexeme (c :: cs)
    (!exposes k (c :: cs.take (n - 1)) || (List.range n).all fun i => (tagAt? ((c :: cs).drop i)).isNone) &&
      isSheltered (cs.drop (n - 1))
termination_by cs => cs.length
decreasing_by simp only [length_drop, length_cons]; omega

/-! ### From lexeme to lexeme -/

section

variable {k : LexClass} {cs text rest : List Char} {p : Place} {broken : Bool}

theorem exists_of_reads (h : Reads cs k text rest) : ∃ c ds n, cs = c :: ds ∧ lexeme (c :: ds) = (k, n + 1) ∧
    c :: ds.take n = text ∧ ds.drop n = rest := by
  obtain ⟨hne, hsplit, n, hlexeme, htake⟩ := h
  cases n with
  | zero => exact absurd htake.symm hne
  | succ n =>
    cases cs with
    | nil => exact absurd htake.symm hne
    | cons c ds =>
      refine ⟨c, ds, n, rfl, hlexeme, htake, ?_⟩
      have hall := take_append_drop (n + 1) (c :: ds)
      rw [htake] at hall
      exact append_cancel_left (hall.trans hsplit)

theorem tokensFrom_some {kind : Kind} (h : Reads cs k text rest) (hkind : k.kind? text = some kind) :
    (tokensFrom p broken cs).1 = ⟨kind, p, broken⟩ :: (tokensFrom (p.after text) false rest).1 := by
  obtain ⟨c, cs, n, rfl, hlexeme, htake, hdrop⟩ := exists_of_reads h
  rw [tokensFrom]
  simp only [hlexeme, Nat.add_sub_cancel, htake, hdrop, hkind]

theorem tokensFrom_none (h : Reads cs k text rest) (hkind : k.kind? text = none) :
    (tokensFrom p broken cs).1 = (tokensFrom (p.after text) (broken || k == .lineBreak) rest).1 := by
  obtain ⟨c, cs, n, rfl, hlexeme, htake, hdrop⟩ := exists_of_reads h
  rw [tokensFrom]
  simp only [hlexeme, Nat.add_sub_cancel, htake, hdrop, hkind]

theorem isSheltered_of_reads (h : Reads cs k text rest) (hcs : isSheltered cs = true) :
    (exposes k text = true → Bare text.length cs) ∧ isSheltered rest = true := by
  obtain ⟨c, cs, n, rfl, hlexeme, htake, hdrop⟩ := exists_of_reads h
  rw [isSheltered] at hcs
  simp only [hlexeme, Nat.add_sub_cancel, htake, hdrop, Bool.and_eq_true, Bool.or_eq_true, Bool.not_eq_true'] at hcs
  refine ⟨fun hexposes i hi => ?_, hcs.2⟩
  have hall := hcs.1.resolve_left (by rw [hexposes]; exact nofun)
  have hlength : text.length ≤ n + 1 := by
    rw [← htake, length_cons, length_take]
    omega
  exact Option.isNone_iff_eq_none.mp (all_eq_true.mp hall i (mem_range.mpr (by omega)))

end

/-! ### Places -/

theorem line_after (p : Place) (cs : List Char) : (p.after cs).line = p.line + cs.count '\n' := by
  induction cs generalizing p with
  | nil => rfl
  | cons c cs ih =>
    rw [Place.after, foldl_cons, ← Place.after, ih, count_cons, Place.next]
    split
    case isTrue hc => simp [hc]; omega
    case isFalse hc => simp [hc]

theorem count_hide (cs : List Char) : (hide cs).count '\n' = cs.count '\n' := by
  have hneutral : Neutral fun c => '\n' ≠ c :=
    ⟨by decide, by decide, by decide, fun c hc => (ne_of_isTagChar hc rfl).symm⟩
  induction cs using hide_induction with
  | nil => rfl
  | tag name rest hname ih =>
    rw [hide_tag hname, count_append, count_append, ih,
      count_eq_zero.mpr fun hmem => hneutral.placeholder hname _ hmem rfl,
      count_eq_zero.mpr fun hmem => hneutral.tag hname _ hmem rfl]
  | cons c cs htag ih => rw [hide_cons htag, count_cons, count_cons, ih]

theorem line_after_hide (h : p'.line = p.line) (cs : List Char) : (p'.after (hide cs)).line = (p.after cs).line := by
  rw [line_after, line_after, count_hide, h]

/-! ### Tokens of one lexeme -/

theorem Faithful.kind? (h : Faithful k text) :
    Option.Rel (Kind.Like .hidden) (k.kind? text) (k.kind? (hide text)) := by
  cases k with
  | name =>
    rw [h.plain (by decide)]
    refine .some (.same fun s => ?_)
    split <;> exact nofun
  | number | operator =>
    rw [h.plain (by decide)]
    exact .some (.same nofun)
  | string =>
    refine .some (.string ?_)
    rw [String.toList_ofList, String.toList_ofList, h.value rfl]
    exact congrArg (fun cs => String.ofList (hide cs)) String.toList_ofList.symm
  | comment | space | lineBreak | junk => exact .none

theorem reads_opening (cs : List Char) : Reads ('\x7b' :: cs) .operator ['\x7b'] cs :=
  reads_of_lexeme nofun rfl rfl

theorem reads_closing (cs : List Char) : Reads ('\x7d' :: cs) .operator ['\x7d'] cs :=
  reads_of_lexeme nofun rfl rfl

theorem reads_placeholder (h : IsName name) (rest : List Char) :
    Reads (placeholder name ++ rest) .string (placeholder name) rest := by
  have hbody : Body '"' (bare name ++ []) := by
    refine Body.append (fun c hc => ?_) .nil
    have htag := isTagChar_bare h c hc
    exact ⟨ne_of_isTagChar htag rfl, beq_eq_false_iff_ne.mpr (ne_of_isTagChar htag rfl), neutral_inLine.name c htag⟩
  rw [append_nil] at hbody
  exact reads_quote (.inl rfl) hbody rest

/-! ### The words of a tag -/

theorem stringLength_eq_none (hdouble : c ≠ '"') (hsingle : c ≠ '\'') (hbracket : c ≠ '[') (cs : List Char) :
    stringLength (c :: cs) = none := by
  simp [stringLength, quoted?, hdouble, hsingle, longBracketLength, hbracket]

theorem longestLexeme_of_isTagChar (hc : isTagChar c = true) (cs : List Char) : longestLexeme (c :: cs) =
      longerLexeme (longerLexeme none .name (nameLength (c :: cs))) .number (numberLength (c :: cs)) := by
  have hne : ∀ {d : Char}, isTagChar d = false → c ≠ d := ne_of_isTagChar hc
  have hstring : stringLength (c :: cs) = none := stringLength_eq_none (hne rfl) (hne rfl) (hne rfl) cs
  have hcomment : commentLength (c :: cs) = none := by
    have hhyphen : c ≠ '-' := hne rfl
    simp [commentLength, hhyphen]
  have hshebang : shebangLength (c :: cs) = none := by
    have hhash : c ≠ '#' := hne rfl
    simp [shebangLength, hhash]
  have hspace : runLength (fun c => c == ' ' || c == '\t') (c :: cs) = none := by
    have hblank : c ≠ ' ' := hne rfl
    have htab : c ≠ '\t' := hne rfl
    simp [runLength, spanLength, hblank, htab]
  have hbreak : runLength (fun c => c == '\r' || c == '\n' || c == '\x0c') (c :: cs) = none := by
    have hreturn : c ≠ '\r' := hne rfl
    have hfeed : c ≠ '\n' := hne rfl
    have hpage : c ≠ '\x0c' := hne rfl
    simp [runLength, spanLength, hreturn, hfeed, hpage]
  have hoperator : operatorLength (c :: cs) = none := operatorLength_eq_none (by decide) hc cs
  simp only [longestLexeme, lexRules, foldl_cons, foldl_nil, hstring, hcomment, hshebang, hspace, hbreak, hoperator]
  rfl

theorem isNameChar_eq (c : Char) : isNameChar c = isTagChar c := by
  unfold isNameChar isNameStart isDecimal isTagChar
  ac_rfl

theorem numberLength_of_isNameStart (hc : isNameStart c = true) (cs : List Char) : numberLength (c :: cs) = none := by
  have hne : ∀ {d : Char}, isNameStart d = false → c ≠ d := by
    rintro d hd rfl
    rw [hc] at hd
    cases hd
  have hdigit : isDecimal c = false := by
    rw [isNameStart, Bool.or_eq_true, beq_iff_eq] at hc
    obtain hletter | rfl := hc
    · simp only [isDecimal, Char.le_def, UInt32.le_iff_toNat_le, Char.reduceVal, UInt32.reduceToNat, Char.toNat_val,
        Bool.or_eq_true, Bool.and_eq_true, decide_eq_true_eq, Bool.and_eq_false_imp, decide_eq_false_iff_not,
        Nat.not_le] at hletter ⊢
      omega
    · rfl
  have hzero : c ≠ '0' := hne rfl
  have hpoint : c ≠ '.' := hne rfl
  simp [numberLength, hexLength, hzero, scaledLength, spanLength, hdigit, pointedLength, hpoint, longer]

theorem isSome_numberLength (hc : isDecimal c = true) (cs : List Char) : (numberLength (c :: cs)).isSome := by
  have hscaled : ∃ n, scaledLength isDecimal ['e', 'E'] (c :: cs) = some n := by
    simp [scaledLength, spanLength, hc]
  obtain ⟨n, hn⟩ := hscaled
  rw [numberLength, hn]
  cases hexLength (c :: cs) <;> cases pointedLength (c :: cs) <;> rfl

theorem reads_word (h : IsName name) (rest : List Char) :
    ∃ k text word, name = text ++ word ∧ Reads (name ++ '\x7d' :: rest) k text (word ++ '\x7d' :: rest) ∧
      (k = .name ∧ word = [] ∨ k = .number) := by
  obtain ⟨hne, hchars⟩ := h
  cases name with
  | nil => exact absurd rfl hne
  | cons c u =>
    have hc : isTagChar c = true := hchars c mem_cons_self
    have hlongest := longestLexeme_of_isTagChar hc (u ++ '\x7d' :: rest)
    cases hstart : isNameStart c with
    | true =>
      -- a name reaches up to the closing brace
      have hname : nameLength (c :: (u ++ '\x7d' :: rest)) = some (1 + u.length) := by
        have hu : ∀ d ∈ u, isNameChar d = true := fun d hd => by
          rw [isNameChar_eq]
          exact hchars d (.tail _ hd)
        rw [nameLength, hstart, spanLength, takeWhile_append_of_pos hu]
        simp [isNameChar, isNameStart, isDecimal]
      rw [hname, numberLength_of_isNameStart hstart] at hlongest
      refine ⟨.name, c :: u, [], by simp, reads_of_lexeme (cons_ne_nil c u) rfl ?_, .inl ⟨rfl, rfl⟩⟩
      rw [cons_append, lexeme, hlongest, length_cons, Nat.add_comm]
      rfl
    | false =>
      -- a number may end before it
      have hdigit : isDecimal c = true := by
        rw [← isNameChar_eq, isNameChar, hstart] at hc
        exact hc
      obtain ⟨n, hn⟩ := Option.isSome_iff_exists.mp (isSome_numberLength hdigit u)
      have hends : Ends (· == '\x7d') isNumberChar := fun d hd => eq_of_beq hd ▸ rfl
      obtain ⟨hlocal, hbounds⟩ := hends.numberLength c u ('\x7d' :: rest) fun d hd => Option.some.inj hd ▸ rfl
      have hname : nameLength (c :: (u ++ '\x7d' :: rest)) = none := by
        rw [nameLength, hstart]
        rfl
      rw [hname, hlocal, hn] at hlongest
      obtain ⟨hpos, hle⟩ := hbounds n hn
      have hlength : ((c :: u).take n).length = n := by rw [length_take, Nat.min_eq_left hle]
      refine ⟨.number, (c :: u).take n, (c :: u).drop n, (take_append_drop n _).symm,
        reads_of_lexeme ?_ ?_ ?_, .inr rfl⟩
      · intro hnil
        rw [hnil] at hlength
        exact absurd hlength (Nat.ne_of_lt hpos)
      · rw [← append_assoc, take_append_drop]
      · rw [cons_append, lexeme, hlongest, hlength]
        rfl

/-! ### Tags -/

theorem kind?_word (hk : k = .name ∨ k = .number) (text : List Char) :
    ∃ kind, k.kind? text = some kind ∧ ((∃ n, kind = .name n) ∨ (∃ s, kind = .number s) ∨
      k = .name ∧ ∃ w, kind = .keyword w) := by
  obtain rfl | rfl := hk
  · refine ⟨_, rfl, ?_⟩
    split
    · exact .inr (.inr ⟨rfl, _, rfl⟩)
    · exact .inl ⟨_, rfl⟩
  · exact ⟨_, rfl, .inr (.inl ⟨_, rfl⟩)⟩

/-- **A tag is a table with one item, or there is no table at its brace.** -/
theorem tokensFrom_tag (hname : IsName name) (rest : List Char) (p : Place) (broken : Bool) :
    (∃ o x close, (tokensFrom p broken (tag name ++ rest)).1 =
        o :: x :: close :: (tokensFrom (p.after (tag name)) false rest).1 ∧
      o.kind = .operator "\x7b" ∧ (x.kind.item? x.place.line).isSome ∧ close.kind = .operator "\x7d" ∧
      (isSheltered (tag name ++ rest) = true → isSheltered rest = true)) ∨
    Dead (tokensFrom p broken (tag name ++ rest)).1 := by
  obtain ⟨k, text, word, hsplit, hreads, hk⟩ := reads_word hname rest
  have hopening := reads_opening (name ++ '\x7d' :: rest)
  obtain ⟨kind, hkind, hcases⟩ := kind?_word (hk.imp And.left id) text
  rw [show tag name ++ rest = '\x7b' :: (name ++ '\x7d' :: rest) by simp [tag], tokensFrom_some hopening rfl,
    tokensFrom_some hreads hkind]
  by_cases hword : word = []
  · subst hword
    rw [append_nil] at hsplit
    subst hsplit
    have hclosing := reads_closing rest
    rw [nil_append, tokensFrom_some hclosing rfl]
    cases hitem : kind.item? (p.after ['\x7b']).line with
    | some e =>
      have hplace : ((p.after ['\x7b']).after name).after ['\x7d'] = p.after (tag name) := by
        simp [Place.after, tag]
      refine .inl ⟨_, _, _, by rw [hplace], rfl, by rw [hitem]; rfl, rfl, fun hsheltered => ?_⟩
      have hinner := (isSheltered_of_reads hopening hsheltered).2
      exact (isSheltered_of_reads hclosing (isSheltered_of_reads hreads hinner).2).2
    | none =>
      obtain ⟨n, rfl⟩ | ⟨s, rfl⟩ | ⟨-, w, rfl⟩ := hcases
      · cases hitem
      · exact .inr (dead_of_malformed rfl rfl hitem rfl)
      · refine .inr (dead_of_keyword rfl rfl (Bool.eq_false_iff.mpr fun hw => ?_) rfl)
        rw [Kind.item?, if_pos hw] at hitem
        cases hitem
  -- a number with another word behind it
  · obtain ⟨-, hnil⟩ | rfl := hk
    · exact absurd hnil hword
    have hrest : IsName word := ⟨hword, fun c hc => hname.2 c (by rw [hsplit]; exact mem_append_right _ hc)⟩
    obtain ⟨k', text', word', -, hreads', hk'⟩ := reads_word hrest rest
    obtain ⟨kind', hkind', hcases'⟩ := kind?_word (hk'.imp And.left id) text'
    rw [tokensFrom_some hreads' hkind']
    cases hkind
    refine .inr (dead_of_number rfl rfl ?_ ?_)
    · intro s' hoperator
      obtain ⟨n, rfl⟩ | ⟨s, rfl⟩ | ⟨-, w, rfl⟩ := hcases' <;> cases hoperator
    · intro w hw
      obtain ⟨n, rfl⟩ | ⟨s, rfl⟩ | ⟨rfl, -⟩ := hcases'
      · cases hw
      · cases hw
      · obtain ⟨-, rfl⟩ | hnumber := hk'
        · rw [nil_append, tokensFrom_some (reads_closing rest) rfl]
          rfl
        · cases hnumber

/-! ### Whole scripts -/

/-- **The tokens of a sheltered script, and of the script with its tags hidden**, up to the first tag that is no
    table. -/
theorem exists_masked (hsheltered : isSheltered cs = true) (hline : p'.line = p.line) (broken : Bool) :
    ∃ stuck ts', Masked (.hiding stuck) (tokensFrom p broken cs).1 ts' ∧
      (stuck = false → ts' = (tokensFrom p' broken (hide cs)).1) := by
  -- by the length of what is left: a tag is three tokens on one side and one on the other
  induction hn : cs.length using Nat.strongRecOn generalizing cs p p' broken with
  | _ n ih =>
    cases htag : tagAt? cs with
    | some name =>
      obtain ⟨hname, rest, rfl⟩ := tagAt?_eq_some_iff.mp htag
      obtain ⟨o, x, close, htokens, ho, hx, hclose, hrest⟩ | hdead := tokensFrom_tag hname rest p broken
      · have hlength : rest.length < n := by
          rw [← hn, length_append]
          simp [tag]
        have hline' : (p'.after (placeholder name)).line = (p.after (tag name)).line := by
          have hhide := hide_tag hname []
          rw [show hide [] = [] from rfl, append_nil, append_nil] at hhide
          rw [← hhide]
          exact line_after_hide hline (tag name)
        obtain ⟨stuck, ts', hmasked, hstuck⟩ := ih _ hlength (hrest hsheltered) hline' false rfl
        rw [htokens, hide_tag hname, tokensFrom_some (reads_placeholder hname _) rfl]
        refine ⟨stuck, ⟨.string (String.ofList (placeholder name)), p', broken⟩ :: ts',
          .tag (fun _ => trivial) ho hx hclose hname rfl hmasked, fun h => ?_⟩
        rw [hstuck h]
      · exact ⟨true, [⟨.eof, p, false⟩], .dead rfl (fun _ => trivial) hdead rfl, fun h => by cases h⟩
    | none =>
      cases cs with
      | nil =>
        rw [show hide [] = [] from rfl, tokensFrom, tokensFrom]
        exact ⟨false, [], .nil rfl, fun _ => rfl⟩
      | cons c cs =>
        obtain ⟨k, text, rest, hreads, hfaithful, hhidden⟩ := kept_of_tagAt? htag
        obtain ⟨hexposes, hrest⟩ := isSheltered_of_reads hreads hsheltered
        have hhidden := hhidden hexposes
        have hlength : rest.length < n := by
          rw [← hn, hreads.split, length_append]
          have := length_pos_iff.mpr hreads.ne_nil
          omega
        have hline' := line_after_hide hline text
        have hkinds := hfaithful.kind?
        generalize hkind : k.kind? text = kind, hkind' : k.kind? (hide text) = kind' at hkinds
        cases hkinds with
        | none =>
          rw [tokensFrom_none hreads hkind, tokensFrom_none hhidden hkind']
          exact ih _ hlength hrest hline' _ rfl
        | @some kind kind' hkinds =>
          rw [tokensFrom_some hreads hkind, tokensFrom_some hhidden hkind']
          obtain ⟨stuck, ts', hmasked, hstuck⟩ := ih _ hlength hrest hline' false rfl
          refine ⟨stuck, ⟨kind', p', broken⟩ :: ts', .cons ⟨hkinds, hline, rfl, trivial, fun _ => trivial, fun _ _ => trivial⟩ hmasked,
            fun h => ?_⟩
          rw [hstuck h]

end WatchFace.Lua
