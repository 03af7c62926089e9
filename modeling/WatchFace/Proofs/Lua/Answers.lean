import WatchFace.Proofs.Lua.Findings
import WatchFace.Proofs.Lua.Grammar
import WatchFace.Proofs.Lua.Masking
import WatchFace.Proofs.Text.Numerals

/-!
# What a check can answer

A parser gets tokens on the lines of a script, and its tree and its errors are on those lines too. So a check answers
with findings on lines that the script has.
-/

namespace WatchFace.Lua

variable {n : Nat} {ts : List Token}

/-! ### Lines from one to `n` -/

/-- A place on one of the lines from one to `n`. -/
def Place.Within (n : Nat) (p : Place) : Prop := 1 ≤ p.line ∧ p.line ≤ n

/-- A text in which the word "line" cannot start. -/
def Lineless (cs : List Char) : Prop := ∀ c ∈ cs, c ≠ 'l' ∧ c ≠ 'L'

instance (cs : List Char) : Decidable (Lineless cs) := List.decidableBAll _ cs

/-- A token on one of those lines; if it is a number it cannot spell out the word "line". -/
structure Token.Within (n : Nat) (t : Token) : Prop where
  place : t.place.Within n
  number : ∀ s, t.kind = .number s → Lineless s.toList

/-- The line that an error names is one of those, and the number that it quotes names none. -/
def SyntaxError.Within (n : Nat) : SyntaxError → Prop
  | .expecting line _ => 1 ≤ line ∧ line ≤ n
  | .malformedNumber text => Lineless text.toList
  | .ambiguous _ _ | .noChunk => True

def Placed (n : Nat) (ss : List Site) : Prop := ∀ s ∈ ss, s.line < n

/-! ### A script and itself -/

/-- The same script twice, on those lines. -/
def View.lines (n : Nat) : View where
  string := id
  line l := 1 ≤ l ∧ l ≤ n
  stuck := false
  fault := SyntaxError.Within n
  ambiguous _ _ := trivial

theorem like_self {x : Token} (hx : x.Within n) : x.Like (.lines n) x where
  kind := by
    cases x.kind with
    | string => exact .string rfl
    | _ => exact .same nofun
  same := rfl
  broken := rfl
  line := hx.place
  expecting _ := hx.place
  number := hx.number

theorem masked_self (hts : ∀ x ∈ ts, x.Within n) : Masked (.lines n) ts ts := by
  induction ts with
  | nil => exact .nil rfl
  | cons x ts ih =>
    obtain ⟨hx, hrest⟩ := List.forall_mem_cons.mp hts
    exact .cons (like_self hx) (ih hrest)

theorem line_lt_of_like (hn : 0 < n) {s s' : Site} (h : s.Like (View.lines n).toLikeness s') : s.line < n := by
  cases h with
  | @call e _ _ _ hc =>
    show (e.line?.getD 0) - 1 < n
    cases hline : e.line? with
    | none => exact hn
    | some l =>
      have hl : l ≤ n := (hc.line? l hline).2
      rw [Option.getD_some]
      omega
  | @definition _ line h =>
    show line - 1 < n
    have hle : line ≤ n := h.2
    omega

theorem placed_of_like (hn : 0 < n) {ss ss' : List Site}
    (h : List.Forall₂ (Site.Like (View.lines n).toLikeness) ss ss') : Placed n ss := by
  induction h with
  | nil => exact fun _ hs => absurd hs List.not_mem_nil
  | cons hs _ ih => exact List.forall_mem_cons.mpr ⟨line_lt_of_like hn hs, ih⟩

/-- **The lines of a parsed script, and of a syntax error, are lines of its tokens**, and all that is opened is
    closed. -/
theorem placed_parseTokens {stop : Place} (hts : ∀ x ∈ ts, x.Within n) (hstop : stop.Within n) :
    match parseTokens ts stop with
    | .ok script => Placed n (blockSites script) ∧ nest [] (movesOf ts) = some []
    | .error e => e.Within n := by
  have hn : 0 < n := Nat.lt_of_lt_of_le hstop.1 hstop.2
  have hparse := mirrors_parseTokens (masked_self hts) (fun _ => hstop) trivial stop
  generalize parseTokens ts stop = result at hparse
  cases result with
  | error e => exact hparse
  | ok script =>
    obtain ⟨-, hnest, _, -, hlike⟩ := hparse
    exact ⟨placed_of_like hn (block_hides hlike), hnest⟩

open Report List Text

variable {code cs u v w : List Char} {c : Char} {engine : Engine}

/-! ### Tokens -/

/-- **A number cannot spell out the word "line".** -/
theorem lineless_of_numberLength (h : numberLength cs = some n) : Lineless (cs.take n) := by
  intro c hc
  have hnumber := isNumberChar_of_numberLength h c hc
  constructor <;> rintro rfl <;> exact absurd hnumber (by decide)

theorem numberLength_of_lexeme (h : lexeme cs = (.number, n)) : numberLength cs = some n := by
  unfold lexeme at h
  cases hlongest : longestLexeme cs with
  | none =>
    rw [hlongest] at h
    cases h
  | some found =>
    rw [hlongest, Option.getD_some] at h
    subst h
    obtain ⟨rule, hmem, hclass, hrule⟩ := exists_of_longestLexeme hlongest
    simp only [lexRules, mem_cons, not_mem_nil, or_false] at hmem
    rcases hmem with rfl | rfl | rfl | rfl | rfl | rfl | rfl | rfl
    case inr.inl => exact hrule
    all_goals cases hclass

theorem lineless_of_kind? {k : LexClass} (hlexeme : lexeme (c :: cs) = (k, n)) {s : String}
    (hkind : k.kind? (c :: cs.take (n - 1)) = some (.number s)) : Lineless s.toList := by
  have hnumber : k = .number ∧ s.toList = c :: cs.take (n - 1) := by
    cases k with
    | number =>
      obtain rfl := Kind.number.inj (Option.some.inj hkind)
      exact ⟨rfl, String.toList_ofList⟩
    | name =>
      simp only [LexClass.kind?, Option.some.injEq] at hkind
      split at hkind <;> cases hkind
    | _ => cases hkind
  obtain ⟨rfl, htext⟩ := hnumber
  have hlength := numberLength_of_lexeme hlexeme
  obtain ⟨m, rfl⟩ : ∃ m, n = m + 1 := by
    have hbounds := (parting_isTagMark.number.numberLength c cs [] nofun).2 n hlength
    exact ⟨n - 1, by omega⟩
  rw [htext]
  exact lineless_of_numberLength hlength

/-- **The tokens of a text, and its end, are on its lines.** -/
theorem tokensFrom_within (p : Place) (broken : Bool) (cs : List Char) (hp : 1 ≤ p.line)
    (hn : p.line + cs.count '\n' ≤ n) :
    (∀ t ∈ (tokensFrom p broken cs).1, t.Within n) ∧ (tokensFrom p broken cs).2.Within n := by
  have hsplit : ∀ (c : Char) (cs : List Char) (m : Nat), (c :: cs).count '\n' =
      (c :: cs.take m).count '\n' + (cs.drop m).count '\n' := by
    intro c cs m
    rw [← count_append, cons_append, take_append_drop]
  -- along the lexemes: the line breaks of a text are those of its first lexeme and those of the rest
  fun_induction tokensFrom p broken cs with
  | case1 p => exact ⟨fun t ht => absurd ht not_mem_nil, hp, hn⟩
  | case2 p broken c cs k m hlexeme text q kind hkind ts stop hrest ih =>
    have hcount : (c :: cs).count '\n' = text.count '\n' + (cs.drop (m - 1)).count '\n' := hsplit c cs (m - 1)
    have hq : q.line = p.line + text.count '\n' := line_after p text
    obtain ⟨hts, hstop⟩ := ih (by omega) (by omega)
    rw [hrest] at hts hstop
    refine ⟨forall_mem_cons.mpr ⟨⟨⟨hp, by show p.line ≤ n; omega⟩, fun s hs => ?_⟩, hts⟩, hstop⟩
    exact lineless_of_kind? hlexeme (hkind.trans (congrArg some hs))
  | case3 p broken c cs k m hlexeme text q hkind ih =>
    have hcount : (c :: cs).count '\n' = text.count '\n' + (cs.drop (m - 1)).count '\n' := hsplit c cs (m - 1)
    have hq : q.line = p.line + text.count '\n' := line_after p text
    exact ih (by omega) (by omega)

theorem length_splitLines (cs : List Char) : (splitLines cs).length = cs.count '\n' + 1 := by
  induction cs using line_induction with
  | last l hl => rw [splitLines_eq_singleton hl, length_singleton, count_eq_zero.mpr hl]
  | line l cs hl ih =>
    rw [splitLines_append_cons hl, length_cons, ih, count_append, count_eq_zero.mpr hl, count_cons_self, Nat.zero_add]

theorem tokenize_within (code : List Char) :
    (∀ t ∈ (tokenize code).1, t.Within (splitLines code).length) ∧ (tokenize code).2.Within (splitLines code).length :=
  tokensFrom_within {} false code (Nat.le_refl 1) (by rw [length_splitLines, Nat.add_comm])

theorem length_splitLines_hide (cs : List Char) : (splitLines (Tag.hide cs)).length = (splitLines cs).length := by
  rw [length_splitLines, length_splitLines, count_hide]

/-! ### Lines in messages -/

def passes : List Char → Bool
  | [] => true
  | [c] => c != 'l' && c != 'L'
  | c :: d :: cs =>
    !((c == 'l' || c == 'L') && (d == 'i' || d == 'I' || d == 'İ' || d == 'ı')) && passes (d :: cs)

theorem lineWord?_eq_none {d : Char}
    (h : ((c == 'l' || c == 'L') && (d == 'i' || d == 'I' || d == 'İ' || d == 'ı')) = false) (cs : List Char) :
    lineWord? (c :: d :: cs) = none := by
  match cs with
  | [] | [_] => rfl
  | _ :: _ :: _ =>
    rw [lineWord?, h]
    rfl

theorem namedLine?_append (h : passes w = true) (cs : List Char) : namedLine? (w ++ cs) = namedLine? cs := by
  -- the word starts at none of the characters, so the search drops them one by one
  fun_induction passes w with
  | case1 => rfl
  | case2 c =>
    have hletter : (c == 'l' || c == 'L') = false := by
      rwa [← Bool.not_eq_true', Bool.not_or]
    have hword : lineWord? (c :: cs) = none := by
      cases cs with
      | nil => rfl
      | cons d cs => exact lineWord?_eq_none (by rw [hletter, Bool.false_and]) cs
    rw [singleton_append, namedLine?, hword]
    rfl
  | case3 c d w ih =>
    rw [Bool.and_eq_true, Bool.not_eq_true'] at h
    rw [cons_append, cons_append, namedLine?, lineWord?_eq_none h.1]
    exact ih h.2

theorem passes_of_lineless (h : Lineless w) : passes w = true := by
  fun_induction passes w with
  | case1 => rfl
  | case2 c =>
    obtain ⟨hl, hL⟩ := h c mem_cons_self
    rw [Bool.and_eq_true, bne_iff_ne, bne_iff_ne]
    exact ⟨hl, hL⟩
  | case3 c d w ih =>
    obtain ⟨⟨hl, hL⟩, hrest⟩ := forall_mem_cons.mp h
    rw [beq_eq_false_iff_ne.mpr hl, beq_eq_false_iff_ne.mpr hL, ih hrest]
    rfl

theorem namedLine?_eq_none (h : passes w = true) : namedLine? w = none := by
  rw [← append_nil w, namedLine?_append h]
  rfl

/-! ### Numbers in messages -/

theorem namedLine?_line (line : Nat) (hc : isDigit c = false) (rest : List Char) :
    namedLine? ("line ".toList ++ (Nat.toDigits 10 line ++ c :: rest)) = some (Nat.toDigits 10 line, c :: rest) := by
  have hall : ∀ d ∈ Nat.toDigits 10 line, isDigit d = true := fun _ => isDigit_of_mem_toDigits
  have hblank : (' ' :: (Nat.toDigits 10 line ++ c :: rest)).dropWhile isBlank =
      Nat.toDigits 10 line ++ c :: rest := by
    cases hdigits : Nat.toDigits 10 line with
    | nil => exact absurd hdigits Nat.toDigits_ne_nil
    | cons d ds =>
      have hd : isBlank d = false := isBlank_of_mem_toDigits (hdigits ▸ mem_cons_self)
      rw [dropWhile_cons_of_pos (by decide), cons_append, dropWhile_cons_of_neg (by simp [hd])]
  have hrun := run?_append (v := c :: rest) Nat.toDigits_ne_nil hall (by rintro d ⟨⟩; exact hc)
  have hword : lineWord? ('l' :: 'i' :: 'n' :: 'e' :: ' ' :: (Nat.toDigits 10 line ++ c :: rest)) =
    some (' ' :: (Nat.toDigits 10 line ++ c :: rest)) := rfl
  show namedLine? ('l' :: 'i' :: 'n' :: 'e' :: ' ' :: (Nat.toDigits 10 line ++ c :: rest)) = _
  simp only [namedLine?, hword, bind, Option.bind_some, hblank, hrun, Option.orElse_some]

theorem toList_expecting (line column : Nat) : (SyntaxError.expecting line column).message.toList =
    "Error: Expecting one of * at ".toList ++
      ("line ".toList ++ (Nat.toDigits 10 line ++ ',' :: (" column ".toList ++ Nat.toDigits 10 column))) := by
  have hstart : "Error: Expecting one of * at line ".toList =
      "Error: Expecting one of * at ".toList ++ "line ".toList := by decide
  unfold SyntaxError.message
  dsimp only
  rw [String.toList_append, String.toList_append, String.toList_append, toList_toString, toList_toString]
  show "Error: Expecting one of * at line ".toList ++ Nat.toDigits 10 line ++ (',' :: " column ".toList) ++
    Nat.toDigits 10 column = _
  rw [hstart, append_assoc, append_assoc, append_assoc, cons_append]

theorem lineless_toDigits (n : Nat) : Lineless (Nat.toDigits 10 n) := by
  intro c hc
  have hdigit := Nat.isDigit_of_mem_toDigits (by decide) (by decide) hc
  constructor <;> rintro rfl <;> exact absurd hdigit (by decide)

theorem Lineless.append (hu : Lineless u) (hv : Lineless v) : Lineless (u ++ v) :=
  forall_mem_append.mpr ⟨hu, hv⟩

theorem messageLine_expecting (line column : Nat) : messageLine (SyntaxError.expecting line column).message.toList =
    (readDigits (Nat.toDigits 10 line)).map (· - 1) := by
  rw [messageLine, toList_expecting, namedLine?_append (by decide), namedLine?_line line rfl]

theorem messageLine_ambiguous (line offset : Nat) :
    messageLine (SyntaxError.ambiguous line offset).message.toList = .ok 0 := by
  have hline : Lineless (SyntaxError.ambiguous line offset).message.toList := by
    unfold SyntaxError.message
    dsimp only
    simp only [String.toList_append, toList_toString]
    refine .append (.append (.append (.append ?_ (lineless_toDigits line)) ?_) (lineless_toDigits offset)) ?_
    all_goals decide
  rw [messageLine, namedLine?_eq_none (passes_of_lineless hline)]

/-- **The message of a syntax error leads to a line of the script.** It can be read if the numbers of the lines can. -/
theorem messageLine_message (hn : 0 < n) {e : SyntaxError} (he : e.Within n) :
    (∀ line, messageLine e.message.toList = .ok line → line < n) ∧
      (n < 10 ^ digitLimit → ∃ line, messageLine e.message.toList = .ok line) := by
  have hfirst : messageLine e.message.toList = .ok 0 → (∀ line, messageLine e.message.toList = .ok line → line < n) ∧
      (n < 10 ^ digitLimit → ∃ line, messageLine e.message.toList = .ok line) := by
    intro h
    rw [h]
    exact ⟨fun line hline => Except.ok.inj hline ▸ hn, fun _ => ⟨0, rfl⟩⟩
  cases e with
  | expecting line column =>
    obtain ⟨hpos, hle⟩ := he
    rw [messageLine_expecting]
    refine ⟨fun l hl => ?_, fun hsize => ⟨line - 1, ?_⟩⟩
    · rw [readDigits, decimalValue_toDigits] at hl
      split at hl
      · cases hl
        show line - 1 < n
        omega
      · cases hl
    · rw [readDigits_toDigits (Nat.lt_of_le_of_lt hle hsize)]
      rfl
  | ambiguous line offset => exact hfirst (messageLine_ambiguous line offset)
  | noChunk => exact hfirst (by rw [messageLine, namedLine?_eq_none (by decide)])
  | malformedNumber text =>
    -- the text is that of a number, and cannot spell out the word
    have htext : (SyntaxError.malformedNumber text).message.toList =
        "could not convert string to float: '".toList ++ (text.toList ++ ['\'']) := by
      unfold SyntaxError.message
      dsimp only
      rw [String.toList_append, String.toList_append, append_assoc]
      rfl
    have hquoted : Lineless (text.toList ++ ['\'']) := he.append (by decide)
    refine hfirst ?_
    rw [messageLine, htext, namedLine?_append (by decide), namedLine?_eq_none (passes_of_lineless hquoted)]

/-! ### Engines -/

/-- The lines that an engine speaks of are lines of the script. -/
structure Engine.Honest (engine : Engine) (code : List Char) : Prop where
  script : ∀ s, engine.parse code = .script s → Placed (splitLines code).length (blockSites s)
  rejected : ∀ message printed, engine.parse code = .rejected message printed →
    (∀ ds, ofOutput printed.toList code = .ok ds → ∀ d ∈ ds, d.line < (splitLines code).length) ∧
      ∀ d, ofMessage message.toList code = .ok d → d.line < (splitLines code).length
  fault : ∀ message, engine.parse code = .fault message →
    ∀ d, ofFault message.toList = .ok d → d.line < (splitLines code).length

/-- An engine gives up with one message, which can be read, and the analysis does not fail. -/
structure Engine.Clear (engine : Engine) (code : List Char) : Prop where
  rejected : ∀ message printed, engine.parse code = .rejected message printed →
    ofOutput printed.toList code = .ok [] ∧ ∃ d, ofMessage message.toList code = .ok d
  fault : ∀ message, engine.parse code = .fault message → ∃ d, ofFault message.toList = .ok d
  analysis : engine.analysisFault = none

theorem splitLines_pos (code : List Char) : 0 < (splitLines code).length :=
  length_pos_of_ne_nil (splitLines_ne_nil code)

theorem placed_parse (code : List Char) : match parse code with
    | .ok script => Placed (splitLines code).length (blockSites script) ∧
        nest [] (movesOf (tokenize code).1) = some []
    | .error e => e.Within (splitLines code).length := by
  obtain ⟨hts, hstop⟩ := tokenize_within code
  exact placed_parseTokens hts hstop

theorem parse_standard (code : List Char) :
    (∃ script, parse code = .ok script ∧ Engine.standard.parse code = .script script) ∨
      ∃ e, parse code = .error e ∧ Engine.standard.parse code = .fault e.message := by
  cases h : parse code with
  | ok script => exact .inl ⟨script, rfl, by simp only [Engine.standard, h]⟩
  | error e => exact .inr ⟨e, rfl, by simp only [Engine.standard, h]⟩

theorem honest_standard (code : List Char) : Engine.standard.Honest code := by
  have hparse := placed_parse code
  obtain ⟨script, h, hverdict⟩ | ⟨e, h, hverdict⟩ := parse_standard code <;> rw [h] at hparse <;> constructor <;>
    rw [hverdict]
  case inl.script =>
    rintro s ⟨⟩
    exact hparse.1
  case inr.fault =>
    rintro m ⟨⟩ d hd
    exact (messageLine_message (splitLines_pos code) hparse).1 _ (sound_ofFault hd).2
  case inl.rejected | inr.rejected => rintro m p ⟨⟩
  case inl.fault => rintro m ⟨⟩
  case inr.script => rintro s ⟨⟩

theorem clear_standard (hsize : (splitLines code).length < 10 ^ digitLimit) : Engine.standard.Clear code := by
  have hparse := placed_parse code
  obtain ⟨script, h, hverdict⟩ | ⟨e, h, hverdict⟩ := parse_standard code <;> rw [h] at hparse <;> constructor <;>
    try rw [hverdict]
  case inr.fault =>
    rintro m ⟨⟩
    obtain ⟨line, hline⟩ := (messageLine_message (splitLines_pos code) hparse).2 hsize
    rw [ofFault_eq, hline]
    exact ⟨_, rfl⟩
  case inl.analysis | inr.analysis => rfl
  case inl.rejected | inr.rejected => rintro m p ⟨⟩
  case inl.fault => rintro m ⟨⟩

/-! ### Examinations -/

/-- One syntax error, or only warnings about the functions of the watch. -/
def Separate (ds : List Diagnostic) : Prop :=
  (∃ d, ds = [d] ∧ d.severity = .error ∧ d.rule = .grammar) ∨ ∀ d ∈ ds, d.severity = .warning ∧ d.rule ∈ watchRules

theorem Separate.reveal {ds : List Diagnostic} (h : Separate ds) : Separate (ds.map Diagnostic.reveal) := by
  obtain ⟨d, rfl, hd⟩ | h := h
  · exact .inl ⟨d.reveal, rfl, hd⟩
  · refine .inr fun d hd => ?_
    obtain ⟨e, he, rfl⟩ := mem_map.mp hd
    exact h e he

theorem lines_afterFailure (reason : String) (code : List Char) :
    ∀ d ∈ afterFailure reason code, d.line < (splitLines code).length :=
  forall_mem_cons.mpr ⟨splitLines_pos code, fun d hd => (Outline.sound_check code d hd).line⟩

theorem lines_examineHidden (v : Vocabulary) (h : engine.Honest code) :
    ∀ d ∈ (examineHidden v engine code).findings, d.line < (splitLines code).length := by
  unfold examineHidden
  cases hverdict : engine.parse code with
  | script s =>
    cases engine.analysisFault with
    | some reason => exact lines_afterFailure reason code
    | none =>
      intro d hd
      obtain ⟨site, hsite, hsound⟩ := sound_lint hd
      rw [hsound.line]
      exact h.script s hverdict site hsite
  | rejected message printed =>
    -- what was printed counts, and the message only where nothing was
    obtain ⟨hreports, hmessage⟩ := h.rejected message printed hverdict
    cases hprinted : ofOutput printed.toList code with
    | error e =>
      simp only [hprinted]
      exact lines_afterFailure e.message code
    | ok ds =>
      cases ds with
      | cons d ds =>
        simp only [hprinted]
        exact hreports _ hprinted
      | nil =>
        cases hread : ofMessage message.toList code with
        | error e =>
          simp only [hprinted, hread]
          exact lines_afterFailure e.message code
        | ok d =>
          simp only [hprinted, hread]
          exact forall_mem_singleton.mpr (hmessage d hread)
  | fault message =>
    dsimp only
    cases hread : ofFault message.toList with
    | error e => exact lines_afterFailure e.message code
    | ok d => exact forall_mem_singleton.mpr (h.fault message hverdict d hread)

theorem separate_examineHidden (v : Vocabulary) (h : engine.Clear code) :
    Separate (examineHidden v engine code).findings := by
  unfold examineHidden
  cases hverdict : engine.parse code with
  | script s =>
    simp only [h.analysis]
    refine .inr fun d hd => ?_
    obtain ⟨site, hsite, hsound⟩ := sound_lint hd
    exact ⟨hsound.severity, hsound.rule⟩
  | rejected message printed =>
    obtain ⟨hprinted, d, hd⟩ := h.rejected message printed hverdict
    have hsound := (sound_ofMessage hd).1
    simp only [hprinted, hd]
    exact .inl ⟨d, rfl, hsound.severity, hsound.rule⟩
  | fault message =>
    obtain ⟨d, hd⟩ := h.fault message hverdict
    have hsound := (sound_ofFault hd).1
    simp only [hd]
    exact .inl ⟨d, rfl, hsound.severity, hsound.rule⟩

theorem lines_examine (v : Vocabulary) {engine : Option Engine} (h : ∀ e ∈ engine, e.Honest (Tag.hide code)) :
    ∀ d ∈ (examine v engine code).findings, d.line < (splitLines code).length := by
  intro d hd
  obtain ⟨e, he, rfl⟩ := mem_map.mp hd
  rw [← length_splitLines_hide]
  cases engine with
  | none => exact (Outline.sound_check _ e he).line
  | some engine => exact lines_examineHidden v (h engine rfl) e he

end WatchFace.Lua
