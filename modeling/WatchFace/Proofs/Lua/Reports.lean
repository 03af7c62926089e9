import Mathlib.Data.List.TakeWhile
import Mathlib.Order.Bounds.Defs
import WatchFace.Proofs.Lua.Findings
import WatchFace.Proofs.Text.Numerals
import WatchFace.Proofs.Text.Searching

/-!
# The reports of a parser

Reports are found again in a printed text, as long as no message looks like the start of a report. Their tokens are
looked for from the line of the report upwards.
-/

namespace WatchFace.Lua.Report

open Text List

variable {i n start : Nat} {code line output : List Char}

/-! ### From a line upwards -/

def Holds (text : List Char) (lines : List (List Char)) (i : Nat) : Prop :=
  ∃ line, lines[i]? = some line ∧ text <:+: line

variable {text : List Char} {lines : List (List Char)}

theorem holds_iff : Holds text lines i ↔ ((lines[i]?).bind (findSub? text)).isSome := by
  unfold Holds
  cases lines[i]? with
  | none => simp
  | some line => simp [isSome_findSub?_iff]

theorem isSome_lastLineWith? (hi : i < n) (h : Holds text lines i) : (lastLineWith? text lines n).isSome := by
  induction n with
  | zero => cases hi
  | succ n ih =>
    rw [lastLineWith?]
    split
    · rfl
    case h_2 hnone =>
      refine ih (Nat.lt_of_le_of_ne (Nat.le_of_lt_succ hi) ?_)
      rintro rfl
      rw [holds_iff, hnone] at h
      cases h

theorem of_lastLineWith? {column : Nat} (h : lastLineWith? text lines n = some (i, column)) :
    IsGreatest {j | j < n ∧ Holds text lines j} i ∧ ∃ line, lines[i]? = some line ∧ FirstAt text line column := by
  induction n with
  | zero => cases h
  | succ n ih =>
    rw [lastLineWith?] at h
    split at h
    case h_1 c hfound =>
      obtain ⟨rfl, rfl⟩ := Prod.mk.inj (Option.some.inj h)
      obtain ⟨line, hline, hcolumn⟩ := Option.bind_eq_some_iff.mp hfound
      have hholds : Holds text lines n := holds_iff.mpr (by rw [hfound]; rfl)
      exact ⟨⟨⟨Nat.lt_succ_self n, hholds⟩, fun j hj => Nat.le_of_lt_succ hj.1⟩, line, hline,
        (of_findSub? hcolumn).1⟩
    case h_2 hnone =>
      obtain ⟨⟨hi, hgreatest⟩, hline⟩ := ih h
      refine ⟨⟨⟨Nat.lt_succ_of_lt hi.1, hi.2⟩, fun j hj => hgreatest ⟨?_, hj.2⟩⟩, hline⟩
      refine Nat.lt_of_le_of_ne (Nat.le_of_lt_succ hj.1) ?_
      rintro rfl
      have hholds := hj.2
      rw [holds_iff, hnone] at hholds
      cases hholds

/-! ### Offsets -/

theorem lineStart_cons (line : List Char) (lines : List (List Char)) (i : Nat) :
    lineStart (line :: lines) (i + 1) = line.length + 1 + lineStart lines i := by
  have hshift : ∀ (ls : List (List Char)) (a : Nat), ls.foldl (fun n l => n + (l.length + 1)) a =
      a + ls.foldl (fun n l => n + (l.length + 1)) 0 := by
    intro ls
    induction ls with
    | nil => exact fun a => rfl
    | cons l ls ih =>
      intro a
      rw [foldl_cons, foldl_cons, ih, ih (0 + _)]
      omega
  rw [lineStart, take_succ_cons, foldl_cons, hshift, Nat.zero_add]
  rfl

theorem prefix_drop_lineStart (h : lines[i]? = some line) : line <+: (joinLines lines).drop (lineStart lines i) := by
  induction lines generalizing i with
  | nil => cases h
  | cons l ls ih =>
    by_cases hne : ls = []
    · subst hne
      obtain ⟨rfl, rfl⟩ : 0 = i ∧ l = line := by simpa [getElem?_singleton, eq_comm] using h
      exact prefix_rfl
    · rw [joinLines_cons hne]
      cases i with
      | zero =>
        obtain rfl := Option.some.inj h
        exact prefix_append l _
      | succ i =>
        rw [lineStart_cons, ← drop_drop, ← drop_drop, drop_left]
        exact ih h

/-! ### Reports and findings -/

def Raw.token (r : Raw) : List Char := (token? (flatMessage r.message)).getD []

def Raw.finding (code : List Char) (r : Raw) : Diagnostic :=
  (r.placed (splitLines code)).diagnostic (splitLines code)

def Shows (code : List Char) (start : Nat) (token : List Char) : Prop := (code.drop start).take token.length = token

theorem shows_iff {token : List Char} : Shows code start token ↔ token <+: code.drop start := by
  rw [Shows, prefix_iff_eq_take, eq_comm]

/-- The finding is where the token of the report stands last, up to the reported line, at its first column there, and
    spans the token. -/
structure Pinned (code : List Char) (r : Raw) (d : Diagnostic) : Prop where
  line :
    IsGreatest {i | i < min (decimalValue r.line) (splitLines code).length ∧ Holds r.token (splitLines code) i} d.line
  column : ∃ line, (splitLines code)[d.line]? = some line ∧ FirstAt r.token line d.column
  span : ∃ start, d.span = some ⟨start, r.token.length⟩ ∧ start = lineStart (splitLines code) d.line + d.column ∧
    Shows code start r.token

theorem pinned_finding {r : Raw} (htoken : r.token ≠ []) (hi : i < decimalValue r.line)
    (hholds : Holds r.token (splitLines code) i) : Pinned code r (r.finding code) := by
  have hlength : i < (splitLines code).length := by
    obtain ⟨line, hline, -⟩ := hholds
    exact (List.getElem?_eq_some_iff.mp hline).1
  obtain ⟨⟨l, c⟩, hfound⟩ := Option.isSome_iff_exists.mp (isSome_lastLineWith? (Nat.lt_min.mpr ⟨hi, hlength⟩) hholds)
  obtain ⟨hgreatest, line, hline, hcolumn⟩ := of_lastLineWith? hfound
  have hplaced : r.placed (splitLines code) = ⟨l, c, cleanMessage (flatMessage r.message), r.token⟩ := by
    have hne : r.token.isEmpty = false := by simpa using htoken
    unfold Raw.placed Report.locate
    dsimp only
    rw [← Raw.token, hne, if_neg Bool.false_ne_true, hfound]
  rw [Raw.finding, hplaced]
  refine ⟨hgreatest, ⟨line, hline, hcolumn⟩, _, ?_, rfl, shows_iff.mpr ?_⟩
  · rw [Located.diagnostic, Nat.max_eq_right (length_pos_of_ne_nil htoken)]
  · have hpre := hcolumn.1.trans ((prefix_drop_lineStart hline).drop c)
    rwa [joinLines_splitLines, drop_drop] at hpre

theorem exists_of_distinct (rs : List Raw) (seen : List (Int × List Char)) :
    ∃ kept : List Raw, kept.Sublist rs ∧ distinct seen (rs.map (Raw.placed lines)) = kept.map (Raw.placed lines) := by
  induction rs generalizing seen with
  | nil => exact ⟨[], List.Sublist.refl _, rfl⟩
  | cons r rs ih =>
    rw [map_cons, distinct]
    split
    · obtain ⟨kept, hkept, heq⟩ := ih seen
      exact ⟨kept, hkept.cons r, heq⟩
    · obtain ⟨kept, hkept, heq⟩ := ih (((r.placed lines).line, (r.placed lines).message) :: seen)
      exact ⟨r :: kept, hkept.cons_cons r, congrArg (r.placed lines :: ·) heq⟩

theorem exists_reports {ds : List Diagnostic} (h : ofOutput output code = .ok ds) :
    ∃ kept : List Raw, kept.Sublist (scan output) ∧ ds = kept.map (Raw.finding code) := by
  obtain ⟨-, rfl⟩ := ofOutput_eq_ok_iff.mp h
  obtain ⟨kept, hkept, heq⟩ := @exists_of_distinct (splitLines code) (scan output) []
  exact ⟨kept, hkept, by rw [heq, map_map]; rfl⟩

/-- **Every report whose token is found leads to the token.** If the token of a report is not empty and stands on some
    line not after the reported one, its finding is on the last of these lines, at the first column of the token there,
    and spans the token. -/
theorem ofOutput_pinned {output code : List Char} {ds : List Diagnostic} (h : ofOutput output code = .ok ds) :
    ∃ kept : List Raw, kept.Sublist (scan output) ∧ ds = kept.map (Raw.finding code) ∧
      ∀ r ∈ kept, r.token ≠ [] → (∃ i < decimalValue r.line, Holds r.token (splitLines code) i) →
        Pinned code r (r.finding code) := by
  obtain ⟨kept, hkept, hds⟩ := exists_reports h
  refine ⟨kept, hkept, hds, ?_⟩
  rintro r - htoken ⟨i, hi, hholds⟩
  exact pinned_finding htoken hi hholds

theorem ofOutput_pinned_earlier :
    let output := "line 9:7 mismatched input 'b'\n".toList
    let code := "b\na b b\nc".toList
    let d : Diagnostic :=
      { line := 1, column := 2, message := "mismatched input 'b'", rule := .grammar, span := some ⟨4, 1⟩ }
    ofOutput output code = .ok [d] ∧ Pinned code ⟨['9'], ['7'], "mismatched input 'b'\n".toList⟩ d := by
  intro output code d
  have hscan : scan output = [⟨['9'], ['7'], "mismatched input 'b'\n".toList⟩] := by decide +kernel
  have hds : ofOutput output code = .ok [d] := by decide +kernel
  obtain ⟨kept, hkept, heq, hpinned⟩ := ofOutput_pinned hds
  obtain ⟨r, rfl, hr⟩ := List.map_eq_singleton_iff.mp heq.symm
  rw [hscan] at hkept
  obtain rfl := List.mem_singleton.mp (List.singleton_sublist.mp hkept)
  rw [← hr]
  exact ⟨hr ▸ hds, hpinned _ List.mem_cons_self (by decide +kernel) ⟨0, by decide, ['b'], by decide +kernel, by decide⟩⟩

variable {cs intro message rest u v w : List Char}

/-! ### Printing -/

structure Entry where
  line : Nat
  column : Nat
  message : List Char
  deriving Repr, DecidableEq

variable {e : Entry}

def heading (line column : Nat) : List Char :=
  "line ".toList ++ Nat.toDigits 10 line ++ ':' :: Nat.toDigits 10 column

def Entry.print (e : Entry) : List Char := heading e.line e.column ++ ' ' :: e.message ++ ['\n']

def IsHeading (cs : List Char) : Prop :=
  ∃ blanks digits rest, cs = "line".toList ++ (blanks ++ (digits ++ ':' :: rest)) ∧
    (blanks ≠ [] ∧ ∀ c ∈ blanks, isBlank c = true) ∧ digits ≠ [] ∧ ∀ c ∈ digits, isDigit c = true

/-- A message that is not blank, without quotes, line feeds and anything that looks like the start of a report. -/
structure Plain (message : List Char) : Prop where
  visible : ∃ c ∈ message, isBlank c = false
  feed : '\n' ∉ message
  quote : '\'' ∉ message
  escape : ¬ escapedBreak <:+: message
  heading : ∀ cs, cs <:+ message → ¬ IsHeading cs

/-! ### Reading the start of a report -/

theorem after?_eq_some_iff : after? text cs = some rest ↔ cs = text ++ rest := by
  unfold after?
  constructor
  · intro h
    obtain ⟨hpre, hrest⟩ := Option.ite_none_right_eq_some.mp h
    rw [← Option.some.inj hrest]
    exact prefix_iff_eq_append.mp (List.isPrefixOf_iff_prefix.mp hpre) |>.symm
  · rintro rfl
    rw [if_pos (List.isPrefixOf_iff_prefix.mpr (prefix_append text rest)), drop_left]

theorem of_run?_eq_some {p : Char → Bool} (h : run? p cs = some (u, v)) :
    cs = u ++ v ∧ u ≠ [] ∧ ∀ c ∈ u, p c = true := by
  unfold run? at h
  dsimp only at h
  split at h
  case isTrue => cases h
  case isFalse hne =>
    obtain ⟨rfl, rfl⟩ := Prod.mk.inj (Option.some.inj h)
    exact ⟨takeWhile_append_dropWhile.symm, fun hnil => hne (by rw [hnil]; rfl), fun c => mem_takeWhile_imp⟩

theorem isHeading_of_lineNumber? (h : (lineNumber? cs).isSome) : IsHeading cs := by
  unfold lineNumber? at h
  obtain ⟨x, hx⟩ := Option.isSome_iff_exists.mp h
  simp only [bind, Option.bind_eq_some_iff] at hx
  obtain ⟨cs₁, h₁, ⟨blanks, cs₂⟩, h₂, ⟨digits, cs₃⟩, h₃, rest, h₄, -⟩ := hx
  obtain rfl := after?_eq_some_iff.mp h₁
  obtain ⟨rfl, hblanks⟩ := of_run?_eq_some h₂
  obtain ⟨rfl, hdigits⟩ := of_run?_eq_some h₃
  obtain rfl := after?_eq_some_iff.mp h₄
  exact ⟨blanks, digits, rest, rfl, hblanks, hdigits⟩

theorem lineNumber?_heading (line column : Nat) (rest : List Char) :
    lineNumber? (heading line column ++ rest) = some (Nat.toDigits 10 line, Nat.toDigits 10 column ++ rest) := by
  have hhead : ∀ c ∈ (Nat.toDigits 10 line ++ ':' :: (Nat.toDigits 10 column ++ rest)).head?, isBlank c = false := by
    intro c hc
    rw [head?_append_of_ne_nil _ Nat.toDigits_ne_nil] at hc
    exact isBlank_of_mem_toDigits (mem_of_mem_head? hc)
  have hblank := run?_append (u := [' ']) (cons_ne_nil _ _) (forall_mem_singleton.mpr (by decide)) hhead
  have hdigits : run? isDigit (Nat.toDigits 10 line ++ ':' :: (Nat.toDigits 10 column ++ rest)) =
      some (Nat.toDigits 10 line, ':' :: (Nat.toDigits 10 column ++ rest)) :=
    run?_append Nat.toDigits_ne_nil (fun _ => isDigit_of_mem_toDigits) (by rintro c ⟨⟩; decide)
  have hcs : heading line column ++ rest =
      "line".toList ++ ([' '] ++ (Nat.toDigits 10 line ++ ':' :: (Nat.toDigits 10 column ++ rest))) := by
    change ("line".toList ++ [' ']) ++ _ ++ ':' :: _ ++ rest = _
    simp only [append_assoc, cons_append]
  have hword : ∀ cs, after? "line".toList ("line".toList ++ cs) = some cs := fun _ => after?_eq_some_iff.mpr rfl
  rw [hcs]
  simp only [lineNumber?, hword, bind, Option.bind_some]
  rw [hblank, Option.bind_some, hdigits]
  rfl

def Follows (rest : List Char) : Prop := rest = [] ∨ ∃ line column cs, rest = heading line column ++ cs

theorem line_prefix_of_isHeading (h : IsHeading cs) : "line".toList <+: cs := by
  obtain ⟨blanks, digits, rest, rfl, -⟩ := h
  exact prefix_append _ _

theorem plain_of_not_infix (hvisible : message.all isBlank = false) (hfeed : '\n' ∉ message) (hquote : '\'' ∉ message)
    (hescape : ¬ escapedBreak <:+: message) (hline : ¬ "line".toList <:+: message) :
    Plain message where
  visible := by simpa using hvisible
  feed := hfeed
  quote := hquote
  escape := hescape
  heading _ hcs hheading := hline ((line_prefix_of_isHeading hheading).isInfix.trans hcs.isInfix)

/-- No start of a report goes over the end of a message. -/
theorem not_isHeading_append (hw : ¬ IsHeading w) (hrest : Follows rest) : ¬ IsHeading (w ++ '\n' :: rest) := by
  rintro ⟨blanks, digits, cs, heq, hblanks, hdigits⟩
  let body := blanks ++ (digits ++ [':'])
  have hl : 'l' ∉ body := by
    intro hmem
    obtain hmem | hmem := mem_append.mp hmem
    · exact absurd (hblanks.2 _ hmem) (by decide)
    · obtain hmem | hmem := mem_append.mp hmem
      · exact absurd (hdigits.2 _ hmem) (by decide)
      · exact absurd (mem_singleton.mp hmem) (by decide)
  have heq : w ++ '\n' :: rest = ("line".toList ++ body) ++ cs := by
    rw [heq]
    simp [body]
  obtain ⟨u, hu, hfeed⟩ | ⟨u, rfl, -⟩ := append_eq_append_iff.mp heq
  · cases u with
    | nil => exact hw ⟨blanks, digits, [], by rw [← append_nil w, ← hu], hblanks, hdigits⟩
    | cons c u =>
      -- the line feed is one of the blanks, so what comes after it is a blank, a digit or the colon
      obtain ⟨rfl, rfl⟩ := List.cons.inj hfeed
      obtain ⟨y, hy⟩ : ∃ y, body = y ++ '\n' :: u := by
        obtain ⟨y, -, hy⟩ | ⟨y, hy, hbody⟩ := append_eq_append_iff.mp hu
        · exact ⟨y, hy⟩
        · cases y with
          | nil => exact ⟨[], hbody.symm⟩
          | cons d y =>
            obtain ⟨rfl, -⟩ := List.cons.inj hbody
            exact absurd (hy ▸ mem_append_right w mem_cons_self) (by decide : '\n' ∉ "line".toList)
      cases u with
      | nil =>
        have hlast := congrArg List.getLast? hy
        simp [body, ← append_assoc] at hlast
      | cons d u =>
        obtain hnil | ⟨line, column, rest, hnext⟩ := hrest
        · cases hnil
        · obtain rfl : d = 'l' := (List.cons.inj hnext).1
          exact hl (hy ▸ by simp)
  · exact hw ⟨blanks, digits, u, by simp [body], hblanks, hdigits⟩

theorem untilNext_append (h : ∀ w, w ≠ [] → w <:+ u → (lineNumber? (w ++ v)).isSome = false)
    (hv : v = [] ∨ (lineNumber? v).isSome) : untilNext (u ++ v) = u := by
  induction u with
  | nil =>
    cases v with
    | nil => rfl
    | cons c v =>
      obtain hv | hv := hv
      · cases hv
      · rw [nil_append, untilNext, if_pos hv]
  | cons c u ih =>
    have hc := h (c :: u) (cons_ne_nil c u) suffix_rfl
    rw [cons_append] at hc ⊢
    rw [untilNext, hc, if_neg Bool.false_ne_true, ih fun w hne hw => h w hne (hw.trans (suffix_cons c u))]

/-! ### Reading a whole report -/

def Entry.raw (e : Entry) : Raw :=
  ⟨Nat.toDigits 10 e.line, Nat.toDigits 10 e.column, stripLeft e.message ++ ['\n']⟩

theorem Plain.exists_stripLeft (h : Plain message) : ∃ c cs, stripLeft message = c :: cs ∧ isBlank c = false := by
  obtain ⟨d, hd, hdblank⟩ := h.visible
  cases hm : stripLeft message with
  | nil => exact absurd (dropWhile_eq_nil_iff.mp hm d hd) (by rw [hdblank]; exact Bool.false_ne_true)
  | cons c cs =>
    have hhead := head?_dropWhile_not isBlank message
    rw [← stripLeft, hm] at hhead
    exact ⟨c, cs, rfl, by simpa using hhead⟩

theorem message?_append (hm : Plain message) (hrest : Follows rest) : message? (' ' :: message ++ '\n' :: rest) =
      some (' ' :: message.takeWhile isBlank, stripLeft message ++ ['\n']) := by
  obtain ⟨c, cs, heq, hc⟩ := hm.exists_stripLeft
  have hmessage : message = message.takeWhile isBlank ++ c :: cs := by
    rw [← heq]
    exact takeWhile_append_dropWhile.symm
  have hrun : run? isBlank (' ' :: message ++ '\n' :: rest) =
      some (' ' :: message.takeWhile isBlank, c :: (cs ++ '\n' :: rest)) := by
    have happend := run?_append (p := isBlank) (u := ' ' :: message.takeWhile isBlank) (v := c :: (cs ++ '\n' :: rest))
      (cons_ne_nil _ _)
      (forall_mem_cons.mpr ⟨by decide, fun d => mem_takeWhile_imp⟩) (by rintro d ⟨⟩; exact hc)
    rw [← happend]
    nth_rewrite 1 [hmessage]
    simp only [cons_append, append_assoc]
  have huntil : untilNext (cs ++ '\n' :: rest) = cs ++ ['\n'] := by
    rw [append_cons]
    refine untilNext_append ?_ ?_
    · intro w hne hw
      obtain rfl | ⟨w, rfl, hsuffix⟩ := suffix_concat_iff.mp hw
      · exact absurd rfl hne
      · rw [append_assoc, Bool.eq_false_iff]
        intro hsome
        have hwm : w <:+ message := by
          rw [hmessage]
          exact hsuffix.trans ((suffix_cons c cs).trans (suffix_append _ _))
        exact not_isHeading_append (hm.heading w hwm) hrest (isHeading_of_lineNumber? hsome)
    · obtain rfl | ⟨line, column, cs, rfl⟩ := hrest
      · exact .inl rfl
      · exact .inr (by rw [lineNumber?_heading]; rfl)
  simp only [message?, bind, hrun, Option.bind_some, huntil, heq]
  rfl

theorem reportAt?_print (he : Plain e.message) (hrest : Follows rest) :
    reportAt? (e.print ++ rest) = some (e.raw, e.print.length) := by
  have hprint : e.print ++ rest = heading e.line e.column ++ (' ' :: e.message ++ '\n' :: rest) := by
    simp [Entry.print]
  have hcolumn : run? isDigit (Nat.toDigits 10 e.column ++ (' ' :: e.message ++ '\n' :: rest)) =
      some (Nat.toDigits 10 e.column, ' ' :: e.message ++ '\n' :: rest) :=
    run?_append Nat.toDigits_ne_nil (fun _ => isDigit_of_mem_toDigits) (by rintro c ⟨⟩; decide)
  have hlength : e.message.length = (e.message.takeWhile isBlank).length + (stripLeft e.message).length := by
    rw [← length_append, stripLeft, takeWhile_append_dropWhile]
  rw [hprint]
  simp only [reportAt?, bind, lineNumber?_heading, Option.bind_some, hcolumn, message?_append he hrest]
  refine congrArg some (Prod.ext rfl ?_)
  simp only [Entry.print, length_append, length_cons, length_nil]
  omega

theorem scanAfter_eq_drop (skip : Nat) (cs : List Char) : scanAfter skip cs = scan (cs.drop skip) := by
  induction skip generalizing cs with
  | zero => rfl
  | succ skip ih =>
    cases cs with
    | nil => rfl
    | cons c cs => exact ih cs

theorem scan_print_append (he : Plain e.message) (hrest : Follows rest) :
    scan (e.print ++ rest) = e.raw :: scan rest := by
  obtain ⟨cs, hcs⟩ : ∃ cs, e.print = 'l' :: cs := ⟨_, rfl⟩
  have hreport := reportAt?_print he hrest
  rw [hcs, cons_append] at hreport
  rw [hcs, cons_append, scan, scanAfter, hreport]
  dsimp only
  rw [length_cons, Nat.add_sub_cancel, scanAfter_eq_drop, drop_left]

theorem follows_print (es : List Entry) : Follows (es.flatMap Entry.print) := by
  cases es with
  | nil => exact .inl rfl
  | cons e es =>
    exact .inr ⟨e.line, e.column, _, by
      rw [flatMap_cons, Entry.print, append_assoc, append_assoc]⟩

theorem scan_print {es : List Entry} (h : ∀ e ∈ es, Plain e.message) :
    scan (es.flatMap Entry.print) = es.map Entry.raw := by
  induction es with
  | nil => rfl
  | cons e es ih =>
    obtain ⟨he, hes⟩ := forall_mem_cons.mp h
    rw [flatMap_cons, scan_print_append he (follows_print es), ih hes, map_cons]

/-! ### Plain messages for display -/

theorem cutQuotesAfter_of_not_mem (h : '\'' ∉ cs) : cutQuotesAfter 0 cs = cs := by
  induction cs with
  | nil => rfl
  | cons c cs ih =>
    obtain ⟨hc, hcs⟩ := ne_and_not_mem_of_not_mem_cons h
    have hnone : brokenQuote? (c :: cs) = none := by
      rw [brokenQuote?, if_neg fun hquote => hc hquote.1.symm]
    rw [cutQuotesAfter, hnone, ih hcs]

theorem quotedAfter?_of_not_mem (h : '\'' ∉ cs) : quotedAfter? intro cs = none := by
  induction cs with
  | nil => rfl
  | cons c cs ih =>
    rw [quotedAfter?, Option.orElse_eq_or, ih (ne_and_not_mem_of_not_mem_cons h).2, Option.or_none,
      Option.eq_none_iff_forall_ne_some]
    intro inner hinner
    simp only [bind, Option.bind_eq_some_iff] at hinner
    obtain ⟨rest₁, h₁, ⟨blanks, rest₂⟩, h₂, rest₃, h₃, -⟩ := hinner
    obtain rfl := after?_eq_some_iff.mp h₃
    obtain ⟨rfl, -⟩ := of_run?_eq_some h₂
    rw [after?_eq_some_iff.mp h₁] at h
    exact h (by simp)

theorem Plain.strip_raw (h : Plain message) : strip (stripLeft message ++ ['\n']) = strip message := by
  obtain ⟨c, cs, heq, hc⟩ := h.exists_stripLeft
  rw [strip, heq, cons_append, stripLeft_of_not_blank _ hc, ← cons_append, stripRight, reverse_append,
    reverse_singleton, singleton_append, dropWhile_cons_of_pos (by decide), strip, heq, stripRight]

theorem Plain.locate (h : Plain message) (lines : List (List Char)) (line column : Nat) :
    Report.locate lines line column (stripLeft message ++ ['\n']) = ⟨line - 1, column, strip message, []⟩ := by
  have hfeed : ¬ ['\n'] <:+: strip message := fun hin =>
    h.feed ((hin.trans (strip_isInfix message)).subset mem_cons_self)
  have hquote : '\'' ∉ strip message := fun hin => h.quote ((strip_isInfix message).subset hin)
  have hescape : ¬ escapedBreak <:+: strip message := fun hin => h.escape (hin.trans (strip_isInfix message))
  have hflat : flatMessage (stripLeft message ++ ['\n']) = strip message := by
    rw [flatMessage, h.strip_raw, replaceAll_of_not_infix hfeed, strip_strip]
  have htoken : token? (strip message) = none := by
    rw [token?, quotedAfter?_of_not_mem hquote, quotedAfter?_of_not_mem hquote]
    rfl
  have hclean : cleanMessage (strip message) = strip message := by
    rw [cleanMessage, cutQuotesAfter_of_not_mem hquote, escapedBreak, replaceAll_of_not_infix hescape, strip_strip]
  rw [Report.locate, hflat, htoken, hclean]
  rfl

/-! ### The findings of printed reports -/

def Entry.finding (code : List Char) (e : Entry) : Diagnostic where
  line := e.line - 1
  column := e.column
  message := String.ofList (strip e.message)
  rule := .grammar
  span := some ⟨lineStart (splitLines code) (e.line - 1) + e.column, 1⟩

def Entry.same (a b : Entry) : Bool := a.line = b.line ∧ strip a.message = strip b.message

def Entry.Short (e : Entry) : Prop := e.line < 10 ^ digitLimit ∧ e.column < 10 ^ digitLimit

theorem Entry.short_raw_iff (e : Entry) : e.raw.Short ↔ e.Short :=
  and_congr (Nat.length_toDigits_le_iff (by decide) (by decide)) (Nat.length_toDigits_le_iff (by decide) (by decide))

def Entry.located (e : Entry) : Located := ⟨e.line - 1, e.column, strip e.message, []⟩

theorem Entry.placed_raw (he : Plain e.message) (lines : List (List Char)) :
    e.raw.placed lines = e.located := by
  rw [Raw.placed, Entry.raw, decimalValue_toDigits, decimalValue_toDigits, he.locate]
  rfl

theorem Entry.same_eq (a b : Entry) :
    a.same b = ((a.located.line, a.located.message) == (b.located.line, b.located.message)) := by
  have hline : (a.line : Int) - 1 = b.line - 1 ↔ a.line = b.line := by omega
  rw [Bool.eq_iff_iff, Entry.same, decide_eq_true_iff, beq_iff_eq, Prod.mk.injEq]
  exact and_congr_left' hline.symm

theorem distinct_located (es : List Entry) (seen : List (Int × List Char)) : distinct seen (es.map Entry.located) =
      ((es.filter fun e => !seen.contains (e.located.line, e.located.message)).eraseDupsBy Entry.same).map
        Entry.located := by
  induction es generalizing seen with
  | nil => rfl
  | cons e es ih =>
    rw [map_cons, distinct]
    cases hseen : seen.contains (e.located.line, e.located.message) with
    | true => rw [if_pos rfl, ih, filter_cons_of_neg (by rw [hseen]; exact Bool.false_ne_true)]
    | false =>
      rw [if_neg Bool.false_ne_true, ih, filter_cons_of_pos (by rw [hseen]; rfl), eraseDupsBy_cons,
        map_cons, filter_filter]
      -- what repeats the report is left out now, what repeats an earlier one was left out before
      refine congrArg (fun es => _ :: List.map _ (List.eraseDupsBy _ es)) (filter_congr fun b _ => ?_)
      rw [contains_cons, Bool.not_or, Entry.same_eq]
      cases (b.located.line, b.located.message) == (e.located.line, e.located.message) <;> rfl

theorem Entry.diagnostic_located (code : List Char) (e : Entry) :
    e.located.diagnostic (splitLines code) = e.finding code := by
  have hline : ((e.line : Int) - 1).toNat = e.line - 1 := by omega
  simp only [Located.diagnostic, Entry.located, Entry.finding, hline]
  rfl

/-- **Printed reports are read back.** The findings are those of the reports, in order and without the ones whose line
    and message came before, unless some number is too long to be read. -/
theorem ofOutput_print_iff {es : List Entry} (h : ∀ e ∈ es, Plain e.message) (code : List Char)
    (ds : List Diagnostic) :
    ofOutput (es.flatMap Entry.print) code = .ok ds ↔
      (∀ e ∈ es, e.Short) ∧ ds = (es.eraseDupsBy Entry.same).map (Entry.finding code) := by
  have hplaced : es.map (Raw.placed (splitLines code) ∘ Entry.raw) = es.map Entry.located :=
    List.map_congr_left fun e he => Function.comp_apply.trans (e.placed_raw (h e he) _)
  have hall : es.filter (fun e => !([] : List (Int × List Char)).contains (e.located.line, e.located.message)) = es :=
    List.filter_eq_self.mpr fun _ _ => rfl
  rw [ofOutput_eq_ok_iff, scan_print h, List.forall_mem_map, List.map_map, hplaced, distinct_located, hall,
    List.map_map, List.map_congr_left fun e _ => e.diagnostic_located code]
  simp only [Entry.short_raw_iff]

theorem ofOutput_print_repeated :
    let es : List Entry := [⟨2, 5, " odd word ".toList⟩, ⟨1, 0, ['x']⟩, ⟨2, 7, "odd word".toList⟩]
    (∀ e ∈ es, Plain e.message ∧ e.Short) ∧
      ofOutput (es.flatMap Entry.print) "a\nb".toList = .ok
        [{ line := 1, column := 5, message := "odd word", rule := .grammar, span := some ⟨7, 1⟩ },
         { line := 0, column := 0, message := "x", rule := .grammar, span := some ⟨0, 1⟩ }] := by
  intro es
  have hplain : ∀ e ∈ es, Plain e.message := by
    simp only [es, List.forall_mem_cons]
    refine ⟨?_, ?_, ?_, List.forall_mem_nil _⟩ <;>
    exact plain_of_not_infix (by decide) (by decide) (by decide) (by decide) (by decide)
  have hshort : ∀ e ∈ es, e.Short := by
    simp only [es, List.forall_mem_cons, ← Entry.short_raw_iff]
    refine ⟨?_, ?_, ?_, List.forall_mem_nil _⟩ <;>
    exact ⟨by decide, by decide⟩
  exact ⟨fun e he => ⟨hplain e he, hshort e he⟩,
    (ofOutput_print_iff hplain _ _).mpr ⟨hshort, by rfl⟩⟩

/-- A number with one digit more than can be read: the report is printed, and no findings are read back. -/
theorem not_ofOutput_print :
    let e : Entry := ⟨10 ^ digitLimit, 0, ['x']⟩
    Plain e.message ∧ ∀ ds, ofOutput e.print [] ≠ .ok ds := by
  intro e
  have hplain : Plain e.message :=
    plain_of_not_infix (by decide) (by decide) (by decide) (by decide) (by decide)
  refine ⟨hplain, fun ds hds => ?_⟩
  obtain ⟨hshort, -⟩ := ofOutput_eq_ok_iff.mp hds
  have hscan := scan_print_append hplain (.inl rfl)
  rw [List.append_nil] at hscan
  have hmem : e.raw ∈ scan e.print := hscan ▸ List.mem_cons_self
  exact Nat.lt_irrefl _ (e.short_raw_iff.mp (hshort _ hmem)).1

end WatchFace.Lua.Report
