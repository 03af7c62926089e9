import WatchFace.Proofs.Lua.Masking
import WatchFace.Proofs.Lua.Reports

/-!
# What is highlighted

Findings are placed in the script with its tags hidden, and highlighted in the script as it stands. A placeholder is
longer than its tag, so every tag moves what is highlighted after it.
-/

namespace WatchFace.Lua

open Tag Report Text List

variable {code cs name token u : List Char} {i n start : Nat} {d : Diagnostic}

/-! ### Hidden texts are longer -/

def tagCount : List Char → Nat
  | [] => 0
  | c :: cs => (if (tagAt? (c :: cs)).isSome then 1 else 0) + tagCount cs

theorem tagCount_append_of_not_mem (h : '\x7b' ∉ u) (v : List Char) : tagCount (u ++ v) = tagCount v := by
  induction u with
  | nil => rfl
  | cons c u ih =>
    obtain ⟨hc, hu⟩ := not_or.mp (mt mem_cons.mpr h)
    rw [cons_append, tagCount, tagAt?_of_ne (Ne.symm hc), ih hu]
    exact Nat.zero_add _

theorem tagCount_tag (h : IsName name) (rest : List Char) : tagCount (tag name ++ rest) = 1 + tagCount rest := by
  have hbrace : '\x7b' ∉ name ++ ['\x7d'] := by
    intro hmem
    obtain hmem | hmem := mem_append.mp hmem
    · exact absurd (h.2 _ hmem) (by decide)
    · exact absurd (mem_singleton.mp hmem) (by decide)
  have htag : tagAt? ('\x7b' :: (name ++ ['\x7d'] ++ rest)) = some name := tagAt?_eq_some_iff.mpr ⟨h, rest, rfl⟩
  show tagCount ('\x7b' :: (name ++ ['\x7d'] ++ rest)) = _
  rw [tagCount, htag, tagCount_append_of_not_mem hbrace]
  rfl

theorem length_hide (cs : List Char) : (hide cs).length = cs.length + 11 * tagCount cs := by
  induction cs using hide_induction with
  | nil => rfl
  | tag name rest hname ih =>
    have hplaceholder : (placeholder name).length = (tag name).length + 11 := by
      simp only [placeholder, bare, tag, length_append, length_cons, length_nil, show marker.length = 9 from rfl]
      omega
    rw [hide_tag hname, tagCount_tag hname, length_append, length_append, ih, hplaceholder]
    omega
  | cons c cs htag ih =>
    rw [hide_cons htag, tagCount, htag, length_cons, length_cons, ih]
    simp only [Option.isSome_none, Bool.false_eq_true, if_false, Nat.zero_add]
    omega

/-! ### Lines -/

/-- No tag holds a line break, so hiding starts anew after it. -/
theorem hide_line (l cs : List Char) : hide (l ++ '\n' :: cs) = hide l ++ '\n' :: hide cs := by
  rw [hide_append l (parts_cons (by decide) (by decide) cs), hide_cons (tagAt?_of_ne (by decide) cs)]

theorem splitLines_hide (code : List Char) : splitLines (hide code) = (splitLines code).map hide := by
  have hbreak : ∀ {l}, '\n' ∉ l → '\n' ∉ hide l := by
    intro l hl
    rwa [← count_eq_zero, count_hide, count_eq_zero]
  induction code using line_induction with
  | last l hl => rw [splitLines_eq_singleton (hbreak hl), splitLines_eq_singleton hl, map_singleton]
  | line l cs hl ih =>
    rw [hide_line, splitLines_append_cons (hbreak hl), splitLines_append_cons hl, map_cons, ih]

theorem tagCount_line (l cs : List Char) : tagCount (l ++ '\n' :: cs) = tagCount l + tagCount cs := by
  have hlength := congrArg List.length (hide_line l cs)
  simp only [length_hide, length_append, length_cons] at hlength
  omega

theorem tagCount_eq_sum (code : List Char) : tagCount code = ((splitLines code).map tagCount).sum := by
  induction code using line_induction with
  | last l hl => rw [splitLines_eq_singleton hl, map_singleton, sum_singleton]
  | line l cs hl ih => rw [tagCount_line, splitLines_append_cons hl, map_cons, sum_cons, ih]

/-- **Tags are hidden line by line.** The lines of a script with hidden tags are those of the script, each with its own
    tags hidden: none is merged, split or moved. A line grows by eleven characters for each tag on it, and no tag
    reaches from one line into the next. -/
theorem hide_line_by_line (code : List Char) :
    splitLines (hide code) = (splitLines code).map hide ∧
      (splitLines (hide code)).map length = (splitLines code).map (fun l => l.length + 11 * tagCount l) ∧
      tagCount code = ((splitLines code).map tagCount).sum := by
  refine ⟨splitLines_hide code, ?_, tagCount_eq_sum code⟩
  rw [splitLines_hide, map_map]
  exact map_congr_left fun l _ => length_hide l

theorem lineStart_hide {lines : List (List Char)} (hi : i < lines.length) : lineStart (lines.map hide) i =
      lineStart lines i + 11 * tagCount ((joinLines lines).take (lineStart lines i)) := by
  induction lines generalizing i with
  | nil => cases hi
  | cons l ls ih =>
    cases i with
    | zero => rfl
    | succ i =>
      have hi : i < ls.length := Nat.lt_of_succ_lt_succ hi
      have hne : ls ≠ [] := ne_nil_of_length_pos (Nat.zero_lt_of_lt hi)
      have htake : (joinLines (l :: ls)).take (l.length + 1 + lineStart ls i) =
          l ++ '\n' :: (joinLines ls).take (lineStart ls i) := by
        rw [joinLines_cons hne, Nat.add_assoc, take_length_add_append, Nat.add_comm 1, take_succ_cons]
      rw [map_cons, lineStart_cons, lineStart_cons, htake, tagCount_line, ih hi, length_hide]
      omega

/-! ### Highlights -/

structure Highlight (code token : List Char) (d : Diagnostic) (start : Nat) : Prop where
  span : d.span = some ⟨start, token.length⟩
  column : ∃ line, (splitLines code)[d.line]? = some line ∧ FirstAt token (hide line) d.column
  place : start = lineStart (splitLines code) d.line + d.column +
    11 * tagCount (code.take (lineStart (splitLines code) d.line))
  shows_of_bare : Bare (start + token.length) code → Shows code start token
  shows_iff : ∀ p, token <+: code.drop p → (hide (code.take p)).length = start → (Shows code start token ↔
      tagCount (code.take p) = 0 ∨ token <+: code.drop (p + 11 * tagCount (code.take p)))

theorem take_hide_of_bare (h : Bare n cs) : (hide cs).take n = cs.take n := by
  rw [hide_of_bare h]
  by_cases hn : n ≤ cs.length
  · exact take_left' (length_take_of_le hn)
  · have hle : cs.length ≤ n := by omega
    rw [drop_of_length_le hle, take_of_length_le hle, show hide [] = [] from rfl, append_nil, take_of_length_le hle]

theorem highlight_of_pinned {r : Raw} (h : Pinned (hide code) r d) (htoken : r.token ≠ []) :
    ∃ start, Highlight code r.token d start := by
  obtain ⟨start, hspan, hstart, hshows⟩ := h.span
  obtain ⟨l, hl, hcolumn⟩ := h.column
  rw [splitLines_hide, getElem?_map] at hl
  obtain ⟨line, hline, rfl⟩ := Option.map_eq_some_iff.mp hl
  refine ⟨start, hspan, ⟨line, hline, hcolumn⟩, ?_, fun hbare => ?_, fun p hp hplace => ?_⟩
  · rw [hstart, splitLines_hide, lineStart_hide (List.getElem?_eq_some_iff.mp hline).1, joinLines_splitLines]
    omega
  · rwa [Shows, take_drop, take_hide_of_bare hbare, ← take_drop] at hshows
  · have hlength : p < code.length := by
      have hpos := Nat.lt_of_lt_of_le (length_pos_of_ne_nil htoken) hp.length_le
      rw [length_drop] at hpos
      omega
    rw [length_hide, length_take_of_le hlength.le] at hplace
    rw [shows_iff, ← hplace]
    constructor
    · exact .inr
    · rintro (hnone | h)
      · rwa [hnone]
      · exact h

/-! ### A check -/

theorem Highlight.reveal (h : Highlight code token d start) :
    Highlight code token d.reveal start := ⟨h.1, h.2, h.3, h.4, h.5⟩

theorem check_of_rejected {v : Vocabulary} {engine : Engine} {code : String} {message printed : String}
    (hrejected : engine.parse (hide code.toList) = .rejected message printed) {ds : List Diagnostic}
    (hds : ofOutput printed.toList (hide code.toList) = .ok ds) (hne : ds ≠ [])
    (hblank : (strip code.toList).isEmpty = false) :
    (({ vocabulary := v, engine := engine } : Checker).check code).1 = ds.map Diagnostic.reveal := by
  rw [Checker.check, if_neg (by rw [hblank]; exact Bool.false_ne_true)]
  show (examineHidden v engine (hide code.toList)).findings.map Diagnostic.reveal = _
  unfold examineHidden
  cases ds with
  | nil => exact absurd rfl hne
  | cons d ds =>
    rw [hrejected]
    dsimp only
    rw [hds]
    rfl

/-- **A highlight is moved by the tags before it.** If the token of a report was found in the script with hidden tags,
    the highlight starts eleven characters later for every tag on the lines before. It shows the token if no tag stands
    before its end. If the token stands in the script itself, the highlight shows it exactly if no tag stands before it,
    or if the script repeats the token at the distance that the tags have added. -/
theorem highlight_check (v : Vocabulary) (engine : Engine) (code : String) {message printed : String}
    (hrejected : engine.parse (hide code.toList) = .rejected message printed) :
    (∀ ds, ofOutput printed.toList (hide code.toList) = .ok ds → ds = []) ∨
    ∃ kept : List Raw, kept.Sublist (scan printed.toList) ∧
      (({ vocabulary := v, engine := engine } : Checker).check code).1 =
        kept.map (fun r => (r.finding (hide code.toList)).reveal) ∧
      ∀ r ∈ kept, r.token ≠ [] → (∃ i < decimalValue r.line, Holds r.token (splitLines (hide code.toList)) i) →
        ∃ start, Highlight code.toList r.token (r.finding (hide code.toList)).reveal start := by
  cases hblank : (strip code.toList).isEmpty with
  | true =>
    rw [Checker.check, if_pos hblank]
    exact .inr ⟨[], List.nil_sublist _, rfl, List.forall_mem_nil _⟩
  | false =>
    rw [or_iff_not_imp_left]
    intro hsome
    obtain ⟨ds, hsome⟩ := not_forall.mp hsome
    obtain ⟨hds, hne⟩ := Classical.not_imp.mp hsome
    obtain ⟨kept, hkept, rfl⟩ := exists_reports hds
    rw [check_of_rejected hrejected hds hne hblank, List.map_map]
    refine ⟨kept, hkept, rfl, ?_⟩
    rintro r - htoken ⟨i, hi, hholds⟩
    obtain ⟨start, h⟩ := highlight_of_pinned (pinned_finding htoken hi hholds) htoken
    exact ⟨start, h.reveal⟩

def strayBracket : String := "x = \x7bdh\x7d\n)"

def strayEngine : Engine := { parse := fun _ => .rejected "syntax errors" "line 2:0 mismatched input ')'\n" }

def strayFinding : Diagnostic where
  line := 1
  message := "mismatched input ')'"
  rule := .grammar
  span := some ⟨20, 1⟩

theorem check_stray : (({ engine := strayEngine } : Checker).check strayBracket).1 = [strayFinding] := by
  decide +kernel

theorem highlight_check_stray :
    Highlight strayBracket.toList [')'] strayFinding 20 ∧
      (({ engine := strayEngine } : Checker).check strayBracket).1 = [strayFinding] := by
  have hscan : scan "line 2:0 mismatched input ')'\n".toList = [⟨['2'], ['0'], "mismatched input ')'\n".toList⟩] := by
    decide +kernel
  obtain h | ⟨kept, hkept, heq, hall⟩ := highlight_check {} strayEngine strayBracket rfl
  · have hds : ofOutput "line 2:0 mismatched input ')'\n".toList (hide strayBracket.toList) = .ok [strayFinding] := by
      decide +kernel
    cases h _ hds
  · rw [check_stray] at heq
    obtain ⟨r, rfl, hr⟩ := List.map_eq_singleton_iff.mp heq.symm
    rw [hscan] at hkept
    obtain rfl := List.mem_singleton.mp (List.singleton_sublist.mp hkept)
    obtain ⟨start, hstart⟩ := hall _ List.mem_cons_self (by decide +kernel)
      ⟨1, by decide, [')'], by decide +kernel, by decide⟩
    rw [hr] at hstart
    cases hstart.span
    exact ⟨hstart, check_stray⟩

/-- The bracket is the tenth character of the script, and what is highlighted is past the end. -/
theorem not_highlighted_stray :
    (({ engine := strayEngine } : Checker).check strayBracket).1 = [strayFinding] ∧
      Holds [')'] (splitLines strayBracket.toList) strayFinding.line ∧
      [')'] <+: strayBracket.toList.drop 9 ∧ ¬ Shows strayBracket.toList 20 [')'] := by
  refine ⟨check_stray, ⟨[')'], by decide +kernel, by decide⟩, by decide +kernel, ?_⟩
  rw [shows_iff]
  decide +kernel

end WatchFace.Lua
