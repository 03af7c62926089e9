import WatchFace.Proofs.Lua.Grammar
import WatchFace.Proofs.Lua.Masking
import WatchFace.Proofs.Lua.Warnings

/-!
# Scripts with hidden tags

The check of a script with its tags hidden, and the rules of the watch on the script as it stands.
-/

namespace WatchFace.Lua

open Lint Tag List Text

variable {c : Char} {cs w : List Char}

/-! ### Blank scripts -/

theorem isTagChar_of_isBlank (hc : isBlank c = true) : isTagChar c = false := by
  simp only [isBlank, Bool.or_eq_true, Bool.and_eq_true, decide_eq_true_eq, beq_iff_eq] at hc
  have hunder : c ≠ '_' := by
    rintro rfl
    revert hc
    decide
  have hle : ∀ {a : Char}, (a ≤ c) = (a.toNat ≤ c.toNat) := by
    intro a
    rw [Char.le_def, UInt32.le_iff_toNat_le]
    rfl
  have hge : ∀ {a : Char}, (c ≤ a) = (c.toNat ≤ a.toNat) := by
    intro a
    rw [Char.le_def, UInt32.le_iff_toNat_le]
    rfl
  simp only [isTagChar, Bool.or_eq_false_iff, Bool.and_eq_false_iff, decide_eq_false_iff_not, beq_eq_false_iff_ne,
    hle, hge, Char.reduceToNat]
  refine ⟨⟨⟨?_, ?_⟩, ?_⟩, hunder⟩ <;> omega

theorem ne_of_isBlank {d : Char} (hc : isBlank c = true) (hd : isBlank d = false) : c ≠ d := by
  rintro rfl
  exact absurd (hc.symm.trans hd) nofun

theorem lexeme_of_isBlank (hc : isBlank c = true) (hgap : c ∉ gaps) (cs : List Char) :
    lexeme (c :: cs) = (.junk, 1) := by
  have hne : ∀ {d : Char}, isBlank d = false → c ≠ d := ne_of_isBlank hc
  have htag := isTagChar_of_isBlank hc
  rw [← isNameChar_eq, isNameChar, Bool.or_eq_false_iff] at htag
  have hname : nameLength (c :: cs) = none := by simp [nameLength, htag.1]
  have hnumber : numberLength (c :: cs) = none := numberLength_eq_none htag.2 (hne rfl) cs
  have hstring : stringLength (c :: cs) = none := stringLength_eq_none (hne rfl) (hne rfl) (hne rfl) cs
  have hcomment : commentLength (c :: cs) = none := by simp [commentLength, hne (d := '-') rfl]
  have hshebang : shebangLength (c :: cs) = none := by simp [shebangLength, hne (d := '#') rfl]
  have hoperator : operatorLength (c :: cs) = none := operatorLength_eq_none (by decide) hc cs
  have hjunk : junkLength (c :: cs) = 1 := by
    simp [junkLength, quoted?, hne (d := '"') rfl, hne (d := '\'') rfl]
  simp only [gaps, mem_cons, not_mem_nil, or_false, not_or] at hgap
  simp [lexeme, longestLexeme, lexRules, longerLexeme, runLength, spanLength, hname, hnumber, hstring, hcomment,
    hshebang, hoperator, hjunk, hgap]

theorem exists_run (hc : isBlank c = true) : ∃ (k : LexClass) (p : Char → Bool),
    (∀ text, k.kind? text = none) ∧ ∀ d cs, d = c ∨ p d = true → lexeme (d :: cs) = (k, spanLength p cs + 1) := by
  by_cases hgap : c ∈ gaps
  · have hspace : ∀ d cs, d = ' ' ∨ d = '\t' →
        lexeme (d :: cs) = (.space, spanLength (fun c => c == ' ' || c == '\t') cs + 1) := by
      rintro d cs (rfl | rfl) <;> rfl
    have hbreak : ∀ d cs, (d = '\r' ∨ d = '\n') ∨ d = '\x0c' →
        lexeme (d :: cs) = (.lineBreak, spanLength (fun c => c == '\r' || c == '\n' || c == '\x0c') cs + 1) := by
      rintro d cs ((rfl | rfl) | rfl) <;> rfl
    simp only [gaps, mem_cons, not_mem_nil, or_false] at hgap
    rw [← or_assoc, ← or_assoc (a := c = '\r')] at hgap
    obtain hcase | hcase := hgap
    · refine ⟨.space, _, fun _ => rfl, fun d cs hd => hspace d cs (hd.elim (· ▸ hcase) fun hd => ?_)⟩
      simpa using hd
    · refine ⟨.lineBreak, _, fun _ => rfl, fun d cs hd => hbreak d cs (hd.elim (· ▸ hcase) fun hd => ?_)⟩
      simpa using hd
  · refine ⟨.junk, fun _ => false, fun _ => rfl, ?_⟩
    rintro d cs (rfl | hd)
    · rw [lexeme_of_isBlank hc hgap, spanLength]
      cases cs <;> rfl
    · cases hd

theorem tokensFrom_cons_blank (hc : isBlank c = true) (cs : List Char) (p : Place) (broken : Bool) :
    ∃ broken', tokensFrom p broken (c :: cs) = tokensFrom (p.next c) broken' cs := by
  obtain ⟨k, q, hkind, hlexeme⟩ := exists_run hc
  rw [tokensFrom, hlexeme c cs (.inl rfl)]
  simp only [hkind, Nat.add_sub_cancel]
  cases cs with
  | nil => exact ⟨_, rfl⟩
  | cons d cs =>
    cases hd : q d with
    | false =>
      have hzero : spanLength q (d :: cs) = 0 := by simp [spanLength, hd]
      rw [hzero]
      exact ⟨_, rfl⟩
    | true =>
      have hsucc : spanLength q (d :: cs) = spanLength q cs + 1 := by simp [spanLength, hd]
      refine ⟨broken, ?_⟩
      rw [hsucc, tokensFrom, hlexeme d cs (.inr hd)]
      simp only [hkind, Nat.add_sub_cancel]
      rfl

theorem tokensFrom_append_blank (hw : w.all isBlank = true) (cs : List Char) (p : Place) (broken : Bool) :
    ∃ broken', tokensFrom p broken (w ++ cs) = tokensFrom (p.after w) broken' cs := by
  induction w generalizing p broken with
  | nil => exact ⟨broken, rfl⟩
  | cons c w ih =>
    obtain ⟨hc, hw⟩ := Bool.and_eq_true_iff.mp hw
    obtain ⟨_, hcons⟩ := tokensFrom_cons_blank hc (w ++ cs) p broken
    obtain ⟨broken', happend⟩ := ih hw (p.next c) _
    exact ⟨broken', hcons.trans happend⟩
theorem tokensFrom_blank (h : cs.all isBlank = true) (p : Place) (broken : Bool) :
    (tokensFrom p broken cs).1 = [] := by
  obtain ⟨broken', hskip⟩ := tokensFrom_append_blank h [] p broken
  rw [append_nil] at hskip
  rw [hskip, tokensFrom]

theorem parseTokens_nil (stop : Place) : parseTokens [] stop = .ok [] := by
  have hmany : Parser.many (Rules.statement (Rules.upTo 0)) { rest := [], stop := stop } =
      .ok [] { rest := [], stop := stop } := Parser.many_no rfl
  have hblock : (Rules.upTo 1).block { rest := [], stop := stop } = .ok [] { rest := [], stop := stop } :=
    Parser.bind_ok hmany
  simp only [parseTokens, length_nil, Nat.zero_add, hblock]
  rfl

theorem isBlank_of_strip (h : (strip cs).isEmpty = true) : ∀ c ∈ cs, isBlank c = true := by
  have hleft : ∀ c ∈ stripLeft cs, isBlank c = true := by
    rw [List.isEmpty_iff, strip, stripRight, reverse_eq_nil_iff, dropWhile_eq_nil_iff] at h
    exact fun c hc => h c (mem_reverse.mpr hc)
  have hnil : stripLeft cs = [] := by
    by_contra hne
    have hhead := head_dropWhile_not isBlank hne
    cases (hleft _ (head_mem hne)).symm.trans hhead
  exact dropWhile_eq_nil_iff.mp hnil

theorem parse_blank (h : (strip cs).isEmpty = true) : parse cs = .ok [] := by
  rw [parse, tokenize]
  show parseTokens (tokensFrom {} false cs).1 _ = _
  rw [tokensFrom_blank (all_eq_true.mpr (isBlank_of_strip h)), parseTokens_nil]

theorem check_eq_examine (v : Vocabulary) (code : String) :
    (({ vocabulary := v } : Checker).check code).1 = (examine v (some .standard) code.toList).findings := by
  by_cases hblank : (strip code.toList).isEmpty = true
  · have hhide : hide code.toList = code.toList :=
      hide_of_not_mem fun hbrace => ne_of_isBlank (isBlank_of_strip hblank _ hbrace) (d := '\x7b') rfl rfl
    rw [Checker.check, if_pos hblank, examine, hhide]
    simp only [examineHidden, Engine.standard, parse_blank hblank]
    rfl
  · rw [Checker.check, if_neg hblank]
    rfl

/-! ### Findings at each place -/

theorem flatMap_eq_iff {α β γ : Type} {R : α → β → Prop} {f : α → List γ} {g : β → List γ} {xs : List α} {ys : List β}
    (h : Forall₂ R xs ys) (hle : ∀ x y, R x y → (f x).length ≤ (g y).length) :
    (xs.flatMap f).length ≤ (ys.flatMap g).length ∧
      (ys.flatMap g = xs.flatMap f ↔ ∀ p ∈ xs.zip ys, g p.2 = f p.1) := by
  induction h with
  | nil => simp
  | @cons x y xs ys hxy _ ih =>
    obtain ⟨hrest, hiff⟩ := ih
    have hhead := hle x y hxy
    simp only [flatMap_cons, length_append, zip_cons_cons, forall_mem_cons]
    refine ⟨Nat.add_le_add hhead hrest, ?_⟩
    rw [← hiff]
    constructor
    · intro heq
      have hlength := congrArg List.length heq
      rw [length_append, length_append] at hlength
      exact append_inj heq (by omega)
    · rintro ⟨hx, hxs⟩
      rw [hx, hxs]

/-- **Hiding tags changes nothing exactly if no placeholder misleads the check.** For a script that is accepted as it
    stands and whose tags are sheltered, the check finds what the rules of the watch find in the script as it stands,
    exactly if the placeholders mislead it at no call. -/
theorem check_eq_lint_iff {v : Vocabulary} (hv : v.Plain) {code : String} {script : List Stat}
    (hparse : parse code.toList = .ok script) (hsheltered : isSheltered code.toList = true)
    (hbare : ∀ d ∈ lint v script, d.reveal = d) :
    ∃ hidden, parse (hide code.toList) = .ok hidden ∧
      ((({ vocabulary := v } : Checker).check code).1 = lint v script ↔
        ∀ p ∈ (blockSites script).zip (blockSites hidden), p.1.misled v p.2 = false) := by
  obtain ⟨stuck, ts', hmasked, hts'⟩ :=
    exists_masked hsheltered (rfl : ({} : Place).line = ({} : Place).line) false
  obtain ⟨hstuck, hidden, hhidden, hstats⟩ := parseTokens_hides hmasked hparse (tokenize (hide code.toList)).2
  have hsites := block_hides hstats
  have hparse' : parse (hide code.toList) = .ok hidden := by
    rw [hts' hstuck] at hhidden
    exact hhidden
  refine ⟨hidden, hparse', ?_⟩
  by_cases hblank : (Text.strip code.toList).isEmpty = true
  · -- a blank script is not examined, and has nothing to be found
    obtain rfl : [] = script := Except.ok.inj ((parse_blank hblank).symm.trans hparse)
    have hnone : (({ vocabulary := v } : Checker).check code).1 = [] := by
      rw [Checker.check, if_pos hblank]
    exact ⟨fun _ p hp => absurd hp List.not_mem_nil, fun _ => hnone⟩
  · have hcheck : (({ vocabulary := v } : Checker).check code).1 = (lint v hidden).map Diagnostic.reveal := by
      rw [Checker.check, if_neg hblank]
      show (examineHidden v .standard (hide code.toList)).findings.map Diagnostic.reveal = _
      simp only [examineHidden, Engine.standard, hparse']
    rw [hcheck, lint, lint, List.map_flatMap]
    have hle : ∀ s s', s.Hides s' →
        (siteFindings v s).length ≤ ((siteFindings v s').map Diagnostic.reveal).length := by
      intro s s' h
      rw [List.length_map]
      exact length_siteFindings_le hv h
    rw [(flatMap_eq_iff hsites hle).2]
    refine forall₂_congr fun p hp => reveal_siteFindings_iff hv ?_ ?_
    · exact (List.forall₂_iff_zip.mp hsites).2 hp
    · intro d hd
      exact hbare d (List.mem_flatMap.mpr ⟨p.1, (List.of_mem_zip hp).1, hd⟩)

theorem check_eq_lint_iff_table :
    let code := "wm_schedule(\x7bx\x7d)\nwm_action('\x7bdh\x7d')"
    ∃ script hidden, parse code.toList = .ok script ∧ parse (hide code.toList) = .ok hidden ∧
      ((({} : Checker).check code).1 = lint {} script ↔
        ∀ p ∈ (blockSites script).zip (blockSites hidden), p.1.misled {} p.2 = false) := by
  intro code
  have hlint : (parse code.toList).toOption.map (lint {}) =
      some [warning 0 .unknownFunction "Unknown WatchMaker function: 'wm_schedule'",
        warning 1 .unknownFunction "Unknown WatchMaker function: 'wm_action'"] := by decide +kernel
  cases hparse : parse code.toList with
  | error e =>
    rw [hparse] at hlint
    exact absurd hlint nofun
  | ok script =>
    rw [hparse] at hlint
    have hbare : ∀ d ∈ lint {} script, d.reveal = d := by
      rw [Option.some.inj hlint]
      decide +kernel
    obtain ⟨hidden, hhidden⟩ := check_eq_lint_iff (by decide) hparse (by decide +kernel) hbare
    exact ⟨script, hidden, rfl, hhidden⟩

/-- **A tag between double quotes ends the string it stands in.** The script is accepted as it stands and
    nothing is wrong with it, but the check rejects it. -/
theorem check_ne_lint :
    let code := "print(\"\x7bdh\x7d\")"
    (parse code.toList).toOption.map (lint {}) = some [] ∧
      (({} : Checker).check code).1.map (·.rule) = [.grammar] := by
  decide +kernel

end WatchFace.Lua
