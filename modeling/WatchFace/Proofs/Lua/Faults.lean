import WatchFace.Proofs.Lua.Findings

/-!
# A check never fails

`Checker.check` is a function, so it cannot fail. This module takes the check apart into steps that can, runs them with
a handler around the parser and the analysis and none around the rough check, and proves that the handler is enough.
-/

namespace WatchFace.Lua

open List Text EStateM

variable {i n : Nat} {code cs : List Char} {previous : Char} {c : Checker} {ε : Type}

inductive Fault where
  | digits (e : TooManyDigits)
  | noElement
  | analysis (message : String)
  deriving Repr, DecidableEq

variable {e : Fault}

def Fault.message : Fault → String
  | .digits e => e.message
  | .noElement => "list index out of range"
  | .analysis message => message

namespace Raising

open Report Outline

variable {α β : Type}

def integer (digits : List Char) : Except Fault Nat := (readDigits digits).mapError .digits

def element (xs : List α) (i : Nat) : Except Fault α :=
  match xs[i]? with
  | some x => .ok x
  | none => .error .noElement

theorem element_eq {xs : List α} {x : α} (h : xs[i]? = some x) : element xs i = .ok x := by
  rw [element, h]

theorem ok_bind (a : α) (f : α → Except Fault β) : (Except.ok a >>= f) = f a := rfl

theorem mapError_bind (x : Except ε α) (f : α → Except ε β) (g : ε → Fault) :
    (x >>= f).mapError g = x.mapError g >>= fun a => (f a).mapError g := by
  cases x <;> rfl

theorem mapError_mapM (f : α → Except ε β) (g : ε → Fault) (xs : List α) :
    (xs.mapM f).mapError g = xs.mapM fun x => (f x).mapError g := by
  induction xs with
  | nil => rfl
  | cons x xs ih =>
    rw [mapM_cons, mapM_cons, mapError_bind]
    congr 1
    funext y
    rw [mapError_bind, ih]
    rfl

/-! ### Reading reports -/

def token? (message : List Char) : Except Fault (Option (List Char)) :=
  match quotedAfter? "at input".toList message with
  | some t => do
    let first ← element (splitOn escapedBreak t) 0
    return some (strip first)
  | none => return (quotedAfter? "mismatched input".toList message).map strip

theorem splitOnGo_ne_nil (s : Char) (sep : List Char) (skip : Nat) (piece cs : List Char) :
    splitOnGo s sep skip piece cs ≠ [] := by
  fun_induction splitOnGo s sep skip piece cs <;> simp_all

theorem token?_eq (message : List Char) : token? message = .ok (Report.token? message) := by
  unfold token? Report.token?
  cases quotedAfter? "at input".toList message with
  | none => rfl
  | some t =>
    dsimp only
    cases hsplit : splitOn escapedBreak t with
    | nil => exact absurd hsplit (splitOnGo_ne_nil _ _ _ _ _)
    | cons first rest => rfl

def lastLineWith? (text : List Char) (lines : List (List Char)) : Nat → Except Fault (Option (Nat × Nat))
  | 0 => return none
  | n + 1 => do
    match findSub? text (← element lines n) with
    | some column => return some (n, column)
    | none => lastLineWith? text lines n

theorem lastLineWith?_eq (text : List Char) {lines : List (List Char)} (hn : n ≤ lines.length) :
    lastLineWith? text lines n = .ok (Report.lastLineWith? text lines n) := by
  induction n with
  | zero => rfl
  | succ n ih =>
    have hline : lines[n]? = some lines[n] := getElem?_eq_getElem hn
    rw [lastLineWith?, element_eq hline, ok_bind, Report.lastLineWith?, hline, Option.bind_some]
    cases findSub? text lines[n] with
    | some column => rfl
    | none => exact ih (Nat.le_of_succ_le hn)

def locate (lines : List (List Char)) (line column : Nat) (message : List Char) : Except Fault Report.Located := do
  let flat := flatMessage message
  let token := (← token? flat).getD []
  let found ← if token.isEmpty then pure none else lastLineWith? token lines (min line lines.length)
  let clean := cleanMessage flat
  match found with
  | some (l, c) => return ⟨l, c, clean, token⟩
  | none => return ⟨line - 1, column, clean, token⟩

theorem locate_eq (lines : List (List Char)) (line column : Nat) (message : List Char) :
    locate lines line column message = .ok (Report.locate lines line column message) := by
  simp only [locate, Report.locate, token?_eq, ok_bind]
  rw [lastLineWith?_eq _ (Nat.min_le_right _ _)]
  generalize ((Report.token? (flatMessage message)).getD []) = token
  cases token with
  | nil => rfl
  | cons c cs =>
    simp only [isEmpty_cons, Bool.false_eq_true, ↓reduceIte, ok_bind]
    cases Report.lastLineWith? (c :: cs) lines (min line lines.length) <;> rfl

def ofOutput (output code : List Char) : Except Fault (List Diagnostic) := do
  let lines := splitLines code
  let located ← (scan output).mapM fun r => do
    let line ← integer r.line
    let column ← integer r.column
    locate lines line column r.message
  return (distinct [] located).map (Report.Located.diagnostic lines)

theorem ofOutput_eq (output code : List Char) :
    ofOutput output code = (Report.ofOutput output code).mapError .digits := by
  have hlocate : (fun r : Raw => do
      let line ← integer r.line
      let column ← integer r.column
      locate (splitLines code) line column r.message) = fun r => (r.locate (splitLines code)).mapError .digits := by
    funext r
    simp only [Raw.locate, mapError_bind, integer, locate_eq]
    rfl
  simp only [ofOutput, Report.ofOutput, mapError_bind, mapError_mapM, hlocate]
  rfl

def ofMessage (message code : List Char) : Except Fault Diagnostic := do
  let (line, column) ← match namedLine? message with
    | none => pure (0, 0)
    | some (digits, rest) => do
      let line ← integer digits
      match (after? [':'] rest).bind (run? isDigit) with
      | some (digits, _) => do pure (line - 1, ← integer digits)
      | none => pure (line - 1, 0)
  let text := if message = "syntax errors".toList then "Syntax error in code" else String.ofList message
  return {
    line := line
    column := column
    message := text
    rule := .grammar
    span := some ⟨lineStart (splitLines code) line + column, 10⟩ }

theorem ofMessage_eq (message code : List Char) :
    ofMessage message code = (Report.ofMessage message code).mapError .digits := by
  unfold ofMessage Report.ofMessage integer
  cases namedLine? message with
  | none => rfl
  | some found =>
    dsimp only
    cases readDigits found.1 with
    | error e => rfl
    | ok line =>
      cases (after? [':'] found.2).bind (run? isDigit) with
      | none => rfl
      | some digits =>
        dsimp only
        cases readDigits digits.1 <;> rfl

def ofFault (message : List Char) : Except Fault Diagnostic := do
  let line ← match namedLine? message with
    | none => pure 0
    | some (digits, _) => do pure ((← integer digits) - 1)
  return { line := line, message := String.ofList message, rule := .grammar }

theorem ofFault_eq (message : List Char) : ofFault message = (Report.ofFault message).mapError .digits := by
  unfold ofFault Report.ofFault integer
  cases namedLine? message with
  | none => rfl
  | some found =>
    dsimp only
    cases readDigits found.1 <;> rfl

/-! ### The rough check -/

def ends (line : List Char) (i : Nat) : Except Fault Bool :=
  if i = 0 then return true
  else return (← element line (i - 1)) != '\\'

/-- A line from position `i` on without its string literals; `quote` is the quote of the one that is being read. -/
def withoutStrings (line : List Char) (quote : Option Char) (i : Nat) : Except Fault (List Char) :=
  if i < line.length then do
    let c ← element line i
    match quote with
    | none =>
      if c = '"' ∨ c = '\'' then withoutStrings line (some c) (i + 1)
      else return c :: (← withoutStrings line none (i + 1))
    | some q =>
      let ended ← if c = q then ends line i else pure false
      withoutStrings line (if ended then none else some q) (i + 1)
  else return []
termination_by line.length - i

def stepBlocks (blocks : List OpenBlock) (i : Nat) (line : List Char) :
    Except Fault (List OpenBlock × List Diagnostic) := do
  let opened := openedAt blocks i line
  if endsBlock line then
    if opened.isEmpty then return (opened, [unexpectedEnd i])
    else
      discard (element opened 0)
      return (opened.tail, [])
  else if endsLoop line && !opened.isEmpty then
    let innermost ← element opened 0
    return (if innermost.word = "repeat" then opened.tail else opened, [])
  else return (opened, [])

theorem stepBlocks_eq (blocks : List OpenBlock) (i : Nat) (line : List Char) :
    stepBlocks blocks i line = .ok (Outline.stepBlocks blocks i line) := by
  rw [stepBlocks, Outline.stepBlocks_eq]
  cases openedAt blocks i line with
  | nil =>
    cases endsBlock line
    · cases endsLoop line <;> rfl
    · rfl
  | cons b rest =>
    cases endsBlock line
    · cases endsLoop line <;> rfl
    · rfl

theorem ends_eq (hfirst : i = 0 → previous ≠ '\\') (hprevious : ∀ j, i = j + 1 → cs[j]? = some previous) :
    ends cs i = .ok (decide (previous ≠ '\\')) := by
  cases i with
  | zero =>
    rw [decide_eq_true (hfirst rfl)]
    rfl
  | succ j =>
    rw [ends, if_neg (Nat.succ_ne_zero j), Nat.add_sub_cancel, element_eq (hprevious j rfl), ok_bind]
    rw [decide_not]
    rfl

theorem withoutStrings_eq (cs : List Char) (quote : Option Char) (i : Nat) (hfirst : i = 0 → previous ≠ '\\')
    (hprevious : ∀ j, i = j + 1 → cs[j]? = some previous) :
    withoutStrings cs quote i = .ok (withoutStringsFrom quote previous (cs.drop i)) := by
  -- by the number of characters that are left
  induction hn : cs.length - i generalizing quote i previous with
  | zero =>
    rw [withoutStrings, if_neg (by omega), drop_eq_nil_of_le (by omega)]
    rfl
  | succ n ih =>
    have hi : i < cs.length := by omega
    have hget : cs[i]? = some cs[i] := getElem?_eq_getElem hi
    have hnext : ∀ quote, withoutStrings cs quote (i + 1) =
        .ok (withoutStringsFrom quote cs[i] (cs.drop (i + 1))) := by
      intro quote
      refine ih quote (i + 1) nofun (fun j hj => ?_) (by omega)
      obtain rfl : i = j := Nat.succ.inj hj
      exact hget
    rw [withoutStrings, if_pos hi, element_eq hget, ok_bind, drop_eq_getElem_cons hi]
    cases quote with
    | none =>
      simp only [hnext, ok_bind, withoutStringsFrom]
      split <;> rfl
    | some q =>
      simp only [hnext, withoutStringsFrom]
      by_cases hq : cs[i] = q
      · rw [if_pos hq, ends_eq hfirst hprevious, ok_bind]
        by_cases hplain : previous ≠ '\\'
        · rw [if_pos (decide_eq_true hplain), if_pos ⟨hq, hplain⟩]
        · rw [if_neg (mt of_decide_eq_true hplain), if_neg fun h => hplain h.2]
      · rw [if_neg hq, if_neg fun h => hq h.1]
        rfl

def plainLines (code : List Char) : List (Nat × List Char) :=
  (splitLines code).zipIdx.filterMap fun (line, i) =>
    let stripped := strip line
    if stripped.isEmpty || ['-', '-'].isPrefixOf stripped then none else some (i, stripped)

theorem cleanLines_eq (code : List Char) :
    cleanLines code = (plainLines code).map fun l => (l.1, Outline.withoutStrings l.2) := by
  rw [cleanLines, plainLines, map_filterMap]
  congr 1
  funext l
  dsimp only
  split <;> rfl

def run (s : State) : List (Nat × List Char) → Except Fault (State × List Diagnostic)
  | [] => return (s, [])
  | (i, line) :: rest => do
    let line ← withoutStrings line none 0
    let (blocks, wrongEnd) ← stepBlocks s.blocks i line
    let (balances, wrongBrackets) := stepChars s.balances i line
    let (s, more) ← run ⟨blocks, balances⟩ rest
    return (s, wrongEnd ++ wrongBrackets ++ more)

theorem run_eq (s : State) (lines : List (Nat × List Char)) :
    run s lines = .ok (Outline.run s (lines.map fun l => (l.1, Outline.withoutStrings l.2))) := by
  induction lines generalizing s with
  | nil => rfl
  | cons l lines ih =>
    have hclean : withoutStrings l.2 none 0 = .ok (Outline.withoutStrings l.2) :=
      withoutStrings_eq l.2 none 0 (fun _ => by decide) nofun
    simp only [run, hclean, ok_bind, stepBlocks_eq, ih]
    rfl

def roughCheck (code : List Char) : Except Fault (List Diagnostic) := do
  let (s, wrong) ← run {} (plainLines code)
  return wrong ++ leftOpen s

/-- **The rough check does not fail.** -/
theorem roughCheck_eq (code : List Char) : roughCheck code = .ok (Outline.check code) := by
  rw [roughCheck, run_eq, ← cleanLines_eq]
  rfl

/-! ### The check -/

/-- What a step of a check does to a checker. -/
abbrev Step := EStateM Fault Checker

def step (x : Except Fault α) : Step α :=
  match x with
  | .ok a => pure a
  | .error e => throw e

def parse (code : List Char) : Step (List Diagnostic ⊕ List Stat) := do
  match (← get).engine.parse code with
  | .script script =>
    modify ({ · with accepted := true })
    return .inr script
  | .rejected message printed =>
    let reports ← step (ofOutput printed.toList code)
    let found ← if reports.isEmpty then List.singleton <$> step (ofMessage message.toList code) else pure reports
    modify ({ · with accepted := false })
    return .inl found
  | .fault message =>
    let found ← step (ofFault message.toList)
    modify ({ · with accepted := false })
    return .inl [found]

def analyze (script : List Stat) : Step (List Diagnostic) := do
  let c ← get
  match c.engine.analysisFault with
  | some reason => throw (.analysis reason)
  | none => return lint c.vocabulary script

def checkRoughly (code : List Char) : Step (List Diagnostic) := do
  modify ({ · with roughly := true })
  step (roughCheck code)

def checkByParser (code : List Char) : Step (List Diagnostic) := do
  match ← parse code with
  | .inl found => return found
  | .inr script => analyze script

/-- The check by the parser; where anything goes wrong, that is noted and the rough check is made. -/
def checkFully (code : List Char) : Step (List Diagnostic) :=
  tryCatch (checkByParser code) fun e => do
    let rough ← checkRoughly code
    return { line := 0, message := s!"Parser failed: {e.message}", severity := .warning, rule := .internal } :: rough

def check (code : String) : Step (List Diagnostic) := do
  let c ← get
  if (strip code.toList).isEmpty then
    set { c with lent := false }
    return []
  else
    match c.memory.filter (·.code = code) with
    | some m =>
      set { c with lent := false }
      return m.findings
    | none =>
      let hidden := Tag.hide code.toList
      let found ← if c.available then checkFully hidden else checkRoughly hidden
      let findings := found.map Diagnostic.reveal
      modify ({ · with memory := some ⟨code, findings⟩, lent := true })
      return findings

theorem run_checkRoughly (c : Checker) (code : List Char) :
    (checkRoughly code).run c = .ok (Outline.check code) { c with roughly := true } := by
  rw [checkRoughly, roughCheck_eq]
  rfl

theorem run_checkFully_error {d : Checker} (h : (checkByParser code).run c = .error e d) :
    (checkFully code).run c = .ok (afterFailure e.message code) { d with roughly := true } := by
  rw [checkFully, run_tryCatch_error h, run_bind_ok (run_checkRoughly d code)]
  rfl

theorem run_parse (c : Checker) (code : List Char) : (parse code).run c = match c.engine.parse code with
    | .script script => .ok (.inr script) { c with accepted := true }
    | .rejected message printed =>
      match Report.ofOutput printed.toList code with
      | .error e => .error (.digits e) c
      | .ok [] =>
        match Report.ofMessage message.toList code with
        | .error e => .error (.digits e) c
        | .ok d => .ok (.inl [d]) { c with accepted := false }
      | .ok (d :: ds) => .ok (.inl (d :: ds)) { c with accepted := false }
    | .fault message =>
      match Report.ofFault message.toList with
      | .error e => .error (.digits e) c
      | .ok d => .ok (.inl [d]) { c with accepted := false } := by
  rw [parse, run_bind_ok (rfl : (get : Step Checker).run c = .ok c c)]
  cases c.engine.parse code with
  | script script => rfl
  | rejected message printed =>
    simp only [ofOutput_eq, ofMessage_eq]
    cases Report.ofOutput printed.toList code with
    | error e => rfl
    | ok ds =>
      cases ds with
      | nil => cases Report.ofMessage message.toList code <;> rfl
      | cons d ds => rfl
  | fault message =>
    simp only [ofFault_eq]
    cases Report.ofFault message.toList <;> rfl

/-- The checker after an examination: whether the parser accepted the script, and whether the check failed. -/
def settle (c : Checker) (e : Examination) : Checker :=
  { c with
    accepted := e.accepted.getD c.accepted
    roughly := c.roughly || e.findings.any (·.rule = .internal) }

theorem run_checkFully_failed (accepted : Option Bool)
    (h : (checkByParser code).run c = .error e { c with accepted := accepted.getD c.accepted }) :
    (checkFully code).run c =
      .ok (afterFailure e.message code) (settle c ⟨afterFailure e.message code, accepted⟩) := by
  have hnoted : (afterFailure e.message code).any (·.rule = .internal) = true := rfl
  rw [run_checkFully_error h, settle, hnoted, Bool.or_true]

theorem run_checkFully_found {ds : List Diagnostic} (accepted : Bool)
    (h : (checkByParser code).run c = .ok ds { c with accepted := accepted }) (hrules : ∀ d ∈ ds, d.rule ≠ .internal) :
    (checkFully code).run c = .ok ds (settle c ⟨ds, some accepted⟩) := by
  have hnone : ds.any (·.rule = .internal) = false :=
    any_eq_false.mpr fun d hd => mt of_decide_eq_true (hrules d hd)
  rw [checkFully, run_tryCatch_ok h, settle, hnone, Bool.or_false]
  rfl

/-- **The check by the parser succeeds whatever the engine does.** -/
theorem run_checkFully (c : Checker) (code : List Char) : (checkFully code).run c =
    .ok (examineHidden c.vocabulary c.engine code).findings
      (settle c (examineHidden c.vocabulary c.engine code)) := by
  have hparse := run_parse c code
  have hgrammar : ∀ {d : Diagnostic}, Report.Sound d → d.rule ≠ .internal := by
    intro d hd hrule
    exact absurd (hrule.symm.trans hd.rule) nofun
  unfold examineHidden
  -- a step that fails leaves the checker as it was, or as the parser has left it; the handler goes on from there
  cases hverdict : c.engine.parse code with
  | script script =>
    rw [hverdict] at hparse
    have hrun : (checkByParser code).run c = (analyze script).run { c with accepted := true } :=
      run_bind_ok hparse
    rw [analyze, run_bind_ok (rfl : (get : Step Checker).run { c with accepted := true } = .ok _ _)] at hrun
    cases hfault : c.engine.analysisFault with
    | some reason =>
      simp only [hfault] at hrun ⊢
      exact run_checkFully_failed (some true) hrun
    | none =>
      simp only [hfault] at hrun ⊢
      refine run_checkFully_found true hrun fun d hd hrule => ?_
      obtain ⟨s, -, hsound⟩ := sound_lint hd
      exact absurd (hrule ▸ hsound.rule) (by decide)
  | rejected message printed =>
    rw [hverdict] at hparse
    dsimp only at hparse ⊢
    cases hreports : Report.ofOutput printed.toList code with
    | error e =>
      rw [hreports] at hparse
      exact run_checkFully_failed none (run_bind_error hparse)
    | ok reports =>
      rw [hreports] at hparse
      cases reports with
      | nil =>
        cases hmessage : Report.ofMessage message.toList code with
        | error e =>
          simp only [hmessage] at hparse
          exact run_checkFully_failed none (run_bind_error hparse)
        | ok d =>
          simp only [hmessage] at hparse
          refine run_checkFully_found false (run_bind_ok hparse) ?_
          exact forall_mem_singleton.mpr (hgrammar (sound_ofMessage hmessage).1)
      | cons d ds =>
        refine run_checkFully_found false (run_bind_ok hparse) ?_
        exact fun d hd => hgrammar (sound_ofOutput hreports d hd)
  | fault message =>
    rw [hverdict] at hparse
    dsimp only at hparse ⊢
    cases hmessage : Report.ofFault message.toList with
    | error e =>
      rw [hmessage] at hparse
      exact run_checkFully_failed none (run_bind_error hparse)
    | ok d =>
      rw [hmessage] at hparse
      refine run_checkFully_found false (run_bind_ok hparse) ?_
      exact forall_mem_singleton.mpr (hgrammar (sound_ofFault hmessage).1)

/-- **A check never fails.** Whatever the engine does with a script, and whether or not the analysis fails, the steps of
    a check succeed, and give what `Checker.check` gives. -/
theorem run_check_eq_ok (c : Checker) (code : String) :
    (check code).run c = .ok (c.check code).1 (c.check code).2 := by
  rw [check, EStateM.run_bind_ok (rfl : (get : Step Checker).run c = .ok c c), Checker.check]
  obtain ⟨v, engine, available, memory, lent, accepted, roughly⟩ := c
  split
  · rfl
  · cases memory.filter (·.code = code) with
    | some m => rfl
    | none =>
      dsimp only
      cases available with
      | false =>
        -- without a parser there is no handler around the rough check, and none is needed
        simp only [Bool.false_eq_true, ↓reduceIte, Bool.not_false, Bool.or_true, Bool.true_or]
        rw [EStateM.run_bind_ok (run_checkRoughly _ (Tag.hide code.toList))]
        rfl
      | true =>
        have hany : ∀ ds : List Diagnostic, (ds.map Diagnostic.reveal).any (·.rule = .internal) =
            ds.any (·.rule = .internal) := fun ds => List.any_map
        simp only [↓reduceIte, Bool.not_true, Bool.or_false, examine, hany]
        rw [EStateM.run_bind_ok (run_checkFully _ (Tag.hide code.toList))]
        rfl

end Raising

/-- A request to a checker: a script to check, or to forget the last one. -/
inductive Request where
  | check (code : String)
  | clear
  deriving Repr, DecidableEq

namespace Checker

def fresh (c : Checker) : Checker where
  vocabulary := c.vocabulary
  engine := c.engine
  available := c.available

def serve (c : Checker) : Request → Option (List Diagnostic) × Checker
  | .check code => (some (c.check code).1, (c.check code).2)
  | .clear => (none, c.clear)

def serveAll (c : Checker) : List Request → List (Option (List Diagnostic)) × Checker
  | [] => ([], c)
  | r :: rs =>
    let (answer, c) := c.serve r
    let (answers, c) := c.serveAll rs
    (answer :: answers, c)

/-- What a checker remembers is what a fresh one finds. -/
def Recalls (c : Checker) : Prop := ∀ m ∈ c.memory, m.findings = (c.fresh.check m.code).1

theorem recalls_fresh (c : Checker) : c.fresh.Recalls := nofun

theorem fresh_check (c : Checker) (code : String) : (c.check code).2.fresh = c.fresh := by
  unfold check
  split
  · rfl
  · split <;> rfl

theorem fresh_serve (c : Checker) (r : Request) : (c.serve r).2.fresh = c.fresh := by
  cases r with
  | check code => exact c.fresh_check code
  | clear => rfl

section

variable {c : Checker} (hc : c.Recalls)

include hc

theorem check_eq_fresh (code : String) : (c.check code).1 = (c.fresh.check code).1 := by
  by_cases hblank : (Text.strip code.toList).isEmpty = true
  · simp only [check, if_pos hblank]
  · cases hmemory : c.memory.filter (·.code = code) with
    | some m =>
      obtain ⟨hm, hcode⟩ := Option.filter_eq_some_iff.mp hmemory
      obtain rfl : m.code = code := of_decide_eq_true hcode
      have hrecalled : (c.check m.code).1 = m.findings := by
        simp only [check, if_neg hblank, hmemory]
      exact hrecalled.trans (hc m hm)
    | none =>
      have hexamined : (c.check code).1 =
          (examine c.vocabulary (if c.available then some c.engine else none) code.toList).findings := by
        simp only [check, if_neg hblank, hmemory]
      rw [hexamined]
      simp only [check, if_neg hblank]
      rfl

theorem recalls_check (code : String) : (c.check code).2.Recalls := by
  intro m hm
  rw [fresh_check]
  by_cases hblank : (Text.strip code.toList).isEmpty = true
  · rw [check, if_pos hblank] at hm
    exact hc m hm
  · cases hmemory : c.memory.filter (·.code = code) with
    | some m' =>
      simp only [check, if_neg hblank, hmemory] at hm
      exact hc m hm
    | none =>
      simp only [check, if_neg hblank, hmemory, Option.mem_some_iff] at hm
      obtain rfl := hm
      simp only [check, if_neg hblank]
      rfl

theorem recalls_serve (r : Request) : (c.serve r).2.Recalls := by
  cases r with
  | check code => exact recalls_check hc code
  | clear => exact nofun

theorem answer_serve (r : Request) : (c.serve r).1 = (c.fresh.serve r).1 := by
  cases r with
  | check code => exact congrArg some (check_eq_fresh hc code)
  | clear => rfl

theorem answers_serveAll (rs : List Request) : (c.serveAll rs).1 = rs.map fun r => (c.fresh.serve r).1 := by
  -- the checker changes along the session, but a fresh one of its kind stays the same
  induction rs generalizing c with
  | nil => rfl
  | cons r rs ih =>
    show (c.serve r).1 :: ((c.serve r).2.serveAll rs).1 = _
    rw [ih (recalls_serve hc r), fresh_serve, answer_serve hc, List.map_cons]

end

-- a list that was handed out is also the one that is remembered: emptying it loses the findings
example : let c : Checker := (({} : Checker).serve (.check "end")).2.dropAnswer
    (c.serve (.check "end")).1 = some [] ∧ (c.fresh.serve (.check "end")).1 ≠ some [] := by
  decide +kernel

end Checker

end WatchFace.Lua
