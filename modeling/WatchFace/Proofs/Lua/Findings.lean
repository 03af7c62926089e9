import WatchFace.Lua.Checker
import WatchFace.Proofs.Actions

/-!
# What findings can be

Which lines, severities and rules findings have, by their source.
-/

namespace WatchFace.Lua

open EStateM List Text

variable {i n : Nat} {b : Outline.Balances} {d : Diagnostic} {code cs message output u : List Char}
  {s : Outline.State} {lines : List (List Char)} {ds : List Diagnostic}

/-! ### The rough check -/

namespace Outline

structure Sound (n : Nat) (d : Diagnostic) : Prop where
  line : d.line < n
  severity : d.severity = .error
  rule : d.rule = .blocks ∨ d.rule = .brackets

/-- The blocks and brackets that are open were opened on one of the first `n` lines. -/
structure State.Within (n : Nat) (s : State) : Prop where
  blocks : ∀ b ∈ s.blocks, b.line < n
  balances : ∀ k, (s.balances.get k).depth ≠ 0 → (s.balances.get k).line < n

def openedAt (blocks : List OpenBlock) (i : Nat) (line : List Char) : List OpenBlock :=
  match opener? line with
  | some w => ⟨w, i⟩ :: blocks
  | none => blocks

def unexpectedEnd (i : Nat) : Diagnostic := { line := i, message := "Unexpected 'end'", rule := .blocks }

theorem stepBlocks_eq (blocks : List OpenBlock) (i : Nat) (line : List Char) : stepBlocks blocks i line =
    if endsBlock line then
      match openedAt blocks i line with
      | _ :: rest => (rest, [])
      | [] => ([], [unexpectedEnd i])
    else if endsLoop line then
      match openedAt blocks i line with
      | b :: rest => (if b.word = "repeat" then rest else openedAt blocks i line, [])
      | [] => ([], [])
    else (openedAt blocks i line, []) := rfl

theorem found_stepBlocks (blocks : List OpenBlock) (i : Nat) (line : List Char) :
    (stepBlocks blocks i line).2 = if endsBlock line ∧ openedAt blocks i line = [] then [unexpectedEnd i] else [] := by
  rw [stepBlocks_eq]
  cases openedAt blocks i line <;> cases endsBlock line <;> cases endsLoop line <;> simp

theorem lines_stepBlocks (hi : i < n) {blocks : List OpenBlock} (h : ∀ b ∈ blocks, b.line < n) (line : List Char) :
    ∀ b ∈ (stepBlocks blocks i line).1, b.line < n := by
  have hopened : ∀ b ∈ openedAt blocks i line, b.line < n := by
    unfold openedAt
    split
    · exact forall_mem_cons.mpr ⟨hi, h⟩
    · exact h
  rw [stepBlocks_eq]
  -- a line may open a block and end it as well
  cases heq : openedAt blocks i line with
  | nil => split <;> simp
  | cons b rest =>
    rw [heq] at hopened
    have hrest := (forall_mem_cons.mp hopened).2
    split
    · exact hrest
    · split
      · dsimp only
        split
        · exact hrest
        · exact hopened
      · exact hopened

theorem get_stepChar (b : Balances) (i : Nat) (c : Char) (k : Bracket) :
    (stepChar b i c).1.get k = ((b.get k).step k i c).1 := by
  cases k <;> rfl

theorem step_within (hi : i < n) {b : Balance} (h : b.depth ≠ 0 → b.line < n) (k : Bracket) (c : Char) :
    (b.step k i c).1.depth ≠ 0 → (b.step k i c).1.line < n := by
  unfold Balance.step
  split
  · intro _
    dsimp only
    split
    · exact hi
    · exact h ‹_›
  · split
    · split
      · exact fun hne => absurd rfl hne
      · exact fun _ => h (by omega)
    · exact h

theorem lines_stepChars (hi : i < n) (cs : List Char) {k : Bracket} (h : (b.get k).depth ≠ 0 → (b.get k).line < n) :
    ((stepChars b i cs).1.get k).depth ≠ 0 → ((stepChars b i cs).1.get k).line < n := by
  induction cs generalizing b with
  | nil => exact h
  | cons c cs ih =>
    refine ih (b := (stepChar b i c).1) ?_
    rw [get_stepChar]
    exact step_within hi h k c

theorem found_stepChar (b : Balances) (i : Nat) (c : Char) : (stepChar b i c).2 =
    Bracket.all.foldl (fun ds k => if ((b.get k).step k i c).2 then ds ++ [unmatched k i] else ds) [] := rfl

theorem mem_stepChar {c : Char} (h : d ∈ (stepChar b i c).2) : ∃ k, d = unmatched k i := by
  have hadd : ∀ {ds : List Diagnostic} {k : Bracket},
      d ∈ (if ((b.get k).step k i c).2 then ds ++ [unmatched k i] else ds) → (d ∈ ds → ∃ k, d = unmatched k i) →
        ∃ k, d = unmatched k i := by
    intro ds k h hds
    split at h
    · exact (mem_append.mp h).elim hds fun h => ⟨k, mem_singleton.mp h⟩
    · exact hds h
  rw [found_stepChar] at h
  exact hadd h fun h => hadd h fun h => hadd h nofun

theorem mem_stepChars (h : d ∈ (stepChars b i cs).2) : ∃ k, d = unmatched k i := by
  induction cs generalizing b with
  | nil => cases h
  | cons c cs ih => exact (mem_append.mp h).elim mem_stepChar ih

def State.next (st : State) (l : Nat × List Char) : State :=
  ⟨(stepBlocks st.blocks l.1 l.2).1, (stepChars st.balances l.1 l.2).1⟩

theorem run_cons (st : State) (l : Nat × List Char) (lines : List (Nat × List Char)) : run st (l :: lines) =
    ((run (st.next l) lines).1,
      (stepBlocks st.blocks l.1 l.2).2 ++ (stepChars st.balances l.1 l.2).2 ++ (run (st.next l) lines).2) := rfl

theorem mem_run {lines : List (Nat × List Char)} (h : d ∈ (run s lines).2) :
    ∃ l ∈ lines, d = unexpectedEnd l.1 ∨ ∃ k, d = unmatched k l.1 := by
  induction lines generalizing s with
  | nil => cases h
  | cons l lines ih =>
    rw [run_cons] at h
    obtain h | h := mem_append.mp h
    · refine ⟨l, mem_cons_self, (mem_append.mp h).imp (fun h => ?_) mem_stepChars⟩
      rw [found_stepBlocks] at h
      split at h
      · exact mem_singleton.mp h
      · cases h
    · obtain ⟨l', hl', h⟩ := ih h
      exact ⟨l', mem_cons_of_mem _ hl', h⟩

theorem within_run (lines : List (Nat × List Char)) (hlines : ∀ l ∈ lines, l.1 < n) (hs : s.Within n) :
    (run s lines).1.Within n := by
  induction lines generalizing s with
  | nil => exact hs
  | cons l lines ih =>
    obtain ⟨hl, hrest⟩ := forall_mem_cons.mp hlines
    exact ih hrest ⟨lines_stepBlocks hl hs.blocks l.2, fun k => lines_stepChars hl l.2 (hs.balances k)⟩

theorem sound_leftOpen (hs : s.Within n) : ∀ d ∈ leftOpen s, Sound n d := by
  refine forall_mem_append.mpr ⟨?_, ?_⟩
  · intro d hd
    obtain ⟨b, hb, rfl⟩ := mem_map.mp hd
    exact ⟨hs.blocks b (mem_reverse.mp hb), rfl, .inl rfl⟩
  · intro d hd
    obtain ⟨k, -, hk⟩ := mem_filterMap.mp hd
    dsimp only at hk
    split at hk
    · cases hk
    · cases hk
      exact ⟨hs.balances k ‹_›, rfl, .inr rfl⟩

/-- **The rough check finds errors about blocks and brackets, on lines that the script has.** -/
theorem sound_check (code : List Char) : ∀ d ∈ check code, Sound (splitLines code).length d := by
  have hlines : ∀ l ∈ cleanLines code, l.1 < (splitLines code).length := by
    intro l hl
    obtain ⟨⟨line, i⟩, hmem, hsome⟩ := mem_filterMap.mp hl
    dsimp only at hsome
    split at hsome
    · cases hsome
    · cases hsome
      exact (mem_zipIdx' hmem).1
  have hstart : State.Within (splitLines code).length {} :=
    ⟨nofun, fun k hk => absurd (by cases k <;> rfl) hk⟩
  refine forall_mem_append.mpr ⟨fun d hd => ?_, sound_leftOpen (within_run _ hlines hstart)⟩
  obtain ⟨l, hl, rfl | ⟨k, rfl⟩⟩ := mem_run hd
  · exact ⟨hlines l hl, rfl, .inl rfl⟩
  · exact ⟨hlines l hl, rfl, .inr rfl⟩

end Outline

/-! ### The rules of the watch -/

def watchRules : List Rule :=
  [.unknownFunction, .unknownCallback, .invalidAction, .invalidEasing, .scheduleArgument]

def Site.line : Site → Nat
  | .call callee _ => Lint.callLine callee
  | .definition _ line => line - 1

namespace Lint

structure Sound (line : Nat) (d : Diagnostic) : Prop where
  line : d.line = line
  severity : d.severity = .warning
  rule : d.rule ∈ watchRules

theorem sound_warning (line : Nat) {rule : Rule} (h : rule ∈ watchRules) (message : String) :
    Sound line (warning line rule message) := ⟨rfl, rfl, h⟩

theorem sound_scheduleFindings (v : Vocabulary) (line : Nat) (args : List Expr) :
    ∀ d ∈ scheduleFindings v line args, Sound line d := by
  unfold scheduleFindings
  split
  · exact nofun
  · intro d hd
    obtain ⟨easing, -, heasing⟩ := mem_filterMap.mp hd
    split at heasing
    · cases heasing
    · cases heasing
      exact sound_warning line (by decide) _
  · intro d hd
    obtain rfl := mem_singleton.mp hd
    exact sound_warning line (by decide) _

theorem sound_actionFindings (v : Vocabulary) (line : Nat) (args : List Expr) :
    ∀ d ∈ actionFindings v line args, Sound line d := by
  unfold actionFindings
  split
  · split
    · exact nofun
    · intro d hd
      obtain rfl := mem_singleton.mp hd
      exact sound_warning line (by decide) _
  · exact nofun

theorem sound_siteFindings (v : Vocabulary) (s : Site) : ∀ d ∈ siteFindings v s, Sound s.line d := by
  cases s with
  | call callee args =>
    show ∀ d ∈ callFindings v callee args, Sound (callLine callee) d
    unfold callFindings
    split
    · exact nofun
    · dsimp only
      split
      · refine forall_mem_append.mpr ⟨forall_mem_append.mpr ⟨?_, ?_⟩, ?_⟩
        · split
          · exact nofun
          · intro d hd
            obtain rfl := mem_singleton.mp hd
            exact sound_warning _ (by decide) _
        · split
          · exact sound_scheduleFindings v _ args
          · exact nofun
        · split
          · exact sound_actionFindings v _ args
          · exact nofun
      · exact nofun
  | definition name line =>
    show ∀ d ∈ definitionFindings name line, Sound (line - 1) d
    unfold definitionFindings
    split
    · intro d hd
      obtain rfl := mem_singleton.mp hd
      exact sound_warning _ (by decide) _
    · exact nofun

end Lint

/-- **The rules of the watch find warnings, each on the line of its call or function.** -/
theorem sound_lint {v : Vocabulary} {script : List Stat} (hd : d ∈ lint v script) :
    ∃ s ∈ blockSites script, Lint.Sound s.line d := by
  obtain ⟨s, hs, hd⟩ := mem_flatMap.mp hd
  exact ⟨s, hs, Lint.sound_siteFindings v s d hd⟩

/-! ### The reports of a parser -/

namespace Report

structure Sound (d : Diagnostic) : Prop where
  severity : d.severity = .error
  rule : d.rule = .grammar

theorem run?_append {p : Char → Bool} {v : List Char} (hne : u ≠ []) (hu : ∀ c ∈ u, p c = true)
    (hv : ∀ c ∈ v.head?, p c = false) : run? p (u ++ v) = some (u, v) := by
  have htake : v.takeWhile p = [] ∧ v.dropWhile p = v := by
    cases v with
    | nil => exact ⟨rfl, rfl⟩
    | cons c v =>
      have hc := hv c rfl
      exact ⟨by simp [hc], by simp [hc]⟩
  have hempty : u.isEmpty = false := by simpa using hne
  rw [run?, takeWhile_append_of_pos hu, dropWhile_append_of_pos hu, htake.1, htake.2, append_nil]
  simp only [hempty, Bool.false_eq_true, if_false]

def Raw.Short (r : Raw) : Prop := r.line.length ≤ digitLimit ∧ r.column.length ≤ digitLimit

def Raw.placed (lines : List (List Char)) (r : Raw) : Located :=
  Report.locate lines (decimalValue r.line) (decimalValue r.column) r.message

theorem Raw.locate_eq_ok_iff {r : Raw} {p : Located} : r.locate lines = .ok p ↔ r.Short ∧ p = r.placed lines := by
  unfold Raw.locate Raw.Short readDigits
  by_cases hline : r.line.length ≤ digitLimit
  · by_cases hcolumn : r.column.length ≤ digitLimit
    · rw [if_pos hline, if_pos hcolumn]
      exact ⟨fun h => ⟨⟨hline, hcolumn⟩, (Except.ok.inj h).symm⟩, fun h => h.2 ▸ rfl⟩
    · rw [if_pos hline, if_neg hcolumn]
      exact ⟨fun h => (by cases h), fun h => absurd h.1.2 hcolumn⟩
  · rw [if_neg hline]
    exact ⟨fun h => (by cases h), fun h => absurd h.1.1 hline⟩

theorem mapM_locate_eq_ok_iff {rs : List Raw} {ps : List Located} :
    rs.mapM (Raw.locate lines) = .ok ps ↔ (∀ r ∈ rs, r.Short) ∧ ps = rs.map (Raw.placed lines) := by
  induction rs generalizing ps with
  | nil => exact ⟨fun h => ⟨forall_mem_nil _, (Except.ok.inj h).symm⟩, fun h => h.2 ▸ rfl⟩
  | cons r rs ih =>
    rw [mapM_cons, forall_mem_cons]
    constructor
    · intro h
      obtain ⟨p, hp, h⟩ := exists_of_bind_eq_ok h
      obtain ⟨ps, hps, h⟩ := exists_of_bind_eq_ok h
      obtain ⟨hshort, rfl⟩ := Raw.locate_eq_ok_iff.mp hp
      obtain ⟨hshorts, rfl⟩ := ih.mp hps
      exact ⟨⟨hshort, hshorts⟩, (Except.ok.inj h).symm⟩
    · rintro ⟨⟨hshort, hshorts⟩, rfl⟩
      rw [Raw.locate_eq_ok_iff.mpr ⟨hshort, rfl⟩, ih.mpr ⟨hshorts, rfl⟩]
      rfl

theorem ofOutput_eq_ok_iff : ofOutput output code = .ok ds ↔ (∀ r ∈ scan output, r.Short) ∧
      ds = (distinct [] ((scan output).map (Raw.placed (splitLines code)))).map
        (Located.diagnostic (splitLines code)) := by
  simp only [ofOutput]
  constructor
  · intro h
    obtain ⟨ps, hps, h⟩ := exists_of_bind_eq_ok h
    obtain ⟨hshort, rfl⟩ := mapM_locate_eq_ok_iff.mp hps
    exact ⟨hshort, (Except.ok.inj h).symm⟩
  · rintro ⟨hshort, rfl⟩
    rw [mapM_locate_eq_ok_iff.mpr ⟨hshort, rfl⟩]
    rfl

theorem sound_ofOutput (h : ofOutput output code = .ok ds) : ∀ d ∈ ds, Sound d := by
  obtain ⟨-, rfl⟩ := ofOutput_eq_ok_iff.mp h
  intro d hd
  obtain ⟨p, -, rfl⟩ := mem_map.mp hd
  exact ⟨rfl, rfl⟩

def messageLine (message : List Char) : Except TooManyDigits Nat :=
  match namedLine? message with
  | none => .ok 0
  | some (digits, _) => (readDigits digits).map (· - 1)

theorem ofFault_eq (message : List Char) : ofFault message = (messageLine message).map fun line =>
    { line := line, message := String.ofList message, rule := .grammar } := by
  unfold ofFault messageLine
  cases namedLine? message with
  | none => rfl
  | some found =>
    dsimp only
    cases readDigits found.1 <;> rfl

theorem sound_ofFault (h : ofFault message = .ok d) : Sound d ∧ messageLine message = .ok d.line := by
  rw [ofFault_eq] at h
  cases hline : messageLine message with
  | error e =>
    rw [hline] at h
    cases h
  | ok line =>
    rw [hline] at h
    cases h
    exact ⟨⟨rfl, rfl⟩, rfl⟩

theorem sound_ofMessage (h : ofMessage message code = .ok d) : Sound d ∧ messageLine message = .ok d.line := by
  unfold ofMessage at h
  unfold messageLine
  cases hnamed : namedLine? message with
  | none =>
    rw [hnamed] at h
    cases h
    exact ⟨⟨rfl, rfl⟩, rfl⟩
  | some found =>
    rw [hnamed] at h
    dsimp only at h ⊢
    obtain ⟨line, hline, h⟩ := exists_of_bind_eq_ok h
    rw [hline]
    -- the column may be missing, or have too many digits
    cases hcolumn : (after? [':'] found.2).bind (run? isDigit) with
    | none =>
      simp only [hcolumn] at h
      cases h
      exact ⟨⟨rfl, rfl⟩, rfl⟩
    | some digits =>
      simp only [hcolumn] at h
      obtain ⟨column, -, h⟩ := exists_of_bind_eq_ok h
      cases h
      exact ⟨⟨rfl, rfl⟩, rfl⟩

end Report

end WatchFace.Lua
