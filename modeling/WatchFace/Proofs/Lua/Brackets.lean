import WatchFace.Proofs.Lua.Legible

/-!
# Brackets, blocks and what closes them

The rough check does not pair brackets: it keeps how many are open and one line, and this is enough to find the brackets
that stay alone. Nor does it look at the kinds of blocks: `end` closes whatever was opened last, and `until` does
nothing where that is no loop.
-/

namespace WatchFace.Lua.Outline

open List

def Bracket.has (k : Bracket) (c : Char) : Bool := c = k.opening ∨ c = k.closing

def bracketsIn (k : Bracket) (lines : List (Nat × List Char)) : List (Nat × Char) :=
  lines.flatMap fun l => (l.2.filter k.has).map fun c => (l.1, c)

/-- The lines of the brackets without a partner so far: of the opening ones, the last first, and of the closing ones.
    -/
structure Pairing where
  opened : List Nat := []
  closed : List Nat := []
  deriving Repr, DecidableEq

/-- One more bracket: a closing one is the partner of the last opening one that waits for one. -/
def Pairing.step (k : Bracket) (p : Pairing) (x : Nat × Char) : Pairing :=
  if x.2 = k.opening then { p with opened := x.1 :: p.opened }
  else
    match p.opened with
    | _ :: rest => { p with opened := rest }
    | [] => { p with closed := p.closed ++ [x.1] }

def Pairing.after (k : Bracket) (p : Pairing) (xs : List (Nat × Char)) : Pairing := xs.foldl (Pairing.step k) p

/-! ### A counter in place of a stack -/

/-- A balance tells how many opening brackets wait for their partner, and the line of the first of them. -/
structure Counts (b : Balance) (p : Pairing) : Prop where
  depth : b.depth = p.opened.length
  line : ∀ i ∈ p.opened.getLast?, b.line = i

variable {b : Balance} {p : Pairing} {k : Bracket}

theorem Counts.opening (h : Counts b p) (i : Nat) :
    Counts ⟨b.depth + 1, if b.depth = 0 then i else b.line⟩ { p with opened := i :: p.opened } := by
  refine ⟨congrArg (· + 1) h.depth, ?_⟩
  -- the first of the opening brackets is this one if none waits, and else the same as before
  cases hopened : p.opened with
  | nil => simp [h.depth, hopened]
  | cons j rest => simpa [h.depth, hopened] using h.line

theorem Counts.closing {d : Nat} (h : Counts b p) (hdepth : b.depth = d + 1) :
    ∃ j rest, p.opened = j :: rest ∧ Counts ⟨d, b.line⟩ { p with opened := rest } := by
  cases hopened : p.opened with
  | nil => simp [h.depth, hopened] at hdepth
  | cons j rest =>
    refine ⟨j, rest, rfl, ?_, fun i hi => h.line i ?_⟩
    · simpa [h.depth, hopened] using hdepth.symm
    · cases rest with
      | nil => cases hi
      | cons l rest => simpa [hopened] using hi

theorem counts_step (h : Counts b p) (i : Nat) (c : Char) : let p' := if k.has c then p.step k (i, c) else p
    Counts (b.step k i c).1 p' ∧ p'.closed = p.closed ++ if (b.step k i c).2 then [i] else [] := by
  have hkind : k.closing ≠ k.opening := by cases k <;> decide
  unfold Balance.step
  by_cases hopening : c = k.opening
  · simpa [Bracket.has, hopening, Pairing.step] using h.opening i
  · by_cases hclosing : c = k.closing
    · cases hdepth : b.depth with
      | zero =>
        have hopened : p.opened = [] := eq_nil_of_length_eq_zero (h.depth.symm.trans hdepth)
        have hcounts : Counts ⟨0, b.line⟩ { p with closed := p.closed ++ [i] } :=
          ⟨by simp [hopened], by simp [hopened]⟩
        simpa [Bracket.has, hclosing, hkind, Pairing.step, hopened] using hcounts
      | succ d =>
        obtain ⟨j, rest, hopened, hrest⟩ := h.closing hdepth
        simpa [Bracket.has, hclosing, hkind, Pairing.step, hopened] using hrest
    · simpa [Bracket.has, hopening, hclosing] using h

/-! ### Reports -/

def unmatchedText (k : Bracket) : String := "Unmatched '" ++ k.closing.toString ++ "'"

def unclosedText (k : Bracket) : String := "Unclosed '" ++ k.opening.toString ++ "'"

def saying (text : String) (ds : List Diagnostic) : List Diagnostic := ds.filter fun d => d.message = text

theorem saying_append (text : String) (ds es : List Diagnostic) :
    saying text (ds ++ es) = saying text ds ++ saying text es := filter_append ..

theorem saying_unmatched (j : Bracket) (i : Nat) :
    saying (unmatchedText k) [unmatched j i] = if j = k then [unmatched j i] else [] := by
  cases j <;> cases k <;> rfl

theorem saying_stepChar (bs : Balances) (i : Nat) (c : Char) :
    saying (unmatchedText k) (stepChar bs i c).2 = if ((bs.get k).step k i c).2 then [unmatched k i] else [] := by
  have hadd : ∀ ds j, saying (unmatchedText k) (if ((bs.get j).step j i c).2 then ds ++ [unmatched j i] else ds) =
      saying (unmatchedText k) ds ++ if ((bs.get j).step j i c).2 ∧ j = k then [unmatched k i] else [] := by
    intro ds j
    split
    case isTrue hwrong =>
      rw [saying_append, saying_unmatched]
      by_cases hj : j = k
      · simp [hj ▸ hwrong, hj]
      · simp [hj]
    case isFalse hwrong => simp [hwrong]
  rw [found_stepChar, Bracket.all, foldl_cons, foldl_cons, foldl_cons, foldl_nil, hadd, hadd, hadd]
  cases k <;> simp [saying]

theorem counts_stepChars (i : Nat) (cs : List Char) {bs : Balances} (h : Counts (bs.get k) p) :
    let p' := p.after k ((cs.filter k.has).map fun c => (i, c))
    Counts ((stepChars bs i cs).1.get k) p' ∧
      p'.closed.map (unmatched k) = p.closed.map (unmatched k) ++ saying (unmatchedText k) (stepChars bs i cs).2 := by
  induction cs generalizing bs p with
  | nil => exact ⟨h, (append_nil _).symm⟩
  | cons c cs ih =>
    obtain ⟨hcounts, hclosed⟩ := counts_step (k := k) h i c
    rw [← get_stepChar] at hcounts
    obtain ⟨hrest, hmore⟩ := ih hcounts
    have hafter : p.after k (((c :: cs).filter k.has).map fun c => (i, c)) =
        (if k.has c then p.step k (i, c) else p).after k ((cs.filter k.has).map fun c => (i, c)) := by
      by_cases hc : k.has c = true
      · simp [hc, Pairing.after]
      · simp [hc]
    have hcons : stepChars bs i (c :: cs) =
      ((stepChars (stepChar bs i c).1 i cs).1, (stepChar bs i c).2 ++ (stepChars (stepChar bs i c).1 i cs).2) := rfl
    rw [hafter, hcons]
    refine ⟨hrest, ?_⟩
    rw [hmore, hclosed, saying_append, saying_stepChar, map_append, append_assoc]
    split <;> rfl

theorem saying_stepBlocks (blocks : List OpenBlock) (i : Nat) (line : List Char) :
    saying (unmatchedText k) (stepBlocks blocks i line).2 = [] := by
  have hend : saying (unmatchedText k) [unexpectedEnd i] = [] := by cases k <;> rfl
  rw [found_stepBlocks]
  split
  · exact hend
  · rfl

theorem counts_run (lines : List (Nat × List Char)) {s : State} (h : Counts (s.balances.get k) p) :
    let p' := p.after k (bracketsIn k lines)
    Counts ((run s lines).1.balances.get k) p' ∧
      p'.closed.map (unmatched k) = p.closed.map (unmatched k) ++ saying (unmatchedText k) (run s lines).2 := by
  induction lines generalizing s p with
  | nil => exact ⟨h, (append_nil _).symm⟩
  | cons l lines ih =>
    obtain ⟨hcounts, hclosed⟩ := counts_stepChars l.1 l.2 h
    obtain ⟨hrest, hmore⟩ := ih (s := s.next l) hcounts
    rw [run_cons, bracketsIn, flatMap_cons, Pairing.after, foldl_append]
    refine ⟨hrest, hmore.trans ?_⟩
    rw [hclosed, saying_append, saying_append, saying_stepBlocks, nil_append, append_assoc]

theorem saying_unclosed_run (s : State) (lines : List (Nat × List Char)) :
    saying (unclosedText k) (run s lines).2 = [] := by
  refine filter_eq_nil_iff.mpr fun d hd => ?_
  obtain ⟨l, -, rfl | ⟨j, rfl⟩⟩ := mem_run hd
  · cases k <;> exact Bool.false_ne_true
  · cases k <;> cases j <;> exact Bool.false_ne_true

theorem message_unclosedBlock (b : OpenBlock) : (unclosedBlock b).message.toList.take 10 = "Unclosed b".toList := by
  simp only [unclosedBlock, String.toList_append, append_assoc]
  rfl

theorem saying_unclosedBlock {text : String} (htext : text.toList.take 10 ≠ "Unclosed b".toList)
    (blocks : List OpenBlock) : saying text (blocks.map unclosedBlock) = [] := by
  refine filter_eq_nil_iff.mpr fun d hd => ?_
  obtain ⟨b, -, rfl⟩ := mem_map.mp hd
  rw [decide_eq_true_eq]
  rintro rfl
  exact htext (message_unclosedBlock b)

theorem saying_leftOpen (s : State) : saying (unmatchedText k) (leftOpen s) = [] ∧
    saying (unclosedText k) (leftOpen s) =
      if (s.balances.get k).depth = 0 then [] else [unclosed k (s.balances.get k).line] := by
  have hunmatched : ∀ (j : Bracket) (b : Balance),
      saying (unmatchedText k) (if b.depth = 0 then none else some (unclosed j b.line)).toList = [] := by
    intro j b
    split
    · rfl
    · cases j <;> cases k <;> rfl
  have hunclosed : ∀ (j : Bracket) (b : Balance),
      saying (unclosedText k) (if b.depth = 0 then none else some (unclosed j b.line)).toList =
        if b.depth = 0 ∨ j ≠ k then [] else [unclosed k b.line] := by
    intro j b
    by_cases hdepth : b.depth = 0
    · simp [hdepth, saying]
    · rw [if_neg hdepth]
      cases j <;> cases k <;> simp [hdepth] <;> rfl
  rw [leftOpen, filterMap_eq_flatMap_toList, saying_append, saying_append,
    saying_unclosedBlock (by cases k <;> decide), saying_unclosedBlock (by cases k <;> decide)]
  simp only [Bracket.all, flatMap_cons, flatMap_nil, saying_append, hunmatched, hunclosed]
  refine ⟨rfl, ?_⟩
  cases k <;> simp [saying]

theorem Counts.toList_unclosed (h : Counts b p) :
    (if b.depth = 0 then [] else [unclosed k b.line]) = p.opened.getLast?.toList.map (unclosed k) := by
  cases hlast : p.opened.getLast? with
  | none =>
    have hdepth : b.depth = 0 := by rw [h.depth, getLast?_eq_none_iff.mp hlast, length_nil]
    rw [if_pos hdepth]
    rfl
  | some i =>
    have hdepth : b.depth ≠ 0 := by
      intro hzero
      rw [eq_nil_of_length_eq_zero (h.depth.symm.trans hzero)] at hlast
      cases hlast
    rw [if_neg hdepth, h.line i hlast]
    rfl

/-- **The rough check reports the brackets without a partner.** For each kind of bracket, the closing brackets without
    a partner are reported one by one, and of the opening ones the first, if there is one. -/
theorem check_brackets (code : List Char) (k : Bracket) :
    let p := ({} : Pairing).after k (bracketsIn k (cleanLines code))
    saying (unmatchedText k) (check code) = p.closed.map (unmatched k) ∧
      saying (unclosedText k) (check code) = p.opened.getLast?.toList.map (unclosed k) := by
  intro p
  have hstart : Counts (({} : State).balances.get k) {} := by
    refine ⟨?_, nofun⟩
    cases k <;> rfl
  obtain ⟨hcounts, hclosed⟩ := counts_run (cleanLines code) hstart
  obtain ⟨hunmatched, hunclosed⟩ := saying_leftOpen (k := k) (run {} (cleanLines code)).1
  have hcheck : check code = (run {} (cleanLines code)).2 ++ leftOpen (run {} (cleanLines code)).1 := rfl
  rw [hcheck, saying_append, saying_append, hunmatched, hunclosed, saying_unclosed_run]
  refine ⟨by simpa using hclosed.symm, ?_⟩
  exact hcounts.toList_unclosed

variable {w : List Move} {s t : List Mark}

def blockMoves (code : List Char) : List Move := (cleanLines code).filterMap fun l => wordMove? l.2

/-! ### Nested words -/

/-- Everything that is opened is closed by a word of its own kind, and nothing else is closed. -/
inductive Nested : List Move → Prop
  | nil : Nested []
  | pair (m : Mark) {u v : List Move} (hu : Nested u) (hv : Nested v) : Nested (.opens m :: (u ++ .closes m :: v))

theorem Nested.nest_eq (h : Nested w) (s : List Mark) : nest s w = some s := by
  induction h generalizing s with
  | nil => rfl
  | pair m _ _ ihu ihv =>
    simp only [nest, Move.act, Option.bind_some]
    rw [nest_append, ihu]
    simp [nest, Move.act, ihv]

/-- What is open and is closed in the end is closed by a first word, and what stands before that is nested. -/
theorem exists_nested {m : Mark} (h : nest (m :: s) w = some t) (hlength : t.length ≤ s.length) :
    ∃ u v, w = u ++ .closes m :: v ∧ Nested u ∧ nest s v = some t := by
  -- by the length of the words: a word that opens is closed by a later one, and the search goes on behind that
  induction hn : w.length using Nat.strongRecOn generalizing m s w with
  | _ n ih =>
    cases w with
    | nil =>
      cases h
      simp at hlength
    | cons a w =>
      cases a with
      | opens m' =>
        have hw : nest (m' :: m :: s) w = some t := h
        obtain ⟨u, v, rfl, hu, hv⟩ := ih w.length (by simp only [← hn, length_cons]; omega) hw (Nat.le_succ_of_le hlength) rfl
        obtain ⟨u', v', rfl, hu', hv'⟩ := ih v.length (by simp only [← hn, length_cons, length_append]; omega) hv hlength rfl
        exact ⟨.opens m' :: (u ++ .closes m' :: u'), v', by simp, .pair m' hu hu', hv'⟩
      | closes m' =>
        rw [nest, Move.act] at h
        split at h
        · rename_i hm
          exact ⟨[], w, by rw [hm]; rfl, .nil, h⟩
        · cases h

/-- **Words are nested exactly where nothing is left open and every word closes what was opened last.** -/
theorem nested_iff : Nested w ↔ nest [] w = some [] := by
  refine ⟨fun h => h.nest_eq [], fun h => ?_⟩
  induction hn : w.length using Nat.strongRecOn generalizing w with
  | _ n ih =>
    cases w with
    | nil => exact .nil
    | cons a w =>
      cases a with
      | opens m =>
        obtain ⟨u, v, rfl, hu, hv⟩ := exists_nested (m := m) h (Nat.le_refl 0)
        exact .pair m hu (ih v.length (by simp only [← hn, length_cons, length_append]; omega) hv rfl)
      | closes m => cases h

/-- Every closing word finds a mark of its own kind opened last. -/
def Met (s : List Mark) (w : List Move) : Prop :=
  ∀ u m v, w = u ++ .closes m :: v → ∃ r, tally s u = some (m :: r)

/-- The rough check's tally is right about words that meet their kind. -/
theorem nest_iff_met : nest s w = some t ↔ tally s w = some t ∧ Met s w := by
  constructor
  · intro h
    refine ⟨tally_of_nest h, ?_⟩
    rintro u m v rfl
    obtain ⟨s', hu, hrest⟩ := Option.bind_eq_some_iff.mp (nest_append s u _ ▸ h)
    obtain ⟨s'', hact, -⟩ := Option.bind_eq_some_iff.mp hrest
    cases s' with
    | nil => cases hact
    | cons m' r =>
      obtain ⟨rfl, -⟩ := Option.ite_none_right_eq_some.mp hact
      exact ⟨r, tally_of_nest hu⟩
  · rintro ⟨htally, hmet⟩
    -- word for word: the tally does what nesting asks wherever the kind is met
    induction w generalizing s with
    | nil => exact htally
    | cons a w ih =>
      obtain ⟨s', ha, hw⟩ := Option.bind_eq_some_iff.mp htally
      have hact : a.act s = some s' := by
        cases a with
        | opens m => exact ha
        | closes m =>
          obtain ⟨r, hr⟩ := hmet [] m w rfl
          cases hr
          cases m <;> simpa [tallyMove, Move.act] using ha
      rw [nest, hact]
      refine ih hw fun u m v hsplit => ?_
      obtain ⟨r, hr⟩ := hmet (a :: u) m v (by rw [hsplit]; rfl)
      exact ⟨r, by rwa [tally, ha] at hr⟩

/-! ### What the rough check says about blocks -/

theorem stepBlocks_silent_iff (blocks : List OpenBlock) (i : Nat) (line : List Char) :
    (∀ d ∈ (stepBlocks blocks i line).2, d.rule ≠ .blocks) ↔ (stepBlocks blocks i line).2 = [] := by
  rw [found_stepBlocks]
  split <;> simp [unexpectedEnd]

theorem run_blocks_iff (lines : List (Nat × List Char)) (st : State) (s : List Mark) :
    ((∀ d ∈ (run st lines).2, d.rule ≠ .blocks) ∧ (run st lines).1.marks none = s) ↔
      tally (st.marks none) (lines.filterMap fun l => wordMove? l.2) = some s := by
  induction lines generalizing st with
  | nil =>
    have hnil : run st [] = (st, []) := rfl
    simp [hnil, tally]
  | cons l lines ih =>
    have hbrackets : ∀ d ∈ (stepChars st.balances l.1 l.2).2, d.rule ≠ .blocks := by
      intro d hd hrule
      obtain ⟨k, rfl⟩ := mem_stepChars hd
      cases hrule
    have hwords : ((l :: lines).filterMap fun l => wordMove? l.2) =
        (wordMove? l.2).toList ++ lines.filterMap fun l => wordMove? l.2 := by
      rw [filterMap_cons]
      cases wordMove? l.2 <;> rfl
    have hstep := stepBlocks_iff l.1 l.2 st.blocks
    have hnext := ih (st.next l)
    rw [run_cons, hwords, tally_append]
    simp only [forall_mem_append, stepBlocks_silent_iff, Option.bind_eq_some_iff]
    constructor
    · rintro ⟨⟨⟨hfirst, -⟩, hrest⟩, hmarks⟩
      exact ⟨(st.next l).marks none, (hstep _).mp ⟨hfirst, rfl⟩, hnext.mp ⟨hrest, hmarks⟩⟩
    · rintro ⟨s', hfirst, hrest⟩
      obtain ⟨hsilent, hs'⟩ := (hstep s').mpr hfirst
      obtain rfl : (st.next l).marks none = s' := hs'
      obtain ⟨hmore, hmarks⟩ := hnext.mpr hrest
      exact ⟨⟨⟨hsilent, hbrackets⟩, hmore⟩, hmarks⟩

theorem leftOpen_silent_iff (st : State) : (∀ d ∈ leftOpen st, d.rule ≠ .blocks) ↔ st.marks none = [] := by
  rw [leftOpen, forall_mem_append, State.marks]
  refine (and_iff_left fun d hd hrule => ?_).trans ?_
  · obtain ⟨k, -, hk⟩ := mem_filterMap.mp hd
    obtain ⟨-, hk⟩ := Option.ite_none_left_eq_some.mp hk
    cases hk
    cases hrule
  · cases st.blocks with
    | nil => simp
    | cons b blocks => simp [unclosedBlock]

theorem check_blocks_iff (code : List Char) :
    (∀ d ∈ check code, d.rule ≠ .blocks) ↔ tally [] (blockMoves code) = some [] := by
  have hcheck : check code = (run {} (cleanLines code)).2 ++ leftOpen (run {} (cleanLines code)).1 := rfl
  rw [hcheck, forall_mem_append, leftOpen_silent_iff]
  exact run_blocks_iff (cleanLines code) {} []

/-- **When the blocks of a script are nested.** The rough check has nothing to say about the blocks exactly where its
    tally comes out even. They are nested exactly if, besides, each `end` comes while what was opened last is no loop,
    and each `until` while it is one. -/
theorem nested_blockMoves_iff (code : List Char) :
    ((∀ d ∈ check code, d.rule ≠ .blocks) ↔ tally [] (blockMoves code) = some []) ∧
      (Nested (blockMoves code) ↔ (∀ d ∈ check code, d.rule ≠ .blocks) ∧ Met [] (blockMoves code)) := by
  rw [nested_iff, nest_iff_met, check_blocks_iff]
  exact ⟨Iff.rfl, Iff.rfl⟩

/-- A loop that is closed by `end`, and an `until` without a loop: the check is content with both. -/
theorem not_nested_crossed : check "repeat\nend".toList = [] ∧ ¬ Nested (blockMoves "repeat\nend".toList) ∧
    check "until x".toList = [] ∧ ¬ Nested (blockMoves "until x".toList) := by
  simp only [nested_iff]
  decide +kernel

end WatchFace.Lua.Outline
