import Mathlib.Data.List.Pairwise
import WatchFace.Proofs.Lua.Answers

/-!
# Scripts that the rough check can read

The rough check has nothing to say about an accepted script if on every line it sees what the tokens of the line do. It
speaks up without reason where it does not: a block that is closed on the line that opens it stays open.
-/

namespace WatchFace.Lua

open List Text

variable {code line : List Char} {a : Move} {s s' : List Mark} {α ι : Type}

namespace Outline

/-! ### What is seen -/

/-- The sort of a mark: brackets are counted by their kind, and blocks and loops together. -/
def sortOf : Mark → Option Bracket
  | .bracket k => some k
  | .block => none
  | .loop => none

def sorts : List (Option Bracket) := [none, some .round, some .square, some .curly]

def ofSort (o : Option Bracket) (moves : List Move) : List Move := moves.filter fun a => sortOf a.mark = o

def markOf (w : String) : Mark := if w = "repeat" then .loop else .block

def wordMove? (line : List Char) : Option Move :=
  match opener? line with
  | some w => some (.opens (markOf w))
  | none =>
    if endsBlock line then some (.closes .block)
    else if endsLoop line then some (.closes .loop)
    else none

def seenIn (line : List Char) : List Move := (wordMove? line).toList ++ line.filterMap bracketMove?

def seen (line : List Char) : List Move :=
  let stripped := strip line
  if stripped.isEmpty || ['-', '-'].isPrefixOf stripped then [] else seenIn (withoutStrings stripped)

def tokensOn (ts : List Token) (i : Nat) : List Token := ts.filter fun t => t.place.line - 1 = i

/-- What is seen on a line amounts to what the tokens on it do, for each sort of marks. -/
def Legible (line : List Char) (ts : List Token) : Prop :=
  ∀ o ∈ sorts, residue (ofSort o (seen line)) = residue (ofSort o (movesOf ts))

instance (line : List Char) (ts : List Token) : Decidable (Legible line ts) :=
  inferInstanceAs (Decidable (∀ o ∈ sorts, _ = _))

def Readable (code : List Char) : Prop :=
  ∀ x ∈ (splitLines code).zipIdx, Legible x.1 (tokensOn (tokenize code).1 x.2)

instance (code : List Char) : Decidable (Readable code) :=
  inferInstanceAs (Decidable (∀ x ∈ (splitLines code).zipIdx, Legible _ _))

theorem ofSort_append (o : Option Bracket) (u v : List Move) : ofSort o (u ++ v) = ofSort o u ++ ofSort o v :=
  filter_append ..

theorem sortOf_of_wordMove? (h : wordMove? line = some a) : sortOf a.mark = none := by
  unfold wordMove? at h
  split at h
  · cases h
    simp only [Move.mark, markOf]
    split <;> rfl
  · split at h
    · cases h
      rfl
    · split at h
      · cases h
        rfl
      · cases h

theorem ofSort_bracketMove? (k : Bracket) (c : Char) : ofSort (some k) (bracketMove? c).toList =
    if c = k.opening then [.opens (.bracket k)] else if c = k.closing then [.closes (.bracket k)] else [] := by
  by_cases h : c ∈ ['(', ')', '[', ']', '\x7b', '\x7d']
  · simp only [mem_cons, not_mem_nil, or_false] at h
    rcases h with rfl | rfl | rfl | rfl | rfl | rfl <;> cases k <;> rfl
  · simp only [mem_cons, not_mem_nil, or_false, not_or] at h
    have hnone : bracketMove? c = none := by simp [bracketMove?, Bracket.all, Bracket.opening, Bracket.closing, h]
    rw [hnone]
    cases k <;> simp [ofSort, Bracket.opening, Bracket.closing, h]

theorem sortOf_of_bracketMove? {c : Char} (h : bracketMove? c = some a) : sortOf a.mark ≠ none := by
  obtain ⟨k, -, hk⟩ := exists_of_findSome?_eq_some h
  split at hk
  · rw [← Option.some.inj hk]
    exact nofun
  · split at hk
    · rw [← Option.some.inj hk]
      exact nofun
    · cases hk

theorem ofSort_none_seenIn (line : List Char) : ofSort none (seenIn line) = (wordMove? line).toList := by
  have hbrackets : ofSort none (line.filterMap bracketMove?) = [] := by
    refine filter_eq_nil_iff.mpr fun a ha => ?_
    obtain ⟨c, -, hc⟩ := mem_filterMap.mp ha
    simpa using sortOf_of_bracketMove? hc
  rw [seenIn, ofSort_append, hbrackets, append_nil]
  cases h : wordMove? line with
  | none => rfl
  | some a => simp [ofSort, sortOf_of_wordMove? h]

theorem ofSort_some_seenIn (k : Bracket) (line : List Char) :
    ofSort (some k) (seenIn line) = ofSort (some k) (line.filterMap bracketMove?) := by
  rw [seenIn, ofSort_append]
  cases h : wordMove? line with
  | none => rfl
  | some a => simp [ofSort, sortOf_of_wordMove? h]

/-! ### What is taken to be open -/

/-- What is taken to be open after a move: `end` closes whatever was opened last, and `until` only a loop. -/
def tallyMove (s : List Mark) : Move → Option (List Mark)
  | .closes .block => if s.isEmpty then none else some s.tail
  | .closes .loop => some (if s.head? = some .loop then s.tail else s)
  | a => a.act s

def tally (s : List Mark) : List Move → Option (List Mark)
  | [] => some s
  | a :: moves => (tallyMove s a).bind fun s' => tally s' moves

theorem tally_append (s : List Mark) (u v : List Move) : tally s (u ++ v) = (tally s u).bind fun s' => tally s' v := by
  induction u generalizing s with
  | nil => rfl
  | cons a u ih =>
    rw [cons_append, tally, tally, Option.bind_assoc]
    exact congrArg _ (funext fun s' => ih s')

theorem tallyMove_of_act (h : a.act s = some s') : tallyMove s a = some s' := by
  cases a with
  | opens m => exact h
  | closes m =>
    cases s with
    | nil => cases h
    | cons m' s =>
      cases m with
      | bracket k => exact h
      | block =>
        rw [Move.act, Option.ite_none_right_eq_some] at h
        -- the tally asks for less: any mark may be closed
        exact h.2
      | loop =>
        rw [Move.act, Option.ite_none_right_eq_some] at h
        obtain ⟨rfl, h⟩ := h
        exact h

theorem tally_of_nest {moves : List Move} (h : nest s moves = some s') : tally s moves = some s' := by
  induction moves generalizing s with
  | nil => exact h
  | cons a moves ih =>
    obtain ⟨t, ht, hrest⟩ := Option.bind_eq_some_iff.mp h
    rw [tally, tallyMove_of_act ht]
    exact ih hrest

/-! ### What the rough check keeps -/

def Balances.marks (b : Balances) (k : Bracket) : List Mark := List.replicate (b.get k).depth (.bracket k)

def State.marks (st : State) : Option Bracket → List Mark
  | none => st.blocks.map fun b => markOf b.word
  | some k => st.balances.marks k

theorem step_iff (b : Balance) (k : Bracket) (i : Nat) (c : Char) (s : List Mark) :
    ((b.step k i c).2 = false ∧ List.replicate (b.step k i c).1.depth (.bracket k) = s) ↔
      tally (List.replicate b.depth (.bracket k)) (ofSort (some k) (bracketMove? c).toList) = some s := by
  rw [ofSort_bracketMove?]
  unfold Balance.step
  by_cases hopening : c = k.opening
  · rw [if_pos hopening, if_pos hopening]
    simp [tally, tallyMove, Move.act, replicate_succ]
  · rw [if_neg hopening, if_neg hopening]
    by_cases hclosing : c = k.closing
    · rw [if_pos hclosing, if_pos hclosing]
      cases b.depth with
      | zero => simp [tally, tallyMove, Move.act]
      | succ d => simp [tally, tallyMove, Move.act, replicate_succ]
    · rw [if_neg hclosing, if_neg hclosing]
      simp [tally]

theorem found_stepChar_iff (b : Balances) (i : Nat) (c : Char) :
    (stepChar b i c).2 = [] ↔ ∀ k, ((b.get k).step k i c).2 = false := by
  have hadd : ∀ ds k, (if ((b.get k).step k i c).2 then ds ++ [unmatched k i] else ds) = [] ↔
      ds = [] ∧ ((b.get k).step k i c).2 = false := by
    intro ds k
    cases ((b.get k).step k i c).2 <;> simp
  rw [found_stepChar, Bracket.all, foldl_cons, foldl_cons, foldl_cons, foldl_nil, hadd, hadd, hadd]
  constructor
  · rintro ⟨⟨⟨-, hround⟩, hsquare⟩, hcurly⟩ k
    cases k <;> assumption
  · exact fun h => ⟨⟨⟨rfl, h .round⟩, h .square⟩, h .curly⟩

theorem stepChars_iff (i : Nat) (cs : List Char) (b : Balances) (e : Bracket → List Mark) :
    ((stepChars b i cs).2 = [] ∧ ∀ k, (stepChars b i cs).1.marks k = e k) ↔
      ∀ k, tally (b.marks k) (ofSort (some k) (cs.filterMap bracketMove?)) = some (e k) := by
  induction cs generalizing b with
  | nil =>
    have hnil : stepChars b i [] = (b, []) := rfl
    simp [hnil, ofSort, tally]
  | cons c cs ih =>
    have hmoves : (c :: cs).filterMap bracketMove? = (bracketMove? c).toList ++ cs.filterMap bracketMove? := by
      rw [filterMap_cons]
      cases bracketMove? c <;> rfl
    have hcons : stepChars b i (c :: cs) =
      ((stepChars (stepChar b i c).1 i cs).1, (stepChar b i c).2 ++ (stepChars (stepChar b i c).1 i cs).2) := rfl
    have hstep : ∀ k s, tally (b.marks k) (ofSort (some k) (bracketMove? c).toList) = some s ↔
        ((b.get k).step k i c).2 = false ∧ (stepChar b i c).1.marks k = s := by
      intro k s
      rw [Balances.marks, Balances.marks, get_stepChar]
      exact (step_iff (b.get k) k i c s).symm
    simp only [hcons, hmoves, ofSort_append, tally_append, Option.bind_eq_some_iff, hstep, append_eq_nil_iff,
      and_assoc, ih, found_stepChar_iff, exists_eq_left', exists_and_left, forall_and]

theorem not_ends_of_opener? {w : String} (h : opener? line = some w) :
    endsBlock line = false ∧ endsLoop line = false := by
  have hfirst : ∀ w ∈ openers, w.toList.head? ≠ "end".toList.head? ∧ w.toList.head? ≠ "until".toList.head? ∧
      w.toList ≠ [] := by decide
  have hhead : ∀ (w : String) (after : List Char), w.toList ≠ [] → startsWithWord w after line = true →
      line.head? = w.toList.head? := by
    intro w after hne hstarts
    obtain ⟨rest, rfl⟩ := isPrefixOf_iff_prefix.mp (Bool.and_eq_true_iff.mp hstarts).1
    rw [head?_append_of_ne_nil _ hne]
  obtain ⟨hend, huntil, hne⟩ := hfirst w (mem_of_find?_eq_some h)
  have hw : line.head? = w.toList.head? :=
    hhead w _ hne (find?_some (p := fun w => startsWithWord w [' ', '('] line) h)
  refine ⟨Bool.eq_false_iff.mpr fun h => ?_, Bool.eq_false_iff.mpr fun h => ?_⟩
  · exact hend (hw.symm.trans (hhead "end" _ (by decide) h))
  · exact huntil (hw.symm.trans (hhead "until" _ (by decide) h))

theorem markOf_eq_loop_iff (w : String) : markOf w = .loop ↔ w = "repeat" := by
  unfold markOf
  split <;> simp [*]

theorem stepBlocks_iff (i : Nat) (line : List Char) (blocks : List OpenBlock) (s : List Mark) :
    ((stepBlocks blocks i line).2 = [] ∧ (stepBlocks blocks i line).1.map (fun b => markOf b.word) = s) ↔
      tally (blocks.map fun b => markOf b.word) (wordMove? line).toList = some s := by
  rw [stepBlocks_eq, openedAt, wordMove?]
  cases hopener : opener? line with
  | some w =>
    -- the words are looked for one after the other, but a line shows only one of them
    obtain ⟨hend, huntil⟩ := not_ends_of_opener? hopener
    simp [hend, huntil, tally, tallyMove, Move.act]
  | none =>
    dsimp only
    by_cases hend : endsBlock line = true
    · rw [if_pos hend, if_pos hend]
      cases blocks <;> simp [tally, tallyMove]
    · rw [if_neg hend, if_neg hend]
      by_cases huntil : endsLoop line = true
      · rw [if_pos huntil, if_pos huntil]
        -- an `until` that does not meet a loop is passed over
        cases blocks with
        | nil => simp [tally, tallyMove]
        | cons b rest =>
          by_cases hrepeat : b.word = "repeat"
          · simp [tally, tallyMove, hrepeat, (markOf_eq_loop_iff _).mpr]
          · simp [tally, tallyMove, hrepeat, markOf_eq_loop_iff]
      · rw [if_neg huntil, if_neg huntil]
        simp [tally]

theorem forall_sort_iff {p : Option Bracket → Prop} : (∀ o, p o) ↔ p none ∧ ∀ k, p (some k) :=
  ⟨fun h => ⟨h none, fun k => h (some k)⟩, fun h o => by cases o with | none => exact h.1 | some k => exact h.2 k⟩

theorem next_iff (st : State) (l : Nat × List Char) (s : Option Bracket → List Mark) :
    ((stepBlocks st.blocks l.1 l.2).2 ++ (stepChars st.balances l.1 l.2).2 = [] ∧ ∀ o, (st.next l).marks o = s o) ↔
      ∀ o, tally (st.marks o) (ofSort o (seenIn l.2)) = some (s o) := by
  rw [forall_sort_iff, forall_sort_iff, ofSort_none_seenIn]
  simp only [ofSort_some_seenIn]
  have hblocks := stepBlocks_iff l.1 l.2 st.blocks (s none)
  have hbrackets := stepChars_iff l.1 l.2 st.balances fun k => s (some k)
  constructor
  · rintro ⟨hfound, hnone, hsome⟩
    obtain ⟨hends, hfound⟩ := append_eq_nil_iff.mp hfound
    exact ⟨hblocks.mp ⟨hends, hnone⟩, hbrackets.mp ⟨hfound, hsome⟩⟩
  · rintro ⟨hnone, hsome⟩
    obtain ⟨hends, hnone⟩ := hblocks.mpr hnone
    obtain ⟨hfound, hsome⟩ := hbrackets.mpr hsome
    exact ⟨append_eq_nil_iff.mpr ⟨hends, hfound⟩, hnone, hsome⟩

theorem run_iff (lines : List (Nat × List Char)) (st : State) (s : Option Bracket → List Mark) :
    ((run st lines).2 = [] ∧ ∀ o, (run st lines).1.marks o = s o) ↔
      ∀ o, tally (st.marks o) (ofSort o (lines.flatMap fun l => seenIn l.2)) = some (s o) := by
  induction lines generalizing st with
  | nil =>
    have hnil : run st [] = (st, []) := rfl
    simp [hnil, ofSort, tally]
  | cons l lines ih =>
    simp only [flatMap_cons, ofSort_append, tally_append, Option.bind_eq_some_iff]
    rw [run_cons]
    constructor
    · rintro ⟨hfound, hmarks⟩
      obtain ⟨hfirst, hrest⟩ := append_eq_nil_iff.mp hfound
      have hnext := (next_iff st l (st.next l).marks).mp ⟨hfirst, fun _ => rfl⟩
      exact fun o => ⟨_, hnext o, (ih (st.next l)).mp ⟨hrest, hmarks⟩ o⟩
    · intro h
      -- what is open after the first line, sort by sort, is what the state after it holds
      choose t hfirst hrest using h
      obtain ⟨hfound, hmarks⟩ := (next_iff st l t).mpr hfirst
      simp only [← hmarks] at hrest
      obtain ⟨hmore, hmarks⟩ := (ih (st.next l)).mpr hrest
      exact ⟨append_eq_nil_iff.mpr ⟨hfound, hmore⟩, hmarks⟩

theorem leftOpen_iff (st : State) : leftOpen st = [] ↔ ∀ o, st.marks o = [] := by
  have hmem : ∀ k, k ∈ Bracket.all := by rintro (_ | _ | _) <;> decide
  rw [forall_sort_iff, leftOpen, append_eq_nil_iff, map_eq_nil_iff, reverse_eq_nil_iff, filterMap_eq_nil_iff]
  simp [hmem, State.marks, Balances.marks]

theorem flatMap_cleanLines (code : List Char) : ((cleanLines code).flatMap fun l => seenIn l.2) =
    (splitLines code).flatMap seen := by
  have hzip : (splitLines code).flatMap seen = (splitLines code).zipIdx.flatMap fun x => seen x.1 := by
    rw [← flatMap_map Prod.fst seen, zipIdx_map_fst]
  rw [hzip, cleanLines]
  induction (splitLines code).zipIdx with
  | nil => rfl
  | cons x xs ih =>
    rw [filterMap_cons, flatMap_cons, ← ih, seen]
    dsimp only
    by_cases hskip : ((strip x.1).isEmpty || ['-', '-'].isPrefixOf (strip x.1)) = true
    · rw [if_pos hskip, if_pos hskip]
      rfl
    · rw [if_neg hskip, if_neg hskip]
      rfl

theorem check_eq_nil_iff (code : List Char) :
    check code = [] ↔ ∀ o, tally [] (ofSort o ((splitLines code).flatMap seen)) = some [] := by
  have hstart : ∀ o, State.marks {} o = [] := by
    rintro (_ | _ | _ | _) <;> rfl
  have hrun := run_iff (cleanLines code) {} fun _ => []
  simp only [hstart, flatMap_cleanLines, ← leftOpen_iff] at hrun
  rw [← hrun]
  exact append_eq_nil_iff

/-! ### Tokens line by line -/

theorem tokensFrom_sorted (p : Place) (broken : Bool) (cs : List Char) :
    (∀ t ∈ (tokensFrom p broken cs).1, p.line ≤ t.place.line) ∧
      (tokensFrom p broken cs).1.Pairwise fun t u => t.place.line ≤ u.place.line := by
  fun_induction tokensFrom p broken cs with
  | case1 p => exact ⟨forall_mem_nil _, .nil⟩
  | case2 p broken c cs k m hlexeme text q kind hkind ts stop hrest ih =>
    have hq : q.line = p.line + text.count '\n' := line_after p text
    rw [hrest] at ih
    obtain ⟨hle, hsorted⟩ := ih
    have hp : ∀ t ∈ ts, p.line ≤ t.place.line := fun t ht => Nat.le_trans (hq ▸ Nat.le_add_right _ _) (hle t ht)
    exact ⟨forall_mem_cons.mpr ⟨Nat.le_refl _, hp⟩, pairwise_cons.mpr ⟨hp, hsorted⟩⟩
  | case3 p broken c cs k m hlexeme text q hkind ih =>
    have hq : q.line = p.line + text.count '\n' := line_after p text
    exact ⟨fun t ht => Nat.le_trans (hq ▸ Nat.le_add_right _ _) (ih.1 t ht), ih.2⟩

theorem filter_append_filter_lt {f : α → Nat} {i : Nat} {l : List α} (hsorted : l.Pairwise fun a b => f a ≤ f b)
    (hle : ∀ a ∈ l, i ≤ f a) :
    ((l.filter fun a => f a = i) ++ l.filter fun a => i < f a) = l := by
  induction l with
  | nil => rfl
  | cons a l ih =>
    obtain ⟨ha, hl⟩ := forall_mem_cons.mp hle
    obtain ⟨hafter, hsorted⟩ := pairwise_cons.mp hsorted
    by_cases heq : f a = i
    · have hlt : ¬ i < f a := by omega
      rw [filter_cons_of_pos (by simpa using heq), filter_cons_of_neg (by simpa using hlt), cons_append,
        ih hsorted hl]
    · have hlt : ∀ b ∈ a :: l, i < f b := by
        have hlt : i < f a := by omega
        exact forall_mem_cons.mpr ⟨hlt, fun b hb => Nat.lt_of_lt_of_le hlt (hafter b hb)⟩
      have hnone : ((a :: l).filter fun b => f b = i) = [] :=
        filter_eq_nil_iff.mpr fun b hb => by simpa using Nat.ne_of_gt (hlt b hb)
      rw [hnone, nil_append, filter_eq_self.mpr fun b hb => by simpa using hlt b hb]

theorem flatMap_filter_range' {f : α → Nat} (n : Nat) {i : Nat} {l : List α}
    (hsorted : l.Pairwise fun a b => f a ≤ f b) (hle : ∀ a ∈ l, i ≤ f a) (hlt : ∀ a ∈ l, f a < i + n) :
    ((List.range' i n).flatMap fun j => l.filter fun a => f a = j) = l := by
  induction n generalizing i l with
  | zero =>
    cases l with
    | nil => rfl
    | cons a l => exact absurd (hle a mem_cons_self) (Nat.not_le_of_lt (hlt a mem_cons_self))
  | succ n ih =>
    have hmore : ∀ a ∈ l.filter fun a => i < f a, i < f a ∧ f a < i + 1 + n := by
      intro a ha
      obtain ⟨hmem, hgt⟩ := mem_filter.mp ha
      have hbound : f a < i + (n + 1) := hlt a hmem
      exact ⟨of_decide_eq_true hgt, by omega⟩
    -- the later parts can be taken from what is left without the first one
    have hrest : ∀ j ∈ List.range' (i + 1) n,
        (l.filter fun a => f a = j) = (l.filter fun a => i < f a).filter fun a => f a = j := by
      intro j hj
      have hij : i < j := (mem_range'_1.mp hj).1
      rw [filter_filter]
      refine filter_congr fun a _ => ?_
      by_cases ha : f a = j
      · simp [ha, hij]
      · simp [ha]
    rw [range'_succ, flatMap_cons, flatMap_congr hrest,
      ih (hsorted.filter _) (fun a ha => (hmore a ha).1) (fun a ha => (hmore a ha).2),
      filter_append_filter_lt hsorted hle]

theorem flatMap_tokensOn (code : List Char) :
    ((splitLines code).zipIdx.flatMap fun x => tokensOn (tokenize code).1 x.2) = (tokenize code).1 := by
  have hwithin := (tokenize_within code).1
  have hsorted := (tokensFrom_sorted {} false code).2
  rw [← flatMap_map Prod.snd (tokensOn (tokenize code).1), zipIdx_map_snd]
  refine flatMap_filter_range' _ ?_ (fun t _ => Nat.zero_le _) fun t ht => ?_
  · exact hsorted.imp fun h => Nat.sub_le_sub_right h 1
  · obtain ⟨hpos, hle⟩ := (hwithin t ht).place
    omega

/-! ### The check -/

theorem nest_flatMap_congr {l : List ι} {f g : ι → List Move} (h : ∀ i ∈ l, ∀ s, nest s (f i) = nest s (g i))
    (s : List Mark) : nest s (l.flatMap f) = nest s (l.flatMap g) := by
  induction l generalizing s with
  | nil => rfl
  | cons i l ih =>
    obtain ⟨hi, hl⟩ := forall_mem_cons.mp h
    rw [flatMap_cons, flatMap_cons, nest_append, nest_append, hi]
    exact congrArg _ (funext fun s' => ih hl s')

theorem ofSort_flatMap (o : Option Bracket) (l : List ι) (f : ι → List Move) :
    ofSort o (l.flatMap f) = l.flatMap fun i => ofSort o (f i) := filter_flatMap

theorem nest_seen_of_readable {script : List Stat} (hparse : parse code = .ok script) (hreadable : Readable code)
    (o : Option Bracket) :
    nest [] (ofSort o ((splitLines code).flatMap seen)) = some [] := by
  have ho : o ∈ sorts := by
    rcases o with _ | _ | _ | _ <;> decide
  have hplaced := placed_parse code
  rw [hparse] at hplaced
  have hnest : nest [] (ofSort o (movesOf (tokenize code).1)) = some [] :=
    nest_filter hplaced.2 fun m => sortOf m = o
  -- both sides line by line: what is seen on a line and what its tokens do amount to the same
  rw [← flatMap_tokensOn code, movesOf, filterMap_flatMap, ofSort_flatMap] at hnest
  rw [← zipIdx_map_fst 0 (splitLines code), flatMap_map, ofSort_flatMap, ← hnest]
  refine nest_flatMap_congr (fun x hx s => ?_) []
  rw [nest_eq_residue, nest_eq_residue, hreadable x hx o ho]
  rfl

end Outline

open Outline

theorem exists_of_accepted {v : Vocabulary} (h : (examine v (some Engine.standard) code).accepted = some true) :
    ∃ script, parse (Tag.hide code) = .ok script := by
  have hhidden : (examineHidden v Engine.standard (Tag.hide code)).accepted = some true := h
  cases hparse : parse (Tag.hide code) with
  | ok script => exact ⟨script, rfl⟩
  | error e =>
    have hfault : Engine.standard.parse (Tag.hide code) = .fault e.message := by simp only [Engine.standard, hparse]
    unfold examineHidden at hhidden
    rw [hfault] at hhidden
    dsimp only at hhidden
    split at hhidden <;> cases hhidden

/-- **When the rough check is silent**: exactly where what it sees on the lines of a script is closed in the end. So it
    is on every readable script that the parser accepts. -/
theorem examine_rough_iff (v : Vocabulary) (code : List Char) :
    ((examine v none code).findings = [] ↔
      ∀ o ∈ sorts, tally [] (ofSort o ((Text.splitLines (Tag.hide code)).flatMap seen)) = some []) ∧
    ((examine v (some Engine.standard) code).accepted = some true → Readable (Tag.hide code) →
      (examine v none code).findings = []) := by
  have hsorts : ∀ o, o ∈ sorts := by
    rintro (_ | _ | _ | _) <;> decide
  have hfindings : (examine v none code).findings = [] ↔ check (Tag.hide code) = [] := List.map_eq_nil_iff
  rw [hfindings, check_eq_nil_iff]
  refine ⟨⟨fun h o _ => h o, fun h o => h o (hsorts o)⟩, fun haccepted hreadable o => ?_⟩
  obtain ⟨script, hparse⟩ := exists_of_accepted haccepted
  exact tally_of_nest (nest_seen_of_readable hparse hreadable o)

def sampleScript : List Char :=
  joinLines (List.map String.toList ["function f(n)",
      "  local g = function() return n end",
      "  repeat -- (on)",
      "  until g(\"]\")",
      "end"])

theorem examine_rough_iff_sampleScript : (examine {} (some Engine.standard) sampleScript).accepted = some true ∧
    Readable (Tag.hide sampleScript) ∧ (examine {} none sampleScript).findings = [] :=
  have haccepted : (examine {} (some Engine.standard) sampleScript).accepted = some true := by decide +kernel
  have hreadable : Readable (Tag.hide sampleScript) := by decide +kernel
  ⟨haccepted, hreadable, (examine_rough_iff {} sampleScript).2 haccepted hreadable⟩

/-- A block that is closed on the line that opens it is taken for one that stays open, though the parser accepts it. -/
theorem examine_oneLineBlock :
    (examine {} (some Engine.standard) "if x then y = 1 end".toList).accepted = some true ∧
      (examine {} none "if x then y = 1 end".toList).findings =
        [{ line := 0, message := "Unclosed block: 'if' started at line 1", rule := .blocks }] := by
  decide +kernel

end WatchFace.Lua
