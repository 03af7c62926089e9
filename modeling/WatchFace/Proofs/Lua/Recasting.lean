import WatchFace.Proofs.Lua.Lexing
import WatchFace.Proofs.Text.Searching

/-!
# Texts that are read alike

Two texts differ in places where certain characters stand, and agree elsewhere. Where one of them starts with a lexeme,
so does the other, if only strings and comments end in the right places.
-/

namespace WatchFace.Lua

open List Text

variable {c : Char} {cs ds w : List Char}

/-! ### Long brackets and lines -/

def opening (level : Nat) : List Char := '[' :: List.replicate level '=' ++ ['[']

def closing (level : Nat) : List Char := ']' :: List.replicate level '=' ++ [']']

theorem length_opening (level : Nat) : (opening level).length = level + 2 := by simp [opening]

theorem length_closing (level : Nat) : (closing level).length = level + 2 := by simp [closing]

theorem not_mem_opening (h : c ≠ '[') (h' : c ≠ '=') (level : Nat) : c ∉ opening level := by
  simp [opening, h, h']

theorem not_mem_closing (h : c ≠ ']') (h' : c ≠ '=') (level : Nat) : c ∉ closing level := by
  simp [closing, h, h']

theorem exists_level (cs : List Char) :
    ∃ level rest, cs = List.replicate level '=' ++ rest ∧ rest.head? ≠ some '=' := by
  induction cs with
  | nil => exact ⟨0, [], rfl, nofun⟩
  | cons c cs ih =>
    by_cases hc : c = '='
    · obtain ⟨level, rest, rfl, hrest⟩ := ih
      exact ⟨level + 1, rest, by rw [hc, replicate_succ, cons_append], hrest⟩
    · exact ⟨0, c :: cs, rfl, fun h => hc (Option.some.inj h)⟩

theorem level_eq (level : Nat) (rest : List Char) (h : rest.head? ≠ some '=') :
    spanLength (· == '=') (List.replicate level '=' ++ rest) = level ∧
      (List.replicate level '=' ++ rest).drop level = rest := by
  refine ⟨?_, drop_left' length_replicate⟩
  rw [spanLength, takeWhile_append_of_pos (by simp)]
  cases rest with
  | nil => simp
  | cons c rest =>
    have hc : (c == '=') = false := beq_eq_false_iff_ne.mpr fun hc => h (congrArg some hc)
    simp [hc]

theorem opening_append (level : Nat) (body : List Char) :
    opening level ++ body = '[' :: (List.replicate level '=' ++ '[' :: body) := by
  simp [opening]

theorem longBracketLength_opening (level : Nat) (body : List Char) : longBracketLength (opening level ++ body) =
      (findSub? (closing level) body).map (level + 2 + · + (level + 2)) := by
  obtain ⟨hspan, hdrop⟩ := level_eq level ('[' :: body) (by simp)
  rw [opening_append]
  simp only [longBracketLength, hspan, hdrop]
  simp [closing]

theorem longBracketLength_eq_none (h : ¬ ∃ level body, cs = opening level ++ body) : longBracketLength cs = none := by
  unfold longBracketLength
  split
  case h_2 => rfl
  case h_1 cs =>
    obtain ⟨level, rest, rfl, hrest⟩ := exists_level cs
    obtain ⟨hspan, hdrop⟩ := level_eq level rest hrest
    simp only [hspan, hdrop]
    split
    case h_2 => rfl
    case h_1 body => exact absurd ⟨level, body, (opening_append level body).symm⟩ h

theorem findSub?_closing_append {level : Nat} (h : ']' ∉ w) (cs : List Char) :
    findSub? (closing level) (w ++ cs) = (findSub? (closing level) cs).map (· + w.length) := by
  induction w with
  | nil => simp
  | cons c w ih =>
    obtain ⟨hc, hw⟩ := not_or.mp (mt mem_cons.mpr h)
    have hpre : (closing level).isPrefixOf (c :: (w ++ cs)) = false := by
      rw [closing, cons_append, isPrefixOf_cons_cons, beq_eq_false_iff_ne.mpr hc, Bool.false_and]
    rw [cons_append, findSub?, hpre, ih hw]
    simp [Function.comp_def, Nat.add_assoc]

def lineLength (cs : List Char) : Nat :=
  match cs with
  | '[' :: ds =>
    let level := spanLength (· == '=') ds
    match ds.drop level with
    | c :: es => if c != '[' && inLine c then level + 2 + spanLength inLine es else level + 1
    | [] => level + 1
  | _ => spanLength inLine cs

theorem commentLength_hyphens (cs : List Char) :
    commentLength ('-' :: '-' :: cs) = some (2 + max (lineLength cs) ((longBracketLength cs).getD 0)) := rfl

theorem lineLength_opening (level : Nat) (body : List Char) : lineLength (opening level ++ body) = level + 1 := by
  obtain ⟨hspan, hdrop⟩ := level_eq level ('[' :: body) (by simp)
  rw [opening_append]
  simp [lineLength, hspan, hdrop]

theorem lineLength_eq (h : ¬ ∃ level body, cs = opening level ++ body) : lineLength cs = spanLength inLine cs := by
  unfold lineLength
  split
  case h_2 => rfl
  case h_1 ds =>
    obtain ⟨level, rest, rfl, hrest⟩ := exists_level ds
    obtain ⟨hspan, hdrop⟩ := level_eq level rest hrest
    have hline : spanLength inLine ('[' :: (List.replicate level '=' ++ rest)) =
        level + 1 + spanLength inLine rest := by
      have hlevel : ∀ c ∈ '[' :: List.replicate level '=', inLine c = true := by simp [inLine]
      rw [← cons_append, spanLength, takeWhile_append_of_pos hlevel, length_append,
        length_cons, length_replicate, spanLength]
    simp only [hspan, hdrop, hline]
    cases rest with
    | nil => rfl
    | cons c es =>
      have hc : c ≠ '[' := by
        rintro rfl
        exact h ⟨level, es, (opening_append level es).symm⟩
      cases hin : inLine c with
      | true => simp [hc, spanLength, hin]; omega
      | false => simp [spanLength, hin]

theorem lineLength_le {n : Nat} (h : longBracketLength cs = some n) : lineLength cs ≤ n := by
  by_cases hopen : ∃ level body, cs = opening level ++ body
  · obtain ⟨level, body, rfl⟩ := hopen
    rw [longBracketLength_opening] at h
    obtain ⟨i, -, rfl⟩ := Option.map_eq_some_iff.mp h
    rw [lineLength_opening]
    omega
  · rw [longBracketLength_eq_none hopen] at h
    cases h

/-! ### Characters that stay -/

/-- Characters outside of `S` stand at the start of both texts or of none, and so do the rests behind them. -/
structure Recasts (S : Char → Bool) (R : List Char → List Char → Prop) : Prop where
  head : ∀ {c cs ds}, S c = false → R (c :: cs) ds → ∃ ds', ds = c :: ds' ∧ R cs ds'
  back : ∀ {c cs ds}, S c = false → R cs (c :: ds) → ∃ cs', cs = c :: cs' ∧ R cs' ds

namespace Recasts

variable {S : Char → Bool} {R : List Char → List Char → Prop}

theorem flip (hR : Recasts S R) : Recasts S (Function.swap R) := ⟨hR.back, hR.head⟩

theorem append (hR : Recasts S R) (hw : w.any S = false) (h : R (w ++ cs) ds) : ∃ ds', ds = w ++ ds' ∧ R cs ds' := by
  induction w generalizing ds with
  | nil => exact ⟨ds, rfl, h⟩
  | cons c w ih =>
    obtain ⟨hc, hw⟩ := Bool.or_eq_false_iff.mp hw
    obtain ⟨ds, rfl, hrest⟩ := hR.head hc h
    obtain ⟨ds, rfl, hend⟩ := ih hw hrest
    exact ⟨ds, rfl, hend⟩

theorem isPrefixOf (hR : Recasts S R) (hw : w.any S = false) (h : R cs ds) : w.isPrefixOf ds = w.isPrefixOf cs := by
  rw [Bool.eq_iff_iff, isPrefixOf_iff_prefix, isPrefixOf_iff_prefix]
  constructor
  · rintro ⟨ds, rfl⟩
    obtain ⟨cs, rfl, -⟩ := hR.flip.append hw h
    exact prefix_append w cs
  · rintro ⟨cs, rfl⟩
    obtain ⟨ds, rfl, -⟩ := hR.append hw h
    exact prefix_append w ds

theorem head?_iff (hR : Recasts S R) (hc : S c = false) (h : R cs ds) : cs.head? = some c ↔ ds.head? = some c := by
  constructor <;> intro hhead <;> obtain ⟨_, rfl⟩ := head?_eq_some_iff.mp hhead
  · obtain ⟨ds, rfl, -⟩ := hR.head hc h
    rfl
  · obtain ⟨cs, rfl, -⟩ := hR.back hc h
    rfl

theorem split (hR : Recasts S R) (h : R cs ds) :
    ∃ u v v', cs = u ++ v ∧ ds = u ++ v' ∧ u.any S = false ∧ Stops S v ∧ Stops S v' ∧ R v v' := by
  have hstops : ∀ {cs ds}, R cs ds → Stops S cs → Stops S ds := by
    intro cs ds h hcs d hd
    cases hS : S d with
    | true => rfl
    | false => rw [← hcs d ((hR.head?_iff hS h).mpr hd), hS]
  induction cs generalizing ds with
  | nil => exact ⟨[], [], ds, rfl, rfl, rfl, nofun, hstops h nofun, h⟩
  | cons c cs ih =>
    cases hc : S c with
    | false =>
      obtain ⟨ds, rfl, hrest⟩ := hR.head hc h
      obtain ⟨u, v, v', rfl, rfl, hu, hv, hv', hrest⟩ := ih hrest
      exact ⟨c :: u, v, v', rfl, rfl, by rw [any_cons, hc, hu, Bool.false_or], hv, hv', hrest⟩
    | true =>
      have hcs : Stops S (c :: cs) := fun d hd => Option.some.inj hd ▸ hc
      exact ⟨[], c :: cs, ds, rfl, rfl, rfl, hcs, hstops h hcs, h⟩

end Recasts

/-! ### Lexeme by lexeme -/

def ReadAlike (T : LexClass → List Char → List Char → List Char → List Char → Prop)
    (cs ds : List Char) : Prop :=
  ∃ k text rest text' rest', Reads cs k text rest ∧ Reads ds k text' rest' ∧ T k text rest text' rest'

/-- Texts that agree outside of `S`, in which strings and comments end at corresponding places; `T` relates their
    lexemes. -/
structure Recasting (S : Char → Bool) (R : List Char → List Char → Prop)
    (T : LexClass → List Char → List Char → List Char → List Char → Prop) : Prop extends Recasts S R where
  parting : Parting S
  marks : ['[', ']', '=', '-', '#', '!'].any S = false
  gap : ∀ {c}, S c = false → gaps.any S = false ∨ c ∉ gaps
  grow : ∀ {c cs ds}, S c = false → R cs ds → R (c :: cs) (c :: ds)
  same : ∀ {k w cs ds}, k ≠ .string → w.any S = false → R cs ds → T k w cs w ds
  cons : ∀ {c text rest text' rest'}, S c = false → T .comment text rest text' rest' →
    T .comment (c :: text) rest (c :: text') rest'
  line : ∀ {cs ds}, R cs ds →
    T .comment (cs.takeWhile inLine) (cs.dropWhile inLine) (ds.takeWhile inLine) (ds.dropWhile inLine)
  bracket : ∀ {cs ds} level, R cs ds → (findSub? (closing level) cs = none ∧ findSub? (closing level) ds = none) ∨
    ∃ u v u' v', cs = u ++ closing level ++ v ∧ ds = u' ++ closing level ++ v' ∧
      findSub? (closing level) cs = some u.length ∧ findSub? (closing level) ds = some u'.length ∧
      ∀ k ∈ [.string, .comment], T k (opening level ++ u ++ closing level) v (opening level ++ u' ++ closing level) v'

namespace Recasting

variable {S : Char → Bool} {R : List Char → List Char → Prop}
  {T : LexClass → List Char → List Char → List Char → List Char → Prop} (hR : Recasting S R T) {cs ds : List Char}

include hR

theorem mark (hc : c ∈ ['[', ']', '=', '-', '#', '!']) : S c = false :=
  Bool.eq_false_iff.mpr (any_eq_false.mp hR.marks c hc)

theorem free (hw : ∀ c ∈ w, c ∈ ['[', ']', '=', '-', '#', '!']) : w.any S = false :=
  any_eq_false.mpr fun c hc => Bool.eq_false_iff.mp (hR.mark (hw c hc))

theorem opening (level : Nat) : (Lua.opening level).any S = false := by
  refine hR.free fun c hc => ?_
  simp only [Lua.opening, cons_append, mem_cons, mem_append, mem_replicate, not_mem_nil, or_false] at hc
  obtain rfl | ⟨-, rfl⟩ | rfl := hc <;> simp

theorem opening_iff (h : R cs ds) :
    (∃ level body, cs = Lua.opening level ++ body) ↔ ∃ level body, ds = Lua.opening level ++ body := by
  constructor
  · rintro ⟨level, body, rfl⟩
    obtain ⟨body, hds, -⟩ := hR.append (hR.opening level) h
    exact ⟨level, body, hds⟩
  · rintro ⟨level, body, rfl⟩
    obtain ⟨body, hcs, -⟩ := hR.flip.append (hR.opening level) h
    exact ⟨level, body, hcs⟩

theorem longBracketLength_cases (h : R cs ds) :
    (∃ text rest text' rest', text ≠ [] ∧ text' ≠ [] ∧ cs = text ++ rest ∧ ds = text' ++ rest' ∧
      longBracketLength cs = some text.length ∧ longBracketLength ds = some text'.length ∧
      ∀ k ∈ [.string, .comment], T k text rest text' rest') ∨
    longBracketLength cs = none ∧ longBracketLength ds = none := by
  by_cases hopen : ∃ level body, cs = Lua.opening level ++ body
  · obtain ⟨level, body, rfl⟩ := hopen
    obtain ⟨body', rfl, hbody⟩ := hR.append (hR.opening level) h
    rw [longBracketLength_opening, longBracketLength_opening]
    obtain ⟨hnone, hnone'⟩ | ⟨u, v, u', v', rfl, rfl, hfind, hfind', hT⟩ := hR.bracket level hbody
    · rw [hnone, hnone']
      exact .inr ⟨rfl, rfl⟩
    · rw [hfind, hfind']
      refine .inl ⟨_, v, _, v', by simp [Lua.opening], by simp [Lua.opening], by simp, by simp, ?_, ?_, hT⟩
      all_goals simp only [Option.map_some, length_append, length_opening, length_closing]
  · exact .inr ⟨longBracketLength_eq_none hopen, longBracketLength_eq_none (mt (hR.opening_iff h).mpr hopen)⟩

theorem lexeme_hyphens (h : R cs ds) : ∃ text rest text' rest', cs = text ++ rest ∧ ds = text' ++ rest' ∧
      lexeme ('-' :: '-' :: cs) = (.comment, 2 + text.length) ∧
      lexeme ('-' :: '-' :: ds) = (.comment, 2 + text'.length) ∧ T .comment text rest text' rest' := by
  simp only [lexeme_hyphen, commentLength_hyphens, Option.map_some, Option.getD_some, Prod.mk.injEq, true_and,
    Nat.add_left_cancel_iff]
  obtain ⟨text, rest, text', rest', -, -, hsplit, hsplit', hlong, hlong', hT⟩ | ⟨hlong, hlong'⟩ :=
    hR.longBracketLength_cases h
  · refine ⟨text, rest, text', rest', hsplit, hsplit', ?_, ?_, hT _ (by simp)⟩
    · rw [hlong, Option.getD_some, Nat.max_eq_right (lineLength_le hlong)]
    · rw [hlong', Option.getD_some, Nat.max_eq_right (lineLength_le hlong')]
  · rw [hlong, hlong', Option.getD_none, Nat.max_zero, Nat.max_zero]
    -- an opening that is never closed ends the comment before its second bracket
    by_cases hopen : ∃ level body, cs = Lua.opening level ++ body
    · obtain ⟨level, body, rfl⟩ := hopen
      have hmark : ('[' :: List.replicate level '=').any S = false := by
        refine hR.free fun c hc => ?_
        obtain rfl | hc := mem_cons.mp hc
        · simp
        · simp [eq_of_mem_replicate hc]
      rw [lineLength_opening]
      rw [opening_append, ← cons_append] at h ⊢
      obtain ⟨ds, rfl, hbody⟩ := hR.append hmark h
      obtain ⟨body', rfl, -⟩ := hR.head (hR.mark (by simp)) hbody
      refine ⟨_, _, _, _, rfl, rfl, by simp, ?_, hR.same nofun hmark hbody⟩
      rw [cons_append, ← opening_append, lineLength_opening, length_cons, length_replicate]
    · refine ⟨_, _, _, _, takeWhile_append_dropWhile.symm, takeWhile_append_dropWhile.symm, ?_, ?_, hR.line h⟩
      · rw [lineLength_eq hopen, spanLength]
      · rw [lineLength_eq (mt (hR.opening_iff h).mpr hopen), spanLength]

theorem operator (hc : c ∈ ['[', ']', '=', '-', '#', '!']) (h : R cs ds) (hread : lexeme (c :: cs) = (.operator, 1))
    (hread' : lexeme (c :: ds) = (.operator, 1)) :
    ReadAlike T (c :: cs) (c :: ds) :=
  ⟨.operator, [c], cs, [c], ds, reads_of_lexeme (by simp) rfl hread, reads_of_lexeme (by simp) rfl hread',
    hR.same nofun (by rw [any_cons, hR.mark hc]; rfl) h⟩

theorem signed {a b : Char} (ha : a ∈ ['[', ']', '=', '-', '#', '!']) (hb : b ∈ ['[', ']', '=', '-', '#', '!'])
    (hoperator : ∀ cs : List Char, cs.head? ≠ some b → lexeme (a :: cs) = (.operator, 1))
    (hcomment : ∀ {cs ds}, R cs ds → ∃ text rest text' rest', cs = text ++ rest ∧ ds = text' ++ rest' ∧
      lexeme (a :: b :: cs) = (.comment, 2 + text.length) ∧ lexeme (a :: b :: ds) = (.comment, 2 + text'.length) ∧
      T .comment text rest text' rest') (h : R cs ds) : ReadAlike T (a :: cs) (a :: ds) := by
  by_cases hcs : cs.head? = some b
  · obtain ⟨cs, rfl⟩ := head?_eq_some_iff.mp hcs
    obtain ⟨ds, rfl, hrest⟩ := hR.head (hR.mark hb) h
    obtain ⟨text, rest, text', rest', rfl, rfl, hread, hread', hT⟩ := hcomment hrest
    refine ⟨.comment, _, rest, _, rest', reads_of_lexeme (by simp) rfl ?_, reads_of_lexeme (by simp) rfl ?_,
      hR.cons (hR.mark ha) (hR.cons (hR.mark hb) hT)⟩
    · rw [hread, length_cons, length_cons, Nat.add_comm]
    · rw [hread', length_cons, length_cons, Nat.add_comm]
  · exact hR.operator ha h (hoperator cs hcs) (hoperator ds (mt (hR.head?_iff (hR.mark hb) h).mpr hcs))

theorem bracketed (h : R cs ds) : ReadAlike T ('[' :: cs) ('[' :: ds) := by
  have hread := lexeme_bracket cs
  have hread' := lexeme_bracket ds
  obtain ⟨text, rest, text', rest', hne, hne', hsplit, hsplit', hlong, hlong', hT⟩ | ⟨hlong, hlong'⟩ :=
    hR.longBracketLength_cases (hR.grow (hR.mark mem_cons_self) h)
  · rw [hlong] at hread
    rw [hlong'] at hread'
    exact ⟨.string, text, rest, text', rest', reads_of_lexeme hne hsplit hread, reads_of_lexeme hne' hsplit' hread',
      hT _ (by simp)⟩
  · rw [hlong] at hread
    rw [hlong'] at hread'
    exact hR.operator (by simp) h hread hread'

theorem hyphened (h : R cs ds) : ReadAlike T ('-' :: cs) ('-' :: ds) := by
  refine hR.signed (by simp) (by simp) (b := '-') (fun cs hcs => ?_) hR.lexeme_hyphens h
  rw [lexeme_hyphen, commentLength.eq_3 _ (by rintro cs ⟨⟩; exact hcs rfl)]
  rfl

theorem hashed (h : R cs ds) : ReadAlike T ('#' :: cs) ('#' :: ds) := by
  refine hR.signed (by simp) (by simp) (b := '!') (fun cs hcs => ?_) (fun {cs ds} h => ?_) h
  · rw [lexeme_hash, shebangLength.eq_2 _ (by rintro cs ⟨⟩; exact hcs rfl)]
    rfl
  · refine ⟨_, _, _, _, takeWhile_append_dropWhile.symm, takeWhile_append_dropWhile.symm, ?_, ?_, hR.line h⟩
    all_goals rw [lexeme_hash]; rfl

/-- **Both texts start with a lexeme of the same class** if they start with the same character, and it is no quote. -/
theorem step (hc : S c = false) (hquote : c ∉ ['"', '\'']) (h : R cs ds) :
    ReadAlike T (c :: cs) (c :: ds) := by
  by_cases hplain : c ∈ ['[', '-', '#']
  · simp only [mem_cons, not_mem_nil, or_false] at hplain
    obtain rfl | rfl | rfl := hplain
    · exact hR.bracketed h
    · exact hR.hyphened h
    · exact hR.hashed h
  · have hnot : c ∉ ['"', '\'', '[', '-', '#'] := fun hmem => (mem_append (s := ['"', '\'']).mp hmem).elim hquote hplain
    obtain ⟨u, v, v', rfl, rfl, hu, hv, hv', -⟩ := hR.split h
    obtain ⟨k, n, hk, hreads⟩ := exists_reads_plain hR.parting hnot (hR.gap hc) u
    have htext : ((c :: u).take n).any S = false := by
      refine any_eq_false.mpr fun d hd => ?_
      obtain rfl | hd := mem_cons.mp (mem_of_mem_take hd)
      · exact Bool.eq_false_iff.mp hc
      · exact any_eq_false.mp hu d hd
    have hall : R ((c :: u).take n ++ ((c :: u).drop n ++ v)) ((c :: u).take n ++ ((c :: u).drop n ++ v')) := by
      rw [← append_assoc, ← append_assoc, take_append_drop]
      exact hR.grow hc h
    obtain ⟨_, heq, hrest⟩ := hR.append htext hall
    rw [← append_cancel_left heq] at hrest
    exact ⟨k, _, _, _, _, hreads v hv, hreads v' hv', hR.same hk htext hrest⟩

end Recasting

end WatchFace.Lua
