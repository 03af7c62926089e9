import WatchFace.Proofs.Lua.Indenting

/-!
# The tokens of indented scripts

A token on one line stays what it is. A string that goes on over the end of a line holds the blanks around that end, and
stays what it is if these blanks do.
-/

namespace WatchFace.Lua

open Text List

variable {code l rest text u u' w : List Char} {c : Char} {k : LexClass} {p p' : Place} {b b' : Bool}

/-! ### Texts with other blanks around their lines -/

def isPad (c : Char) : Bool := isBlank c && c != '\n'

theorem isBlank_of_isPad (hw : w.all isPad = true) : w.all isBlank = true :=
  all_eq_true.mpr fun c hc => (Bool.and_eq_true_iff.mp (all_eq_true.mp hw c hc)).1

theorem not_mem_of_isPad (hc : isPad c = false) (hw : w.all isPad = true) : c ∉ w :=
  fun hmem => absurd (all_eq_true.mp hw c hmem) (Bool.eq_false_iff.mp hc)

section

variable {p : Char → Bool} {u v : List Char}

theorem takeWhile_append_head (hu : u.all p = true) (hv : v.head?.all (!p ·) = true) : (u ++ v).takeWhile p = u := by
  rw [takeWhile_append_of_pos (all_eq_true.mp hu)]
  cases v with
  | nil => simp
  | cons c v => simpa using hv

theorem head?_all_of_append (h : (u ++ v).head?.all p = true) : u.head?.all p = true := by
  cases u with
  | nil => rfl
  | cons => exact h

end

def Keeps (kept : Nat → Prop) (n m : Nat) : Prop := ∀ i < m, kept (n + i)

/-- The blanks around the end of line `n`, and the spaces in another text; `kept` tells whether they are the same. -/
structure Turns (kept : Nat → Prop) (n : Nat) (trail lead spaces cs ds : List Char) : Prop where
  before : trail.all isPad = true
  behind : lead.all isPad = true
  spaced : ∀ c ∈ spaces, c = ' '
  here : cs.head?.all (!isPad ·) = true
  there : ds.head?.all (!isPad ·) = true
  kept_iff : kept n ↔ trail = [] ∧ spaces = lead

/-- Two texts from line `n` on that have the same lines but for the blanks around them. -/
inductive Relaid (kept : Nat → Prop) : Nat → List Char → List Char → Prop
  | stop {n : Nat} {w : List Char} (hw : w.all isPad = true) : Relaid kept n w []
  | char {n : Nat} {c : Char} {cs ds : List Char} (hc : c ≠ '\n') (h : Relaid kept n cs ds) :
      Relaid kept n (c :: cs) (c :: ds)
  | turn {n : Nat} {trail lead spaces cs ds : List Char} (ht : Turns kept n trail lead spaces cs ds)
      (h : Relaid kept (n + 1) cs ds) : Relaid kept n (trail ++ '\n' :: (lead ++ cs)) ('\n' :: (spaces ++ ds))

/-- Texts that are related so behind blanks at their starts. -/
def Loose (kept : Nat → Prop) (n : Nat) (cs ds : List Char) : Prop :=
  ∃ w w' r r', cs = w ++ r ∧ ds = w' ++ r' ∧ w.all isBlank = true ∧ w'.all isBlank = true ∧
    r.head?.all (!isBlank ·) = true ∧ Relaid kept (n + w.count '\n') r r'

section

variable {kept : Nat → Prop} {n m : Nat} {q : Char} {trail lead spaces w body rest cs ds : List Char}

theorem keeps_zero : Keeps kept n 0 := fun i hi => absurd hi (Nat.not_lt_zero i)

theorem keeps_succ : Keeps kept n (m + 1) ↔ kept n ∧ Keeps kept (n + 1) m := by
  rw [Keeps, Nat.forall_lt_succ_left, Nat.add_zero, Keeps]
  simp only [Nat.add_assoc, Nat.add_comm 1]

theorem count_append_line (hw : '\n' ∉ w) (u : List Char) : (w ++ u).count '\n' = u.count '\n' := by
  rw [count_append, count_eq_zero.mpr hw, Nat.zero_add]

theorem Turns.count (ht : Turns kept n trail lead spaces cs ds) (u : List Char) :
    (trail ++ '\n' :: (lead ++ u)).count '\n' = u.count '\n' + 1 := by
  rw [count_append_line (not_mem_of_isPad rfl ht.before), count_cons_self,
    count_append_line (not_mem_of_isPad rfl ht.behind)]

theorem Turns.eq_iff {v v' : List Char} (ht : Turns kept n trail lead spaces (u ++ v) (u' ++ v')) :
    '\n' :: (spaces ++ u') = trail ++ '\n' :: (lead ++ u) ↔ kept n ∧ u' = u := by
  rw [ht.kept_iff]
  constructor
  · intro h
    have hnil : trail = [] := by
      cases trail with
      | nil => rfl
      | cons c trail =>
        obtain ⟨rfl, -⟩ := List.cons.inj h
        cases ht.before
    rw [hnil, nil_append] at h
    have htail := (List.cons.inj h).2
    have hpads := congrArg (List.takeWhile isPad) htail
    rw [takeWhile_append_head ht.behind (head?_all_of_append ht.here),
      takeWhile_append_head (all_eq_true.mpr fun c hc => ht.spaced c hc ▸ rfl) (head?_all_of_append ht.there)] at hpads
    rw [hpads] at htail
    exact ⟨⟨hnil, hpads⟩, append_cancel_left htail⟩
  · rintro ⟨⟨rfl, rfl⟩, rfl⟩
    rfl

theorem Loose.append (hu : u.all isBlank = true) (hu' : u'.all isBlank = true)
    (h : Loose kept (n + u.count '\n') cs ds) : Loose kept n (u ++ cs) (u' ++ ds) := by
  obtain ⟨w, w', r, r', rfl, rfl, hw, hw', hr, h⟩ := h
  refine ⟨u ++ w, u' ++ w', r, r', by simp, by simp, ?_, ?_, hr, ?_⟩
  · rw [all_append, hu, hw, Bool.and_true]
  · rw [all_append, hu', hw', Bool.and_true]
  · rwa [count_append, ← Nat.add_assoc]

theorem Turns.loose (ht : Turns kept n trail lead spaces cs ds) (hw : w <:+ trail)
    (h : Loose kept (n + 1) cs ds) : Loose kept n (w ++ '\n' :: (lead ++ cs)) ('\n' :: (spaces ++ ds)) := by
  have hpads : w.all isPad = true :=
    all_eq_true.mpr fun c hc => all_eq_true.mp ht.before c (hw.subset hc)
  have hblank : (w ++ '\n' :: lead).all isBlank = true := by
    rw [all_append, isBlank_of_isPad hpads, all_cons, isBlank_of_isPad ht.behind]
    rfl
  have hspaced : ('\n' :: spaces).all isBlank = true := by
    rw [all_cons, all_eq_true.mpr fun c hc => ht.spaced c hc ▸ rfl]
    rfl
  have hcount : (w ++ '\n' :: lead).count '\n' = 1 := by
    rw [count_append_line (not_mem_of_isPad rfl hpads), count_cons_self,
      count_eq_zero.mpr (not_mem_of_isPad rfl ht.behind)]
  rw [← cons_append, ← append_assoc, ← cons_append]
  exact Loose.append hblank hspaced (hcount ▸ h)

theorem Relaid.loose (h : Relaid kept n cs ds) : Loose kept n cs ds := by
  induction h with
  | stop hw => exact ⟨_, [], [], [], by simp, rfl, isBlank_of_isPad hw, rfl, rfl, .stop rfl⟩
  | @char n c cs ds hc h ih =>
    cases hblank : isBlank c with
    | false => exact ⟨[], [], _, _, rfl, rfl, rfl, rfl, by simp [hblank], .char hc h⟩
    | true =>
      have hall : [c].all isBlank = true := by simp [hblank]
      refine Loose.append hall hall ?_
      rwa [count_singleton, if_neg (by simpa using hc)]
  | turn ht _ ih => exact ht.loose suffix_rfl ih

theorem Relaid.append (hw : '\n' ∉ w) (h : Relaid kept n cs ds) : Relaid kept n (w ++ cs) (w ++ ds) := by
  induction w with
  | nil => exact h
  | cons c w ih =>
    obtain ⟨hc, hw⟩ := not_or.mp (mt mem_cons.mpr hw)
    exact .char (Ne.symm hc) (ih hw)

theorem Relaid.cons_cases (h : Relaid kept n (c :: cs) ds) :
    (c ≠ '\n' ∧ ∃ ds', ds = c :: ds' ∧ Relaid kept n cs ds') ∨ (c :: cs).all isPad = true ∨
    ∃ trail lead spaces cs' ds', c :: cs = trail ++ '\n' :: (lead ++ cs') ∧ ds = '\n' :: (spaces ++ ds') ∧
      Turns kept n trail lead spaces cs' ds' ∧ Relaid kept (n + 1) cs' ds' := by
  generalize hall : c :: cs = all at h
  cases h with
  | stop hw => exact .inr (.inl hw)
  | char hc h =>
    obtain ⟨rfl, rfl⟩ := List.cons.inj hall
    exact .inl ⟨hc, _, rfl, h⟩
  | turn ht h => exact .inr (.inr ⟨_, _, _, _, _, rfl, rfl, ht, h⟩)

theorem Relaid.eq_nil (h : Relaid kept n [] ds) : ds = [] := by
  generalize hall : [] = all at h
  cases h with
  | stop => exact hall
  | char => cases hall
  | turn => exact absurd hall.symm (by simp)

theorem recasts_relaid : Recasts isBlank (Relaid kept n) where
  head := by
    intro c cs ds hc h
    have hpad : isPad c = false := by rw [isPad, hc, Bool.false_and]
    obtain ⟨-, h⟩ | hw | ⟨trail, lead, spaces, cs', ds', hsplit, -, ht, -⟩ := h.cons_cases
    · exact h
    · exact absurd mem_cons_self (not_mem_of_isPad hpad hw)
    · have hmem : c ∈ trail ++ ['\n'] := by
        cases trail with
        | nil => simp [(List.cons.inj hsplit).1]
        | cons d trail => simp [(List.cons.inj hsplit).1]
      obtain hmem | rfl := mem_append.mp hmem |>.imp_right mem_singleton.mp
      · exact absurd hmem (not_mem_of_isPad hpad ht.before)
      · cases hc
  back := by
    intro c cs ds hc h
    cases h with
    | char _ h => exact ⟨_, rfl, h⟩
    | turn => cases hc

/-! ### Strings -/

theorem any_isBlank_closing (level : Nat) : (closing level).any isBlank = false := by
  simp [closing, show isBlank ']' = false from rfl, show isBlank '=' = false from rfl]

theorem Relaid.findSub? (h : Relaid kept n cs ds) (level : Nat) :
    (Text.findSub? (closing level) cs = none ∧ Text.findSub? (closing level) ds = none) ∨
    ∃ u v u' v', cs = u ++ closing level ++ v ∧ ds = u' ++ closing level ++ v' ∧
      Text.findSub? (closing level) cs = some u.length ∧ Text.findSub? (closing level) ds = some u'.length ∧
      Relaid kept (n + u.count '\n') v v' ∧ (u' = u ↔ Keeps kept n (u.count '\n')) := by
  induction h with
  | @stop n w hw =>
    have hfind : Text.findSub? (closing level) (w ++ []) = none := findSub?_closing_append (not_mem_of_isPad rfl hw) []
    rw [append_nil] at hfind
    exact .inl ⟨hfind, rfl⟩
  | @char n c cs ds hc h ih =>
    have hall := Relaid.char hc h
    rw [Text.findSub?, Text.findSub?, recasts_relaid.isPrefixOf (any_isBlank_closing level) hall]
    split
    case isTrue hprefix =>
      obtain ⟨v, hv⟩ := isPrefixOf_iff_prefix.mp hprefix
      rw [← hv] at hall
      obtain ⟨v', hv', hrest⟩ := recasts_relaid.append (any_isBlank_closing level) hall
      exact .inr ⟨[], v, [], v', hv.symm, hv', rfl, rfl, hrest, iff_of_true rfl keeps_zero⟩
    case isFalse =>
      obtain ⟨hnone, hnone'⟩ | ⟨u, v, u', v', rfl, rfl, hfind, hfind', hrest, hiff⟩ := ih
      · exact .inl ⟨by rw [hnone]; rfl, by rw [hnone']; rfl⟩
      · refine .inr ⟨c :: u, v, c :: u', v', rfl, rfl, by rw [hfind]; rfl, by rw [hfind']; rfl, ?_, ?_⟩
        · rwa [count_cons_of_ne hc]
        · rw [count_cons_of_ne hc, cons_inj_right, hiff]
  | @turn n trail lead spaces cs ds ht h ih =>
    have hgap : ']' ∉ trail ++ '\n' :: lead := by
      simp [not_mem_of_isPad (c := ']') rfl ht.before, not_mem_of_isPad (c := ']') rfl ht.behind]
    have hgap' : ']' ∉ '\n' :: spaces := by
      rw [mem_cons, not_or]
      exact ⟨by decide, fun hmem => absurd (ht.spaced _ hmem) (by decide)⟩
    rw [← cons_append, ← append_assoc, ← cons_append, findSub?_closing_append hgap, findSub?_closing_append hgap']
    obtain ⟨hnone, hnone'⟩ | ⟨u, v, u', v', rfl, rfl, hfind, hfind', hrest, hiff⟩ := ih
    · exact .inl ⟨by rw [hnone]; rfl, by rw [hnone']; rfl⟩
    · rw [hfind, hfind', Option.map_some, Option.map_some]
      refine .inr ⟨trail ++ '\n' :: (lead ++ u), v, '\n' :: (spaces ++ u'), v', by simp, by simp, ?_, ?_, ?_, ?_⟩
      · simp only [length_append, length_cons, Option.some.injEq]
        omega
      · simp only [length_append, length_cons, Option.some.injEq]
        omega
      · rw [ht.count, Nat.add_comm (u.count '\n'), ← Nat.add_assoc]
        exact hrest
      · rw [append_assoc, append_assoc] at ht
        rw [ht.count, keeps_succ, ← hiff, ht.eq_iff]

theorem turn_split (hw : w.all isPad = true) (htrail : trail.all isPad = true)
    (h : w ++ '\n' :: cs = trail ++ '\n' :: ds) : trail = w ∧ ds = cs := by
  have hpads := congrArg (List.takeWhile isPad) h
  rw [takeWhile_append_head hw rfl, takeWhile_append_head htrail rfl] at hpads
  subst hpads
  exact ⟨rfl, (List.cons.inj (append_cancel_left h)).2.symm⟩

theorem Relaid.newline (h : Relaid kept n ('\n' :: cs) ds) : ∃ lead spaces cs' ds', cs = lead ++ cs' ∧
    ds = '\n' :: (spaces ++ ds') ∧ Turns kept n [] lead spaces cs' ds' ∧ Relaid kept (n + 1) cs' ds' := by
  obtain ⟨hc, -⟩ | hw | ⟨trail, lead, spaces, cs', ds', hsplit, hds, ht, hrest⟩ := h.cons_cases
  · exact absurd rfl hc
  · cases hw
  · obtain ⟨rfl, rfl⟩ := turn_split (w := []) rfl ht.before hsplit
    exact ⟨lead, spaces, cs', ds', rfl, hds, ht, hrest⟩

theorem Body.behind_pads (hq : isBlank q = false) (hbody : Body q body) (hw : w.all isPad = true)
    (h : body ++ q :: rest = w ++ cs) : ∃ body', body = w ++ body' ∧ cs = body' ++ q :: rest ∧ Body q body' := by
  induction w generalizing body with
  | nil => exact ⟨body, rfl, h.symm, hbody⟩
  | cons c w ih =>
    obtain ⟨hc, hpads⟩ := Bool.and_eq_true_iff.mp hw
    have hblank := (Bool.and_eq_true_iff.mp hc).1
    cases hbody with
    | nil =>
      obtain ⟨rfl, -⟩ := List.cons.inj h
      exact absurd (hblank.symm.trans hq) nofun
    | plain _ _ _ hbody =>
      obtain ⟨rfl, htail⟩ := List.cons.inj h
      obtain ⟨body', rfl, hcs, hbody'⟩ := ih hbody hpads htail
      exact ⟨body', rfl, hcs, hbody'⟩
    | hex | lineBreak | escape =>
      obtain ⟨rfl, -⟩ := List.cons.inj h
      cases hblank

theorem Body.head?_ne (hbody : Body q body) : body.head? ≠ some '\n' := by
  intro h
  obtain ⟨cs, rfl⟩ := head?_eq_some_iff.mp h
  cases hbody with
  | plain _ _ hline => cases hline

theorem Body.not_turn (hq : isBlank q = false) (hbody : Body q body) (hw : w.all isPad = true) :
    body ++ q :: rest ≠ w ++ '\n' :: cs := by
  intro h
  obtain ⟨body', -, hcs, hbody'⟩ := hbody.behind_pads hq hw h
  cases body' with
  | nil =>
    obtain ⟨rfl, -⟩ := List.cons.inj hcs
    cases hq
  | cons d body' =>
    obtain ⟨rfl, -⟩ := List.cons.inj hcs
    exact hbody'.head?_ne rfl

/-- A quoted string and its end in both texts: it is the same if the ends of its lines are kept. -/
def Closes (kept : Nat → Prop) (n : Nat) (q : Char) (body rest ds : List Char) : Prop :=
  ∃ body' rest', ds = body' ++ q :: rest' ∧ Body q body' ∧ Relaid kept (n + body.count '\n') rest rest' ∧
    (body' = body ↔ Keeps kept n (body.count '\n'))

theorem Closes.append (hw : '\n' ∉ w) (hgrow : ∀ {b}, Body q b → Body q (w ++ b)) (h : Closes kept n q body rest ds) :
    Closes kept n q (w ++ body) rest (w ++ ds) := by
  obtain ⟨body', rest', rfl, hbody, hrest, hiff⟩ := h
  refine ⟨w ++ body', rest', by simp, hgrow hbody, ?_, ?_⟩
  · rwa [count_append_line hw]
  · rw [count_append_line hw, append_right_inj, hiff]

theorem Closes.turn (hgrow : ∀ {b}, Body q b → Body q (w ++ '\n' :: b)) (hw : '\n' ∉ w) (hq : isBlank q = false)
    (ht : Turns kept n trail lead spaces (body ++ q :: rest) ds) (h : Closes kept (n + 1) q body rest ds) :
    Closes kept n q (w ++ (trail ++ '\n' :: (lead ++ body))) rest (w ++ '\n' :: (spaces ++ ds)) := by
  obtain ⟨body', rest', rfl, hbody, hrest, hiff⟩ := h
  have hplain : ∀ c ∈ spaces, c ≠ '\\' ∧ (c == q) = false ∧ inLine c = true := by
    intro c hc
    obtain rfl := ht.spaced c hc
    refine ⟨by decide, beq_eq_false_iff_ne.mpr ?_, rfl⟩
    rintro rfl
    cases hq
  refine ⟨w ++ '\n' :: (spaces ++ body'), rest', by simp, hgrow (hbody.append hplain), ?_, ?_⟩
  · rw [count_append_line hw, ht.count, Nat.add_comm (body.count _), ← Nat.add_assoc]
    exact hrest
  · rw [count_append_line hw, ht.count, keeps_succ, ← hiff, append_right_inj, ht.eq_iff]

theorem body_lineBreak (hw : w = ['\\'] ∨ w = ['\\', '\r']) (hbody : Body q body) : Body q (w ++ '\n' :: body) := by
  obtain rfl | rfl := hw
  · exact hbody.escape rfl nofun
  · exact hbody.lineBreak

/-- **A quoted string stays one**, and is the same if the ends of its lines are kept. -/
theorem Relaid.closes (hq : q = '"' ∨ q = '\'') (hbody : Body q body) (h : Relaid kept n (body ++ q :: rest) ds) :
    Closes kept n q body rest ds := by
  have hblank : isBlank q = false := by obtain rfl | rfl := hq <;> rfl
  have hpad : ∀ u : List Char, (u ++ q :: rest).all isPad ≠ true := fun u hw =>
    absurd (mem_append_right u mem_cons_self)
      (not_mem_of_isPad (by rw [isPad, hblank, Bool.false_and] : isPad q = false) hw)
  -- by the length of the string: behind the end of a line, the blanks of the next one are passed together with it
  induction hm : body.length using Nat.strongRecOn generalizing body n ds with
  | _ m ih =>
    have hunit : ∀ {w b : List Char}, w.any isBlank = false → (∀ {b}, Body q b → Body q (w ++ b)) → Body q b →
        b.length < m → Relaid kept n (w ++ (b ++ q :: rest)) ds → Closes kept n q (w ++ b) rest ds := by
      intro w b hw hgrow hb hlt h
      obtain ⟨ds, rfl, hrest⟩ := recasts_relaid.append hw h
      exact (ih _ hlt hb hrest rfl).append (fun hmem => any_eq_false.mp hw _ hmem rfl) hgrow
    have hturn : ∀ {w trail lead spaces b cs ds}, w = ['\\'] ∨ w = ['\\', '\r'] →
        Turns kept n trail lead spaces cs ds → b ++ q :: rest = lead ++ cs → Relaid kept (n + 1) cs ds → Body q b →
        b.length < m → Closes kept n q (w ++ (trail ++ '\n' :: b)) rest (w ++ '\n' :: (spaces ++ ds)) := by
      intro w trail lead spaces b cs ds hw ht hsplit h hb hlt
      obtain ⟨b, rfl, rfl, hb⟩ := hb.behind_pads hblank ht.behind hsplit
      have hnot : '\n' ∉ w := by obtain rfl | rfl := hw <;> decide
      rw [length_append] at hlt
      exact .turn (body_lineBreak hw) hnot hblank ht (ih _ (by omega) hb h rfl)
    cases hbody with
    | nil =>
      obtain ⟨ds, rfl, hrest⟩ := recasts_relaid.head hblank h
      exact ⟨[], ds, rfl, .nil, hrest, iff_of_true rfl keeps_zero⟩
    | @plain c cs hc hne hline hbody =>
      obtain ⟨hc', ds, rfl, hrest⟩ | hw | ⟨trail, lead, spaces, cs', ds', hsplit, -, ht, -⟩ := h.cons_cases
      · have hcs := ih cs.length (by rw [← hm, length_cons]; omega) hbody hrest rfl
        exact hcs.append (w := [c]) (by simpa using hc'.symm) fun hb => hb.plain hc hne hline
      · exact absurd hw (hpad (c :: cs))
      · exact absurd hsplit ((hbody.plain hc hne hline).not_turn hblank ht.before)
    | @hex d e cs hhex hbody =>
      have hfree : ∀ {d}, isHex d = true → isBlank d = false := fun hd => Bool.eq_false_iff.mpr fun hblank => by
        have hname := isNameChar_of_isHex hd
        rw [isNameChar_eq, isTagChar_of_isBlank hblank] at hname
        cases hname
      obtain ⟨hd, he⟩ := Bool.and_eq_true_iff.mp hhex
      have hw : ['\\', 'x', d, e].any isBlank = false := by
        rw [any_cons, any_cons, any_cons, any_cons, hfree hd, hfree he]
        rfl
      exact hunit hw (fun hb => hb.hex hhex) hbody (by simp only [← hm, length_cons]; omega) h
    | @lineBreak cs hbody =>
      have hlt : cs.length < m := by simp only [← hm, length_cons]; omega
      obtain ⟨ds, rfl, hrest⟩ := recasts_relaid.head rfl h
      obtain ⟨-, ds, rfl, hmore⟩ | hw | ⟨trail, lead, spaces, cs', ds', hsplit, rfl, ht, hmore⟩ := hrest.cons_cases
      · obtain ⟨lead, spaces, cs', ds', hsplit, rfl, ht, hend⟩ := hmore.newline
        exact hturn (.inr rfl) ht hsplit hend hbody hlt
      · cases hw
      · obtain ⟨rfl, htail⟩ := turn_split (w := ['\r']) rfl ht.before hsplit
        exact hturn (.inl rfl) ht htail.symm hmore hbody hlt
    | @escape e cs he hbreak hbody =>
      have hlt : cs.length < m := by simp only [← hm, length_cons]; omega
      have hgrow : ∀ {b}, Body q b → Body q (['\\', e] ++ b) := fun hb => hb.escape he fun _ => hb.head?_ne
      cases hblank' : isBlank e with
      | false => exact hunit (by simp [hblank', show isBlank '\\' = false from rfl]) hgrow hbody hlt h
      | true =>
        obtain ⟨ds, rfl, hrest⟩ := recasts_relaid.head rfl h
        by_cases hn : e = '\n'
        · subst hn
          obtain ⟨lead, spaces, cs', ds', hsplit, rfl, ht, hend⟩ := hrest.newline
          exact hturn (.inl rfl) ht hsplit hend hbody hlt
        · obtain ⟨-, ds, rfl, hmore⟩ | hw | ⟨trail, lead, spaces, cs', ds', hsplit, -, ht, -⟩ := hrest.cons_cases
          · exact (ih cs.length hlt hbody hmore rfl).append (by simpa using fun h => hn h.symm) hgrow
          · exact absurd hw (hpad (e :: cs))
          · cases trail with
            | nil => exact absurd (List.cons.inj hsplit).1 hn
            | cons d trail =>
              obtain ⟨-, hsplit⟩ := List.cons.inj hsplit
              exact absurd hsplit (hbody.not_turn hblank (Bool.and_eq_true_iff.mp ht.before).2)

/-! ### Token by token -/

/-- A lexeme from line `n` on, and the lexeme of the other text. -/
def Turned (kept : Nat → Prop) (n : Nat) (k : LexClass) (text rest text' rest' : List Char) : Prop :=
  Loose kept (n + text.count '\n') rest rest' ∧ (k ≠ .string → k.kind? text' = k.kind? text) ∧
    (k = .string → (text' = text ↔ Keeps kept n (text.count '\n')))

theorem count_newline (hw : w.any isBlank = false) : w.count '\n' = 0 :=
  count_eq_zero.mpr fun hmem => any_eq_false.mp hw _ hmem rfl

theorem Relaid.dropWhile_inLine (h : Relaid kept n cs ds) : Loose kept n (cs.dropWhile inLine) (ds.dropWhile inLine) := by
  induction h with
  | @stop n w hw =>
    refine ⟨w.dropWhile inLine, [], [], [], by simp, rfl, all_eq_true.mpr fun c hc => ?_, rfl, rfl, .stop rfl⟩
    exact all_eq_true.mp (isBlank_of_isPad hw) c ((dropWhile_suffix inLine).subset hc)
  | @char n c cs ds hc h ih =>
    cases hline : inLine c with
    | true => rwa [dropWhile_cons_of_pos hline, dropWhile_cons_of_pos hline]
    | false =>
      have hnot : ¬ inLine c = true := Bool.eq_false_iff.mp hline
      rw [dropWhile_cons_of_neg hnot, dropWhile_cons_of_neg hnot]
      exact (Relaid.char hc h).loose
  | @turn n trail lead spaces cs ds ht h ih =>
    have hdrop : ∀ cs : List Char, ('\n' :: cs).dropWhile inLine = '\n' :: cs := fun _ => rfl
    have hall : (trail ++ '\n' :: (lead ++ cs)).dropWhile inLine = trail.dropWhile inLine ++ '\n' :: (lead ++ cs) := by
      rw [dropWhile_append, hdrop]
      split
      case isTrue hnil => rw [List.isEmpty_iff.mp hnil, nil_append]
      case isFalse => rfl
    rw [hall, hdrop]
    exact ht.loose (dropWhile_suffix inLine) h.loose

theorem parting_isBlank : Parting isBlank where
  name c hc := by rw [isNameChar_eq, isTagChar_of_isBlank hc]
  mark c hc := by
    simp [ne_of_isBlank hc (d := '.') rfl, ne_of_isBlank hc (d := '+') rfl, ne_of_isBlank hc (d := '-') rfl]
  operator := by decide

theorem recasting_relaid : Recasting isBlank (Relaid kept n) (Turned kept n) where
  toRecasts := recasts_relaid
  parting := parting_isBlank
  marks := rfl
  gap := by
    intro c hc
    have hgaps : gaps.all isBlank = true := rfl
    exact .inr fun hmem => absurd (all_eq_true.mp hgaps c hmem) (Bool.eq_false_iff.mp hc)
  grow hc h := .char (by rintro rfl; cases hc) h
  same := by
    intro k w cs ds hk hw h
    rw [Turned, count_newline hw]
    exact ⟨h.loose, fun _ => rfl, fun hstring => absurd hstring hk⟩
  cons := by
    rintro c text rest text' rest' hc ⟨hloose, -⟩
    refine ⟨?_, fun _ => rfl, nofun⟩
    rwa [count_cons_of_ne (by rintro rfl; cases hc)]
  line := by
    intro cs ds h
    have hcount : (cs.takeWhile inLine).count '\n' = 0 :=
      count_eq_zero.mpr fun hmem => absurd (mem_takeWhile_imp hmem) nofun
    rw [Turned, hcount]
    exact ⟨h.dropWhile_inLine, fun _ => rfl, nofun⟩
  bracket := by
    intro cs ds level h
    refine (h.findSub? level).imp_right ?_
    rintro ⟨u, v, u', v', hcs, hds, hfind, hfind', hrest, hiff⟩
    refine ⟨u, v, u', v', hcs, hds, hfind, hfind', fun k hk => ?_⟩
    have hcount : (opening level ++ u ++ closing level).count '\n' = u.count '\n' := by
      rw [append_assoc, count_append_line (not_mem_opening (by decide) (by decide) level), count_append,
        count_eq_zero.mpr (not_mem_closing (by decide) (by decide) level), Nat.add_zero]
    rw [Turned, hcount, append_left_inj, append_right_inj]
    refine ⟨hrest.loose, fun hk' => ?_, fun _ => hiff⟩
    obtain rfl | hk := mem_cons.mp hk
    · exact absurd rfl hk'
    · rw [mem_singleton.mp hk]
      rfl

end

def closesQuotes : List Char → Bool
  | [] => true
  | c :: cs =>
    if isBlank c then closesQuotes cs
    else
      let (k, n) := lexeme (c :: cs)
      (k != .junk || !(['"', '\''].contains c)) && closesQuotes (cs.drop (n - 1))
termination_by cs => cs.length
decreasing_by all_goals simp only [length_drop, length_cons]; omega

theorem closesQuotes_append (hw : w.all isBlank = true) (cs : List Char) :
    closesQuotes (w ++ cs) = closesQuotes cs := by
  induction w with
  | nil => rfl
  | cons c w ih =>
    obtain ⟨hc, hw⟩ := Bool.and_eq_true_iff.mp hw
    rw [cons_append, closesQuotes, if_pos hc, ih hw]

theorem closesQuotes_of_reads {cs : List Char} (hc : isBlank c = false) (h : Reads (c :: cs) k text rest)
    (hclosed : closesQuotes (c :: cs) = true) :
    (k = .junk → c ∉ ['"', '\'']) ∧ closesQuotes rest = true := by
  obtain ⟨_, _, n, heq, hlexeme, -, rfl⟩ := exists_of_reads h
  obtain ⟨rfl, rfl⟩ := List.cons.inj heq
  rw [closesQuotes, if_neg (Bool.eq_false_iff.mp hc)] at hclosed
  simp only [hlexeme, Nat.add_sub_cancel, Bool.and_eq_true, Bool.or_eq_true, bne_iff_ne] at hclosed
  exact ⟨fun hk => by simpa using hclosed.1.resolve_left (not_not_intro hk), hclosed.2⟩

def Kind.breaks : Kind → Nat
  | .string s => s.toList.count '\n'
  | _ => 0

/-- A token, and the token at its place in the other text: a string may be another string, and no other token changes. -/
def Alike (kept : Nat → Prop) (t t' : Token) : Prop :=
  (t'.kind = t.kind ∨ ∃ s s', t.kind = .string s ∧ t'.kind = .string s') ∧
    (t'.kind = t.kind ↔ Keeps kept t.place.line t.kind.breaks)

section

variable {kept : Nat → Prop} {n : Nat} {c : Char} {cs ds : List Char}

theorem Relaid.readAlike (hc : isBlank c = false) (hclosed : closesQuotes (c :: cs) = true)
    (h : Relaid kept n (c :: cs) ds) : ReadAlike (Turned kept n) (c :: cs) ds := by
  obtain ⟨ds, rfl, hrest⟩ := recasts_relaid.head hc h
  by_cases hquote : c ∈ ['"', '\'']
  · have hq : c = '"' ∨ c = '\'' := by simpa using hquote
    have hlexeme := lexeme_quote hq cs
    cases hquoted : quotedFrom c 1 cs with
    | spoiled m =>
      rw [hquoted] at hlexeme
      have hreads : Reads (c :: cs) .junk ((c :: cs).take (m + 1)) ((c :: cs).drop (m + 1)) :=
        ⟨by simp, by simp, m + 1, hlexeme, rfl⟩
      exact absurd hquote ((closesQuotes_of_reads hc hreads hclosed).1 rfl)
    | closed m =>
      obtain ⟨body, rest, rfl, hbody⟩ := exists_body hquoted
      obtain ⟨body', rest', rfl, hbody', hrest, hiff⟩ := hrest.closes hq hbody
      have hreads := reads_quote hq hbody rest
      have hreads' := reads_quote hq hbody' rest'
      have hne : c ≠ '\n' := by rintro rfl; cases hc
      have hcount : (c :: body ++ [c]).count '\n' = body.count '\n' := by
        rw [count_append, count_cons_of_ne hne, count_singleton, if_neg (by simpa using hne), Nat.add_zero]
      rw [append_assoc, singleton_append, cons_append] at hreads hreads'
      refine ⟨.string, _, rest, _, rest', hreads, hreads', ?_, fun hk => absurd rfl hk, fun _ => ?_⟩
      · rw [hcount]
        exact hrest.loose
      · rw [hcount, append_left_inj, cons_inj_right, hiff]
  · exact recasting_relaid.step hc hquote hrest

theorem Turned.alike {text' rest' : List Char} {kind : Kind} (h : Turned kept p.line k text rest text' rest')
    (hkind : k.kind? text = some kind) :
    ∃ kind', k.kind? text' = some kind' ∧ Alike kept ⟨kind, p, b⟩ ⟨kind', p', b'⟩ := by
  obtain ⟨-, hsame, hstring⟩ := h
  by_cases hk : k = .string
  · subst hk
    cases hkind
    refine ⟨_, rfl, .inr ⟨_, _, rfl, rfl⟩, ?_⟩
    rw [Kind.breaks, String.toList_ofList, ← hstring rfl, Kind.string.injEq, String.ofList_inj]
  · have hbreaks : kind.breaks = 0 := by
      cases k with
      | string => exact absurd rfl hk
      | name =>
        simp only [LexClass.kind?, Option.some.injEq] at hkind
        split at hkind <;> exact hkind ▸ rfl
      | number | operator => exact Option.some.inj hkind ▸ rfl
      | _ => cases hkind
    refine ⟨kind, (hsame hk).trans hkind, .inl rfl, iff_of_true rfl ?_⟩
    rw [hbreaks]
    exact keeps_zero

/-- **Token by token, both texts are read alike.** -/
theorem forall₂_alike (hclosed : closesQuotes cs = true) (h : Loose kept p.line cs ds) :
    Forall₂ (Alike kept) (tokensFrom p b cs).1 (tokensFrom p' b' ds).1 := by
  induction hn : cs.length using Nat.strongRecOn generalizing cs ds p p' b b' with
  | _ n ih =>
    obtain ⟨w, w', r, r', rfl, rfl, hw, hw', hfresh, hr⟩ := h
    obtain ⟨b, hskip⟩ := tokensFrom_append_blank hw r p b
    obtain ⟨b', hskip'⟩ := tokensFrom_append_blank hw' r' p' b'
    rw [closesQuotes_append hw] at hclosed
    rw [hskip, hskip']
    rw [← line_after] at hr
    cases r with
    | nil =>
      obtain rfl := hr.eq_nil
      rw [tokensFrom, tokensFrom]
      exact .nil
    | cons c r =>
      have hc : isBlank c = false := by simpa using hfresh
      obtain ⟨k, text, rest, text', rest', hreads, hreads', hturned⟩ := hr.readAlike hc hclosed
      have hrest := (closesQuotes_of_reads hc hreads hclosed).2
      have hlength : rest.length < n := by
        have := length_pos_iff.mpr hreads.ne_nil
        rw [← hn, length_append, hreads.split, length_append]
        omega
      have hloose : Loose kept ((p.after w).after text).line rest rest' := by
        rw [line_after]
        exact hturned.1
      cases hkind : k.kind? text with
      | none =>
        have hkind' : k.kind? text' = none := by
          rw [hturned.2.1 (by rintro rfl; cases hkind), hkind]
        rw [tokensFrom_none hreads hkind, tokensFrom_none hreads' hkind']
        exact ih _ hlength hrest hloose rfl
      | some kind =>
        obtain ⟨kind', hkind', halike⟩ := hturned.alike hkind
        rw [tokensFrom_some hreads hkind, tokensFrom_some hreads' hkind']
        exact .cons halike (ih _ hlength hrest hloose rfl)

theorem kinds_eq_iff {ts ts' : List Token} (h : Forall₂ (Alike kept) ts ts') :
    ts'.map (·.kind) = ts.map (·.kind) ↔ ∀ t ∈ ts, Keeps kept t.place.line t.kind.breaks := by
  induction h with
  | nil => simp
  | cons halike _ ih => rw [map_cons, map_cons, List.cons.injEq, forall_mem_cons, halike.2, ih]

end

/-! ### Indented lines -/

namespace Format

/-- Line `n` has no blanks at its end, and the next line keeps those at its start. -/
def Steady (ls ms : List (List Char)) (n : Nat) : Prop :=
  strip (ls.getD (n - 1) []) = stripLeft (ls.getD (n - 1) []) ∧
    (ms.getD n []).takeWhile isBlank = (ls.getD n []).takeWhile isBlank

instance (ls ms : List (List Char)) (n : Nat) : Decidable (Steady ls ms n) := inferInstanceAs (Decidable (_ ∧ _))

theorem joinLines_append (u v : List Char) (ls : List (List Char)) :
    joinLines ((u ++ v) :: ls) = u ++ joinLines (v :: ls) := by
  cases ls <;> simp [joinLines, joinWith]

theorem head?_joinLines (h : l.head?.all (!isBlank ·) = true) (ls : List (List Char)) :
    (joinLines (l :: ls)).head?.all (!isPad ·) = true := by
  cases l with
  | nil => cases ls <;> rfl
  | cons c l =>
    have hc : isBlank c = false := by simpa using h
    cases ls <;> simp [joinLines, joinWith, isPad, hc]

theorem exists_trail (l : List Char) : ∃ trail, stripLeft l = strip l ++ trail ∧ trail.all isBlank = true ∧
    (strip l = stripLeft l ↔ trail = []) ∧ strip l ++ trail ⊆ l := by
  have hsplit : stripLeft l = strip l ++ ((stripLeft l).reverse.takeWhile isBlank).reverse := by
    rw [strip, stripRight, ← reverse_append, takeWhile_append_dropWhile, reverse_reverse]
  refine ⟨_, hsplit, ?_, ?_, hsplit ▸ (dropWhile_suffix isBlank).subset⟩
  · rw [all_reverse, all_takeWhile]
  · exact ⟨fun h => append_right_eq_self.mp (hsplit.symm.trans h.symm), fun h => by rw [hsplit, h]; simp⟩

theorem head?_strip (l : List Char) : (strip l).head?.all (!isBlank ·) = true := by
  obtain ⟨trail, hsplit, -⟩ := exists_trail l
  have hhead := all_head?_dropWhile l
  rw [← stripLeft, hsplit] at hhead
  exact head?_all_of_append hhead

theorem exists_spaces (level : Nat) (l : List Char) : ∃ spaces, indent level (strip l) = spaces ++ strip l ∧
    (∀ c ∈ spaces, c = ' ') ∧ (indent level (strip l)).takeWhile isBlank = spaces := by
  unfold indent
  split
  case isTrue hnil => exact ⟨[], (List.isEmpty_iff.mp hnil).symm, forall_mem_nil _, rfl⟩
  case isFalse =>
    have hspaces : ∀ c ∈ List.replicate (2 * level) ' ', c = ' ' := fun c hc => eq_of_mem_replicate hc
    refine ⟨_, rfl, hspaces, takeWhile_append_head ?_ (head?_strip l)⟩
    exact all_eq_true.mpr fun c hc => hspaces c hc ▸ rfl

/-- **Lines, and the same lines at their levels**, from the first character on that is no blank. -/
theorem relaid_formatLines {kept : Nat → Prop} {ls : List (List Char)} (hl : '\n' ∉ l) (hls : ∀ m ∈ ls, '\n' ∉ m)
    (level n : Nat) (hkept : ∀ i, kept (n + i) ↔ strip ((l :: ls).getD i []) = stripLeft ((l :: ls).getD i []) ∧
      ((formatLines level ls).getD i []).takeWhile isBlank = (ls.getD i []).takeWhile isBlank) :
    Relaid kept n (joinLines (stripLeft l :: ls)) (joinLines (strip l :: formatLines level ls)) := by
  have hpads : ∀ {l w : List Char}, '\n' ∉ l → w ⊆ l → w.all isBlank = true → w.all isPad = true := by
    intro l w hl hsub hw
    refine all_eq_true.mpr fun c hc => Bool.and_eq_true_iff.mpr ⟨all_eq_true.mp hw c hc, bne_iff_ne.mpr ?_⟩
    rintro rfl
    exact hl (hsub hc)
  induction ls generalizing l level n with
  | nil =>
    obtain ⟨trail, hsplit, htrail, -, hsub⟩ := exists_trail l
    have hend : Relaid kept n trail [] := .stop (hpads hl (fun c hc => hsub (mem_append_right _ hc)) htrail)
    have hall := hend.append fun hmem => hl (hsub (mem_append_left _ hmem))
    rwa [← hsplit, append_nil] at hall
  | cons m ls ih =>
    obtain ⟨trail, hsplit, htrail, hstrip, hsub⟩ := exists_trail l
    obtain ⟨hm, hls⟩ := forall_mem_cons.mp hls
    obtain ⟨spaces, hindent, hspaces, htake⟩ := exists_spaces (levelOf level (firstWord (strip m))) m
    have hrest := ih hm hls (levelAfter level (firstWord (strip m))) (n + 1) fun i => by
      rw [Nat.add_assoc, Nat.add_comm 1, hkept (i + 1)]
      rfl
    have hjoin : joinLines (m :: ls) = m.takeWhile isBlank ++ joinLines (stripLeft m :: ls) := by
      rw [← joinLines_append, stripLeft, takeWhile_append_dropWhile]
    have hturns : Turns kept n trail (m.takeWhile isBlank) spaces (joinLines (stripLeft m :: ls))
        (joinLines (strip m :: formatLines (levelAfter level (firstWord (strip m))) ls)) := by
      refine ⟨hpads hl (fun c hc => hsub (mem_append_right _ hc)) htrail, hpads hm (takeWhile_subset isBlank) all_takeWhile,
        hspaces, head?_joinLines (all_head?_dropWhile m) ls, head?_joinLines (head?_strip m) _, ?_⟩
      rw [← hstrip, ← htake]
      exact hkept 0
    rw [formatLines, joinLines_cons (cons_ne_nil _ _), joinLines_cons (cons_ne_nil _ _), hjoin, hsplit,
      hindent, joinLines_append, append_assoc]
    exact (Relaid.turn hturns hrest).append fun hmem => hl (hsub (mem_append_left _ hmem))

theorem loose_format (code : List Char) :
    Loose (Steady (splitLines code) (splitLines (format code))) 1 code (format code) := by
  have hlines := not_mem_splitLines code
  have hcode := joinLines_splitLines code
  rw [splitLines_format, format]
  cases hsplit : splitLines code with
  | nil => exact absurd hsplit (splitLines_ne_nil code)
  | cons l ls =>
    rw [hsplit] at hlines hcode
    obtain ⟨hl, hls⟩ := forall_mem_cons.mp hlines
    obtain ⟨spaces, hindent, hspaces, -⟩ := exists_spaces (levelOf 0 (firstWord (strip l))) l
    have hjoin : code = l.takeWhile isBlank ++ joinLines (stripLeft l :: ls) := by
      rw [← joinLines_append, stripLeft, takeWhile_append_dropWhile, hcode]
    have hrelaid : Relaid (Steady (l :: ls) (formatLines 0 (l :: ls))) 1 _ _ :=
      relaid_formatLines hl hls (levelAfter 0 (firstWord (strip l))) 1 fun i => by
        rw [Steady, Nat.add_sub_cancel_left, Nat.add_comm 1]
        rfl
    have hcount : (l.takeWhile isBlank).count '\n' = 0 :=
      count_eq_zero.mpr fun hmem => hl (takeWhile_subset isBlank hmem)
    rw [formatLines] at hrelaid ⊢
    rw [hindent] at hrelaid ⊢
    rw [hjoin, joinLines_append]
    refine Loose.append all_takeWhile ?_ (by rw [hcount]; exact hrelaid.loose)
    exact all_eq_true.mpr fun c hc => hspaces c hc ▸ rfl

theorem forall₂_tokenize_format (h : closesQuotes code = true) :
    Forall₂ (Alike (Steady (splitLines code) (splitLines (format code)))) (tokenize code).1 (tokenize (format code)).1 :=
  forall₂_alike h (loose_format code)

end Format

end WatchFace.Lua

namespace WatchFace.Script.View

open List (Forall₂)
open Text Lua Lua.Format

/-- **To indent a script keeps its tokens, exactly if its strings keep the blanks inside them.** In a script in which
    every quote is closed, no token appears or disappears, and only strings can change. -/
theorem kinds_format_iff {v : View} (h : closesQuotes v.text.toList = true) :
    Forall₂ (fun t t' => t'.kind = t.kind ∨ ∃ s s', t.kind = .string s ∧ t'.kind = .string s')
      (tokenize v.text.toList).1 (tokenize v.format.1.text.toList).1 ∧
    ((tokenize v.format.1.text.toList).1.map (·.kind) = (tokenize v.text.toList).1.map (·.kind) ↔
      ∀ t ∈ (tokenize v.text.toList).1, ∀ i < t.kind.breaks,
        Steady (splitLines v.text.toList) (splitLines v.format.1.text.toList) (t.place.line + i)) := by
  rw [text_format]
  split
  case isTrue hblank =>
    rw [tokenize, tokensFrom_blank (List.all_eq_true.mpr (isBlank_of_strip hblank))]
    exact ⟨.nil, iff_of_true rfl (List.forall_mem_nil _)⟩
  case isFalse =>
    rw [String.toList_ofList]
    have halike := forall₂_tokenize_format h
    exact ⟨halike.imp fun _ _ => And.left, kinds_eq_iff halike⟩

theorem kinds_format_steady :
    let v : View := { text := "x = [[a\nb]]\n  y = 1" }
    v.format.1.text = "x = [[a\nb]]\ny = 1" ∧
      (tokenize v.format.1.text.toList).1.map (·.kind) = (tokenize v.text.toList).1.map (·.kind) :=
  ⟨by decide +kernel, (kinds_format_iff (by decide +kernel)).2.mpr (by decide +kernel)⟩

/-- The blanks at the start of the second line belong to the string, and are gone. -/
theorem kinds_format_bracket :
    let v : View := { text := "x = [[a\n  b]]" }
    (parse v.text.toList).toOption.isSome = true ∧
      (tokenize v.text.toList).1.map (·.kind) = [.name "x", .operator "=", .string "[[a\n  b]]"] ∧
      (tokenize v.format.1.text.toList).1.map (·.kind) = [.name "x", .operator "=", .string "[[a\nb]]"] := by
  decide +kernel

end WatchFace.Script.View
