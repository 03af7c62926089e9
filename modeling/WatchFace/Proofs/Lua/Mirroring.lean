import Mathlib.Data.List.Basic
import WatchFace.Lua.Outline
import WatchFace.Proofs.Lua.TagTables
import WatchFace.Proofs.Lua.Trees

/-!
# Parsing a script with hidden tags along with the script itself

The rules of the grammar are run on the tokens of a script and on those of the script with its tags hidden, side by
side. A tag is read as a table with one item, and its placeholder as a string.
-/

namespace WatchFace.Lua

open Outline (Bracket)
open List

/-- What can be open: a bracket, a block that `end` closes, or a loop that `until` closes. -/
inductive Mark where
  | bracket (k : Bracket)
  | block
  | loop
  deriving Repr, DecidableEq

inductive Move where
  | opens (m : Mark)
  | closes (m : Mark)
  deriving Repr, DecidableEq

def Move.mark : Move → Mark
  | .opens m => m
  | .closes m => m

def bracketMove? (c : Char) : Option Move :=
  Bracket.all.findSome? fun k =>
    if c = k.opening then some (.opens (.bracket k))
    else if c = k.closing then some (.closes (.bracket k))
    else none

/-- The move of a keyword. The words before the `do` of a loop say nothing more than it. -/
def keywordMove? (w : String) : Option Move :=
  if ["function", "if", "do"].contains w then some (.opens .block)
  else if w = "repeat" then some (.opens .loop)
  else if w = "end" then some (.closes .block)
  else if w = "until" then some (.closes .loop)
  else none

def Kind.move? : Kind → Option Move
  | .keyword w => keywordMove? w
  | .operator s =>
    match s.toList with
    | [c] => bracketMove? c
    | _ => none
  | _ => none

def movesOf (ts : List Token) : List Move := ts.filterMap fun t => t.kind.move?

/-! ### What is open -/

def Move.act : Move → List Mark → Option (List Mark)
  | .opens m, s => some (m :: s)
  | .closes m, m' :: s => if m' = m then some s else none
  | .closes _, [] => none

def nest (s : List Mark) : List Move → Option (List Mark)
  | [] => some s
  | a :: moves => (a.act s).bind fun s' => nest s' moves

theorem nest_append (s : List Mark) (u v : List Move) : nest s (u ++ v) = (nest s u).bind fun s' => nest s' v := by
  induction u generalizing s with
  | nil => rfl
  | cons a u ih =>
    rw [cons_append, nest, nest, Option.bind_assoc]
    exact congrArg _ (funext fun s' => ih s')

theorem nest_append_of_eq {s s' s'' : List Mark} {u v : List Move} (hu : nest s u = some s')
    (hv : nest s' v = some s'') : nest s (u ++ v) = some s'' := by
  rw [nest_append, hu]
  exact hv

theorem act_filter {a : Move} {s s' : List Mark} (h : a.act s = some s') (p : Mark → Bool) :
    nest (s.filter p) ([a].filter fun a => p a.mark) = some (s'.filter p) := by
  cases a with
  | opens m =>
    cases h
    by_cases hm : p m = true
    · simp [Move.mark, hm, nest, Move.act]
    · simp [Move.mark, hm, nest]
  | closes m =>
    cases s with
    | nil => cases h
    | cons m' s =>
      rw [Move.act, Option.ite_none_right_eq_some] at h
      obtain ⟨rfl, hs⟩ := h
      cases hs
      by_cases hm : p m' = true
      · simp [Move.mark, hm, nest, Move.act]
      · simp [Move.mark, hm, nest]

theorem nest_filter {s s' : List Mark} {moves : List Move} (h : nest s moves = some s') (p : Mark → Bool) :
    nest (s.filter p) (moves.filter fun a => p a.mark) = some (s'.filter p) := by
  induction moves generalizing s with
  | nil =>
    cases h
    rfl
  | cons a moves ih =>
    obtain ⟨t, ht, hrest⟩ := Option.bind_eq_some_iff.mp h
    rw [← singleton_append, filter_append]
    exact nest_append_of_eq (act_filter ht p) (ih hrest)

/-! ### What moves amount to -/

/-- What some moves close of what was open before them, and what they leave open, after one more of them. -/
def settle : List Mark × List Mark → Move → Option (List Mark × List Mark)
  | (closed, opened), .opens m => some (closed, m :: opened)
  | (closed, m' :: opened), .closes m => if m' = m then some (closed, opened) else none
  | (closed, []), .closes m => some (closed ++ [m], [])

/-- What moves amount to: the marks that they close, and those that they leave open. -/
def residueFrom (r : List Mark × List Mark) : List Move → Option (List Mark × List Mark)
  | [] => some r
  | a :: moves => (settle r a).bind fun r' => residueFrom r' moves

def residue (moves : List Move) : Option (List Mark × List Mark) := residueFrom ([], []) moves

/-- What is open after the marks of `r` were closed and opened. -/
def exchange (s : List Mark) (r : List Mark × List Mark) : Option (List Mark) :=
  if r.1 <+: s then some (r.2 ++ s.drop r.1.length) else none

theorem exchange_append (closed opened t : List Mark) :
    exchange (closed ++ t) (closed, opened) = some (opened ++ t) := by
  rw [exchange, if_pos (prefix_append closed t), drop_left]

theorem act_exchange (s : List Mark) (r : List Mark × List Mark) (a : Move) :
    (exchange s r).bind a.act = (settle r a).bind (exchange s) := by
  obtain ⟨closed, opened⟩ := r
  by_cases hs : closed <+: s
  · obtain ⟨t, rfl⟩ := hs
    rw [exchange_append]
    cases a with
    | opens m => exact (exchange_append closed (m :: opened) t).symm
    | closes m =>
      cases opened with
      | cons m' opened =>
        by_cases hm : m' = m
        · simp [settle, Move.act, hm, exchange_append]
        · simp [settle, Move.act, hm]
      | nil =>
        -- nothing is left open by the moves so far: this one closes a mark of before, if there is one
        cases t with
        | nil =>
          have hlong : ¬ closed ++ [m] <+: closed := fun h => absurd h.length_le (by simp)
          simp [settle, Move.act, exchange, hlong]
        | cons m' t =>
          by_cases hm : m' = m
          · have hexchange := exchange_append (closed ++ [m]) [] t
            rw [append_assoc] at hexchange
            simpa [settle, Move.act, hm] using hexchange.symm
          · simp [settle, Move.act, exchange, hm, Ne.symm hm]
  -- what the moves so far close is not there, and no further move mends that
  · have hnone : exchange s (closed, opened) = none := if_neg hs
    have hclosed : ∀ m, ¬ closed ++ [m] <+: s := fun m h => hs ((prefix_append closed [m]).trans h)
    rw [hnone]
    cases a with
    | opens m => exact (if_neg hs).symm
    | closes m =>
      cases opened with
      | cons m' opened =>
        by_cases hm : m' = m
        · simp [settle, hm, exchange, hs]
        · simp [settle, hm]
      | nil => exact (if_neg (hclosed m)).symm

theorem nest_eq_residue (s : List Mark) (moves : List Move) : nest s moves = (residue moves).bind (exchange s) := by
  -- for the induction some moves have gone before, and what they amount to is `r`
  have hfrom : ∀ r, ((exchange s r).bind fun s' => nest s' moves) = (residueFrom r moves).bind (exchange s) := by
    induction moves with
    | nil =>
      intro r
      cases h : exchange s r <;> simp [nest, residueFrom, h]
    | cons a moves ih =>
      intro r
      calc ((exchange s r).bind fun s' => nest s' (a :: moves))
        _ = ((exchange s r).bind a.act).bind fun s' => nest s' moves := (Option.bind_assoc ..).symm
        _ = (settle r a).bind fun r' => (exchange s r').bind fun s' => nest s' moves := by
          rw [act_exchange, Option.bind_assoc]
        _ = (settle r a).bind fun r' => (residueFrom r' moves).bind (exchange s) := by simp only [ih]
        _ = (residueFrom r (a :: moves)).bind (exchange s) := (Option.bind_assoc ..).symm
  exact hfrom ([], [])

/-! ### Tokens that are read -/

variable {s t u : List Mark}

/-- The tokens between two cursors lead from what is open before them to what is open after them. -/
def Leads (c c' : Cursor) (s t : List Mark) : Prop := ∃ ts, c.rest = ts ++ c'.rest ∧ nest s (movesOf ts) = some t

theorem Leads.refl (c : Cursor) (s : List Mark) : Leads c c s s := ⟨[], rfl, rfl⟩

theorem Leads.trans {c c' c'' : Cursor} (h : Leads c c' s t) (h' : Leads c' c'' t u) : Leads c c'' s u := by
  obtain ⟨ts, hts, hnest⟩ := h
  obtain ⟨tt, htt, hnest'⟩ := h'
  refine ⟨ts ++ tt, by rw [hts, htt, append_assoc], ?_⟩
  rw [movesOf, filterMap_append]
  exact nest_append_of_eq hnest hnest'

/-- What is said of two scripts that are read side by side: of their trees, whether both end with a tag that is no table,
    and of the errors of the first. -/
structure View extends Likeness where
  stuck : Bool
  fault : SyntaxError → Prop
  ambiguous : ∀ line offset, fault (.ambiguous line offset)

/-- A script and the same with its tags hidden, about the errors of which nothing is said. -/
abbrev View.hiding (stuck : Bool) : View := ⟨.hidden, stuck, fun _ => True, fun _ _ => trivial⟩

/-! ### Tokens -/

/-- What a token is with tags hidden: a string is another one, all else is the same. -/
inductive Kind.Like (L : Likeness) : Kind → Kind → Prop
  | same {k : Kind} (h : ∀ s, k ≠ .string s) : Kind.Like L k k
  | string {s s' : String}
      (h : String.ofList (stringValue s'.toList) = L.string (String.ofList (stringValue s.toList))) :
      Kind.Like L (.string s) (.string s')

theorem Kind.Like.eq {L : Likeness} {k k' : Kind} (h : k.Like L k') (hk' : ∀ s, k' ≠ .string s) : k' = k := by
  cases h with
  | same => rfl
  | string => exact absurd rfl (hk' _)

structure Token.Like (V : View) (t t' : Token) : Prop where
  kind : t.kind.Like V.toLikeness t'.kind
  same : t'.place.line = t.place.line
  broken : t'.broken = t.broken
  line : V.line t.place.line
  expecting : ∀ column, V.fault (.expecting t.place.line column)
  number : ∀ s, t.kind = .number s → V.fault (.malformedNumber s)

/-- Tokens with tags hidden. If the view is stuck, both end where nothing can be read: at a brace without a table, and
    at the mark of an end. -/
inductive Masked (V : View) : List Token → List Token → Prop
  | nil (h : V.stuck = false) : Masked V [] []
  | dead {ts : List Token} {t : Token} (h : V.stuck = true) (hfault : ∀ e, V.fault e) (hdead : Dead ts)
      (ht : t.kind = .eof) : Masked V ts [t]
  | cons {t t' : Token} {ts ts' : List Token} (ht : t.Like V t') (h : Masked V ts ts') : Masked V (t :: ts) (t' :: ts')
  | tag {o x c t : Token} {ts ts' : List Token} {name : List Char} (hfault : ∀ e, V.fault e)
      (ho : o.kind = .operator "\x7b") (hx : (x.kind.item? x.place.line).isSome) (hc : c.kind = .operator "\x7d")
      (hname : Tag.IsName name) (ht : t.kind = .string (String.ofList (Tag.placeholder name))) (h : Masked V ts ts') :
      Masked V (o :: x :: c :: ts) (t :: ts')

theorem Masked.expecting {V : View} {ts ts' : List Token} (h : Masked V ts ts') :
    ∀ t ∈ ts, ∀ column, V.fault (.expecting t.place.line column) := by
  induction h with
  | nil => exact nofun
  | dead _ hfault | tag hfault => exact fun _ _ _ => hfault _
  | cons ht _ ih => exact List.forall_mem_cons.mpr ⟨ht.expecting, ih⟩

structure Cursor.Like (V : View) (c d : Cursor) : Prop where
  rest : Masked V c.rest d.rest
  last : d.last.isSome = c.last.isSome
  stop : ∀ column, V.fault (.expecting c.stop.line column)

theorem Cursor.Like.unexpected {V : View} {c d : Cursor} (h : c.Like V d) : V.fault c.unexpected := by
  unfold Cursor.unexpected Cursor.ahead
  cases hrest : c.rest.drop 1 with
  | nil => exact h.stop _
  | cons t ts => exact h.rest.expecting t (List.mem_of_mem_drop (hrest ▸ List.mem_cons_self)) _

/-! ### Outcomes -/

/-- Two cursors go on, each from where it was, or both stay where they are unless they have to go on. -/
def Advance (eats : Bool) (c d c' d' : Cursor) : Prop :=
  eats = false ∧ c'.rest.length = c.rest.length ∧ d'.rest.length = d.rest.length ∨
    c'.rest.length < c.rest.length ∧ d'.rest.length < d.rest.length

/-- What comes of a rule at cursor `c`, and of its mirror image at `d`. An error that aborts the parse only has to be
    one that may arise. -/
inductive Outcome.Mirrors {α β : Type} (V : View) (eats : Bool) (s t : List Mark) (R : α → β → Prop) (c d : Cursor) :
    Outcome α → Outcome β → Prop
  | ok {x : α} {y : β} {c' d' : Cursor} (hvalue : R x y) (hcursor : c'.Like V d') (hadvance : Advance eats c d c' d')
      (hleads : Leads c c' s t) : Outcome.Mirrors V eats s t R c d (.ok x c') (.ok y d')
  | no : Outcome.Mirrors V eats s t R c d .no .no
  | abort {e : SyntaxError} {o : Outcome β} (he : V.fault e) : Outcome.Mirrors V eats s t R c d (.abort e) o

/-- With fewer than `k` tokens ahead the second rule does what the first does, and leads from what is open to what is
    open then. -/
def View.Mirrors {α β : Type} (V : View) (eats : Bool) (k : Nat) (s t : List Mark) (R : α → β → Prop) (p : Parser α)
    (q : Parser β) : Prop :=
  ∀ c d, c.Like V d → d.rest.length < k → Outcome.Mirrors V eats s t R c d (p c) (q d)

section

variable {V : View} {α β γ δ : Type} {eats eats' : Bool} {j k : Nat} {s t u : List Mark} {R : α → β → Prop}
  {S : γ → δ → Prop}

theorem Advance.refl (c d : Cursor) : Advance false c d c d := .inl ⟨rfl, rfl, rfl⟩

theorem Advance.trans {c d c' d' c'' d'' : Cursor} (h : Advance eats c d c' d')
    (h' : Advance eats' c' d' c'' d'') : Advance (eats || eats') c d c'' d'' := by
  unfold Advance at *
  cases eats <;> cases eats' <;> simp at * <;> omega

theorem Advance.loose {c d c' d' : Cursor} (h : Advance eats c d c' d') : Advance false c d c' d' := by
  unfold Advance at *
  simp only [true_and]
  omega

namespace Outcome.Mirrors

variable {c d : Cursor} {o : Outcome α} {o' : Outcome β}

theorem bind {p : Parser α} {q : Parser β} {f : α → Parser γ} {g : β → Parser δ}
    (h : Outcome.Mirrors V eats s t R c d (p c) (q d))
    (hf : ∀ x y c' d', R x y → c'.Like V d' → Advance eats c d c' d' →
      Outcome.Mirrors V eats' t u S c' d' (f x c') (g y d')) :
    Outcome.Mirrors V (eats || eats') s u S c d ((p >>= f) c) ((q >>= g) d) := by
  rw [Parser.bind_apply, Parser.bind_apply]
  generalize p c = o, q d = o' at h
  cases h with
  | no => exact .no
  | abort he => exact .abort he
  | @ok x y c' d' hvalue hcursor hadvance hleads =>
    dsimp only
    have hnext := hf x y c' d' hvalue hcursor hadvance
    generalize f x c' = o, g y d' = o' at hnext
    cases hnext with
    | no => exact .no
    | abort he => exact .abort he
    | ok hvalue hcursor hadvance' hleads' =>
      exact .ok hvalue hcursor (hadvance.trans hadvance') (hleads.trans hleads')

theorem map {p : Parser α} {q : Parser β} {f : α → γ} {g : β → δ} (h : Outcome.Mirrors V eats s t R c d (p c) (q d))
    (hf : ∀ x y, R x y → S (f x) (g y)) :
    Outcome.Mirrors V eats s t S c d ((p >>= fun x => pure (f x)) c) ((q >>= fun y => pure (g y)) d) := by
  rw [← Bool.or_false eats]
  exact h.bind fun x y c' d' hxy hcd _ => .ok (hf x y hxy) hcd (.refl _ _) (.refl _ _)

theorem eat {p : Parser α} {q : Parser β} {f : α → Parser γ} {g : β → Parser δ}
    (h : Outcome.Mirrors V true s t R c d (p c) (q d)) (hk : d.rest.length < k + 1)
    (hf : ∀ x y, R x y → V.Mirrors false k t u S (f x) (g y)) :
    Outcome.Mirrors V true s u S c d ((p >>= f) c) ((q >>= g) d) := by
  refine h.bind fun x y c' d' hxy hcd' hadvance => hf x y hxy c' d' hcd' ?_
  obtain ⟨hfalse, -⟩ | ⟨-, hlt⟩ := hadvance
  · cases hfalse
  · omega

theorem orElse {p p' : Parser α} {q q' : Parser β} (h : Outcome.Mirrors V eats s t R c d (p c) (q d))
    (h' : Outcome.Mirrors V eats s t R c d (p' c) (q' d)) :
    Outcome.Mirrors V eats s t R c d (p.orElse p' c) (q.orElse q' d) := by
  unfold Parser.orElse
  generalize p c = o, q d = o' at h
  cases h with
  | ok hvalue hcursor hadvance hleads => exact .ok hvalue hcursor hadvance hleads
  | no => exact h'
  | abort he => exact .abort he

end Outcome.Mirrors

/-! ### Combinators -/

variable {p p' : Parser α} {q q' : Parser β}

namespace View.Mirrors

theorem mono (h : V.Mirrors eats k s t R p q) (hj : j ≤ k) : V.Mirrors eats j s t R p q :=
  fun c d hcd hk => h c d hcd (Nat.lt_of_lt_of_le hk hj)

theorem loose (h : V.Mirrors eats k s t R p q) : V.Mirrors false k s t R p q := by
  intro c d hcd hk
  have := h c d hcd hk
  generalize p c = o, q d = o' at this
  cases this with
  | ok hvalue hcursor hadvance hleads => exact .ok hvalue hcursor hadvance.loose hleads
  | no => exact .no
  | abort he => exact .abort he

theorem pure {x : α} {y : β} (h : R x y) : V.Mirrors false k s s R (pure x) (pure y) :=
  fun _ _ hcd _ => .ok h hcd (.refl _ _) (.refl _ _)

theorem decline : V.Mirrors eats k s t R (Parser.decline : Parser α) (Parser.decline : Parser β) :=
  fun _ _ _ _ => .no

theorem map {f : α → γ} {g : β → δ} (h : V.Mirrors eats k s t R p q) (hf : ∀ x y, R x y → S (f x) (g y)) :
    V.Mirrors eats k s t S (p >>= fun x => Pure.pure (f x)) (q >>= fun y => Pure.pure (g y)) :=
  fun c d hcd hk => (h c d hcd hk).map hf

theorem discard (h : V.Mirrors eats k s t R p q) :
    V.Mirrors eats k s t (fun _ _ => True) (Functor.discard p) (Functor.discard q) :=
  h.map fun _ _ _ => trivial

theorem bind {f : α → Parser γ} {g : β → Parser δ} (h : V.Mirrors eats' k s t R p q)
    (hf : ∀ x y, R x y → V.Mirrors eats k t u S (f x) (g y)) : V.Mirrors eats k s u S (p >>= f) (q >>= g) := by
  intro c d hcd hk
  refine (h.loose c d hcd hk).bind fun x y c' d' hxy hcd' hadvance => hf x y hxy c' d' hcd' ?_
  unfold Advance at hadvance
  omega

theorem eat {f : α → Parser γ} {g : β → Parser δ} (h : V.Mirrors true (k + 1) s t R p q)
    (hf : ∀ x y, R x y → V.Mirrors false k t u S (f x) (g y)) : V.Mirrors true (k + 1) s u S (p >>= f) (q >>= g) :=
  fun c d hcd hk => (h c d hcd hk).eat hk hf

theorem orElse (h : V.Mirrors eats k s t R p q) (h' : V.Mirrors eats k s t R p' q') :
    V.Mirrors eats k s t R (p.orElse p') (q.orElse q') :=
  fun c d hcd hk => (h c d hcd hk).orElse (h' c d hcd hk)

theorem firstOf {ps : List (Parser α)} {qs : List (Parser β)} (h : List.Forall₂ (V.Mirrors eats k s t R) ps qs) :
    V.Mirrors eats k s t R (Parser.firstOf ps) (Parser.firstOf qs) := by
  induction h with
  | nil => exact decline
  | cons h _ ih => exact h.orElse ih

theorem optional (h : V.Mirrors eats k s s R p q) :
    V.Mirrors false k s s (Option.Rel R) (Parser.optional p) (Parser.optional q) := by
  intro c d hcd hk
  have := h.loose c d hcd hk
  unfold Parser.optional
  generalize p c = o, q d = o' at this
  cases this with
  | ok hvalue hcursor hadvance hleads => exact .ok (.some hvalue) hcursor hadvance hleads
  | no => exact .ok .none hcd (.refl _ _) (.refl _ _)
  | abort he => exact .abort he

theorem orAbortAt (h : V.Mirrors eats k s t R p q) {c₀ d₀ : Cursor} (h₀ : c₀.Like V d₀) :
    V.Mirrors eats k s t R (Parser.orAbortAt c₀ p) (Parser.orAbortAt d₀ q) := by
  intro c d hcd hk
  have := h c d hcd hk
  unfold Parser.orAbortAt
  generalize p c = o, q d = o' at this
  cases this with
  | ok hvalue hcursor hadvance hleads => exact .ok hvalue hcursor hadvance hleads
  | no => exact .abort h₀.unexpected
  | abort he => exact .abort he

theorem required (h : V.Mirrors eats k s t R p q) : V.Mirrors eats k s t R (Parser.required p) (Parser.required q) :=
  fun c d hcd hk => h.orAbortAt hcd c d hcd hk

theorem here : V.Mirrors false k s s (Cursor.Like V) Parser.here Parser.here :=
  fun _ _ hcd _ => .ok hcd hcd (.refl _ _) (.refl _ _)

theorem iterate {f : α → Parser (Option α)} {g : β → Parser (Option β)}
    (h : ∀ x y, R x y → V.Mirrors false k s s (Option.Rel R) (f x) (g y)) {x : α} {y : β} (hxy : R x y) :
    V.Mirrors false k s s R (Parser.iterate f x) (Parser.iterate g y) := by
  intro c d hcd hk
  -- by the tokens that are left; a round that reads none is the last one on both sides
  induction hn : c.rest.length using Nat.strongRecOn generalizing c d x y with
  | _ n ih =>
    have hstep := h x y hxy c d hcd hk
    rw [Parser.iterate, Parser.iterate]
    generalize f x c = o, g y d = o' at hstep
    cases hstep with
    | no => exact .no
    | abort he => exact .abort he
    | @ok x' y' c' d' hvalue hcursor hadvance hleads =>
      cases hvalue with
      | none => exact .ok hxy hcd (.refl _ _) (.refl _ _)
      | @some x' y' hvalue =>
        obtain ⟨-, hc, hd⟩ | ⟨hc, hd⟩ := hadvance
        · have hc' : ¬ c'.rest.length < c.rest.length := by omega
          have hd' : ¬ d'.rest.length < d.rest.length := by omega
          simp only [hc', hd', if_false]
          exact .ok hvalue hcursor (.inl ⟨rfl, hc, hd⟩) hleads
        · simp only [hc, hd, if_true]
          have hnext := ih c'.rest.length (by omega) hvalue c' d' hcursor (by omega) rfl
          generalize Parser.iterate f x' c' = o, Parser.iterate g y' d' = o' at hnext
          cases hnext with
          | no => exact .no
          | abort he => exact .abort he
          | ok hvalue hcursor hadvance hleads' =>
            refine .ok hvalue hcursor (.inr ?_) (hleads.trans hleads')
            unfold Advance at hadvance
            omega

theorem many (h : V.Mirrors eats k s s R p q) :
    V.Mirrors false k s s (List.Forall₂ R) (Parser.many p) (Parser.many q) := by
  refine bind (iterate (R := List.Forall₂ R) (fun xs ys hxs => ?_) .nil) fun xs ys hxs => ?_
  · refine bind h.optional fun x y hxy => pure ?_
    cases hxy with
    | none => exact .none
    | some hxy => exact .some (.cons hxy hxs)
  · exact pure (List.rel_reverse hxs)

end View.Mirrors

end

end WatchFace.Lua
