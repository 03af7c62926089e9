import WatchFace.Proofs.Lua.Mirroring

/-!
# The grammar on hidden tags

Every rule of the grammar makes the same of a script with its tags hidden as of the script itself. What a rule opens it
closes.
-/

namespace WatchFace.Lua

open WatchFace.Lua.Parser (token operator keyword word sign plainName nameList bind_ok bind_no)
open List

variable {α β : Type} {V : View} {k : Nat} {s t : List Mark} {c d : Cursor}
variable {f : Kind → Option α} {signs words : List String} {o w : String} {x y : String × Place}
  {p q : Parser Expr} {ts ts' : List Token} {stop : Place}

namespace View

abbrev expr (V : View) : Expr → Expr → Prop := Expr.Like V.toLikeness

abbrev exprs (V : View) : List Expr → List Expr → Prop := Forall₂ V.expr

abbrev field (V : View) : Field → Field → Prop := Field.Like V.toLikeness

abbrev stat (V : View) : Stat → Stat → Prop := Stat.Like V.toLikeness

abbrev block (V : View) : List Stat → List Stat → Prop := Forall₂ V.stat

end View

/-! ### Tokens side by side -/

/-- At both cursors there is the same token up to hidden tags, or none. -/
def Level (V : View) (c d : Cursor) : Prop :=
  c.rest = [] ∧ d.rest = [] ∨ ∃ x x' xs xs', c.rest = x :: xs ∧ d.rest = x' :: xs' ∧ x.Like V x' ∧ Masked V xs xs'

/-- A tag at one cursor and its placeholder at the other, or a brace at which there is no table and an end. -/
inductive Apart (V : View) (c d : Cursor) : Prop
  | tag {o x close y : Token} {xs ys : List Token} {name : List Char} (hc : c.rest = o :: x :: close :: xs)
      (ho : o.kind = .operator "\x7b") (hx : (x.kind.item? x.place.line).isSome)
      (hclose : close.kind = .operator "\x7d") (hname : Tag.IsName name) (hd : d.rest = y :: ys)
      (hy : y.kind = .string (String.ofList (Tag.placeholder name))) (h : Masked V xs ys) : Apart V c d
  | dead {y : Token} (hfault : ∀ e, V.fault e) (hdead : Dead c.rest) (hd : d.rest = [y]) (hy : y.kind = .eof) :
      Apart V c d

theorem Cursor.Like.cases (h : c.Like V d) : Level V c d ∨ Apart V c d := by
  obtain ⟨hrest, -⟩ := h
  generalize hc : c.rest = cs, hd : d.rest = ds at hrest
  cases hrest with
  | nil => exact .inl (.inl ⟨hc, hd⟩)
  | cons ht h => exact .inl (.inr ⟨_, _, _, _, hc, hd, ht, h⟩)
  | tag _ ho hx hclose hname ht h => exact .inr (.tag hc ho hx hclose hname hd ht h)
  | dead _ hfault hdead ht => exact .inr (.dead hfault (hc ▸ hdead) hd ht)

theorem Apart.next? (h : Apart V c d) :
    c.next? = some (.operator "\x7b") ∧ ∃ kind, d.next? = some kind ∧ kind.onlyString = true := by
  cases h with
  | tag hc ho _ _ _ hd ht =>
    exact ⟨(Cursor.next?_of_rest hc).trans (congrArg some ho), _, Cursor.next?_of_rest hd, by rw [ht]; rfl⟩
  | dead _ hdead hd ht => exact ⟨hdead.1, _, Cursor.next?_of_rest hd, by rw [ht]; rfl⟩

section

variable {f : Kind → Option α} {R : α × Place → α × Place → Prop}
  (hf : ∀ x x' : Token, x.Like V x' → Option.Rel (fun a b => R (a, x.place) (b, x'.place)) (f x.kind) (f x'.kind))
  (hnest : ∀ k a, f k = some a → nest s k.move?.toList = some t)

include hf hnest

theorem token_mirrors_of_level (hcd : c.Like V d) (h : Level V c d) :
    Outcome.Mirrors V true s t R c d (token f c) (token f d) := by
  obtain ⟨hc, hd⟩ | ⟨x, x', xs, xs', hc, hd, hx, hxs⟩ := h
  · rw [token_eq_no (by simp [Cursor.next?, hc]), token_eq_no (by simp [Cursor.next?, hd])]
    exact .no
  · have hrel := hf x x' hx
    generalize ha : f x.kind = a, hb : f x'.kind = b at hrel
    cases hrel with
    | none =>
      rw [token_no (Cursor.next?_of_rest hc) ha, token_no (Cursor.next?_of_rest hd) hb]
      exact .no
    | some hvalue =>
      have hmoves : movesOf [x] = x.kind.move?.toList := by
        cases hmove : x.kind.move? <;> simp [movesOf, hmove]
      rw [token_eq_ok hc ha, token_eq_ok hd hb]
      exact .ok hvalue ⟨hxs, rfl, hcd.stop⟩ (.inr (by simp [hc, hd])) ⟨[x], hc, hmoves ▸ hnest _ _ ha⟩

theorem mirrors_token (hstring : ∀ s, f (.string s) = none) (heof : f .eof = none)
    (hbrace : f (.operator "\x7b") = none) : V.Mirrors true k s t R (token f) (token f) := by
  intro c d hcd _
  obtain hlevel | hapart := hcd.cases
  · exact token_mirrors_of_level hf hnest hcd hlevel
  · obtain ⟨hc, kind, hd, hkind⟩ := hapart.next?
    have hnone : f kind = none := by
      cases kind with
      | string => exact hstring _
      | eof => exact heof
      | _ => cases hkind
    rw [token_no hc hbrace, token_no hd hnone]
    exact .no

end

def Located (V : View) (x y : α × Place) : Prop := x.1 = y.1 ∧ y.2.line = x.2.line ∧ V.line x.2.line

theorem rel_of_like (h : ∀ s, f (.string s) = none) (x x' : Token) (hx : x.Like V x') :
    Option.Rel (fun a b => Located V (a, x.place) (b, x'.place)) (f x.kind) (f x'.kind) := by
  have hkind := hx.kind
  generalize x.kind = k, x'.kind = k' at hkind
  cases hkind with
  | same =>
    cases f k with
    | none => exact .none
    | some a => exact .some ⟨rfl, hx.same, hx.line⟩
  | string =>
    rw [h, h]
    exact .none

theorem mirrors_kind (hstring : ∀ s, f (.string s) = none) (heof : f .eof = none)
    (hbrace : f (.operator "\x7b") = none) (hnest : ∀ k a, f k = some a → nest s k.move?.toList = some t) :
    V.Mirrors true k s t (Located V) (token f) (token f) :=
  mirrors_token (R := Located V) (rel_of_like hstring) hnest hstring heof hbrace

theorem mirrors_keyword (h : ∀ w ∈ words, nest s (keywordMove? w).toList = some t) :
    V.Mirrors true k s t (Located V) (keyword words) (keyword words) := by
  refine mirrors_kind (fun _ => rfl) rfl rfl fun k a ha => ?_
  split at ha
  case h_1 w => exact h w (by simpa using (Option.ite_none_right_eq_some.mp ha).1)
  case h_2 => cases ha

theorem mirrors_signs (hbrace : "\x7b" ∉ signs) (h : ∀ o ∈ signs, nest s (Kind.operator o).move?.toList = some t) :
    V.Mirrors true k s t (Located V) (operator signs) (operator signs) := by
  refine mirrors_kind (fun _ => rfl) rfl (if_neg (by simpa using hbrace)) fun k a ha => ?_
  split at ha
  case h_1 o => exact h o (by simpa using (Option.ite_none_right_eq_some.mp ha).1)
  case h_2 => cases ha

theorem mirrors_operator (h : ∀ o ∈ signs, (Kind.operator o).move? = none) :
    V.Mirrors true k s s (Located V) (operator signs) (operator signs) :=
  mirrors_signs (fun hbrace => absurd (h _ hbrace) (by decide)) fun o ho => by rw [h o ho]; rfl

theorem mirrors_name : V.Mirrors true k s s (Located V) Parser.name Parser.name := by
  refine mirrors_kind (fun _ => rfl) rfl rfl fun k a ha => ?_
  split at ha
  case h_1 => rfl
  case h_2 => cases ha

theorem mirrors_word (h : nest s (keywordMove? w).toList = some t) :
    V.Mirrors true k s t (fun _ _ => True) (word w) (word w) :=
  (mirrors_keyword (forall_mem_singleton.mpr h)).discard

theorem mirrors_sign (h : (Kind.operator o).move? = none) :
    V.Mirrors true k s s (fun _ _ => True) (sign o) (sign o) :=
  (mirrors_operator (forall_mem_singleton.mpr h)).discard

theorem mirrors_bracket (hbrace : "\x7b" ∉ [o]) (h : nest s (Kind.operator o).move?.toList = some t) :
    V.Mirrors true k s t (fun _ _ => True) (sign o) (sign o) :=
  (mirrors_signs hbrace (forall_mem_singleton.mpr h)).discard

theorem mirrors_plainName : V.Mirrors true k s s Eq plainName plainName :=
  mirrors_name.map fun _ _ h => h.1

theorem mirrors_nameList : V.Mirrors false k s s Eq nameList nameList := by
  refine .bind mirrors_plainName fun n n' hn => ?_
  refine .map (.many (.bind (mirrors_sign rfl) fun _ _ _ => mirrors_plainName.loose)) fun ns ns' hns => ?_
  rw [forall₂_eq_eq_eq] at hns
  rw [hn, hns]

theorem Located.name (h : Located V x y) : V.expr (.name x.1 x.2.line) (.name y.1 y.2.line) := by
  rw [← h.1, h.2.1]
  exact .name _ h.2.2

theorem Located.literal (h : Located V x y) : V.expr (.literal x.1 x.2.line) (.literal y.1 y.2.line) := by
  rw [← h.1, h.2.1]
  exact .literal _ h.2.2

theorem eq_of_rel {x y : Option α} (h : Option.Rel Eq x y) : x = y := by
  cases h with
  | none => rfl
  | some h => rw [h]

theorem forall₂_getD {R : α → β → Prop} {x : Option (List α)} {y : Option (List β)}
    (h : Option.Rel (Forall₂ R) x y) : Forall₂ R (x.getD []) (y.getD []) := by
  cases h with
  | none => exact .nil
  | some h => exact h

/-! ### Nested rules -/

/-- The nested rules on both sides, with fewer than `k` tokens ahead. At a tag a table is read. -/
structure Rules.Mirrors (V : View) (k : Nat) (r r' : Rules) : Prop where
  block : ∀ {s}, V.Mirrors false k s s V.block r.block r'.block
  expr : ∀ {s}, V.Mirrors false k s s V.expr r.expr r'.expr
  operand : ∀ {s}, V.Mirrors false k s s V.expr r.operand r'.operand
  item : 0 < k → ∀ {c : Cursor} {x close : Token} {ts : List Token} {e : Expr}, c.rest = x :: close :: ts →
    close.kind = .operator "\x7d" → x.kind.item? x.place.line = some e →
      r.expr c = .ok e (c.skip x (close :: ts))
  dead : ∀ {c : Cursor}, Dead c.rest → ∀ e c', table r c ≠ .ok e c'

namespace Rules

variable {r r' : Rules}

theorem mirrors_params : V.Mirrors false k s s Eq params params := by
  have hrest : V.Mirrors false k s s Eq (do sign "..."; return ["..."]) (do sign "..."; return ["..."]) :=
    .map (mirrors_sign rfl).loose fun _ _ _ => rfl
  refine .map (.optional (.orElse ?_ hrest)) fun ps ps' hps => ?_
  · refine .bind mirrors_nameList fun ns ns' hns => ?_
    refine .map (.optional (.bind (mirrors_sign rfl) fun _ _ _ => hrest)) fun more more' hmore => ?_
    rw [hns, eq_of_rel hmore]
  · rw [eq_of_rel hps]

theorem string_mirrors_of_level (hcd : c.Like V d) (hlevel : Level V c d) :
    Outcome.Mirrors V true s s V.expr c d (string c) (string d) := by
  refine (token_mirrors_of_level (R := fun x y => V.expr (.string x.1 x.2.line) (.string y.1 y.2.line))
    (fun x x' hx => ?_) (fun k a ha => ?_) hcd hlevel).map fun ⟨_, _⟩ ⟨_, _⟩ h => h
  · have hkind := hx.kind
    generalize x.kind = k, x'.kind = k' at hkind
    cases hkind with
    | same h =>
      cases k with
      | string s => exact absurd rfl (h s)
      | _ => exact .none
    | string h =>
      refine .some ?_
      dsimp only
      rw [h, hx.same]
      exact .string _ hx.line
  · split at ha
    case h_1 => rfl
    case h_2 => cases ha

theorem stringValue_placeholder (name : List Char) : stringValue (Tag.placeholder name) = Tag.bare name := by
  show (Tag.bare name ++ ['"']).take ((Tag.bare name ++ ['"']).length - 1) = Tag.bare name
  simp

theorem plain_item {line : Nat} {kind : Kind} {e : Expr} (h : kind.item? line = some e) :
    e.sites = [] ∧ kind.move? = none := by
  have hwords : ∀ w ∈ ["nil", "true", "false"], keywordMove? w = none := by decide
  unfold Kind.item? at h
  split at h
  case h_1 =>
    cases h
    exact ⟨rfl, rfl⟩
  case h_2 =>
    split at h
    case isTrue => cases h
    case isFalse =>
      cases h
      exact ⟨rfl, rfl⟩
  case h_3 w =>
    split at h
    case isTrue hw =>
      cases h
      exact ⟨rfl, hwords w (by simpa using hw)⟩
    case isFalse => cases h
  case h_4 => cases h

section

variable (h : r.Mirrors V k r')

include h

theorem mirrors_exprList : V.Mirrors false k s s V.exprs (exprList r) (exprList r') := by
  refine .bind .here fun c d hcd => ?_
  refine .bind h.expr fun e e' he => ?_
  refine .map (.many (.bind (mirrors_sign rfl) fun _ _ _ => h.expr.orAbortAt hcd)) fun es es' hes => ?_
  exact .cons he hes

/-- The block of a function is closed here and opened by the word before. -/
theorem mirrors_funcBody : V.Mirrors true (k + 1) (.block :: s) s (fun x y => x.1 = y.1 ∧ V.block x.2 y.2)
    (funcBody r) (funcBody r') := by
  refine .eat (mirrors_bracket (t := .bracket .round :: .block :: s) (by decide) rfl) fun _ _ _ => ?_
  refine .bind mirrors_params fun ps ps' hps => ?_
  refine .bind (mirrors_bracket (t := .block :: s) (by decide) rfl).required.loose fun _ _ _ => ?_
  refine .bind h.block fun b b' hb => ?_
  exact .bind (mirrors_word rfl).required fun _ _ _ => .pure ⟨hps, hb⟩

theorem mirrors_field : V.Mirrors false k s s V.field (field r) (field r') := by
  refine .firstOf (.cons ?_ (.cons ?_ (.cons ?_ .nil)))
  · refine .bind (mirrors_bracket (t := .bracket .square :: s) (by decide) rfl) fun _ _ _ => ?_
    refine .bind h.expr fun key key' hkey => ?_
    refine .bind (mirrors_bracket (t := s) (by decide) rfl) fun _ _ _ => ?_
    refine .bind (mirrors_sign rfl) fun _ _ _ => ?_
    exact .map h.expr fun e e' he => .keyed hkey he
  · refine .bind mirrors_name fun x y hxy => ?_
    refine .bind (mirrors_sign rfl) fun _ _ _ => ?_
    exact .map h.expr fun e e' he => .keyed hxy.name he
  · exact .map h.expr fun e e' he => .item he

theorem mirrors_fields : V.Mirrors false k s s (Forall₂ V.field) (fields r) (fields r') := by
  have hseparator : V.Mirrors true k s s (Located V) (operator [",", ";"]) (operator [",", ";"]) :=
    mirrors_operator (by decide)
  refine .bind (mirrors_field h) fun f f' hf => ?_
  refine .bind (.many (.bind hseparator.discard.loose fun _ _ _ => mirrors_field h)) fun fs fs' hfs => ?_
  exact .bind hseparator.optional.discard fun _ _ _ => .pure (.cons hf hfs)

theorem table_mirrors_of_level (hcd : c.Like V d) (hk : d.rest.length < k + 1) (hlevel : Level V c d) :
    Outcome.Mirrors V true s s V.expr c d (table r c) (table r' d) := by
  have hbrace : Outcome.Mirrors V true s (.bracket .curly :: s) (fun _ _ => True) c d (sign "\x7b" c) (sign "\x7b" d) := by
    refine (token_mirrors_of_level (R := Located V) (rel_of_like fun _ => rfl) (fun k a ha => ?_) hcd hlevel).map
      fun _ _ _ => trivial
    split at ha
    case h_1 o =>
      obtain rfl : o = "\x7b" := by simpa using (Option.ite_none_right_eq_some.mp ha).1
      rfl
    case h_2 => cases ha
  refine hbrace.eat hk fun _ _ _ => ?_
  refine .bind (mirrors_fields h).optional fun fs fs' hfs => ?_
  exact .map (mirrors_bracket (by decide) rfl).loose fun _ _ _ => .table (forall₂_getD hfs)

/-- **A tag is a table, and its placeholder a string.** -/
theorem table_mirrors_string (hcd : c.Like V d) (hk : d.rest.length < k + 1) (hapart : Apart V c d) :
    Outcome.Mirrors V true s s V.expr c d (table r c) (string d) := by
  cases hapart with
  | @tag o x close y xs ys name hc ho hx hclose hname hd hy hmasked =>
    obtain ⟨e, he⟩ := Option.isSome_iff_exists.mp hx
    obtain ⟨hsites, hmove⟩ := plain_item he
    have hpos : 0 < k := by
      rw [hd, length_cons] at hk
      omega
    have hstring : string d = .ok (.string (String.ofList (Tag.bare name)) y.place.line) (d.skip y ys) := by
      refine (bind_ok (token_eq_ok hd ?_)).trans rfl
      rw [hy]
      dsimp only
      rw [String.toList_ofList, stringValue_placeholder]
    rw [hstring, table_item hc ho hclose he (h.item hpos rfl hclose he)]
    refine .ok (.tag _ hsites hname) ⟨hmasked, rfl, hcd.stop⟩ (.inr ?_) ⟨[o, x, close], hc, ?_⟩
    · simp only [hc, hd, Cursor.rest_skip, length_cons]
      omega
    · simp only [movesOf, filterMap_cons, ho, hmove, hclose]
      rfl
  | dead hfault hdead hd hy =>
    have hstring : string d = .no := bind_no (token_no (Cursor.next?_of_rest hd) (by rw [hy]))
    rw [hstring]
    cases htable : table r c with
    | ok e c' => exact absurd htable (h.dead hdead e c')
    | no => exact .no
    | abort => exact .abort (hfault _)

theorem mirrors_arguments : V.Mirrors true (k + 1) s s V.exprs (arguments r) (arguments r') := by
  refine .eat (mirrors_bracket (t := .bracket .round :: s) (by decide) rfl) fun _ _ _ => ?_
  refine .bind (mirrors_exprList h).optional fun es es' hes => ?_
  exact .map (mirrors_bracket (by decide) rfl).loose fun _ _ _ => forall₂_getD hes

theorem mirrors_anyArguments : V.Mirrors true (k + 1) s s V.exprs (anyArguments r) (anyArguments r') := by
  have hone : ∀ e e' : Expr, V.expr e e' → V.exprs [e] [e'] := fun e e' he => .cons he .nil
  intro c d hcd hk
  obtain hlevel | hapart := hcd.cases
  · refine (mirrors_arguments h c d hcd hk).orElse ?_
    refine ((table_mirrors_of_level h hcd hk hlevel).map hone).orElse ?_
    exact ((string_mirrors_of_level hcd hlevel).map hone).orElse .no
  · obtain ⟨hnext, kind, hnext', hkind⟩ := hapart.next?
    rw [anyArguments_eq_table hnext, anyArguments_eq_string hnext' hkind]
    exact (table_mirrors_string h hcd hk hapart).map hone

end

theorem mirrors_unambiguous : V.Mirrors false k s s (fun _ _ => True) unambiguous unambiguous := by
  intro c d hcd _
  have hok : Outcome.Mirrors V false s s (fun _ _ => True) c d (.ok () c) (.ok () d) :=
    .ok trivial hcd (.refl _ _) (.refl _ _)
  -- only a parenthesis can be ambiguous, and no tag begins with one
  by_cases hnext : d.next? = some (.operator "(")
  · obtain (⟨-, hd⟩ | ⟨x, x', xs, xs', hc, hd, hx, -⟩) | hapart := hcd.cases
    · rw [Cursor.next?, hd] at hnext
      cases hnext
    · have hkind : x'.kind = x.kind := by
        have hparen : x'.kind = .operator "(" := Option.some.inj ((Cursor.next?_of_rest hd).symm.trans hnext)
        exact hx.kind.eq fun s hs => by cases hparen.symm.trans hs
      have hahead : c.ahead 0 = x ∧ d.ahead 0 = x' := by
        unfold Cursor.ahead
        rw [hc, hd]
        exact ⟨rfl, rfl⟩
      have hlast := hcd.last
      unfold unambiguous
      rw [hahead.1, hahead.2]
      generalize c.last = l, d.last = l' at hlast
      cases l with
      | none =>
        cases l' with
        | none => exact hok
        | some => cases hlast
      | some =>
        cases l' with
        | none => cases hlast
        | some =>
          dsimp only
          rw [hkind, hx.broken]
          split
          case isTrue => exact .abort (V.ambiguous _ _)
          case isFalse => exact hok
    · obtain ⟨-, kind, hkind, honly⟩ := hapart.next?
      cases hkind.symm.trans hnext
      cases honly
  · rw [unambiguous_ok hnext]
    unfold unambiguous
    split
    case h_1 =>
      dsimp only
      split
      case isTrue => exact .abort (V.ambiguous _ _)
      case isFalse => exact hok
    case h_2 => exact hok

theorem mirrors_number : V.Mirrors true (k + 1) s s V.expr number number := by
  refine .eat (mirrors_token (R := fun x y => Located V x y ∧ V.fault (.malformedNumber x.1)) (t := s)
    (fun x x' hx => ?_) (fun k a ha => ?_) (fun _ => rfl) rfl rfl) fun x y hxy => ?_
  · have hkind := hx.kind
    have hnumber := hx.number
    generalize x.kind = k, x'.kind = k' at hkind hnumber
    cases hkind with
    | same =>
      cases k with
      | number s => exact .some ⟨⟨rfl, hx.same, hx.line⟩, hnumber s rfl⟩
      | _ => exact .none
    | string => exact .none
  · split at ha
    case h_1 => rfl
    case h_2 => cases ha
  obtain ⟨hlocated, hfault⟩ := hxy
  have hliteral := hlocated.literal
  dsimp only
  rw [← hlocated.1] at hliteral ⊢
  cases (hexLength x.1.toList).isSome with
  | false => exact .pure hliteral
  | true =>
    cases x.1.toList.any fun c => c == '.' || c == 'p' || c == 'P' with
    | false => exact .pure hliteral
    | true => exact fun c d _ _ => .abort hfault

section

variable (h : r.Mirrors V k r')

include h

theorem mirrors_suffix {e e' : Expr} (he : V.expr e e') : V.Mirrors false k s s V.expr (suffix r e) (suffix r' e') := by
  have hany := (mirrors_anyArguments (s := s) h).loose.mono (Nat.le_succ k)
  refine .firstOf (.cons ?_ (.cons ?_ (.cons ?_ (.cons ?_ .nil))))
  · refine .bind (mirrors_sign rfl) fun _ _ _ => ?_
    exact .map mirrors_name.loose fun x y hxy => .index he hxy.name
  · refine .bind (mirrors_bracket (t := .bracket .square :: s) (by decide) rfl) fun _ _ _ => ?_
    refine .bind h.expr fun key key' hkey => ?_
    exact .map (mirrors_bracket (by decide) rfl).loose fun _ _ _ => .index he hkey
  · refine .bind (mirrors_sign rfl) fun _ _ _ => ?_
    refine .bind mirrors_plainName fun n n' hn => ?_
    subst hn
    exact .map hany fun es es' hes => .invoke n he hes
  · refine .bind mirrors_unambiguous fun _ _ _ => ?_
    exact .map hany fun es es' hes => .call he hes

theorem mirrors_var : V.Mirrors true (k + 1) s s V.expr (var r) (var r') := by
  refine .eat (.orElse ?_ ?_) fun e e' he => .iterate (fun e e' he => (mirrors_suffix h he).optional) he
  · refine .eat (mirrors_bracket (t := .bracket .round :: s) (by decide) rfl) fun _ _ _ => ?_
    refine .bind h.expr fun e e' he => ?_
    exact .map (mirrors_bracket (by decide) rfl).loose fun _ _ _ => he
  · exact .map mirrors_name fun x y hxy => hxy.name

theorem mirrors_function : V.Mirrors true (k + 1) s s V.expr (do
      let (_, p) ← keyword ["function"]
      let (ps, body) ← funcBody r
      return .function ps body p.line)
    (do
      let (_, p) ← keyword ["function"]
      let (ps, body) ← funcBody r'
      return .function ps body p.line) := by
  refine .eat (mirrors_keyword (t := .block :: s) (forall_mem_singleton.mpr rfl)) fun x y hxy => ?_
  refine .map ((mirrors_funcBody h).loose.mono (Nat.le_succ k)) fun f f' hf => ?_
  rw [← hf.1, hxy.2.1]
  exact .function f.1 hxy.2.2 hf.2

omit h in
theorem mirrors_literal (hwords : ∀ w ∈ words, keywordMove? w = none) : V.Mirrors true k s s V.expr
      (do let (w, p) ← keyword words; return .literal w p.line)
      (do let (w, p) ← keyword words; return .literal w p.line) :=
  .map (mirrors_keyword fun w hw => by rw [hwords w hw]; rfl) fun x y hxy => hxy.literal

theorem mirrors_atom : V.Mirrors true (k + 1) s s V.expr (atom r) (atom r') := by
  intro c d hcd hk
  obtain hlevel | hapart := hcd.cases
  · refine (mirrors_var h c d hcd hk).orElse ?_
    refine (mirrors_function h c d hcd hk).orElse ?_
    refine (table_mirrors_of_level h hcd hk hlevel).orElse ?_
    refine ((mirrors_operator (by decide) c d hcd hk).map fun _ _ _ => .arguments).orElse ?_
    refine (mirrors_number c d hcd hk).orElse ?_
    refine (string_mirrors_of_level hcd hlevel).orElse ?_
    exact (mirrors_literal (by decide) c d hcd hk).orElse .no
  · -- a tag: it is a table on one side and a string on the other
    obtain ⟨hnext, kind, hnext', hkind⟩ := hapart.next?
    rw [atom_eq_table hnext, atom_eq_string hnext' hkind]
    exact table_mirrors_string h hcd hk hapart

end

/-! ### Operators -/

theorem mirrors_chain (hsigns : ∀ o ∈ signs, (Kind.operator o).move? = none)
    (hwords : ∀ w ∈ words, keywordMove? w = none) (h : V.Mirrors false k s s V.expr p q) :
    V.Mirrors false k s s V.expr (chain signs words p) (chain signs words q) := by
  have hword : V.Mirrors true k s s (Located V) (keyword words) (keyword words) :=
    mirrors_keyword fun w hw => by rw [hwords w hw]; rfl
  refine .bind h fun e e' he => .iterate (fun left left' hleft => ?_) he
  refine .bind (.optional (.orElse (mirrors_operator hsigns) hword)) fun x y hxy => ?_
  cases hxy with
  | none => exact .pure .none
  | @some x y hop =>
    refine .map h fun right right' hright => .some ?_
    rw [← hop.1]
    exact .binary x.1 hleft hright

section

variable (h : r.Mirrors V k r')

include h

theorem mirrors_power : V.Mirrors false (k + 1) s s V.expr (power r) (power r') :=
  mirrors_chain (by decide) (by decide) (mirrors_atom h).loose

omit h in
theorem mirrors_applied {op : Parser (String × Place)} (hop : V.Mirrors true (k + 1) s s (Located V) op op)
    (hp : V.Mirrors false k s s V.expr p q) :
    V.Mirrors false (k + 1) s s V.expr (do let (s, place) ← op; return .unary s (← p) place.line)
      (do let (s, place) ← op; return .unary s (← q) place.line) := by
  refine .loose (.eat hop fun x y hxy => .map hp fun e e' he => ?_)
  rw [← hxy.1, hxy.2.1]
  exact .unary x.1 hxy.2.2 he

theorem mirrors_unary : V.Mirrors false (k + 1) s s V.expr (unary r) (unary r') := by
  have hpower := (mirrors_power (s := s) h).mono (Nat.le_succ k)
  refine .firstOf (.cons ?_ (.cons ?_ (.cons ?_ (.cons ?_ (.cons (mirrors_power h) .nil)))))
  · exact mirrors_applied (mirrors_operator (by decide)) h.operand
  · exact mirrors_applied (mirrors_operator (by decide)) hpower
  · exact mirrors_applied (mirrors_keyword (forall_mem_singleton.mpr rfl)) h.operand
  · exact mirrors_applied (mirrors_operator (by decide)) h.operand

theorem mirrors_sum : V.Mirrors false (k + 1) s s V.expr (sum r) (sum r') := by
  refine mirrors_chain (by decide) (by decide) (mirrors_chain (by decide) (by decide) ?_)
  exact mirrors_chain (by decide) (by decide) (mirrors_unary h)

theorem mirrors_concatenation : V.Mirrors false (k + 1) s s V.expr (concatenation r) (concatenation r') := by
  refine .bind .here fun c d hcd => ?_
  refine .bind (mirrors_sum h) fun e e' he => .iterate (fun left left' hleft => ?_) he
  refine .bind (mirrors_operator (by decide)).optional fun x y hxy => ?_
  cases hxy with
  | none => exact .pure .none
  | @some x y hop =>
    refine .map ((mirrors_sum h).orAbortAt hcd) fun right right' hright => .some ?_
    rw [← hop.1]
    exact .binary x.1 hleft hright

theorem mirrors_comparison : V.Mirrors false (k + 1) s s V.expr (comparison r) (comparison r') := by
  refine .bind (mirrors_concatenation h) fun left left' hleft => ?_
  refine .bind (mirrors_operator (by decide)).optional fun x y hxy => ?_
  cases hxy with
  | none => exact .pure hleft
  | @some x y hop =>
    refine .map (mirrors_concatenation h) fun right right' hright => ?_
    rw [← hop.1]
    exact .binary x.1 hleft hright

theorem mirrors_expression : V.Mirrors false (k + 1) s s V.expr (expression r) (expression r') :=
  mirrors_chain (by decide) (by decide) (mirrors_chain (by decide) (by decide) (mirrors_comparison h))

end

/-! ### Statements -/

section

variable (h : r.Mirrors V k r')

include h

theorem mirrors_doBlock : V.Mirrors true (k + 1) s s V.block (doBlock r) (doBlock r') := by
  refine .eat (mirrors_word (t := .block :: s) rfl) fun _ _ _ => ?_
  refine .bind h.block fun b b' hb => ?_
  exact .map (mirrors_word rfl).loose fun _ _ _ => hb

theorem mirrors_assignment : V.Mirrors true (k + 1) s s V.stat (assignment r) (assignment r') := by
  have hvar := (mirrors_var (s := s) h).loose.mono (Nat.le_succ k)
  refine .eat (mirrors_var h) fun t t' ht => ?_
  refine .bind (.many (.bind (mirrors_sign rfl) fun _ _ _ => hvar)) fun ts ts' hts => ?_
  refine .bind (mirrors_sign rfl) fun _ _ _ => ?_
  exact .map (mirrors_exprList h).required fun vs vs' hvs => .assign (.cons ht hts) hvs

theorem mirrors_localStat : V.Mirrors false (k + 1) s s V.stat (localStat r) (localStat r') := by
  refine .bind .here fun c d hcd =>
    .loose (.eat (mirrors_keyword (t := s) (forall_mem_singleton.mpr rfl)) fun x y hxy => ?_)
  refine .required (.orElse ?_ ?_)
  · refine .bind mirrors_nameList fun ns ns' hns => ?_
    subst hns
    refine .bind (mirrors_sign rfl).optional fun s s' hs => ?_
    cases hs with
    | none => exact .pure (.locals ns .nil)
    | some => exact .map ((mirrors_exprList h).orAbortAt hcd) fun es es' hes => .locals ns hes
  · refine .bind (mirrors_word (t := .block :: s) rfl) fun _ _ _ => ?_
    refine .bind mirrors_plainName fun n n' hn => ?_
    subst hn
    refine .map ((mirrors_funcBody h).loose.mono (Nat.le_succ k)) fun f f' hf => ?_
    rw [← hf.1, hxy.2.1]
    exact .localFunction n f.1 hxy.2.2 hf.2

/-- The branches share the block that `if` has opened, so their words are no moves. -/
theorem mirrors_otherwise : V.Mirrors false k s s V.block (otherwise r) (otherwise r') := by
  have hclause : V.Mirrors false k s s (fun x y => V.expr x.1 y.1 ∧ V.block x.2 y.2)
      (do word "elseif"; let test ← r.expr; word "then"; return (test, ← r.block))
      (do word "elseif"; let test ← r'.expr; word "then"; return (test, ← r'.block)) := by
    refine .bind (mirrors_word (t := s) rfl) fun _ _ _ => ?_
    refine .bind h.expr fun e e' he => ?_
    refine .bind (mirrors_word (t := s) rfl) fun _ _ _ => ?_
    exact .map h.block fun b b' hb => ⟨he, hb⟩
  refine .bind hclause.many fun cs cs' hcs => ?_
  refine .map (.optional (.bind (mirrors_word (t := s) rfl) fun _ _ _ => h.block)) fun b b' hb => ?_
  induction hcs with
  | nil => exact forall₂_getD hb
  | cons hclause _ ih => exact .cons (.choice hclause.1 hclause.2 ih) .nil

theorem mirrors_choice : V.Mirrors true (k + 1) s s V.stat (choice r) (choice r') := by
  refine .eat (mirrors_word (t := .block :: s) rfl) fun _ _ _ => ?_
  refine .bind h.expr.required fun e e' he => ?_
  refine .bind (mirrors_word (t := .block :: s) rfl).required fun _ _ _ => ?_
  refine .bind h.block fun b b' hb => ?_
  refine .bind (mirrors_otherwise h) fun o o' ho => ?_
  exact .map (mirrors_word rfl).required.loose fun _ _ _ => .choice he hb ho

theorem mirrors_countHead : V.Mirrors false k s s
    (fun x y => x.1 = y.1 ∧ V.expr x.2.1 y.2.1 ∧ V.expr x.2.2.1 y.2.2.1 ∧ Option.Rel V.expr x.2.2.2 y.2.2.2)
    (countHead r) (countHead r') := by
  refine .bind mirrors_plainName fun n n' hn => ?_
  refine .bind (mirrors_sign rfl) fun _ _ _ => ?_
  refine .bind h.expr fun a a' ha => ?_
  refine .bind (mirrors_sign rfl) fun _ _ _ => ?_
  refine .bind h.expr fun z z' hz => ?_
  refine .map (.optional (.bind (mirrors_sign rfl) fun _ _ _ => h.expr.optional)) fun s s' hs => ?_
  refine ⟨hn, ha, hz, ?_⟩
  cases hs with
  | none => exact .none
  | some hs => exact hs

/-- The block is opened by the `do` of `doBlock`, and `for` is no move. -/
theorem mirrors_forStat : V.Mirrors true (k + 1) s s V.stat (forStat r) (forStat r') := by
  have hblock := (mirrors_doBlock (s := s) h).loose.mono (Nat.le_succ k)
  refine .eat (mirrors_word (t := s) rfl) fun _ _ _ => ?_
  refine .bind (mirrors_countHead h).optional fun x y hxy => ?_
  cases hxy with
  | none =>
    refine .bind mirrors_nameList fun ns ns' hns => ?_
    subst hns
    refine .bind (mirrors_word (t := s) rfl) fun _ _ _ => ?_
    refine .bind (mirrors_exprList h) fun es es' hes => ?_
    exact .map hblock fun b b' hb => .iterate ns hes hb
  | @some x y hhead =>
    obtain ⟨hname, ha, hz, hs⟩ := hhead
    refine .map hblock fun b b' hb => ?_
    rw [← hname]
    exact .count x.1 ha hz hs hb

theorem mirrors_functionStat : V.Mirrors true (k + 1) s s V.stat (functionStat r) (functionStat r') := by
  have hbody := (mirrors_funcBody (s := s) h).loose.mono (Nat.le_succ k)
  refine .eat (mirrors_keyword (t := .block :: s) (forall_mem_singleton.mpr rfl)) fun x y hxy => ?_
  refine .bind (R := Eq) (t := .block :: s) (.required (.bind mirrors_plainName fun n n' hn => .map (.many
    (.bind (mirrors_sign rfl) fun _ _ _ => mirrors_plainName)) fun ns ns' hns => ?_)) fun path path' hpath => ?_
  · rw [forall₂_eq_eq_eq] at hns
    rw [hn, hns]
  · subst hpath
    refine .required (.orElse ?_ ?_)
    · refine .bind (mirrors_sign rfl) fun _ _ _ => ?_
      refine .bind mirrors_plainName fun n n' hn => ?_
      refine .map hbody fun f f' hf => ?_
      rw [← hn, ← hf.1]
      exact .method path n f.1 hf.2
    · refine .map hbody fun f f' hf => ?_
      rw [← hf.1, hxy.2.1]
      exact .function path f.1 hxy.2.2 hf.2

theorem mirrors_statement : V.Mirrors false (k + 1) s s V.stat (statement r) (statement r') := by
  have hblock := (mirrors_doBlock (s := s) h).loose.mono (Nat.le_succ k)
  refine .firstOf (.cons (mirrors_assignment h).loose (.cons ?_ (.cons ?_ (.cons ?_ (.cons (mirrors_localStat h)
    (.cons ?_ (.cons (mirrors_choice h).loose (.cons (mirrors_forStat h).loose (.cons (mirrors_functionStat h).loose
    (.cons ?_ (.cons ?_ (.cons ?_ (.cons ?_ .nil)))))))))))))
  · exact .map (mirrors_var h).loose fun e e' he => .bare he
  · refine .loose (.eat (mirrors_word (t := s) rfl) fun _ _ _ => ?_)
    refine .bind h.expr.required fun e e' he => ?_
    exact .map hblock.required fun b b' hb => .loop he hb
  · refine .loose (.eat (mirrors_word (t := .loop :: s) rfl) fun _ _ _ => ?_)
    refine .bind h.block fun b b' hb => ?_
    refine .bind (mirrors_word (t := s) rfl) fun _ _ _ => ?_
    exact .map h.expr fun e e' he => .untilLoop hb he
  · refine .bind (mirrors_word (t := s) rfl) fun _ _ _ => ?_
    exact .map mirrors_plainName.loose fun n n' hn => hn ▸ .goto n
  · refine .bind (mirrors_sign rfl) fun _ _ _ => ?_
    refine .bind mirrors_plainName fun n n' hn => ?_
    exact .map (mirrors_sign rfl).loose fun _ _ _ => hn ▸ .label n
  · exact .map (mirrors_doBlock h).loose fun b b' hb => .block hb
  · exact .map (mirrors_word rfl).loose fun _ _ _ => .leave
  · exact .map (mirrors_sign rfl).loose fun _ _ _ => .empty

theorem mirrors_blockOf : V.Mirrors false (k + 1) s s V.block (blockOf r) (blockOf r') := by
  refine .bind (mirrors_statement h).many fun ss ss' hss => ?_
  refine .map (.optional (R := V.stat) (.loose (.eat (mirrors_word (t := s) rfl) fun _ _ _ => ?_))) fun s s' hs => ?_
  · refine .bind (mirrors_exprList h).optional fun es es' hes => ?_
    refine .bind (mirrors_sign rfl).optional.discard fun _ _ _ => ?_
    exact .pure (.yield (forall₂_getD hes))
  · refine rel_append hss ?_
    cases hs with
    | none => exact .nil
    | some hs => exact .cons hs .nil

theorem mirrors_deeper (hdead : ∀ {c : Cursor}, Dead c.rest → ∀ e c', table r.deeper c ≠ .ok e c') :
    r.deeper.Mirrors V (k + 1) r'.deeper where
  block := mirrors_blockOf h
  expr := mirrors_expression h
  operand := mirrors_unary h
  item _ _ _ _ _ _ hrest hclose he :=
    expression_item hrest ((Cursor.next?_of_rest rfl).trans (congrArg some hclose)) he
  dead := hdead

end

theorem mirrors_upTo {m n : Nat} (hm : k ≤ m) (hn : k ≤ n) : (upTo m).Mirrors V k (upTo n) := by
  induction k generalizing m n with
  | zero =>
    refine ⟨?_, ?_, ?_, nofun, fun hdead => hdead.2 m _ rfl⟩
    all_goals exact fun c d _ hlt => absurd hlt (Nat.not_lt_zero _)
  | succ k ih =>
    obtain ⟨m, rfl⟩ := Nat.exists_eq_add_one_of_ne_zero (Nat.ne_of_gt (Nat.lt_of_lt_of_le (Nat.succ_pos k) hm))
    obtain ⟨n, rfl⟩ := Nat.exists_eq_add_one_of_ne_zero (Nat.ne_of_gt (Nat.lt_of_lt_of_le (Nat.succ_pos k) hn))
    exact mirrors_deeper (ih (Nat.le_of_succ_le_succ hm) (Nat.le_of_succ_le_succ hn)) fun hdead =>
      hdead.2 (m + 1) _ rfl

end Rules

/-! ### Whole scripts -/

theorem Masked.length_le (h : Masked V ts ts') : ts'.length ≤ ts.length := by
  induction h with
  | nil => exact Nat.le_refl 0
  | @dead ts _ _ _ hdead =>
    cases ts with
    | nil => cases hdead.1
    | cons => simp
  | cons _ _ ih => exact Nat.succ_le_succ ih
  | tag _ _ _ _ _ _ _ ih =>
    simp only [length_cons]
    omega

theorem Masked.of_nil (h : Masked V [] ts') : V.stuck = false ∧ ts' = [] := by
  cases h with
  | nil h => exact ⟨h, rfl⟩
  | dead _ _ hdead => cases hdead.1

theorem mirrors_parseTokens (hmasked : Masked V ts ts') (hstop : ∀ column, V.fault (.expecting stop.line column))
    (hchunk : V.fault .noChunk) (stop' : Place) :
    match parseTokens ts stop with
    | .ok script => V.stuck = false ∧ nest [] (movesOf ts) = some [] ∧
      ∃ hidden, parseTokens ts' stop' = .ok hidden ∧ V.block script hidden
    | .error e => V.fault e := by
  have hrules : (Rules.upTo (ts.length + 1)).Mirrors V (ts'.length + 1) (Rules.upTo (ts'.length + 1)) :=
    Rules.mirrors_upTo (Nat.succ_le_succ hmasked.length_le) (Nat.le_refl _)
  have hblock := hrules.block (s := []) { rest := ts, stop := stop } { rest := ts', stop := stop' }
    ⟨hmasked, rfl, hstop⟩ (Nat.lt_succ_self _)
  unfold parseTokens
  generalize (Rules.upTo (ts.length + 1)).block _ = o, (Rules.upTo (ts'.length + 1)).block _ = o' at hblock
  cases hblock with
  | no => exact hchunk
  | abort he => exact he
  | @ok ss ss' c' d' hss hcursor _ hleads =>
    dsimp only
    cases hend : c'.rest with
    | cons x xs => exact hchunk
    | nil =>
      obtain ⟨read, hread, hnest⟩ := hleads
      obtain rfl : ts = read := by simpa [hend] using hread
      have hrest := hcursor.rest
      rw [hend] at hrest
      obtain ⟨hstuck, hend'⟩ := hrest.of_nil
      refine ⟨hstuck, hnest, ss', ?_, hss⟩
      rw [hend']
      rfl

/-- **A script that is read is read to the same tree when its tags are hidden.** -/
theorem parseTokens_hides {stuck : Bool} {script : List Stat} (hmasked : Masked (.hiding stuck) ts ts')
    (hparse : parseTokens ts stop = .ok script) (stop' : Place) :
    stuck = false ∧ ∃ hidden, parseTokens ts' stop' = .ok hidden ∧ Forall₂ (Stat.Like .hidden) script hidden := by
  have hstop : ∀ column, (View.hiding stuck).fault (.expecting stop.line column) := fun _ => trivial
  have h := mirrors_parseTokens hmasked hstop trivial stop'
  rw [hparse] at h
  exact ⟨h.1, h.2.2⟩

end WatchFace.Lua
