import WatchFace.Lua.Parser

/-!
# What a tag is to the grammar

A tag is a table with one item if there is a single token between the braces that is an expression of its own. Otherwise
no table can be read at the brace.
-/

namespace WatchFace.Lua

open WatchFace.Lua.Parser (token operator keyword sign)
open List

variable {α β : Type} {c c' : Cursor}
variable {c'' d : Cursor} {step : α → Parser (Option α)} {close t y : Token} {ts : List Token}
  {f : Kind → Option α} {signs words : List String} {n s w : String} {operand : Parser Expr} {e : Expr}
  {r : Rules}

/-! ### Running rules -/

namespace Parser

variable {p q : Parser α} {f : α → Parser β} {a : α}

theorem bind_ok (h : p c = .ok a d) : (p >>= f) c = f a d := by
  rw [bind_apply, h]

theorem bind_no (h : p c = .no) : (p >>= f) c = .no := by
  rw [bind_apply, h]

theorem exists_of_bind_ok {b : β} (h : (p >>= f) c = .ok b c') : ∃ a c'', p c = .ok a c'' ∧ f a c'' = .ok b c' := by
  cases hp : p c with
  | ok a c'' => exact ⟨a, c'', rfl, (bind_ok hp).symm.trans h⟩
  | no =>
    rw [bind_no hp] at h
    cases h
  | abort e =>
    rw [bind_apply, hp] at h
    cases h

theorem orElse_no (h : p c = .no) : p.orElse q c = q c := by
  simp only [orElse, h]

theorem orElse_ok (h : p c = .ok a c') : p.orElse q c = .ok a c' := by
  simp only [orElse, h]

theorem orElse_of_no_right (h : q c = .no) : p.orElse q c = p c := by
  unfold orElse
  cases hp : p c with
  | no => exact h
  | ok | abort => rfl

theorem firstOf_one : firstOf [p] c = p c := orElse_of_no_right rfl

theorem firstOf_no {ps : List (Parser α)} (h : ∀ p ∈ ps, p c = .no) : firstOf ps c = .no := by
  induction ps with
  | nil => rfl
  | cons p ps ih =>
    exact (orElse_no (h p mem_cons_self)).trans (ih fun p hp => h p (.tail _ hp))

theorem optional_no (h : p c = .no) : optional p c = .ok none c := by
  simp only [optional, h]

theorem optional_ok (h : p c = .ok a c') : optional p c = .ok (some a) c' := by
  simp only [optional, h]

theorem optional_cases {x : Option α} (h : optional p c = .ok x c') : c' = c ∨ ∃ a, p c = .ok a c' := by
  unfold optional at h
  cases hp : p c with
  | no =>
    rw [hp] at h
    exact .inl (Outcome.ok.inj h).2.symm
  | ok a c'' =>
    rw [hp] at h
    obtain ⟨-, rfl⟩ := Outcome.ok.inj h
    exact .inr ⟨a, rfl⟩
  | abort =>
    rw [hp] at h
    cases h

theorem discard_ok (h : p c = .ok a c') : (discard p : Parser Unit) c = .ok () c' :=
  bind_ok h

theorem iterate_none (h : step a c = .ok none d) : iterate step a c = .ok a c := by
  rw [iterate]
  simp only [h]

theorem iterate_no (h : step a c = .no) : iterate step a c = .no := by
  rw [iterate]
  simp only [h]

theorem many_no (h : p c = .no) : many p c = .ok [] c := by
  refine (bind_ok (iterate_none (d := c) ?_)).trans rfl
  exact (bind_ok (optional_no h)).trans rfl

end Parser

open Parser

/-! ### The next token -/

def Cursor.next? (c : Cursor) : Option Kind := c.rest.head?.map Token.kind

def Cursor.skip (c : Cursor) (t : Token) (ts : List Token) : Cursor := { c with rest := ts, last := some t }

theorem Cursor.next?_of_rest (h : c.rest = t :: ts) : c.next? = some t.kind := by
  rw [Cursor.next?, h]
  rfl

@[simp] theorem Cursor.rest_skip (t : Token) (ts : List Token) : (c.skip t ts).rest = ts := rfl

theorem token_eq_no (h : c.next?.bind f = none) : token f c = .no := by
  unfold token
  unfold Cursor.next? at h
  cases hrest : c.rest with
  | nil => rfl
  | cons t ts =>
    rw [hrest] at h
    have ht : f t.kind = none := h
    simp only [ht]

theorem token_no {k : Kind} (hnext : c.next? = some k) (h : f k = none) : token f c = .no :=
  token_eq_no (by rw [hnext]; exact h)

theorem starts_no {k : Kind} {g : α × Place → Parser β} (hnext : c.next? = some k) (h : f k = none) :
    (token f >>= g) c = .no :=
  bind_no (token_no hnext h)

theorem token_eq_ok {a : α} (hrest : c.rest = t :: ts) (h : f t.kind = some a) :
    token f c = .ok (a, t.place) (c.skip t ts) := by
  unfold token
  simp only [hrest, h]
  rfl

theorem operator_no (h : ∀ s ∈ signs, c.next? ≠ some (.operator s)) : operator signs c = .no := by
  refine token_eq_no ?_
  cases hnext : c.next? with
  | none => rfl
  | some k =>
    cases k with
    | operator s =>
      have hs : s ∉ signs := fun hs => h s hs hnext
      simp [hs]
    | _ => rfl

theorem keyword_no (h : ∀ w ∈ words, c.next? ≠ some (.keyword w)) : keyword words c = .no := by
  refine token_eq_no ?_
  cases hnext : c.next? with
  | none => rfl
  | some k =>
    cases k with
    | keyword w =>
      have hw : w ∉ words := fun hw => h w hw hnext
      simp [hw]
    | _ => rfl

theorem sign_no (h : c.next? ≠ some (.operator s)) : sign s c = .no :=
  bind_no (operator_no (by simpa using h))

theorem sign_ok (hrest : c.rest = t :: ts) (ht : t.kind = .operator s) : sign s c = .ok () (c.skip t ts) := by
  refine (bind_ok (token_eq_ok (a := s) hrest ?_)).trans rfl
  rw [ht]
  simp

/-! ### Where no expression starts -/

def Kind.onlyString : Kind → Bool
  | .string _ | .eof => true
  | _ => false

namespace Rules

variable {r : Rules} {k : Kind}

theorem operator_no_of_ne (hnext : c.next? = some k) (hk : ∀ s, k ≠ .operator s) : operator signs c = .no :=
  operator_no fun s _ h => hk s (Option.some.inj (hnext.symm.trans h))

theorem var_no (hparen : sign "(" c = .no) (hname : Parser.name c = .no) : var r c = .no :=
  bind_no ((orElse_no (bind_no hparen)).trans (bind_no hname))

theorem unary_eq_power (hnext : c.next? = some k) (hk : ∀ s, k ≠ .operator s) (hnot : k ≠ .keyword "not") :
    unary r c = power r c := by
  have hoperator : ∀ signs, operator signs c = .no := fun _ => operator_no_of_ne hnext hk
  have hkeyword : keyword ["not"] c = .no := keyword_no (by simpa [hnext] using hnot)
  refine (orElse_no (bind_no (hoperator _))).trans ((orElse_no (bind_no (hoperator _))).trans ?_)
  exact (orElse_no (bind_no hkeyword)).trans ((orElse_no (bind_no (hoperator _))).trans firstOf_one)

section

variable (hnext : c.next? = some (.operator "\x7d"))

include hnext

theorem atom_no : atom r c = .no := by
  refine firstOf_no ?_
  simp only [forall_mem_cons]
  exact ⟨var_no (starts_no hnext rfl) (token_no hnext rfl), starts_no hnext rfl,
    bind_no (starts_no hnext rfl), starts_no hnext rfl, starts_no hnext rfl,
    starts_no hnext rfl, starts_no hnext rfl, nofun⟩

theorem unary_no : unary r c = .no := by
  refine firstOf_no ?_
  simp only [forall_mem_cons]
  exact ⟨starts_no hnext rfl, starts_no hnext rfl, starts_no hnext rfl,
    starts_no hnext rfl, bind_no (atom_no hnext), nofun⟩

theorem comparison_no : comparison r c = .no :=
  bind_no ((bind_ok rfl).trans (bind_no (bind_no (bind_no (bind_no (unary_no hnext))))))

end

/-! ### Expressions of one token -/

theorem chain_stop (h : operand c = .ok e c') (hsigns : operator signs c' = .no) (hwords : keyword words c' = .no) :
    chain signs words operand c = .ok e c' := by
  refine (bind_ok h).trans (iterate_none (d := c') ?_)
  exact (bind_ok (optional_no ((orElse_no hsigns).trans hwords))).trans rfl

theorem chain_broken {x : String × Place} (h : operand c = .ok e c') (hsigns : operator signs c' = .no)
    (hword : keyword words c' = .ok x c'') (hno : operand c'' = .no) : chain signs words operand c = .no := by
  refine (bind_ok h).trans (iterate_no ?_)
  exact (bind_ok (optional_ok ((orElse_no hsigns).trans hword))).trans (bind_no hno)

theorem comparison_stop (hunary : unary r c = power r c) (hatom : atom r c = .ok e c')
    (hend : ∀ s, c'.next? = some (.operator s) → s = "\x7d") : comparison r c = .ok e c' := by
  have hoperator : ∀ signs : List String, "\x7d" ∉ signs → operator signs c' = .no := by
    refine fun signs hsigns => operator_no fun s hs hnext => ?_
    obtain rfl := hend s hnext
    exact hsigns hs
  have hkeyword : keyword [] c' = .no := keyword_no nofun
  have hpower : power r c = .ok e c' := chain_stop hatom (hoperator _ (by decide)) hkeyword
  have hsum : sum r c = .ok e c' := by
    refine chain_stop (chain_stop (chain_stop (hunary.trans hpower) ?_ hkeyword) ?_ hkeyword) ?_ hkeyword
    all_goals exact hoperator _ (by decide)
  have hconcatenation : concatenation r c = .ok e c' := by
    refine (bind_ok rfl).trans ((bind_ok hsum).trans (iterate_none (d := c') ?_))
    exact (bind_ok (optional_no (hoperator [".."] (by decide)))).trans rfl
  refine (bind_ok hconcatenation).trans ?_
  exact (bind_ok (optional_no (hoperator _ (by decide)))).trans rfl

theorem expression_stop (h : comparison r c = .ok e c') (hwords : ∀ w ∈ ["and", "or"], c'.next? ≠ some (.keyword w)) :
    expression r c = .ok e c' := by
  have hno : ∀ w ∈ ["and", "or"], keyword [w] c' = .no :=
    fun w hw => keyword_no (by simpa using hwords w hw)
  refine chain_stop (chain_stop h ?_ (hno "and" (by decide))) ?_ (hno "or" (by decide))
  all_goals exact operator_no nofun

end Rules

def Kind.item? (line : Nat) : Kind → Option Expr
  | .name n => some (.name n line)
  | .number s =>
    if (hexLength s.toList).isSome && s.toList.any (fun c => c == '.' || c == 'p' || c == 'P') then none
    else some (.literal s line)
  | .keyword w => if ["nil", "true", "false"].contains w then some (.literal w line) else none
  | _ => none

namespace Rules

variable {r : Rules} {t : Token} {ts : List Token}

theorem unambiguous_ok (h : c.next? ≠ some (.operator "(")) : unambiguous c = .ok () c := by
  have hkind : (c.ahead 0).kind ≠ .operator "(" := by
    unfold Cursor.next? at h
    unfold Cursor.ahead
    cases hrest : c.rest with
    | nil => exact nofun
    | cons t ts =>
      rw [hrest] at h
      exact fun ht => h (congrArg some ht)
  unfold unambiguous
  cases c.last with
  | none => rfl
  | some t => simp [hkind]

theorem suffix_no (hnext : c.next? = some (.operator "\x7d")) (e : Expr) : suffix r e c = .no := by
  have hany : anyArguments r c = .no := by
    refine firstOf_no ?_
    simp only [forall_mem_cons]
    exact ⟨bind_no (starts_no hnext rfl), bind_no (bind_no (starts_no hnext rfl)),
      bind_no (starts_no hnext rfl), nofun⟩
  refine firstOf_no ?_
  simp only [forall_mem_cons]
  refine ⟨bind_no (starts_no hnext rfl), bind_no (starts_no hnext rfl),
    bind_no (starts_no hnext rfl), ?_, nofun⟩
  exact (bind_ok (unambiguous_ok (by rw [hnext]; decide))).trans (bind_no hany)

section

variable (hrest : c.rest = t :: ts)

include hrest

theorem atom_name (ht : t.kind = .name n) (hnext : (c.skip t ts).next? = some (.operator "\x7d")) :
    atom r c = .ok (.name n t.place.line) (c.skip t ts) := by
  have hname : Parser.name c = .ok (n, t.place) (c.skip t ts) := token_eq_ok hrest (by rw [ht])
  have hparen : sign "(" c = .no := sign_no (by rw [Cursor.next?_of_rest hrest, ht]; exact nofun)
  have hvar : var r c = .ok (.name n t.place.line) (c.skip t ts) := by
    refine (bind_ok (a := .name n t.place.line) (d := c.skip t ts) ?_).trans ?_
    · exact (orElse_no (bind_no hparen)).trans ((bind_ok hname).trans rfl)
    · exact iterate_none (optional_no (suffix_no hnext _))
  exact orElse_ok hvar

theorem atom_word (hword : (∃ s, t.kind = .number s) ∨ ∃ w, t.kind = .keyword w)
    (hfunction : t.kind = .keyword "function" → (c.skip t ts).next? ≠ some (.operator "(")) :
    atom r c = (number.orElse (string.orElse (firstOf [do
      let (w, p) ← keyword ["nil", "true", "false"]
      return .literal w p.line]))) c := by
  have hnext := Cursor.next?_of_rest hrest
  have hoperator : ∀ signs, operator signs c = .no := by
    refine fun signs => operator_no_of_ne hnext fun s => ?_
    obtain ⟨w, hw⟩ | ⟨w, hw⟩ := hword <;> simp [hw]
  have hname : Parser.name c = .no := by
    obtain ⟨w, hw⟩ | ⟨w, hw⟩ := hword <;> exact token_no hnext (by rw [hw])
  refine (orElse_no (var_no (bind_no (hoperator _)) hname)).trans ?_
  refine (orElse_no ?_).trans ?_
  · by_cases ht : t.kind = .keyword "function"
    · have hkeyword : keyword ["function"] c = .ok ("function", t.place) (c.skip t ts) :=
        token_eq_ok hrest (by rw [ht]; rfl)
      exact (bind_ok hkeyword).trans (bind_no (bind_no (sign_no (hfunction ht))))
    · exact bind_no (keyword_no (by simpa [hnext] using ht))
  exact (orElse_no (bind_no (bind_no (hoperator _)))).trans (orElse_no (bind_no (hoperator _)))

theorem atom_number (ht : t.kind = .number s) : atom r c = match t.kind.item? t.place.line with
      | some e => .ok e (c.skip t ts)
      | none => .abort (.malformedNumber s) := by
  have hnumber : number c = match t.kind.item? t.place.line with
      | some e => .ok e (c.skip t ts)
      | none => .abort (.malformedNumber s) := by
    refine (bind_ok (token_eq_ok (a := s) hrest (by rw [ht]))).trans ?_
    rw [ht, Kind.item?]
    dsimp only
    cases (hexLength s.toList).isSome with
    | false => rfl
    | true => cases s.toList.any fun c => c == '.' || c == 'p' || c == 'P' <;> rfl
  rw [atom_word hrest (.inl ⟨s, ht⟩) (by rw [ht]; exact nofun), orElse, hnumber]
  cases t.kind.item? t.place.line <;> rfl

theorem atom_literal (ht : t.kind = .keyword w) (hw : ["nil", "true", "false"].contains w = true) :
    atom r c = .ok (.literal w t.place.line) (c.skip t ts) := by
  have hfunction : t.kind ≠ .keyword "function" := by
    intro hf
    obtain rfl := Kind.keyword.inj (ht.symm.trans hf)
    cases hw
  rw [atom_word hrest (.inr ⟨w, ht⟩) fun hf => absurd hf hfunction]
  have hnext : c.next? = some (.keyword w) := by rw [Cursor.next?_of_rest hrest, ht]
  refine (orElse_no (starts_no hnext rfl)).trans ((orElse_no (starts_no hnext rfl)).trans ?_)
  refine orElse_ok ((bind_ok (token_eq_ok (a := w) hrest ?_)).trans rfl)
  rw [ht]
  exact if_pos hw

theorem expression_item (hnext : (c.skip t ts).next? = some (.operator "\x7d"))
    (he : t.kind.item? t.place.line = some e) : expression r c = .ok e (c.skip t ts) := by
  have hne : ∀ {k : Kind}, k.item? t.place.line = none → t.kind ≠ k := by
    rintro k hk rfl
    rw [hk] at he
    cases he
  have hunary : unary r c = power r c := unary_eq_power (Cursor.next?_of_rest hrest) (fun s => hne rfl) (hne rfl)
  have hatom : atom r c = .ok e (c.skip t ts) := by
    cases hkind : t.kind with
    | name n =>
      rw [hkind] at he
      cases he
      exact atom_name hrest hkind hnext
    | number s => rw [atom_number hrest hkind, he]
    | keyword w =>
      rw [hkind, Kind.item?] at he
      split at he
      case isTrue hw =>
        cases he
        exact atom_literal hrest hkind hw
      case isFalse => cases he
    | operator | string | eof => exact absurd hkind (hne rfl)
  refine expression_stop (comparison_stop hunary hatom fun s hs => ?_) fun w _ => ?_
  · rw [hnext] at hs
    exact (Kind.operator.inj (Option.some.inj hs)).symm
  · rw [hnext]
    exact nofun

end

/-! ### Tables -/

theorem field_eq_item (hrest : c.rest = t :: ts) (ht : ∀ s, t.kind ≠ .operator s)
    (hnext : (c.skip t ts).next? ≠ some (.operator "=")) :
    field r c = (do return .item (← r.expr) : Parser Field) c := by
  have hhead := Cursor.next?_of_rest hrest
  refine (orElse_no (bind_no (bind_no (operator_no_of_ne hhead ht)))).trans ((orElse_no ?_).trans firstOf_one)
  cases hkind : t.kind with
  | name n =>
    have hname : Parser.name c = .ok (n, t.place) (c.skip t ts) := token_eq_ok hrest (by rw [hkind])
    exact (bind_ok hname).trans (bind_no (sign_no hnext))
  | _ => exact bind_no (token_no hhead (by rw [hkind]))

def fields (r : Rules) : Parser (List Field) := do
  let f ← field r
  let fs ← many (do discard (operator [",", ";"]); field r)
  discard (optional (operator [",", ";"]))
  return f :: fs

theorem table_eq : table r = do
    sign "\x7b"
    let fs ← optional (fields r)
    sign "\x7d"
    return .table (fs.getD []) := rfl

theorem fields_stop {f : Field} (h : field r c = .ok f c') (hnext : ∀ s ∈ [",", ";"], c'.next? ≠ some (.operator s)) :
    fields r c = .ok [f] c' := by
  have hseparator : operator [",", ";"] c' = .no := operator_no hnext
  refine (bind_ok h).trans ((bind_ok (many_no (bind_no (bind_no hseparator)))).trans ?_)
  exact (bind_ok (discard_ok (optional_no hseparator))).trans rfl

/-! ### At a brace, and at a string -/

section

variable (hnext : c.next? = some (.operator "\x7b"))

include hnext

theorem anyArguments_eq_table : anyArguments r c = (do return [← table r] : Parser (List Expr)) c := by
  refine (orElse_no (bind_no (starts_no hnext rfl))).trans (orElse_of_no_right ?_)
  exact firstOf_one.trans (bind_no (starts_no hnext rfl))

theorem atom_eq_table : atom r c = table r c := by
  refine (orElse_no (var_no (starts_no hnext rfl) (token_no hnext rfl))).trans ?_
  refine (orElse_no (starts_no hnext rfl)).trans (orElse_of_no_right (firstOf_no ?_))
  simp only [forall_mem_cons]
  exact ⟨starts_no hnext rfl, starts_no hnext rfl, starts_no hnext rfl,
    starts_no hnext rfl, nofun⟩

end

section

variable {k : Kind} (hnext : c.next? = some k) (hk : k.onlyString = true)

include hnext hk

theorem anyArguments_eq_string : anyArguments r c = (do return [← string] : Parser (List Expr)) c := by
  cases k with
  | string | eof =>
    refine (orElse_no (bind_no (starts_no hnext rfl))).trans ?_
    exact (orElse_no (bind_no (bind_no (starts_no hnext rfl)))).trans firstOf_one
  | _ => cases hk

theorem atom_eq_string : atom r c = string c := by
  cases k with
  | string | eof =>
    refine (orElse_no (var_no (starts_no hnext rfl) (token_no hnext rfl))).trans ?_
    refine (orElse_no (starts_no hnext rfl)).trans ?_
    refine (orElse_no (bind_no (starts_no hnext rfl))).trans ?_
    refine (orElse_no (starts_no hnext rfl)).trans ((orElse_no (starts_no hnext rfl)).trans ?_)
    exact orElse_of_no_right (firstOf_one.trans (starts_no hnext rfl))
  | _ => cases hk

end

section

variable {o x close : Token}

/-- **A tag is a table with one item.** -/
theorem table_item (hrest : c.rest = o :: x :: close :: ts) (ho : o.kind = .operator "\x7b")
    (hclose : close.kind = .operator "\x7d") (he : x.kind.item? x.place.line = some e)
    (hexpr : r.expr (c.skip o (x :: close :: ts)) = .ok e (c.skip x (close :: ts))) :
    table r c = .ok (.table [.item e]) (c.skip close ts) := by
  have hnext : (c.skip x (close :: ts)).next? = some (.operator "\x7d") := by
    rw [Cursor.next?_of_rest rfl, hclose]
  have hfield : field r (c.skip o (x :: close :: ts)) = .ok (.item e) (c.skip x (close :: ts)) := by
    have hx : ∀ s, x.kind ≠ .operator s := by
      intro s hs
      rw [hs] at he
      cases he
    rw [field_eq_item rfl hx (by rw [Cursor.next?_of_rest rfl, hclose]; decide)]
    exact (bind_ok hexpr).trans rfl
  have hfields := fields_stop hfield (by rw [hnext]; decide)
  have hsign : sign "\x7d" (c.skip x (close :: ts)) = .ok () (c.skip close ts) := sign_ok rfl hclose
  rw [table_eq, bind_ok (sign_ok hrest ho), bind_ok (optional_ok hfields), bind_ok hsign]
  rfl

theorem table_ne_ok (hrest : c.rest = o :: x :: ts) (ho : o.kind = .operator "\x7b")
    (hx : ∀ s, x.kind ≠ .operator s) (hnext : (c.skip x ts).next? ≠ some (.operator "="))
    (hexpr : ∀ e c', r.expr (c.skip o (x :: ts)) = .ok e c' → ∀ s, c'.next? ≠ some (.operator s)) (e : Expr)
    (c' : Cursor) : table r c ≠ .ok e c' := by
  intro htable
  rw [table_eq, bind_ok (sign_ok hrest ho)] at htable
  obtain ⟨fs, c₁, hfields, htable⟩ := exists_of_bind_ok htable
  obtain ⟨a, c₂, hsign, -⟩ := exists_of_bind_ok htable
  -- the closing brace is missing, whether there is an item or not
  have hmark : ∀ s, c₁.next? ≠ some (.operator s) := by
    obtain rfl | ⟨fs, hfs⟩ := optional_cases hfields
    · intro s hs
      rw [Cursor.next?_of_rest rfl] at hs
      exact hx s (Option.some.inj hs)
    · obtain ⟨f, c₃, hf, -⟩ := exists_of_bind_ok hfs
      have hitem := field_eq_item (r := r) (c := c.skip o (x :: ts)) rfl hx hnext
      obtain ⟨e, c₄, he, hpure⟩ := exists_of_bind_ok (hitem.symm.trans hf)
      obtain ⟨-, rfl⟩ := Outcome.ok.inj hpure
      have hstop := fields_stop hf fun s _ => hexpr e _ he s
      obtain ⟨-, rfl⟩ := Outcome.ok.inj (hstop.symm.trans hfs)
      exact hexpr e _ he
  rw [sign_no (hmark _)] at hsign
  cases hsign

end

end Rules

/-! ### Braces without a table -/

def Dead (ts : List Token) : Prop :=
  ts.head?.map Token.kind = some (.operator "\x7b") ∧
    ∀ n c, c.rest = ts → ∀ e c', Rules.table (Rules.upTo n) c ≠ .ok e c'

section

open Rules

variable {o x : Token} {ts : List Token}

theorem expression_keyword (hrest : c.rest = x :: ts) (hx : x.kind = .keyword w)
    (hw : ["nil", "true", "false"].contains w = false) (hnext : (c.skip x ts).next? = some (.operator "\x7d"))
    (hoperand : r.operand (c.skip x ts) = .no) : expression r c = .no := by
  have hhead : c.next? = some (.keyword w) := by rw [Cursor.next?_of_rest hrest, hx]
  have hatom : atom r c = .no := by
    rw [atom_word hrest (.inr ⟨w, hx⟩) fun _ => by rw [hnext]; decide]
    refine (orElse_no (bind_no (token_no hhead rfl))).trans ((orElse_no (bind_no (token_no hhead rfl))).trans ?_)
    exact firstOf_one.trans (bind_no (token_no hhead (if_neg (Bool.not_eq_true _ ▸ hw))))
  have hunary : unary r c = .no := by
    have hnot : (do let (s, place) ← keyword ["not"]; return .unary s (← r.operand) place.line : Parser Expr) c = .no := by
      by_cases h : w = "not"
      · subst h
        have hkeyword : keyword ["not"] c = .ok ("not", x.place) (c.skip x ts) := token_eq_ok hrest (by rw [hx]; rfl)
        exact (bind_ok hkeyword).trans (bind_no hoperand)
      · exact bind_no (keyword_no (by simpa [hhead] using h))
    refine firstOf_no ?_
    simp only [forall_mem_cons]
    exact ⟨bind_no (token_no hhead rfl), bind_no (token_no hhead rfl), hnot, bind_no (token_no hhead rfl),
      bind_no hatom, nofun⟩
  -- an expression begins with an operand of every level, down to the unary operators
  exact bind_no (bind_no (bind_no ((bind_ok rfl).trans (bind_no (bind_no (bind_no (bind_no hunary)))))))

theorem exists_atom_of_expression (hnext : c.next? = some (.number s)) (h : expression r c = .ok e c') :
    ∃ e' c'', atom r c = .ok e' c'' := by
  obtain ⟨_, _, h, -⟩ := exists_of_bind_ok h
  obtain ⟨_, _, h, -⟩ := exists_of_bind_ok h
  obtain ⟨_, _, h, -⟩ := exists_of_bind_ok h
  obtain ⟨_, _, hhere, h⟩ := exists_of_bind_ok h
  obtain ⟨rfl, rfl⟩ := Outcome.ok.inj hhere
  obtain ⟨_, _, h, -⟩ := exists_of_bind_ok h
  obtain ⟨_, _, h, -⟩ := exists_of_bind_ok h
  obtain ⟨_, _, h, -⟩ := exists_of_bind_ok h
  obtain ⟨_, _, h, -⟩ := exists_of_bind_ok h
  rw [unary_eq_power hnext nofun nofun] at h
  obtain ⟨e', c'', h, -⟩ := exists_of_bind_ok h
  exact ⟨e', c'', h⟩

theorem expression_ne_ok_of_number (hrest : c.rest = x :: ts) (hx : x.kind = .number s)
    (hnone : x.kind.item? x.place.line = none) (e : Expr) (c' : Cursor) : expression r c ≠ .ok e c' := by
  intro h
  have hhead : c.next? = some (.number s) := by rw [Cursor.next?_of_rest hrest, hx]
  obtain ⟨e', c'', hatom⟩ := exists_atom_of_expression hhead h
  rw [atom_number hrest hx, hnone] at hatom
  cases hatom

theorem expression_number (hrest : c.rest = x :: y :: ts) (hx : x.kind = .number s) (hy : ∀ s, y.kind ≠ .operator s)
    (hend : ∀ w, y.kind = .keyword w → (c.skip y ts).next? = some (.operator "\x7d")) (h : expression r c = .ok e c') :
    c' = c.skip x (y :: ts) := by
  have hhead : c.next? = some (.number s) := by rw [Cursor.next?_of_rest hrest, hx]
  have hnext : (c.skip x (y :: ts)).next? = some y.kind := Cursor.next?_of_rest rfl
  obtain ⟨e', c'', hatom⟩ := exists_atom_of_expression hhead h
  have hc'' : c'' = c.skip x (y :: ts) := by
    rw [atom_number hrest hx] at hatom
    split at hatom
    case h_1 => exact (Outcome.ok.inj hatom).2.symm
    case h_2 => cases hatom
  subst hc''
  have hcomparison : comparison r c = .ok e' (c.skip x (y :: ts)) := by
    refine comparison_stop (unary_eq_power hhead nofun nofun) hatom fun s hs => ?_
    rw [hnext] at hs
    exact absurd (Option.some.inj hs) (hy s)
  by_cases hwords : ∃ w ∈ ["and", "or"], y.kind = .keyword w
  -- after `and` and `or` an operand is missing
  · obtain ⟨w, hw, hkind⟩ := hwords
    have hword : ∀ words : List String, words.contains w → keyword words (c.skip x (y :: ts)) = .ok (w, y.place) (c.skip y ts) :=
      fun words hwords => token_eq_ok rfl (by rw [hkind]; exact if_pos hwords)
    have hbroken : comparison r (c.skip y ts) = .no := comparison_no (hend w hkind)
    have hoperator : operator [] (c.skip x (y :: ts)) = .no := operator_no nofun
    have hno : expression r c = .no := by
      simp only [mem_cons, not_mem_nil, or_false] at hw
      obtain rfl | rfl := hw
      · exact bind_no (chain_broken hcomparison hoperator (hword ["and"] rfl) hbroken)
      · have hand : keyword ["and"] (c.skip x (y :: ts)) = .no := keyword_no (by rw [hnext, hkind]; decide)
        exact chain_broken (chain_stop hcomparison hoperator hand) hoperator (hword ["or"] rfl) (bind_no hbroken)
    rw [hno] at h
    cases h
  · have hstop := expression_stop hcomparison fun w hw hy' => hwords ⟨w, hw, Option.some.inj (hnext.symm.trans hy')⟩
    exact (Outcome.ok.inj (h.symm.trans hstop)).2

theorem dead_of_keyword (ho : o.kind = .operator "\x7b") (hx : x.kind = .keyword w)
    (hw : ["nil", "true", "false"].contains w = false) (hclose : close.kind = .operator "\x7d") :
    Dead (o :: x :: close :: ts) := by
  refine ⟨congrArg some ho, fun n c hrest => ?_⟩
  have hnext : (c.skip x (close :: ts)).next? = some (.operator "\x7d") := by
    rw [Cursor.next?_of_rest rfl, hclose]
  have hoperand : ∀ n, (upTo n).operand (c.skip x (close :: ts)) = .no := by
    rintro (_ | n)
    · rfl
    · exact unary_no hnext
  have hexpr : (upTo n).expr (c.skip o (x :: close :: ts)) = .no := by
    cases n with
    | zero => rfl
    | succ n => exact expression_keyword rfl hx hw hnext (hoperand n)
  refine table_ne_ok hrest ho ?_ ?_ ?_
  · rw [hx]
    exact nofun
  · rw [hnext]
    decide
  · rw [hexpr]
    exact nofun

theorem dead_of_malformed (ho : o.kind = .operator "\x7b") (hx : x.kind = .number s)
    (hnone : x.kind.item? x.place.line = none) (hclose : close.kind = .operator "\x7d") :
    Dead (o :: x :: close :: ts) := by
  refine ⟨congrArg some ho, fun n c hrest => table_ne_ok hrest ho ?_ ?_ ?_⟩
  · rw [hx]
    exact nofun
  · rw [Cursor.next?_of_rest rfl, hclose]
    decide
  · intro e c' hexpr
    cases n with
    | zero => cases hexpr
    | succ n => exact absurd hexpr (expression_ne_ok_of_number rfl hx hnone e c')

theorem dead_of_number (ho : o.kind = .operator "\x7b") (hx : x.kind = .number s) (hy : ∀ s, y.kind ≠ .operator s)
    (hend : ∀ w, y.kind = .keyword w → ts.head?.map Token.kind = some (.operator "\x7d")) :
    Dead (o :: x :: y :: ts) := by
  refine ⟨congrArg some ho, fun n c hrest => ?_⟩
  have hnext : (c.skip x (y :: ts)).next? = some y.kind := Cursor.next?_of_rest rfl
  refine table_ne_ok hrest ho ?_ ?_ ?_
  · rw [hx]
    exact nofun
  · rw [hnext]
    exact fun h => hy _ (Option.some.inj h)
  · intro e c' hexpr s hs
    cases n with
    | zero => cases hexpr
    | succ n =>
      obtain rfl := expression_number (c := c.skip o (x :: y :: ts)) rfl hx hy hend hexpr
      exact hy s (Option.some.inj (hnext.symm.trans hs))

end

end WatchFace.Lua
