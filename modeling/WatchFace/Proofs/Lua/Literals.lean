import WatchFace.Lua.Outline

/-!
# Lines with string literals

To tell where a literal ends, the rough check looks at the one character before a quote. This is right after an escaped
quote, and wrong after an escaped backslash.
-/

namespace WatchFace.Lua.Outline

open List

variable {c q : Char} {cs : List Char}

/-! ### Pieces of a line -/

/-- A part of the content of a literal: a character, or a backslash and the character that it escapes. -/
inductive Element where
  | plain (c : Char)
  | escape (c : Char)
  deriving Repr, DecidableEq

def Element.char : Element → Char
  | .plain c | .escape c => c

def Element.written : Element → List Char
  | .plain c => [c]
  | .escape c => ['\\', c]

/-- A string literal: a quote, and elements of which the plain ones are neither that quote nor a backslash. -/
structure Literal where
  quote : Char
  content : List Element
  isQuote : quote = '"' ∨ quote = '\''
  plain : ∀ c, .plain c ∈ content → c ≠ quote ∧ c ≠ '\\'

def Literal.written (l : Literal) : List Char := l.quote :: (l.content.flatMap Element.written ++ [l.quote])

def Literal.endsEscaped (l : Literal) : Bool := l.content.getLast? = some (.escape '\\')

def isUnquoted (cs : List Char) : Bool := cs.all fun c => c != '"' && c != '\''

/-- A piece of a line: text without quotes, or a literal. -/
inductive Piece where
  | text (t : { cs : List Char // isUnquoted cs = true })
  | literal (l : Literal)

variable {p : Piece}

def written (ps : List Piece) : List Char :=
  ps.flatMap fun
    | .text t => t.1
    | .literal l => l.written

def texts (ps : List Piece) : List Char :=
  ps.flatMap fun
    | .text t => t.1
    | .literal _ => []

/-! ### What becomes of a piece -/

theorem withoutStringsFrom_none (previous : Char) (cs : List Char) :
    withoutStringsFrom none previous cs = withoutStrings cs := by
  cases cs <;> rfl

theorem unquoted_of_cons (h : isUnquoted (c :: cs) = true) : ¬ (c = '"' ∨ c = '\'') ∧ isUnquoted cs = true := by
  simpa [isUnquoted] using h

theorem withoutStrings_text (h : isUnquoted cs = true) (rest : List Char) :
    withoutStrings (cs ++ rest) = cs ++ withoutStrings rest := by
  induction cs with
  | nil => rfl
  | cons c cs ih =>
    obtain ⟨hc, hcs⟩ := unquoted_of_cons h
    rw [cons_append, withoutStrings, withoutStringsFrom]
    simp only [hc, if_false, withoutStringsFrom_none, ih hcs]
    rfl

theorem withoutStringsFrom_content (hq : q ≠ '\\') {content : List Element}
    (h : ∀ c, .plain c ∈ content → c ≠ q ∧ c ≠ '\\') (previous : Char) (rest : List Char) :
    withoutStringsFrom (some q) previous (content.flatMap Element.written ++ rest) =
      withoutStringsFrom (some q) ((content.map Element.char).getLastD previous) rest := by
  induction content generalizing previous with
  | nil => rfl
  | cons e content ih =>
    have hrest := ih fun c hc => h c (.tail _ hc)
    cases e with
    | plain c =>
      have hc : c ≠ q := (h c mem_cons_self).1
      simp only [flatMap_cons, Element.written, cons_append, nil_append, withoutStringsFrom, hc, false_and,
        if_false, hrest, map_cons, getLastD_cons]
      rfl
    | escape c =>
      -- the character after a backslash does not end the literal, whatever it is
      simp only [flatMap_cons, Element.written, cons_append, nil_append, withoutStringsFrom, Ne.symm hq,
        false_and, if_false, ne_eq, not_true, and_false, hrest, map_cons, getLastD_cons]
      rfl

theorem getLastD_content (l : Literal) :
    (l.content.map Element.char).getLastD l.quote = '\\' ↔ l.endsEscaped = true := by
  have hquote : l.quote ≠ '\\' := by
    obtain h | h := l.isQuote <;> simp [h]
  rw [Literal.endsEscaped, decide_eq_true_eq, getLastD_eq_getLast?, getLast?_map]
  cases hlast : l.content.getLast? with
  | none => simp [hquote]
  | some e =>
    cases e with
    | plain c => simp [Element.char, (l.plain c (mem_of_getLast? hlast)).2]
    | escape c => simp [Element.char]

/-- Behind a literal the line is read on as text, or as part of the literal if that ends with an escaped backslash. -/
theorem withoutStrings_literal (l : Literal) (rest : List Char) : withoutStrings (l.written ++ rest) =
    withoutStringsFrom (if l.endsEscaped then some l.quote else none) l.quote rest := by
  have hquote : l.quote ≠ '\\' := by
    obtain h | h := l.isQuote <;> simp [h]
  have hend := getLastD_content l
  rw [Literal.written, cons_append, append_assoc, withoutStrings, withoutStringsFrom]
  simp only [l.isQuote, if_true]
  rw [withoutStringsFrom_content hquote l.plain, singleton_append, withoutStringsFrom]
  cases hescaped : l.endsEscaped with
  | true => simp only [hend.mpr hescaped, ne_eq, not_true, and_false, if_false, if_true]
  | false =>
    have hne : (l.content.map Element.char).getLastD l.quote ≠ '\\' := fun h => by simp [hend.mp h] at hescaped
    simp only [ne_eq, hne, not_false_eq_true, and_self, if_true, Bool.false_eq_true, if_false]

theorem withoutStringsFrom_unquoted (hq : q = '"' ∨ q = '\'') (h : isUnquoted cs = true) (previous : Char) :
    withoutStringsFrom (some q) previous cs = [] := by
  induction cs generalizing previous with
  | nil => rfl
  | cons c cs ih =>
    obtain ⟨hc, hcs⟩ := unquoted_of_cons h
    have hne : c ≠ q := fun heq => hc (heq ▸ hq)
    simp only [withoutStringsFrom, hne, false_and, if_false, ih hcs]

/-! ### Lines -/

def Piece.endsEscaped : Piece → Bool
  | .text _ => false
  | .literal l => l.endsEscaped

theorem withoutStrings_single (t : { cs : List Char // isUnquoted cs = true }) :
    withoutStrings (written [.text t]) = texts [.text t] := by
  simpa [written, texts, withoutStrings, withoutStringsFrom] using withoutStrings_text t.2 []

theorem withoutStrings_cons (hp : p.endsEscaped = false) (ps : List Piece) :
    withoutStrings (written (p :: ps)) = texts [p] ++ withoutStrings (written ps) := by
  cases p with
  | text t => simpa [written, texts] using withoutStrings_text t.2 (written ps)
  | literal l =>
    have hl : l.endsEscaped = false := hp
    have hread := withoutStrings_literal l (written ps)
    rw [hl, if_neg Bool.false_ne_true, withoutStringsFrom_none] at hread
    simpa [written, texts] using hread

theorem withoutStrings_swallowed (hp : p.endsEscaped = true)
    (t : { cs : List Char // isUnquoted cs = true }) : withoutStrings (written [p, .text t]) = [] := by
  cases p with
  | text t => simp [Piece.endsEscaped] at hp
  | literal l =>
    have hl : l.endsEscaped = true := hp
    have hread := withoutStrings_literal l t.1
    rw [hl, if_pos rfl, withoutStringsFrom_unquoted l.isQuote t.2] at hread
    simpa [written] using hread

/-- **When literals are told from the text around them.** Every beginning of a sequence of pieces, with any text after
    it, is stripped of its literals and of nothing else, exactly if none of the literals ends with an escaped
    backslash. -/
theorem withoutStrings_written_iff (ps : List Piece) :
    (∀ qs, qs <+: ps → ∀ t, withoutStrings (written (qs ++ [.text t])) = texts (qs ++ [.text t])) ↔
      ∀ p ∈ ps, p.endsEscaped = false := by
  have texts_cons (p : Piece) (qs : List Piece) : texts (p :: qs) = texts [p] ++ texts qs := by simp [texts]
  induction ps with
  | nil =>
    refine ⟨fun _ p hp => absurd hp List.not_mem_nil, fun _ qs hqs t => ?_⟩
    rw [List.prefix_nil.mp hqs, List.nil_append]
    exact withoutStrings_single t
  | cons p ps ih =>
    refine ⟨fun h => ?_, fun h qs hqs t => ?_⟩
    · have hp : p.endsEscaped = false := by
        refine Bool.eq_false_iff.mpr fun hescaped => ?_
        -- with a text after it, the first literal at fault is already seen to swallow that text
        have hshort := h [p] (List.cons_prefix_cons.mpr ⟨rfl, List.nil_prefix⟩) ⟨['x'], rfl⟩
        rw [List.singleton_append, withoutStrings_swallowed hescaped] at hshort
        simp [texts] at hshort
      refine List.forall_mem_cons.mpr ⟨hp, ih.mp fun qs hqs t => ?_⟩
      have hlonger := h (p :: qs) (List.cons_prefix_cons.mpr ⟨rfl, hqs⟩) t
      rw [List.cons_append, withoutStrings_cons hp, texts_cons p (qs ++ _)] at hlonger
      exact List.append_cancel_left hlonger
    · obtain ⟨hp, hps⟩ := List.forall_mem_cons.mp h
      cases qs with
      | nil => exact withoutStrings_single t
      | cons q qs =>
        obtain ⟨rfl, hrest⟩ := List.cons_prefix_cons.mp hqs
        rw [List.cons_append, withoutStrings_cons hp, texts_cons q (qs ++ _), ih.mpr hps qs hrest t]

def joined : List Piece :=
  [.text ⟨"a = ".toList, by decide⟩, .literal ⟨'"', [.escape '\\'], .inl rfl, by simp⟩, .text ⟨" .. b".toList, by decide⟩]

/-- Text after an escaped backslash at the end of a literal is lost. -/
theorem withoutStrings_joined : written joined = "a = \"\\\\\" .. b".toList ∧ texts joined = "a =  .. b".toList ∧
    withoutStrings (written joined) = "a = ".toList := by
  decide +kernel

end WatchFace.Lua.Outline
