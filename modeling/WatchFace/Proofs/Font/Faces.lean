import WatchFace.Proofs.Font.Writing

/-!
# The face of a bitmap font

The numbers are looked for in the whole line about the face, so a name that holds one of their keys hides the number
that is meant.
-/

namespace WatchFace.Font

open Text List

variable {cs face key rest u v : List Char} {b : Bitmap} {size bold italic n : Int}

/-! ### Looking past quotes -/

theorem isPrefixOf_quote (h : '"' ∉ u) (cs rest : List Char) :
    u.isPrefixOf (cs ++ '"' :: rest) = u.isPrefixOf cs := by
  rw [Bool.eq_iff_iff, isPrefixOf_iff_prefix, isPrefixOf_iff_prefix]
  refine ⟨fun hu => ?_, fun hu => hu.trans (prefix_append ..)⟩
  obtain hle | ⟨t, rfl⟩ := prefix_or_prefix_of_prefix hu (prefix_append cs _)
  · exact hle
  · cases t with
    | nil => simp
    | cons c t =>
      obtain ⟨rfl, -⟩ := cons_prefix_cons.mp ((prefix_append_right_inj cs).mp hu)
      simp at h

theorem valueAt?_quote (hcs : '"' ∉ cs) (hrest : '"' ∉ rest) :
    valueAt? (cs ++ '"' :: ' ' :: rest) = valueAt? (cs ++ ['"']) := by
  have htake : ∀ l : List Char, (l ++ ' ' :: rest).takeWhile (!isBlank ·) = l.takeWhile (!isBlank ·) := by
    intro l
    induction l with
    | nil => rfl
    | cons c l ih => simp only [cons_append, takeWhile_cons, ih]
  cases cs with
  | nil => simp [valueAt?, hrest, isBlank]
  | cons c cs =>
    have hc : c ≠ '"' := by rintro rfl; simp at hcs
    have hplain : ∀ l ds, c :: l = '"' :: ds → False := fun l ds heq => hc (cons.inj heq).1
    have happend : cs ++ '"' :: ' ' :: rest = (cs ++ ['"']) ++ ' ' :: rest := by simp
    rw [cons_append, cons_append, happend, valueAt?, valueAt?, ← cons_append, htake]
    · exact hplain _
    · exact hplain _

theorem valueOf?_cons_quote (hkey : IsKey key) (rest : List Char) : valueOf? key ('"' :: rest) = valueOf? key rest := by
  refine valueOf?_cons_of_not_prefix fun h => ?_
  cases key with
  | nil => exact hkey.ne_nil rfl
  | cons c key =>
    obtain ⟨rfl, -⟩ := cons_prefix_cons.mp h
    exact absurd mem_cons_self (hkey.not_mem (by decide))

theorem valueOf?_quote (hkey : IsKey key) (hcs : '"' ∉ cs) (hrest : '"' ∉ rest) :
    valueOf? key (cs ++ '"' :: ' ' :: rest) = (valueOf? key (cs ++ ['"'])).or (valueOf? key rest) := by
  have hsign : '"' ∉ key ++ ['='] := by simpa using hkey.not_mem (by decide)
  induction cs with
  | nil =>
    rw [nil_append, nil_append, valueOf?_cons_quote hkey, valueOf?_cons_quote hkey]
    exact valueOf?_skip hkey not_mem_nil rest
  | cons c cs ih =>
    obtain ⟨-, hcs'⟩ := not_or.mp (mem_cons.not.mp hcs)
    have hprefix : ∀ l, (key ++ ['=']).isPrefixOf (c :: (cs ++ '"' :: l)) = (key ++ ['=']).isPrefixOf (c :: cs) :=
      isPrefixOf_quote hsign (c :: cs)
    rw [cons_append, cons_append, valueOf?, valueOf?, hprefix, hprefix, ih hcs']
    split
    case isFalse => rfl
    case isTrue h =>
      obtain ⟨t, ht⟩ := isPrefixOf_iff_prefix.mp h
      have hdrop : ∀ l, (c :: (cs ++ '"' :: l)).drop (key.length + 1) = t ++ '"' :: l := by
        intro l
        rw [← cons_append, ← ht]
        simp
      have ht' : '"' ∉ t := fun hmem => hcs (ht ▸ mem_append_right _ hmem)
      rw [hdrop, hdrop, valueAt?_quote ht' hrest]
      cases valueAt? (t ++ ['"']) <;> rfl

theorem valueAt?_quoted (hcs : '"' ∉ cs) (rest : List Char) : valueAt? ('"' :: (cs ++ '"' :: rest)) = some cs := by
  have htake : (cs ++ '"' :: rest).takeWhile (· != '"') = cs := by
    rw [takeWhile_append_of_pos fun c hc => bne_iff_ne.mpr (ne_of_mem_of_not_mem hc hcs)]
    simp
  rw [valueAt?, if_pos (by simp), htake]

/-! ### The line about the face -/

def numberIn? (key : String) (face : List Char) : Option Int :=
  (valueOf? key.toList (face ++ ['"'])).map fun v => (Number.readInt? v).getD 0

def styleOf (size bold italic : Int) : List (String × Int) := [("size", size), ("bold", bold), ("italic", italic)]

def faceLine (face : List Char) (size bold italic : Int) : List Char :=
  "info".toList ++ ' ' :: ("face".toList ++ '=' :: '"' ::
    (face ++ '"' :: ' ' :: joinWith [' '] ((styleOf size bold italic).map pairText)))

theorem clear_styleOf (size bold italic : Int) : Clear (styleOf size bold italic) :=
  clear_of_keys (by simp only [styleOf, map_cons, map_nil]; decide) (by simp only [styleOf, map_cons, map_nil]; decide)

theorem quote_not_mem_joinWith {as : List (String × Int)} (h : Clear as) : '"' ∉ joinWith [' '] (as.map pairText) := by
  intro hmem
  have hline : '"' ∈ lineOf "info" as := mem_append_right _ (mem_cons_of_mem _ hmem)
  exact absurd (mem_lineOf (by decide) h hline) (by decide)

theorem valueOf?_faceLine (hface : '"' ∉ face) :
    valueOf? "face".toList (faceLine face size bold italic) = some face := by
  have hkey : IsKey "face".toList := by decide
  rw [faceLine, valueOf?_skip hkey (by decide)]
  exact valueOf?_key hkey (valueAt?_quoted hface _)

theorem intOf_faceLine (hface : '"' ∉ face) {key : String} (hn : (key, n) ∈ styleOf size bold italic) :
    intOf (faceLine face size bold italic) key = (numberIn? key face).getD (if Fits n then n else 0) := by
  have hclear := clear_styleOf size bold italic
  have hkey : IsKey key.toList := hclear.isKey _ hn
  have hsuffix : ¬ key.toList <:+ "face".toList := by
    simp only [styleOf, mem_cons, not_mem_nil, or_false, Prod.mk.injEq] at hn
    obtain ⟨rfl, -⟩ | ⟨rfl, -⟩ | ⟨rfl, -⟩ := hn <;> decide
  have hvalue : valueOf? key.toList (faceLine face size bold italic) =
      (valueOf? key.toList (face ++ ['"'])).or (some (toString n).toList) := by
    rw [faceLine, valueOf?_skip hkey (by decide), valueOf?_past hkey (by decide) hsuffix, valueOf?_cons_quote hkey,
      valueOf?_quote hkey hface (quote_not_mem_joinWith hclear), valueOf?_joinWith hclear hn]
  rw [intOf_eq, hvalue, numberIn?]
  cases valueOf? key.toList (face ++ ['"']) with
  | some v => rfl
  | none =>
    show (Number.readInt? (toString n).toList).getD 0 = _
    rw [readInt?_fits]
    split <;> rfl

theorem getD_size_iff (o : Option Int) (n : Int) :
    o.getD (if Fits n then n else 0) = n ↔ (∀ m ∈ o, m = n) ∧ (o = none → Fits n) := by
  cases o with
  | some m => simp
  | none =>
    have hzero : ¬ Fits n → 0 ≠ n := fun h h0 => h (h0 ▸ by decide)
    by_cases h : Fits n <;> simp [h, hzero]

theorem getD_flag_iff (o : Option Int) (n : Int) :
    (o.getD (if Fits n then n else 0) == 1) = decide (n = 1) ↔ ∀ m ∈ o, m = 1 ↔ n = 1 := by
  cases o with
  | some m => simp [Bool.beq_eq_decide_eq]
  | none =>
    have hone : ¬ Fits n → n ≠ 1 := fun h h1 => h (h1 ▸ by decide)
    by_cases h : Fits n <;> simp [h, hone, Bool.beq_eq_decide_eq]

theorem strip_faceLine (face : List Char) (size bold italic : Int) :
    strip (faceLine face size bold italic) = faceLine face size bold italic := by
  have happend : faceLine face size bold italic = "info face=\"".toList ++ face ++ ['"', ' '] ++
      joinWith [' '] ((styleOf size bold italic).map pairText) := by simp [faceLine]
  rw [happend]
  exact strip_append_joinWith (by simp [isBlank]) (by simp [styleOf])

/-! ### Reading -/

namespace Bitmap

def style (b : Bitmap) : String × Int × Bool × Bool := (b.face, b.size, b.bold, b.italic)

theorem style_readLine (loads : String → Bool) (b : Bitmap) {line : List Char} (h : ¬ "info ".toList <+: line) :
    (b.readLine loads line).style = b.style := by
  unfold readLine
  dsimp only
  rw [if_neg (by simpa using h)]
  split
  · rfl
  · split
    · unfold readPage
      dsimp only
      split
      · rfl
      · rfl
      · split <;> rfl
    · split
      · rfl
      · split <;> rfl

theorem style_foldl_readLine (loads : String → Bool) {lines : List (List Char)}
    (h : ∀ line ∈ lines, ¬ "info ".toList <+: strip line) (b : Bitmap) :
    (lines.foldl (fun b line => b.readLine loads (strip line)) b).style = b.style := by
  induction lines generalizing b with
  | nil => rfl
  | cons line lines ih =>
    obtain ⟨hline, hlines⟩ := forall_mem_cons.mp h
    exact (ih hlines _).trans (style_readLine loads b hline)

theorem style_read {text : List Char} {before after : List (List Char)}
    (htext : linesOf text = before ++ faceLine face size bold italic :: after)
    (hafter : ∀ line ∈ after, ¬ "info ".toList <+: strip line) (files : List String) :
    (read files text).style = (String.ofList ((valueOf? "face".toList (faceLine face size bold italic)).getD []),
      intOf (faceLine face size bold italic) "size", intOf (faceLine face size bold italic) "bold" == 1,
      intOf (faceLine face size bold italic) "italic" == 1) := by
  rw [read, readLines, htext, foldl_append, foldl_cons, style_foldl_readLine _ hafter, strip_faceLine]
  rfl

/-- **Quoted text is looked into for numbers.** -/
theorem read_faceLine_iff (files : List String) {text : List Char} {before after : List (List Char)}
    (htext : linesOf text = before ++ faceLine face size bold italic :: after)
    (hafter : ∀ line ∈ after, ¬ "info ".toList <+: strip line) (hface : '"' ∉ face) :
    (read files text).face = String.ofList face ∧
      ((read files text).style = (String.ofList face, size, decide (bold = 1), decide (italic = 1)) ↔
        (∀ n ∈ numberIn? "size" face, n = size) ∧ (numberIn? "size" face = none → Fits size) ∧
        (∀ n ∈ numberIn? "bold" face, n = 1 ↔ bold = 1) ∧ ∀ n ∈ numberIn? "italic" face, n = 1 ↔ italic = 1) := by
  have hstyle := style_read htext hafter files
  rw [valueOf?_faceLine hface, intOf_faceLine hface (n := size) (by simp [styleOf]),
    intOf_faceLine hface (n := bold) (by simp [styleOf]), intOf_faceLine hface (n := italic) (by simp [styleOf])] at hstyle
  refine ⟨congrArg Prod.fst hstyle, ?_⟩
  rw [hstyle, Option.getD_some, Prod.mk.injEq, Prod.mk.injEq, Prod.mk.injEq, getD_size_iff, getD_flag_iff, getD_flag_iff,
    and_assoc]
  exact and_iff_right rfl

theorem read_faceLine_iff_bare :
    (linesOf (faceLine "Clock size= 9".toList 32 1 0) = [] ++ faceLine "Clock size= 9".toList 32 1 0 :: [] ∧
        '"' ∉ "Clock size= 9".toList) ∧
      (read [] (faceLine "Clock size= 9".toList 32 1 0)).style = ("Clock size= 9", 32, true, false) := by
  have htext : linesOf (faceLine "Clock size= 9".toList 32 1 0) =
      [] ++ faceLine "Clock size= 9".toList 32 1 0 :: [] := by decide
  exact ⟨⟨htext, by decide⟩, (read_faceLine_iff [] htext (forall_mem_nil _) (by decide)).2.mpr (by decide)⟩

/-- A size that is part of the name is read in place of the size that is given. -/
theorem size_read_shown : (read [] (faceLine "Clock size=9 pt".toList 32 0 0)).size ≠ 32 := by
  decide

end Bitmap

end WatchFace.Font
