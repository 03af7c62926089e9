import Mathlib.Data.List.Pairwise
import WatchFace.Font.Bitmap
import WatchFace.Proofs.Text.Numerals

/-!
# Writing bitmap fonts

The value of an attribute is looked for by the end of its key, so it is found because no key of a record is the end of
another one.
-/

namespace WatchFace.Font

open Text List

variable {cs k key rest sep u v : List Char} {c : Char} {as bs : List (String × Int)} {ps : List (List Char)}
  {b : Bitmap} {α : Type}

/-! ### Looking for a key -/

structure IsKey (key : List Char) : Prop where
  ne_nil : key ≠ []
  isAlpha : key.all Char.isAlpha = true

instance (key : List Char) : Decidable (IsKey key) :=
  decidable_of_iff (key ≠ [] ∧ key.all Char.isAlpha = true) ⟨fun h => ⟨h.1, h.2⟩, fun h => ⟨h.ne_nil, h.isAlpha⟩⟩

theorem IsKey.not_mem (h : IsKey key) (hc : c.isAlpha = false) : c ∉ key := by
  intro hmem
  rw [all_eq_true.mp h.isAlpha c hmem] at hc
  cases hc

theorem IsKey.no_blank (h : IsKey key) : ' ' ∉ key := h.not_mem (by decide)

theorem IsKey.no_sign (h : IsKey key) : '=' ∉ key := h.not_mem (by decide)

theorem isBlank_of_isAlpha (h : c.isAlpha = true) : isBlank c = false := by
  have hletter : (c.isUpper || c.isLower) = true := h
  have hrange : 65 ≤ c.toNat ∧ c.toNat ≤ 122 := by
    obtain hupper | hlower := Bool.or_eq_true_iff.mp hletter
    · have hbounds : 65 ≤ c.val ∧ c.val ≤ 90 := of_decide_eq_true hupper
      exact ⟨UInt32.le_iff_toNat_le.mp hbounds.1, (UInt32.le_iff_toNat_le.mp hbounds.2).trans (by decide)⟩
    · have hbounds : (decide (97 ≤ c.val) && decide (c.val ≤ 122)) = true := hlower
      obtain ⟨hle, hge⟩ := Bool.and_eq_true_iff.mp hbounds
      exact ⟨Nat.le_trans (by decide) (UInt32.le_iff_toNat_le.mp (of_decide_eq_true hle)),
        UInt32.le_iff_toNat_le.mp (of_decide_eq_true hge)⟩
  simp only [isBlank, Bool.or_eq_false_iff, Bool.and_eq_false_iff, decide_eq_false_iff_not, beq_eq_false_iff_ne]
  omega

section

variable {key : List Char} (hkey : IsKey key)

include hkey

theorem not_prefix_of_blank (hu : '=' ∉ u) : ¬ key ++ ['='] <+: u ++ ' ' :: rest := by
  rintro ⟨t, ht⟩
  rw [append_assoc, append_eq_append_iff] at ht
  obtain ⟨w, rfl, hw⟩ | ⟨w, rfl, hw⟩ := ht
  · cases w with
    | nil => simp at hw
    | cons c w =>
      obtain ⟨rfl, -⟩ := List.cons.inj hw
      simp at hu
  · cases w with
    | nil => simp at hw
    | cons c w =>
      obtain ⟨rfl, -⟩ := List.cons.inj hw
      exact hkey.no_blank (by simp)

theorem eq_of_prefix_sign (hk : '=' ∉ k) (h : key ++ ['='] <+: k ++ '=' :: rest) : key = k := by
  obtain ⟨t, ht⟩ := h
  rw [append_assoc, append_eq_append_iff] at ht
  obtain ⟨w, rfl, hw⟩ | ⟨w, rfl, hw⟩ := ht
  · cases w with
    | nil => simp
    | cons c w =>
      obtain ⟨rfl, -⟩ := List.cons.inj hw
      simp at hk
  · cases w with
    | nil => simp
    | cons c w =>
      obtain ⟨rfl, -⟩ := List.cons.inj hw
      exact absurd hkey.no_sign (by simp)

omit hkey in
theorem valueOf?_cons_of_not_prefix (h : ¬ key ++ ['='] <+: c :: cs) : valueOf? key (c :: cs) = valueOf? key cs := by
  rw [valueOf?, if_neg (by simpa using h)]

theorem valueOf?_skip (hu : '=' ∉ u) (rest : List Char) : valueOf? key (u ++ ' ' :: rest) = valueOf? key rest := by
  induction u with
  | nil => exact valueOf?_cons_of_not_prefix (not_prefix_of_blank hkey hu)
  | cons c u ih =>
    have hnot : ¬ key ++ ['='] <+: c :: (u ++ ' ' :: rest) := not_prefix_of_blank hkey hu
    rw [cons_append, valueOf?_cons_of_not_prefix hnot]
    exact ih fun h => hu (.tail _ h)

theorem valueOf?_past (hk : '=' ∉ k) (hsuffix : ¬ key <:+ k) (rest : List Char) :
    valueOf? key (k ++ '=' :: rest) = valueOf? key rest := by
  induction k with
  | nil =>
    -- the key is looked for at every place in `k`, so it is each end of `k` that must not be the key
    exact valueOf?_cons_of_not_prefix fun h => hkey.ne_nil (eq_of_prefix_sign hkey hk h)
  | cons c k ih =>
    have hnot : ¬ key ++ ['='] <+: c :: (k ++ '=' :: rest) := fun h =>
      hsuffix (eq_of_prefix_sign hkey hk h ▸ suffix_refl _)
    rw [cons_append, valueOf?_cons_of_not_prefix hnot]
    exact ih (fun h => hk (.tail _ h)) fun h => hsuffix (h.trans (suffix_cons c k))

omit hkey in
theorem valueAt?_append (hne : v ≠ []) (hblank : ∀ c ∈ v, isBlank c = false) (hquote : '"' ∉ v)
    (hrest : rest.head?.all isBlank = true) : valueAt? (v ++ rest) = some v := by
  have htake : (v ++ rest).takeWhile (!isBlank ·) = v := by
    rw [takeWhile_append_of_pos (by simpa using hblank)]
    cases rest with
    | nil => simp
    | cons c rest => simp [show isBlank c = true by simpa using hrest]
  cases v with
  | nil => exact absurd rfl hne
  | cons d ds =>
    rw [cons_append, valueAt?]
    · rw [← cons_append, htake]
    · rintro cs heq
      obtain ⟨rfl, -⟩ := List.cons.inj heq
      exact hquote (by simp)

theorem valueOf?_key (h : valueAt? rest = some v) : valueOf? key (key ++ '=' :: rest) = some v := by
  have hprefix : (key ++ ['=']).isPrefixOf (key ++ '=' :: rest) = true := by simp
  have hdrop : (key ++ '=' :: rest).drop (key.length + 1) = rest := by simp
  cases key with
  | nil => exact absurd rfl hkey.ne_nil
  | cons c key =>
    have hcons : c :: key ++ '=' :: rest = c :: (key ++ '=' :: rest) := rfl
    rw [hcons] at hprefix hdrop ⊢
    rw [valueOf?, if_pos hprefix, hdrop, h]

end

/-! ### Attributes -/

def pairText (a : String × Int) : List Char := a.1.toList ++ '=' :: (toString a.2).toList

def lineOf (word : String) (as : List (String × Int)) : List Char :=
  word.toList ++ ' ' :: joinWith [' '] (as.map pairText)

def Fits (n : Int) : Prop := (Nat.toDigits 10 n.natAbs).length ≤ digitLimit

instance (n : Int) : Decidable (Fits n) := inferInstanceAs (Decidable (_ ≤ _))

theorem readInt?_fits (n : Int) : Number.readInt? (toString n).toList = if Fits n then some n else none :=
  Number.readInt?_toString n

theorem not_mem_intToString (hsign : c ≠ '-') (hdigit : c.isDigit = false) (n : Int) : c ∉ (toString n).toList := by
  intro h
  obtain rfl | h := mem_intToString h
  · exact hsign rfl
  · rw [h] at hdigit
    cases hdigit

/-- Attributes of which none has a key that is the end of another one. -/
structure Clear (as : List (String × Int)) : Prop where
  isKey : ∀ a ∈ as, IsKey a.1.toList
  suffix_free : ∀ a ∈ as, ∀ b ∈ as, a.1.toList <:+ b.1.toList → a = b

theorem clear_of_keys (hkeys : ∀ k ∈ as.map Prod.fst, IsKey k.toList)
    (hsuffix : (as.map Prod.fst).Pairwise fun k k' => ¬ k.toList <:+ k'.toList ∧ ¬ k'.toList <:+ k.toList) :
    Clear as where
  isKey a ha := hkeys a.1 (mem_map_of_mem ha)
  suffix_free a ha b hb hs := by
    by_contra hab
    have : Std.Symm fun a b : String × Int => ¬ a.1.toList <:+ b.1.toList ∧ ¬ b.1.toList <:+ a.1.toList :=
      ⟨fun a b h => h.symm⟩
    exact ((pairwise_map.mp hsuffix).forall ha hb hab).1 hs

theorem Clear.perm (h : Clear bs) (hperm : as.Perm bs) : Clear as where
  isKey a ha := h.isKey a (hperm.mem_iff.mp ha)
  suffix_free a ha b hb := h.suffix_free a (hperm.mem_iff.mp ha) b (hperm.mem_iff.mp hb)

theorem valueOf?_joinWith (h : Clear as) {a : String × Int} (ha : a ∈ as) :
    valueOf? a.1.toList (joinWith [' '] (as.map pairText)) = some (toString a.2).toList := by
  have hkey : IsKey a.1.toList := h.isKey a ha
  have hvalue : ∀ rest : List Char, rest.head?.all isBlank = true →
      valueOf? a.1.toList (pairText a ++ rest) = some (toString a.2).toList := by
    intro rest hrest
    rw [pairText, append_assoc, cons_append]
    exact valueOf?_key hkey (valueAt?_append (intToString_ne_nil a.2) (fun c => isBlank_of_mem_intToString)
      (not_mem_intToString (by decide) (by decide) a.2) hrest)
  induction as with
  | nil => cases ha
  | cons b as ih =>
    have hclear : Clear as := ⟨fun c hc => h.isKey c (.tail _ hc),
      fun c hc d hd => h.suffix_free c (.tail _ hc) d (.tail _ hd)⟩
    cases as with
    | nil =>
      obtain rfl := mem_singleton.mp ha
      simpa [joinWith] using hvalue [] rfl
    | cons c cs =>
      have hjoin : joinWith [' '] ((b :: c :: cs).map pairText) =
          pairText b ++ ' ' :: joinWith [' '] ((c :: cs).map pairText) := by
        simp [joinWith]
      rw [hjoin]
      by_cases hab : a = b
      · subst hab
        exact hvalue _ rfl
      · have hsuffix : ¬ a.1.toList <:+ b.1.toList := fun hs => hab (h.suffix_free a ha b mem_cons_self hs)
        rw [pairText, append_assoc, cons_append, valueOf?_past hkey (h.isKey b mem_cons_self).no_sign hsuffix,
          valueOf?_skip hkey (not_mem_intToString (by decide) (by decide) b.2)]
        exact ih hclear ((mem_cons.mp ha).resolve_left hab)

theorem intOf_eq (line : List Char) (key : String) :
    intOf line key = ((valueOf? key.toList line).bind Number.readInt?).getD 0 := by
  unfold intOf int?
  cases valueOf? key.toList line with
  | none => rfl
  | some v => cases v <;> rfl

theorem intOf_lineOf {word : String} (hword : '=' ∉ word.toList) (h : Clear as) {key : String} {n : Int}
    (ha : (key, n) ∈ as) (hfits : Fits n) : intOf (lineOf word as) key = n := by
  have hvalue : valueOf? key.toList (lineOf word as) = some (toString n).toList := by
    rw [lineOf, valueOf?_skip (h.isKey _ ha) hword]
    exact valueOf?_joinWith h ha
  rw [intOf_eq, hvalue, Option.bind_some, readInt?_fits, if_pos hfits]
  rfl

/-! ### Records -/

/-- What a line of a file says about the characters of a font. -/
inductive Record where
  | glyph (g : Glyph)
  | kerning (pair : Int × Int) (amount : Int)
  | common (lineHeight base pageWidth pageHeight : Int)
  deriving Repr, DecidableEq

variable {r : Record} {rs : List Record}

def Record.word : Record → String
  | .glyph _ => "char"
  | .kerning _ _ => "kerning"
  | .common _ _ _ _ => "common"

def Record.attributes : Record → List (String × Int)
  | .glyph g =>
    [("id", g.id), ("x", g.x), ("y", g.y), ("width", g.width), ("height", g.height), ("xoffset", g.xOffset),
      ("yoffset", g.yOffset), ("xadvance", g.advance), ("page", g.page), ("chnl", g.channel)]
  | .kerning pair amount => [("first", pair.1), ("second", pair.2), ("amount", amount)]
  | .common lineHeight base pageWidth pageHeight =>
    [("lineHeight", lineHeight), ("base", base), ("scaleW", pageWidth), ("scaleH", pageHeight)]

def Record.keys : Record → List String
  | .glyph _ => ["id", "x", "y", "width", "height", "xoffset", "yoffset", "xadvance", "page", "chnl"]
  | .kerning _ _ => ["first", "second", "amount"]
  | .common _ _ _ _ => ["lineHeight", "base", "scaleW", "scaleH"]

theorem Record.map_fst_attributes (r : Record) : r.attributes.map Prod.fst = r.keys := by
  cases r <;> rfl

theorem Record.clear_attributes (r : Record) : Clear r.attributes := by
  apply clear_of_keys <;> rw [r.map_fst_attributes]
  · cases r <;> simp only [keys] <;> decide
  · cases r <;> simp only [keys] <;> decide

theorem Record.isKey_word (r : Record) : IsKey r.word.toList := by
  cases r <;> simp only [word] <;> decide

/-! ### Lines -/

theorem mem_joinWith (h : c ∈ joinWith sep ps) : c ∈ sep ∨ ∃ p ∈ ps, c ∈ p := by
  fun_induction joinWith with
  | case1 => cases h
  | case2 p => exact .inr ⟨p, mem_cons_self, h⟩
  | case3 p ps _ ih =>
    rw [mem_append, mem_append] at h
    obtain (hp | hsep) | hps := h
    · exact .inr ⟨p, mem_cons_self, hp⟩
    · exact .inl hsep
    · refine (ih hps).imp_right fun hmem => ?_
      obtain ⟨q, hq, hc⟩ := hmem
      exact ⟨q, .tail _ hq, hc⟩

theorem mem_lineOf {word : String} (hword : IsKey word.toList) (h : Clear as) (hc : c ∈ lineOf word as) :
    c.isAlpha = true ∨ c.isDigit = true ∨ c ∈ [' ', '=', '-'] := by
  have hkey : ∀ key : List Char, IsKey key → c ∈ key → c.isAlpha = true := fun key hkey hmem =>
    all_eq_true.mp hkey.isAlpha c hmem
  rw [lineOf, mem_append, mem_cons] at hc
  obtain hc | rfl | hc := hc
  · exact .inl (hkey _ hword hc)
  · exact .inr (.inr (by decide))
  · obtain hc | ⟨p, hp, hc⟩ := mem_joinWith hc
    · obtain rfl := mem_singleton.mp hc
      exact .inr (.inr (by decide))
    · obtain ⟨a, ha, rfl⟩ := mem_map.mp hp
      rw [pairText, mem_append, mem_cons] at hc
      obtain hc | rfl | hc := hc
      · exact .inl (hkey _ (h.isKey a ha) hc)
      · exact .inr (.inr (by decide))
      · obtain rfl | hc := mem_intToString hc
        · exact .inr (.inr (by decide))
        · exact .inr (.inl hc)

theorem getLast?_joinWith (hne : ps ≠ []) (h : ∀ p ∈ ps, ∃ c, p.getLast? = some c ∧ isBlank c = false) :
    ∃ c, (joinWith sep ps).getLast? = some c ∧ isBlank c = false := by
  fun_induction joinWith with
  | case1 => exact absurd rfl hne
  | case2 p => exact h p mem_cons_self
  | case3 p ps hps ih =>
    obtain ⟨c, hlast, hc⟩ := ih (fun hnil => hps (by rw [hnil])) fun q hq => h q (.tail _ hq)
    exact ⟨c, by rw [getLast?_append, hlast]; rfl, hc⟩

theorem getLast?_pairText (a : String × Int) : ∃ c, (pairText a).getLast? = some c ∧ isBlank c = false := by
  have hne : (toString a.2).toList ≠ [] := intToString_ne_nil a.2
  refine ⟨(toString a.2).toList.getLast hne, ?_, isBlank_of_mem_intToString (getLast_mem hne)⟩
  rw [pairText, getLast?_append, getLast?_cons, getLast?_eq_some_getLast hne]
  rfl

theorem strip_append_joinWith (hu : u.head?.any (!isBlank ·) = true) (hne : as ≠ []) :
    strip (u ++ joinWith [' '] (as.map pairText)) = u ++ joinWith [' '] (as.map pairText) := by
  obtain ⟨c, hlast, hc⟩ : ∃ c, (joinWith [' '] (as.map pairText)).getLast? = some c ∧ isBlank c = false := by
    apply getLast?_joinWith (by simpa using hne)
    intro p hp
    obtain ⟨a, -, rfl⟩ := mem_map.mp hp
    exact getLast?_pairText a
  apply strip_eq_self
  · cases u with
    | nil => cases hu
    | cons d u => exact hu
  · rw [getLast?_append, hlast]
    simp [hc]

theorem strip_lineOf {word : String} (hword : IsKey word.toList) (hne : as ≠ []) :
    strip (lineOf word as) = lineOf word as := by
  have hhead : (word.toList ++ [' ']).head?.any (!isBlank ·) = true := by
    have halpha : word.toList.all Char.isAlpha = true := hword.isAlpha
    cases hcs : word.toList with
    | nil => exact absurd hcs hword.ne_nil
    | cons c cs =>
      rw [hcs, all_cons, Bool.and_eq_true] at halpha
      simp [isBlank_of_isAlpha halpha.1]
  have happend : lineOf word as = word.toList ++ [' '] ++ joinWith [' '] (as.map pairText) := by simp [lineOf]
  rw [happend]
  exact strip_append_joinWith hhead hne

def IsOther (line : List Char) : Prop :=
  '\n' ∉ line ∧ '\r' ∉ line ∧ ∀ word ∈ ["common ", "char ", "kerning "], ¬ word.toList <+: strip line

instance (line : List Char) : Decidable (IsOther line) := inferInstanceAs (Decidable (_ ∧ _ ∧ _))

/-- A line of a file: about a record, with its attributes in some order, or about something else. -/
inductive Row where
  | record (r : Record) (as : List (String × Int))
  | other (line : List Char)
  deriving Repr, DecidableEq

variable {row : Row} {rows : List Row}

def Row.line : Row → List Char
  | .record r as => lineOf r.word as
  | .other line => line

/-- The attributes of a row are those of its record, in any order, with numbers that can be read back. -/
def Row.Sound : Row → Prop
  | .record r as => as.Perm r.attributes ∧ ∀ a ∈ as, Fits a.2
  | .other line => IsOther line

instance : (row : Row) → Decidable row.Sound
  | .record _ _ => inferInstanceAs (Decidable (_ ∧ _))
  | .other line => inferInstanceAs (Decidable (IsOther line))

def Row.record? : Row → Option Record
  | .record r _ => some r
  | .other _ => none

def recordsOf (rows : List Row) : List Record := rows.filterMap Row.record?

def textOf (rows : List Row) : List Char := joinLines (rows.map Row.line)

theorem Row.no_breaks (h : row.Sound) : '\n' ∉ row.line ∧ '\r' ∉ row.line := by
  cases row with
  | other line => exact ⟨h.1, h.2.1⟩
  | record r as =>
    have hline : ∀ {c : Char}, c ∈ lineOf r.word as → _ := mem_lineOf r.isKey_word (r.clear_attributes.perm h.1)
    exact ⟨fun hmem => absurd (hline hmem) (by decide), fun hmem => absurd (hline hmem) (by decide)⟩

theorem linesOf_textOf (hne : rows ≠ []) (h : ∀ row ∈ rows, row.Sound) :
    linesOf (textOf rows) = rows.map Row.line := by
  have hreturn : '\r' ∉ textOf rows := by
    intro hmem
    obtain hmem | ⟨line, hline, hmem⟩ := mem_joinWith hmem
    · exact absurd hmem (by decide)
    · obtain ⟨row, hrow, rfl⟩ := mem_map.mp hline
      exact (Row.no_breaks (h row hrow)).2 hmem
  rw [linesOf, unifyBreaks_eq_self hreturn]
  refine splitLines_joinLines (by simpa using hne) fun line hline => ?_
  obtain ⟨row, hrow, rfl⟩ := mem_map.mp hline
  exact (Row.no_breaks (h row hrow)).1

/-! ### Reading -/

def Record.glyph? : Record → Option Glyph
  | .glyph g => some g
  | .kerning _ _ => none
  | .common _ _ _ _ => none

def Record.kerning? : Record → Option ((Int × Int) × Int)
  | .glyph _ => none
  | .kerning pair amount => some (pair, amount)
  | .common _ _ _ _ => none

def Record.measures? : Record → Option (Int × Int × Int × Int)
  | .glyph _ => none
  | .kerning _ _ => none
  | .common lineHeight base pageWidth pageHeight => some (lineHeight, base, pageWidth, pageHeight)

def Bitmap.measures (b : Bitmap) : Int × Int × Int × Int := (b.lineHeight, b.base, b.pageWidth, b.pageHeight)

def Bitmap.tell (b : Bitmap) : Record → Bitmap
  | .glyph g => b.addGlyph g
  | .kerning pair amount => b.addKerning pair amount
  | .common lineHeight base pageWidth pageHeight =>
    { b with lineHeight := lineHeight, base := base, pageWidth := pageWidth, pageHeight := pageHeight }

theorem Bitmap.readLine_lineOf (loads : String → Bool) (b : Bitmap) (hperm : as.Perm r.attributes)
    (hfits : ∀ a ∈ as, Fits a.2) :
    b.readLine loads (strip (lineOf r.word as)) = b.tell r := by
  have hne : as ≠ [] := by
    rintro rfl
    cases r <;> cases hperm.length_eq
  have hclear : Clear as := r.clear_attributes.perm hperm
  have hint : ∀ a ∈ r.attributes, intOf (lineOf r.word as) a.1 = a.2 := fun a ha =>
    intOf_lineOf r.isKey_word.no_sign hclear (hperm.mem_iff.mpr ha) (hfits a (hperm.mem_iff.mpr ha))
  rw [strip_lineOf r.isKey_word hne]
  cases r with
  | glyph g =>
    have hread : b.readLine loads (lineOf "char" as) = b.addGlyph (.ofLine (lineOf "char" as)) := rfl
    simp only [Record.attributes, forall_mem_cons, Record.word] at hint
    simp only [Record.word, hread, Glyph.ofLine, tell, hint]
  | kerning pair amount =>
    have hread : b.readLine loads (lineOf "kerning" as) =
      b.addKerning (intOf (lineOf "kerning" as) "first", intOf (lineOf "kerning" as) "second")
        (intOf (lineOf "kerning" as) "amount") := rfl
    simp only [Record.attributes, forall_mem_cons, Record.word] at hint
    simp only [Record.word, hread, tell, hint]
  | common lineHeight base pageWidth pageHeight =>
    have hread : b.readLine loads (lineOf "common" as) = b.readCommon (lineOf "common" as) := rfl
    simp only [Record.attributes, forall_mem_cons, Record.word] at hint
    simp only [Record.word, hread, readCommon, tell, hint]

/-- A font holds what records say: the last of them that gives measures gives those of the font. -/
structure Bitmap.Holds (b : Bitmap) (rs : List Record) : Prop where
  glyphs : b.glyphs = rs.filterMap Record.glyph?
  kernings : b.kernings = rs.filterMap Record.kerning?
  measures : b.measures = (rs.filterMap Record.measures?).getLast?.getD (0, 0, 0, 0)

structure Distinct (rs : List Record) : Prop where
  ids : ((rs.filterMap Record.glyph?).map Glyph.id).Nodup
  pairs : ((rs.filterMap Record.kerning?).map Prod.fst).Nodup

theorem Distinct.of_append {ss : List Record} (h : Distinct (rs ++ ss)) : Distinct rs where
  ids := h.ids.sublist (((sublist_append_left rs ss).filterMap _).map _)
  pairs := h.pairs.sublist (((sublist_append_left rs ss).filterMap _).map _)

theorem filterMap_concat (f : Record → Option α) (rs : List Record) (r : Record) :
    (rs ++ [r]).filterMap f = rs.filterMap f ++ (f r).toList := by
  rw [filterMap_append]
  cases h : f r <;> simp [h]

theorem filterMap_concat_of_none {f : Record → Option α} (h : f r = none) (rs : List Record) :
    (rs ++ [r]).filterMap f = rs.filterMap f := by
  rw [filterMap_concat, h, Option.toList_none, append_nil]

theorem any_eq_false_of_nodup {β : Type} [BEq β] [LawfulBEq β] {f : α → β} {l : List α} {a : α}
    (h : ((l ++ [a]).map f).Nodup) : l.any (f · == f a) = false := by
  rw [map_append, nodup_append] at h
  rw [any_eq_false]
  intro b hb
  simpa using h.2.2 (f b) (mem_map_of_mem hb) (f a) mem_cons_self

theorem Bitmap.Holds.tell (h : b.Holds rs) (hdistinct : Distinct (rs ++ [r])) :
    (b.tell r).Holds (rs ++ [r]) := by
  obtain ⟨hglyphs, hkernings, hmeasures⟩ := h
  obtain ⟨hids, hpairs⟩ := hdistinct
  rw [filterMap_concat, ← hglyphs] at hids
  rw [filterMap_concat, ← hkernings] at hpairs
  cases r with
  | glyph g =>
    have hnew : b.glyphs.any (·.id == g.id) = false := any_eq_false_of_nodup hids
    have htell : (b.tell (.glyph g)).glyphs = b.glyphs ++ [g] := by
      simp only [Bitmap.tell, addGlyph, hnew]
      rfl
    constructor
    · rw [filterMap_concat, ← hglyphs, htell]
      rfl
    · rw [filterMap_concat_of_none rfl]
      exact hkernings
    · rw [filterMap_concat_of_none rfl]
      exact hmeasures
  | kerning pair amount =>
    have hnew : b.kernings.any (·.1 == pair) = false := any_eq_false_of_nodup hpairs
    have htell : (b.tell (.kerning pair amount)).kernings = b.kernings ++ [(pair, amount)] := by
      simp only [Bitmap.tell, addKerning, hnew]
      rfl
    constructor
    · rw [filterMap_concat_of_none rfl]
      exact hglyphs
    · rw [filterMap_concat, ← hkernings, htell]
      rfl
    · rw [filterMap_concat_of_none rfl]
      exact hmeasures
  | common lineHeight base pageWidth pageHeight =>
    constructor
    · rw [filterMap_concat_of_none rfl]
      exact hglyphs
    · rw [filterMap_concat_of_none rfl]
      exact hkernings
    · rw [filterMap_concat, Record.measures?, Option.toList_some, getLast?_concat]
      rfl

theorem Bitmap.Holds.readLine_other (h : b.Holds rs) (loads : String → Bool) {line : List Char}
    (hline : IsOther line) : (b.readLine loads (strip line)).Holds rs := by
  obtain ⟨-, -, hword⟩ := hline
  simp only [forall_mem_cons, ← isPrefixOf_iff_prefix] at hword
  obtain ⟨hcommon, hchar, hkerning, -⟩ := hword
  unfold readLine
  dsimp only
  -- what is left are lines about the face and about pages, and those that say nothing
  rw [if_neg hcommon, if_neg hchar, if_neg hkerning]
  split
  · exact ⟨h.glyphs, h.kernings, h.measures⟩
  · split
    · unfold readPage
      dsimp only
      split
      · exact h
      · exact h
      · split
        · exact ⟨h.glyphs, h.kernings, h.measures⟩
        · exact h
    · exact h

theorem Bitmap.Holds.readLine (h : b.Holds rs) (loads : String → Bool)
    (hrow : row.Sound) (hdistinct : Distinct (rs ++ row.record?.toList)) :
    (b.readLine loads (strip row.line)).Holds (rs ++ row.record?.toList) := by
  cases row with
  | record r as =>
    rw [Row.line, readLine_lineOf loads b hrow.1 hrow.2]
    exact h.tell hdistinct
  | other line =>
    rw [Row.record?, Option.toList_none, append_nil]
    exact h.readLine_other loads hrow

theorem Bitmap.Holds.readLines (loads : String → Bool) (hrows : ∀ row ∈ rows, row.Sound) :
    ∀ {b : Bitmap} {rs : List Record}, b.Holds rs → Distinct (rs ++ recordsOf rows) →
      ((rows.map Row.line).foldl (fun b line => b.readLine loads (strip line)) b).Holds (rs ++ recordsOf rows) := by
  induction rows with
  | nil =>
    intro b rs h hdistinct
    simpa [recordsOf] using h
  | cons row rows ih =>
    intro b rs h hdistinct
    obtain ⟨hrow, hrows⟩ := forall_mem_cons.mp hrows
    have hrecords : rs ++ recordsOf (row :: rows) = rs ++ row.record?.toList ++ recordsOf rows := by
      rw [recordsOf, filterMap_cons, append_assoc]
      cases row <;> rfl
    rw [hrecords] at hdistinct ⊢
    exact ih hrows (h.readLine loads hrow hdistinct.of_append) hdistinct

/-- **Reading gives back what was written.** From lines about characters, kernings and measures, with attributes in any
    order and other lines between them, the characters and the kernings are read as they were written, and the measures
    as they were last written. -/
theorem read_textOf (files : List String) (rows : List Row) (hrows : ∀ row ∈ rows, row.Sound)
    (hids : (((recordsOf rows).filterMap Record.glyph?).map Glyph.id).Nodup)
    (hpairs : (((recordsOf rows).filterMap Record.kerning?).map Prod.fst).Nodup) :
    (Bitmap.read files (textOf rows)).glyphs = (recordsOf rows).filterMap Record.glyph? ∧
      (Bitmap.read files (textOf rows)).kernings = (recordsOf rows).filterMap Record.kerning? ∧
      (Bitmap.read files (textOf rows)).measures =
        ((recordsOf rows).filterMap Record.measures?).getLast?.getD (0, 0, 0, 0) := by
  have hempty : ({} : Bitmap).Holds [] := ⟨rfl, rfl, rfl⟩
  cases rows with
  | nil => exact ⟨rfl, rfl, rfl⟩
  | cons row rows =>
    have h := hempty.readLines (loadsFrom files) hrows ⟨hids, hpairs⟩
    rw [← linesOf_textOf (List.cons_ne_nil _ _) hrows] at h
    exact ⟨h.glyphs, h.kernings, h.measures⟩

def sampleRows : List Row :=
  [.other "info face=\"common char id=7\" size=32".toList,
    .record (.common 36 28 256 128) [("scaleH", 128), ("base", 28), ("scaleW", 256), ("lineHeight", 36)],
    .other "chars count=2".toList,
    .record (.glyph { id := 65, x := -1, y := 2, width := 30, height := 40, xOffset := 5, advance := 70 })
      [("chnl", 0), ("xadvance", 70), ("xoffset", 5), ("yoffset", 0), ("height", 40), ("width", 30), ("page", 0),
        ("y", 2), ("x", -1), ("id", 65)],
    .other " ".toList,
    .other "kernings count=1".toList,
    .record (.kerning (65, 66) (-2)) [("amount", -2), ("second", 66), ("first", 65)]]

theorem read_textOf_sampleRows :
    (Bitmap.read ["page.png"] (textOf sampleRows)).glyphs = (recordsOf sampleRows).filterMap Record.glyph? ∧
      (Bitmap.read ["page.png"] (textOf sampleRows)).kernings = [((65, 66), -2)] ∧
      (Bitmap.read ["page.png"] (textOf sampleRows)).measures = (36, 28, 256, 128) :=
  read_textOf ["page.png"] sampleRows (by decide) (by decide) (by decide)

end WatchFace.Font
