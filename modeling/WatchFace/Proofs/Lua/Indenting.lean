import WatchFace.Proofs.Lua.Hidden
import WatchFace.Proofs.Lua.Highlights
import WatchFace.Script.View

/-!
# Indented scripts

A line gets its indentation from the words at the starts of the lines before it and from its own. Nothing but the blanks
around a line changes.
-/

namespace WatchFace.Lua.Format

open Text List

variable {ls ms : List (List Char)}

/-! ### Lines -/

theorem strip_indent (level : Nat) (l : List Char) : strip (indent level (strip l)) = strip l := by
  unfold indent
  split
  case isTrue hnil =>
    rw [List.isEmpty_iff.mp hnil]
    rfl
  case isFalse =>
    have hspaces : ∀ c ∈ List.replicate (2 * level) ' ', isBlank c = true := by
      intro c hc
      rw [eq_of_mem_replicate hc]
      rfl
    rw [strip, stripLeft, dropWhile_append_of_pos hspaces]
    exact strip_strip l

theorem newline_not_mem_formatLines (level : Nat) (h : ∀ l ∈ ls, '\n' ∉ l) :
    ∀ m ∈ formatLines level ls, '\n' ∉ m := by
  induction ls generalizing level with
  | nil => exact forall_mem_nil _
  | cons l ls ih =>
    obtain ⟨hl, hls⟩ := forall_mem_cons.mp h
    refine forall_mem_cons.mpr ⟨fun hmem => ?_, ih _ hls⟩
    unfold indent at hmem
    split at hmem
    · exact not_mem_nil hmem
    · obtain hmem | hmem := mem_append.mp hmem
      · cases eq_of_mem_replicate hmem
      · exact hl ((strip_isInfix l).subset hmem)

theorem map_strip_formatLines (level : Nat) (ls : List (List Char)) :
    (formatLines level ls).map strip = ls.map strip := by
  induction ls generalizing level with
  | nil => rfl
  | cons l ls ih => rw [formatLines, map_cons, map_cons, strip_indent, ih]

theorem formatLines_congr (h : ms.map strip = ls.map strip) (level : Nat) :
    formatLines level ms = formatLines level ls := by
  induction ls generalizing ms level with
  | nil => rw [map_eq_nil_iff.mp h]
  | cons l ls ih =>
    obtain ⟨m, ms, rfl, hm, hms⟩ := map_eq_cons_iff.mp h
    rw [formatLines, formatLines, hm, ih hms]

theorem splitLines_format (code : List Char) : splitLines (format code) = formatLines 0 (splitLines code) := by
  refine splitLines_joinLines ?_ (newline_not_mem_formatLines 0 (not_mem_splitLines code))
  cases h : splitLines code with
  | nil => exact absurd h (splitLines_ne_nil code)
  | cons l ls => exact cons_ne_nil _ _

/-! ### Blocks -/

/-- What the first word of a line says of blocks. -/
inductive Role where
  | opener
  | middle
  | closer
  | plain
  deriving Repr, DecidableEq

def Role.ofWord (word : String) : Role :=
  if ["function", "if", "for", "while", "do", "repeat"].contains word then .opener
  else if ["else", "elseif"].contains word then .middle
  else if ["end", "until"].contains word then .closer
  else .plain

def roleOf (line : List Char) : Role := .ofWord (String.ofList (firstWord (strip line)))

/-- The level at which a line of a role stands, and the one that it leaves. -/
def Role.levels (level : Nat) : Role → Nat × Nat
  | .opener => (level, level + 1)
  | .middle => (level - 1, level - 1 + 1)
  | .closer => (level - 1, level - 1)
  | .plain => (level, level)

/-- How lines that nest are laid out: a block, with the lines that divide or close it, stands at the level of its
    opener, and what is inside one level deeper. -/
inductive Laid : Nat → List (List Char) → List (List Char) → Prop
  | nil {d : Nat} : Laid d [] []
  | plain {d : Nat} {l : List Char} {ls ms : List (List Char)} (hl : roleOf l = .plain) (h : Laid d ls ms) :
      Laid d (l :: ls) (indent d (strip l) :: ms)
  | middle {d : Nat} {l : List Char} {ls ms : List (List Char)} (hl : roleOf l = .middle) (h : Laid (d + 1) ls ms) :
      Laid (d + 1) (l :: ls) (indent d (strip l) :: ms)
  | block {d : Nat} {o c : List Char} {body inner ls ms : List (List Char)} (ho : roleOf o = .opener)
      (hc : roleOf c = .closer) (hbody : Laid (d + 1) body inner) (h : Laid d ls ms) :
      Laid d (o :: (body ++ c :: ls)) (indent d (strip o) :: (inner ++ indent d (strip c) :: ms))

theorem levels_roleOf (line : List Char) (level : Nat) : (roleOf line).levels level =
    (levelOf level (firstWord (strip line)), levelAfter level (firstWord (strip line))) := by
  by_cases h : String.ofList (firstWord (strip line)) ∈
      ["function", "if", "for", "while", "do", "repeat", "else", "elseif", "end", "until"]
  · simp only [mem_cons, not_mem_nil, or_false] at h
    rcases h with h | h | h | h | h | h | h | h | h | h <;>
      simp [roleOf, Role.ofWord, Role.levels, levelAfter, levelOf, opensBlock, closesBlock, h]
  · simp only [mem_cons, not_mem_nil, or_false, not_or] at h
    simp [roleOf, Role.ofWord, Role.levels, levelAfter, levelOf, opensBlock, closesBlock, h]

theorem formatLines_cons_of_role {l : List Char} {role : Role} (hl : roleOf l = role) (d : Nat) (ls : List (List Char)) :
    formatLines d (l :: ls) = indent (role.levels d).1 (strip l) :: formatLines (role.levels d).2 ls := by
  rw [← hl, levels_roleOf, formatLines]

/-- **Lines that nest are laid out at their level**, and leave the level to what follows. -/
theorem formatLines_of_laid {d : Nat} (h : Laid d ls ms) (rest : List (List Char)) :
    formatLines d (ls ++ rest) = ms ++ formatLines d rest := by
  -- over the nesting: a block is passed as a whole, so that its closer meets the level that its opener left
  induction h generalizing rest with
  | nil => rfl
  | plain hl h ih | middle hl h ih =>
    rw [cons_append, formatLines_cons_of_role hl, cons_append, ← ih]
    rfl
  | block ho hc hbody h ihbody ih =>
    rw [cons_append, append_assoc, formatLines_cons_of_role ho, Role.levels, ihbody, cons_append,
      formatLines_cons_of_role hc, cons_append, append_assoc, cons_append, ← ih]
    rfl

end WatchFace.Lua.Format

namespace WatchFace.Script.View

open Text Lua Lua.Format

theorem text_format (v : View) : v.format.1.text =
    if (strip v.text.toList).isEmpty then v.text else String.ofList (Lua.format v.text.toList) := by
  unfold format
  split <;> rfl

/-- **Indenting changes the blanks around lines only.** Line for line, the script has the same between them, and to
    indent it again changes nothing. -/
theorem text_format_format (v : View) :
    v.format.1.format.1.text = v.format.1.text ∧
      (splitLines v.format.1.text.toList).length = (splitLines v.text.toList).length ∧
      (splitLines v.format.1.text.toList).map strip = (splitLines v.text.toList).map strip := by
  by_cases hblank : (strip v.text.toList).isEmpty = true
  · have hsame : v.format = (v, []) := by rw [format, if_pos hblank]
    rw [hsame, hsame]
    exact ⟨rfl, rfl, rfl⟩
  · have htext := v.text_format
    rw [if_neg hblank] at htext
    have hlines : (splitLines (Lua.format v.text.toList)).map strip = (splitLines v.text.toList).map strip := by
      rw [splitLines_format, map_strip_formatLines]
    refine ⟨?_, ?_, ?_⟩
    · have hagain : Lua.format (Lua.format v.text.toList) = Lua.format v.text.toList :=
        congrArg joinLines (formatLines_congr hlines 0)
      rw [text_format, htext, String.toList_ofList, hagain, ite_self]
    · rw [htext, String.toList_ofList, splitLines_format]
      simpa using congrArg List.length (map_strip_formatLines 0 (splitLines v.text.toList))
    · rw [htext, String.toList_ofList, hlines]

/-- **Blocks are aligned.** A script whose lines nest is laid out as they do; a blank script stays as it is. -/
theorem splitLines_text_format {v : View} {ms : List (List Char)} (h : Laid 0 (splitLines v.text.toList) ms) :
    if (strip v.text.toList).isEmpty then v.format.1.text = v.text
    else splitLines v.format.1.text.toList = ms := by
  rw [text_format]
  split
  · rfl
  · have hformat := formatLines_of_laid h []
    rw [List.append_nil, formatLines, List.append_nil] at hformat
    rw [String.toList_ofList, splitLines_format, hformat]

theorem splitLines_text_format_branches :
    let v : View := { text := "if x then\n y()\n  else\n\nend" }
    splitLines v.format.1.text.toList = ["if x then", "  y()", "else", "", "end"].map String.toList := by
  have hlines : splitLines "if x then\n y()\n  else\n\nend".toList =
      ["if x then", " y()", "  else", "", "end"].map String.toList := by decide +kernel
  have hinner : Laid 1 ([" y()", "  else", ""].map String.toList) (["  y()", "else", ""].map String.toList) :=
    .plain (by decide +kernel) (.middle (by decide +kernel) (.plain (by decide +kernel) .nil))
  refine splitLines_text_format (v := { text := "if x then\n y()\n  else\n\nend" }) ?_
  rw [hlines]
  exact .block (c := "end".toList) (by decide +kernel) (by decide +kernel) hinner .nil

end WatchFace.Script.View
