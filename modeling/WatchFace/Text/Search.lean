/-!
# Searching, cutting and replacing

Texts are lists of characters; positions count characters from zero.
-/

namespace WatchFace.Text

def findSub? (pat : List Char) : List Char → Option Nat
  | [] => if pat.isEmpty then some 0 else none
  | c :: cs => if pat.isPrefixOf (c :: cs) then some 0 else (findSub? pat cs).map (· + 1)

/-- The pieces of a text between the occurrences of a non-empty separator `s :: sep`; `skip` counts
    the characters of the current occurrence still to be passed over, `piece` holds the characters
    of the current piece, last first. -/
def splitOnGo (s : Char) (sep : List Char) (skip : Nat) (piece : List Char) :
    List Char → List (List Char)
  | [] => [piece.reverse]
  | c :: cs =>
    match skip with
    | k + 1 => splitOnGo s sep k piece cs
    | 0 =>
      if (s :: sep).isPrefixOf (c :: cs) then piece.reverse :: splitOnGo s sep sep.length [] cs
      else splitOnGo s sep 0 (c :: piece) cs

def splitOn (sep cs : List Char) : List (List Char) :=
  match sep with
  | [] => [cs]
  | s :: sep => splitOnGo s sep 0 [] cs

def joinWith (sep : List Char) : List (List Char) → List Char
  | [] => []
  | [p] => p
  | p :: ps => p ++ sep ++ joinWith sep ps

def replaceAll (old new cs : List Char) : List Char := joinWith new (splitOn old cs)

def splitLines : List Char → List (List Char)
  | [] => [[]]
  | c :: cs =>
    if c = '\n' then [] :: splitLines cs
    else
      match splitLines cs with
      | [] => [[c]]
      | l :: ls => (c :: l) :: ls

def joinLines (ls : List (List Char)) : List Char := joinWith ['\n'] ls

theorem splitLines_append_cons {l : List Char} (h : '\n' ∉ l) (cs : List Char) :
    splitLines (l ++ '\n' :: cs) = l :: splitLines cs := by
  induction l with
  | nil => simp [splitLines]
  | cons c l ih =>
    have hc : c ≠ '\n' := fun hc => h (hc ▸ List.mem_cons_self)
    rw [List.cons_append, splitLines, if_neg hc, ih fun m => h (List.mem_cons_of_mem _ m)]

theorem splitLines_eq_singleton {l : List Char} (h : '\n' ∉ l) : splitLines l = [l] := by
  induction l with
  | nil => rfl
  | cons c l ih =>
    have hc : c ≠ '\n' := fun hc => h (hc ▸ List.mem_cons_self)
    rw [splitLines, if_neg hc, ih fun m => h (List.mem_cons_of_mem _ m)]

/-- Induction along the lines of a text: over a line with its break, and over the last line. -/
@[elab_as_elim]
theorem line_induction {motive : List Char → Prop} (last : ∀ l, '\n' ∉ l → motive l)
    (line : ∀ l cs, '\n' ∉ l → motive cs → motive (l ++ '\n' :: cs)) (cs : List Char) : motive cs := by
  -- `l` is what has been read of the current line
  suffices h : ∀ l, '\n' ∉ l → motive (l ++ cs) from h [] List.not_mem_nil
  induction cs with
  | nil =>
    intro l hl
    rw [List.append_nil]
    exact last l hl
  | cons c cs ih =>
    intro l hl
    by_cases hc : c = '\n'
    · rw [hc]
      exact line l cs hl (ih [] List.not_mem_nil)
    · have hnext := ih (l ++ [c]) (by simp [hl, Ne.symm hc])
      rwa [List.append_assoc, List.singleton_append] at hnext

theorem splitLines_ne_nil (cs : List Char) : splitLines cs ≠ [] := by
  induction cs using line_induction with
  | last l hl => simp [splitLines_eq_singleton hl]
  | line l cs hl => simp [splitLines_append_cons hl]

theorem not_mem_splitLines (cs : List Char) : ∀ l ∈ splitLines cs, '\n' ∉ l := by
  induction cs using line_induction with
  | last l hl =>
    rw [splitLines_eq_singleton hl]
    exact List.forall_mem_singleton.mpr hl
  | line l cs hl ih =>
    rw [splitLines_append_cons hl]
    exact List.forall_mem_cons.mpr ⟨hl, ih⟩

theorem joinLines_cons {lines : List (List Char)} (hne : lines ≠ []) (line : List Char) :
    joinLines (line :: lines) = line ++ '\n' :: joinLines lines := by
  cases lines with
  | nil => exact absurd rfl hne
  | cons l ls => exact List.append_assoc ..

theorem joinLines_splitLines (cs : List Char) : joinLines (splitLines cs) = cs := by
  induction cs using line_induction with
  | last l hl =>
    rw [splitLines_eq_singleton hl]
    rfl
  | line l cs hl ih => rw [splitLines_append_cons hl, joinLines_cons (splitLines_ne_nil cs), ih]

theorem splitLines_joinLines {ls : List (List Char)} (hne : ls ≠ []) (h : ∀ l ∈ ls, '\n' ∉ l) :
    splitLines (joinLines ls) = ls := by
  induction ls with
  | nil => exact absurd rfl hne
  | cons l ls ih =>
    obtain ⟨hl, hls⟩ := List.forall_mem_cons.mp h
    by_cases hnil : ls = []
    · rw [hnil]
      exact splitLines_eq_singleton hl
    · rw [joinLines_cons hnil, splitLines_append_cons hl, ih hnil hls]

example : splitOn ['a', 'b'] "xabyabab".toList = ["x".toList, "y".toList, [], []] := by decide
example : replaceAll ['n', 'n'] ['-'] "nnnan".toList = "-nan".toList := by decide

end WatchFace.Text
