/-!
# Blank characters
-/

namespace WatchFace.Text

/-- White space: the ASCII blanks and information separators, the next-line and no-break
    characters, and the Unicode space separators. -/
def isBlank (c : Char) : Bool :=
  let n := c.toNat
  (9 ≤ n && n ≤ 13) || (28 ≤ n && n ≤ 32) || n == 0x85 || n == 0xA0 || n == 0x1680 ||
    (0x2000 ≤ n && n ≤ 0x200A) || n == 0x2028 || n == 0x2029 || n == 0x202F || n == 0x205F ||
    n == 0x3000

def stripLeft (cs : List Char) : List Char := cs.dropWhile isBlank

def stripRight (cs : List Char) : List Char := (cs.reverse.dropWhile isBlank).reverse

def strip (cs : List Char) : List Char := stripRight (stripLeft cs)

def wordsFrom (word : List Char) : List Char → List (List Char)
  | [] => if word.isEmpty then [] else [word.reverse]
  | c :: cs =>
    if isBlank c then
      if word.isEmpty then wordsFrom [] cs else word.reverse :: wordsFrom [] cs
    else wordsFrom (c :: word) cs

def words (cs : List Char) : List (List Char) := wordsFrom [] cs

theorem stripLeft_of_not_blank {c : Char} (cs : List Char) (h : isBlank c = false) :
    stripLeft (c :: cs) = c :: cs := by
  simp [stripLeft, List.dropWhile, h]

theorem strip_eq_self {cs : List Char} (hhead : cs.head?.all (!isBlank ·) = true)
    (hlast : cs.getLast?.all (!isBlank ·) = true) : strip cs = cs := by
  have hdrop : ∀ ds : List Char, ds.head?.all (!isBlank ·) = true → ds.dropWhile isBlank = ds := by
    intro ds hds
    cases ds with
    | nil => rfl
    | cons d ds => rw [List.dropWhile_cons_of_neg (by simpa using hds)]
  rw [strip, stripLeft, hdrop cs hhead, stripRight, hdrop _ (by rwa [List.head?_reverse]), List.reverse_reverse]

end WatchFace.Text
