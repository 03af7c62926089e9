import WatchFace.Text.Search

/-!
# Line breaks in files

A line of a file ends with a line feed, a carriage return, or both.
-/

namespace WatchFace.Text

def unifyBreaks : List Char → List Char
  | [] => []
  | '\r' :: '\n' :: cs => '\n' :: unifyBreaks cs
  | '\r' :: cs => '\n' :: unifyBreaks cs
  | c :: cs => c :: unifyBreaks cs

def linesOf (cs : List Char) : List (List Char) := splitLines (unifyBreaks cs)

theorem unifyBreaks_eq_self {cs : List Char} (h : '\r' ∉ cs) : unifyBreaks cs = cs := by
  fun_induction unifyBreaks cs with
  | case1 => rfl
  | case2 => simp at h
  | case3 => simp at h
  | case4 c cs _ _ ih =>
    rw [ih fun m => h (List.mem_cons_of_mem _ m)]

def ofBytes? (bytes : ByteArray) : Option (List Char) := (String.fromUTF8? bytes).map String.toList

end WatchFace.Text
