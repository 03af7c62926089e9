import WatchFace.Text.Blank
import WatchFace.Text.Search

/-!
# Indenting scripts

By the words at the starts of its lines: two spaces for each block that is open.
-/

namespace WatchFace.Lua

namespace Format

def opensBlock (word : List Char) : Bool :=
  ["function", "if", "for", "while", "do", "repeat", "else", "elseif"].contains (String.ofList word)

def closesBlock (word : List Char) : Bool :=
  ["end", "until", "else", "elseif"].contains (String.ofList word)

def firstWord (line : List Char) : List Char := line.takeWhile (!Text.isBlank ·)

def indent (level : Nat) (line : List Char) : List Char :=
  if line.isEmpty then [] else List.replicate (2 * level) ' ' ++ line

def levelOf (level : Nat) (word : List Char) : Nat := if closesBlock word then level - 1 else level

def levelAfter (level : Nat) (word : List Char) : Nat :=
  if opensBlock word then levelOf level word + 1 else levelOf level word

def formatLines (level : Nat) : List (List Char) → List (List Char)
  | [] => []
  | line :: rest =>
    let stripped := Text.strip line
    let word := firstWord stripped
    indent (levelOf level word) stripped :: formatLines (levelAfter level word) rest

end Format

def format (code : List Char) : List Char :=
  Text.joinLines (Format.formatLines 0 (Text.splitLines code))

end WatchFace.Lua
