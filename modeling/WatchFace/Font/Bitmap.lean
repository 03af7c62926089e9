import WatchFace.Number.Reading
import WatchFace.Text.Breaks

/-!
# Bitmap fonts

A bitmap font is described by lines that start with a word, followed by attributes of the form `key=value`.
-/

namespace WatchFace.Font

def pathParts (path : String) : List String :=
  (Text.splitOn ['/'] path.toList).map String.ofList

def isHere (part : String) : Bool := part.isEmpty || part == "."

def isStep (part : String) : Bool := isHere part || part == ".."

def leadsTo (files : List String) (path : String) : Bool :=
  let parts := pathParts path
  if parts.all isStep then true
  else if path.startsWith "/" then false
  else
    match parts.dropWhile isHere with
    | [name] => files.contains name
    | _ => false

def fileName (path : String) : String := (pathParts path).getLastD ""

/-- A file name without its ending; dots at the start begin no ending. -/
def stem (name : String) : String :=
  let cs := name.toList
  let ending := cs.reverse.takeWhile (· != '.')
  let rest := (cs.reverse.drop (ending.length + 1)).reverse
  if ending.length < cs.length && rest.any (· != '.') then String.ofList rest else name

/-- A character of a font: the part of a page with its picture, how far that is moved, and how far it moves the pen. -/
structure Glyph where
  id : Int := 0
  x : Int := 0
  y : Int := 0
  width : Int := 0
  height : Int := 0
  xOffset : Int := 0
  yOffset : Int := 0
  advance : Int := 0
  page : Int := 0
  channel : Int := 0
  deriving Repr, DecidableEq, Inhabited

/-- A bitmap font. `pages` are the ids of the pages that were found; a kerning tells how far the second of two
    characters moves after the first. -/
structure Bitmap where
  face : String := ""
  size : Int := 0
  bold : Bool := false
  italic : Bool := false
  lineHeight : Int := 0
  base : Int := 0
  pageWidth : Int := 0
  pageHeight : Int := 0
  pages : List Int := []
  glyphs : List Glyph := []
  kernings : List ((Int × Int) × Int) := []
  deriving Repr, DecidableEq, Inhabited

/-- The value at the start of a text: what is between quotes, or all up to the next blank. -/
def valueAt? : List Char → Option (List Char)
  | '"' :: cs =>
    if cs.contains '"' then some (cs.takeWhile (· != '"'))
    else some ('"' :: cs.takeWhile (!Text.isBlank ·))
  | cs =>
    match cs.takeWhile (!Text.isBlank ·) with
    | [] => none
    | v => some v

def valueOf? (key : List Char) : List Char → Option (List Char)
  | [] => none
  | c :: cs =>
    if (key ++ ['=']).isPrefixOf (c :: cs) then
      match valueAt? ((c :: cs).drop (key.length + 1)) with
      | some v => some v
      | none => valueOf? key cs
    else valueOf? key cs

def int? (line : List Char) (key : String) : Option Int :=
  match valueOf? key.toList line with
  | none | some [] => none
  | some v => Number.readInt? v

def intOf (line : List Char) (key : String) : Int := (int? line key).getD 0

def Bitmap.readInfo (b : Bitmap) (line : List Char) : Bitmap :=
  { b with
    face := String.ofList ((valueOf? "face".toList line).getD [])
    size := intOf line "size"
    bold := intOf line "bold" == 1
    italic := intOf line "italic" == 1 }

def Bitmap.readCommon (b : Bitmap) (line : List Char) : Bitmap :=
  { b with
    lineHeight := intOf line "lineHeight"
    base := intOf line "base"
    pageWidth := intOf line "scaleW"
    pageHeight := intOf line "scaleH" }

def withoutQuotes (cs : List Char) : List Char :=
  ((cs.dropWhile (· == '"')).reverse.dropWhile (· == '"')).reverse

def Bitmap.readPage (loads : String → Bool) (b : Bitmap) (line : List Char) : Bitmap :=
  let id := intOf line "id"
  match valueOf? "file".toList line with
  | none | some [] => b
  | some file =>
    if loads (String.ofList (withoutQuotes file)) && !b.pages.contains id then
      { b with pages := b.pages ++ [id] }
    else b

def Glyph.ofLine (line : List Char) : Glyph where
  id := intOf line "id"
  x := intOf line "x"
  y := intOf line "y"
  width := intOf line "width"
  height := intOf line "height"
  xOffset := intOf line "xoffset"
  yOffset := intOf line "yoffset"
  advance := intOf line "xadvance"
  page := intOf line "page"
  channel := intOf line "chnl"

def Bitmap.addGlyph (b : Bitmap) (g : Glyph) : Bitmap :=
  { b with
    glyphs := if b.glyphs.any (·.id == g.id) then
        b.glyphs.map fun h => if h.id == g.id then g else h
      else b.glyphs ++ [g] }

def Bitmap.addKerning (b : Bitmap) (pair : Int × Int) (amount : Int) : Bitmap :=
  { b with
    kernings := if b.kernings.any (·.1 == pair) then
        b.kernings.map fun k => if k.1 == pair then (pair, amount) else k
      else b.kernings ++ [(pair, amount)] }

def Bitmap.readLine (loads : String → Bool) (b : Bitmap) (line : List Char) : Bitmap :=
  let about (word : String) : Bool := word.toList.isPrefixOf line
  if about "info " then b.readInfo line
  else if about "common " then b.readCommon line
  else if about "page " then b.readPage loads line
  else if about "char " then b.addGlyph (.ofLine line)
  else if about "kerning " then
    b.addKerning (intOf line "first", intOf line "second") (intOf line "amount")
  else b

def Bitmap.readLines (loads : String → Bool) (lines : List (List Char)) : Bitmap :=
  lines.foldl (fun b line => b.readLine loads (Text.strip line)) {}

def loadsFrom (files : List String) (path : String) : Bool :=
  leadsTo files path && !(fileName path).startsWith "null"

def Bitmap.read (files : List String) (text : List Char) : Bitmap :=
  .readLines (loadsFrom files) (Text.linesOf text)

def Bitmap.glyph? (b : Bitmap) (id : Int) : Option Glyph := b.glyphs.find? (·.id == id)

def Bitmap.kerning (b : Bitmap) (first second : Int) : Int :=
  (b.kernings.lookup (first, second)).getD 0

end WatchFace.Font
