import WatchFace.Script.Completion
import WatchFace.Text.Lower

/-!
# The menu
-/

namespace WatchFace.Menu

def imported (accepted : Bool) (selected : List String) : Option String :=
  if accepted then selected.head? else none

def iconEndings : List String := [".png", ".jpg", ".jpeg", ".svg", ".bmp"]

def isIcon (file : String) : Bool := iconEndings.any fun e => (Text.lower file).endsWith e

def iconFiles (files : List String) : List String := Script.sorted (files.filter isIcon)

def iconSize : Int := 64

def iconPadding : Int := 12

def cellWidth : Int := iconSize + iconPadding * 2

end WatchFace.Menu
