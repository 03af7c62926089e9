import WatchFace.Flow
import WatchFace.Gesture
import WatchFace.Text.Search

/-!
# The toolbox
-/

namespace WatchFace.Toolbox

def start : String := "btn_"

def ending : String := ".png"

def substitute (old new s : String) : String :=
  String.ofList (Text.replaceAll old.toList new.toList s.toList)

def hint (file : String) : String :=
  substitute "_" " " (substitute ending "" (substitute start "" file))

def buttonName (file : String) : String := substitute " " "_" (hint file)

def isButton (file : String) : Bool := file.startsWith start && file.endsWith ending

def buttonNames (files : List String) : List String := (files.filter isButton).map buttonName

def layout (count : Nat) : Flow :=
  { items := (List.range count).map fun n => { number := n, width := 40, height := 30 } }

def click (g : Gesture) (left : Bool) : Gesture × Bool :=
  let (g, events) := (g.press 0 0 left).release
  (g, events.contains .pressed)

end WatchFace.Toolbox
