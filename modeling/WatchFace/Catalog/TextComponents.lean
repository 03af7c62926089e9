import WatchFace.Catalog.Component

/-!
# Components of text
-/

namespace WatchFace.Catalog

/-- The settings of an animation, on a form of their own; `shows` is the one on the button of that form. -/
def animation (shows : String) : Attribute :=
  .form "Animation" "animationWidget"
    [.value "Button display" (.text shows) "Display condition",
     .value "Animation in" (.text "None") "Entry animation",
     .value "Delay start" (.int 0) "Delay before start",
     .value "Duration in" (.float 0.5) "Entry animation duration",
     .value "Duration on" (.float 0.5) "On-screen duration",
     .value "Animation out" (.text "None") "Exit animation",
     .value "Duration out" (.float 0.5) "Exit animation duration",
     .value "Duration off" (.float 0.5) "Off-screen duration",
     .value "Repeat count" (.int 1) "Repeat count",
     .value "Restart on load" (.bool true) "Restart on load",
     .value "Restart on bright" (.bool true) "Restart on bright mode",
     .value "Restart on text change" (.bool true) "Restart on text change"]
    "Animation settings"

def written (content : String) (x y : Int) (shows : String) (size : Int) (action : String) : Component where
  layer := "textLayer"
  attributes :=
    heading ++ [.value "Text" (.text content) "Text content"] ++ point x y ++ [animation shows, gyroEffect] ++
      lettering "Roboto-Regular" size ++ turned (.int 0) ++
      [aligned "Center", transform, displayed "Always", shader, tapped action, textEffect, keepsPosition]

def text : Component := written "" 0 0 "Animation in" 40 "None"

def event : Component := written "" 0 (-120) "None" 30 "None"

def countdown : Component := written "" 0 28 "None" 50 "None"

def date : Component := written "\x7bddw\x7d \x7bdnnn\x7d \x7bdd\x7d" 0 120 "None" 40 "None"

def steps : Component := written "\x7bssc\x7d" 0 30 "None" 40 "None"

def time : Component := written "\x7bdh23z\x7d:\x7bdmz\x7d" 0 0 "None" 100 "None"

def stopWatch1 : Component := written "\x7bswm\x7d:\x7bsws\x7d:\x7bswsss\x7d" 0 0 "None" 36 "None"

def stopWatch2 : Component :=
  written "\x7bswr\x7d and 'STOP' or 'START'" (-100) 100 "None" 20 "Stopwatch Start/Stop"

def stopWatch3 : Component := written "RESET" 100 100 "None" 20 "Stopwatch Reset"

def textCurved : Component where
  layer := "curvedTextLayer"
  attributes :=
    heading ++ [.value "Text" (.text "") "Text content"] ++ centered ++ lettering "Roboto-Regular" 40 ++
      turned (.int 0) ++
      [aligned "Center", transform, displayed "Always", shader, tapped "None", textEffect, keepsPosition,
       .value "Radius" (.int 200) "Curve radius", .value "Direction" (.text "Up") "Curve direction"]

def numbers : Component where
  layer := "textRingLayer"
  attributes :=
    heading ++ centered ++ lettering "Roboto-Regular" 30 ++ turned (.int 0) ++
      [aligned "Center", transform, displayed "Always", .value "Radius" (.int 200) "Ring radius",
       .value "Ring type" (.text "1-12") "Ring type", .value "Show every" (.int 1) "Show every N items",
       .value "Hide text" (.text "") "Text to hide",
       .value "Text rotation" (.text "Upright") "Text rotation style",
       .value "Angle start" (.int 0) "Start angle", .value "Angle end" (.int 360) "End angle", squarify, shader,
       tapped "None", textEffect, keepsPosition]

def series : Component where
  layer := "seriesLayer"
  attributes :=
    centered ++
      [.value "Font" (.text "Roboto-Regular") "Primary font",
       .value "Font 2" (.text "Roboto-Regular") "Secondary font",
       .value "Text size" (.int 30) "Primary font size",
       .value "Text size 2" (.int 20) "Secondary font size",
       .value "Color" (.text "ffffff") "Primary color",
       .value "Color 2" (.text "888888") "Secondary color"] ++
      scaled ++ turned (.int 0) ++
      [aligned "Center", transform, displayed "Always",
       .value "Series type" (.text "Day of the week short") "Series type",
       .value "Orientation" (.text "Vertical") "Orientation",
       .value "Current position" (.text "Current Centered") "Current position",
       .value "Spacing" (.int 10) "Spacing", shader, tapped "None", textEffect, keepsPosition]

end WatchFace.Catalog
