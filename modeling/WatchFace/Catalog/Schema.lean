import WatchFace.Value

/-!
# Kinds and schemas

A schema gives the kind of each attribute of a type of layer.
-/

namespace WatchFace.Catalog

inductive Kind where
  | words
  | color
  | nested
  | flag
  | file
  | font
  | options (items : List Value)
  /-- A number from `low` to `high`: whole if `step` is one, any if it is zero. -/
  | limits (low high step : Value)
  /-- A kind that is not known, under its name; its field takes text. -/
  | named (name : String)
  deriving Repr, Inhabited

namespace Kind

def toValue : Kind → Value
  | .words => .text "str"
  | .color => .text "color"
  | .nested => .text "widget"
  | .flag => .text "bool"
  | .file => .text "file"
  | .font => .text "font"
  | .options items => .list items
  | .limits low high step => .tuple [low, high, step]
  | .named name => .text name

/-- The kind that a value names. A value that names none stands for text. -/
def ofValue : Value → Except Fault Kind
  | .text "str" => .ok .words
  | .text "color" => .ok .color
  | .text "widget" => .ok .nested
  | .text "bool" => .ok .flag
  | .text "file" => .ok .file
  | .text "font" => .ok .font
  | .text name => .ok (.named name)
  | .list items => .ok (.options items)
  | .tuple (low :: high :: step :: _) => .ok (.limits low high step)
  | .tuple _ => .error .outOfRange
  | _ => .ok (.named "")

def isChoice : Kind → Bool
  | .options _ | .font => true
  | _ => false

end Kind

/-- The kinds of the attributes of a layer, by title. -/
abbrev Schema := List (String × Kind)

def position : Kind := .limits (.int (-1280)) (.int 1280) (.int 0)

def order : Kind := .limits (.int 0) (.int 5000) (.int 1)

def extent : Kind := .limits (.int 1) (.int 2048) (.int 0)

def angle : Kind := .limits (.int (-720)) (.int 720) (.int 0)

def skew : Kind := .limits (.int 0) (.int 90) (.int 0)

def percent : Kind := .limits (.int 0) (.int 100) (.int 0)

def alignment : Kind :=
  .options
    [.text "Center", .text "Top left", .text "Top center", .text "Top right", .text "Center left",
     .text "Center right", .text "Bottom left", .text "Bottom center", .text "Bottom right"]

def noChoice : Kind := .options [.text "None"]

def display : Kind := .options [.text "Always"]

def whole : Kind := .limits (.int 1) (.int 2048) (.int 1)

def named : Schema := [("Name", .words), ("Layer", order)]

def placed : Schema := [("X", position), ("Y", position)]

def moving : Schema := placed ++ [("Gyro effect", extent)]

def sized : Schema := [("Width", extent), ("Height", extent)]

def rotated : Schema := [("Rotation", angle), ("Skew X", skew), ("Skew Y", skew), ("Opacity", percent)]

def scalable : Schema := [("Anim scale X", extent), ("Anim scale Y", extent)]

def lettered : Schema :=
  [("Font", .font), ("Text size", extent), ("Color", .color), ("Color dim", .color)] ++ scalable

def shaded : Schema := [("Shader", noChoice), ("Tap action", noChoice)]

def keeping : Schema := [("Keep position if card displayed", .flag)]

def textual : Schema :=
  named ++ [("Text", .words)] ++ placed ++ [("Animation", .nested), ("Gyro effect", extent)] ++ lettered ++ rotated ++
    [("Alignment", alignment), ("Transform", noChoice), ("Display", display)] ++ shaded ++
    [("Text effect", noChoice)] ++ keeping

def graded : Schema :=
  named ++ [("Text", .words)] ++ moving ++ lettered ++ [("Radius", extent)] ++ rotated ++
    [("Alignment", alignment), ("Transform", noChoice), ("Marker width", whole), ("Marker height", whole)]

def pictorial : Schema :=
  moving ++ sized ++ rotated ++ [("Tint", .color), ("Alignment", alignment), ("Display", display)]

def baseLayer : Schema :=
  [("Watch name", .words), ("Discription", .words), ("Background", .color), ("Tags", .words),
   ("Shape", .options [.text "Circle", .text "Square", .text "Apple"]), ("Author", .words),
   ("Web link", .words), ("Transition to bright", noChoice), ("Transition to dim", noChoice),
   ("Script", .words), ("Indicators", .words)]

def animationWidget : Schema :=
  [("Button display", .words), ("Animation in", .options [.text "None", .text "test"]),
   ("Delay start", extent), ("Duration in", extent), ("Duration on", extent),
   ("Animation out", noChoice), ("Duration out", extent), ("Duration off", extent),
   ("Repeat count", .options [.int 1]), ("Restart on load", .flag), ("Restart on bright", .flag),
   ("Restart on text change", .flag)]

def textLayer : Schema :=
  textual

def directionalLightLayer : Schema :=
  [("Name", .words), ("Enable", .flag), ("Intensity", extent), ("Direction X", extent),
   ("Direction Y", extent), ("Direction Z", extent), ("Color", .color)]

def layer3D : Schema :=
  named ++ [("Photo", .file)] ++ placed ++
    [("Z", position), ("Rotation X", angle), ("Rotation Y", angle), ("Rotation Z", angle), ("Scale X", extent),
     ("Scale Y", extent), ("Scale Z", extent), ("Gyro effect", extent), ("Opacity", percent), ("Color", .color),
     ("Display", display)]

def curvedTextLayer : Schema :=
  textual ++ [("Radius", extent), ("Direction", .options [.text "Up"])]

def imageLayer : Schema :=
  named ++ pictorial ++ shaded ++ [("Custom image", .file)] ++ keeping

def tachymeterLayer : Schema :=
  graded ++
    [("Major markers", .options [.text "Medium"]), ("Minor markers", .options [.text "Medium"]),
     ("Speeds", .options [.text "400,300,240,200,180,160,140,120,110,95,90,85,80,75,70,65,60"]),
     ("Text rotation", .options [.text "Rotate Upright"]), ("Squarify", whole), ("Display", display),
     ("Tap action", noChoice), ("Text effect", noChoice)] ++ keeping

def shapeLayer : Schema :=
  named ++ [("Shape", .options [.text "square"])] ++ moving ++ sized ++ rotated ++
    [("Alignment", alignment), ("Color", .color), ("Display", display)] ++ shaded ++ [("Shape effect", noChoice)]

def markerLayer : Schema :=
  graded ++
    [("Marker count", whole), ("Squarify", .limits (.int 0) (.int 100) (.int 1)), ("Display", display),
     ("Tap action", noChoice), ("Text effect", noChoice)]

def mapLayer : Schema :=
  moving ++ sized ++ rotated ++
    [("Latitude", extent), ("Longitude", extent), ("Map zoom", extent), ("Map scale", extent), ("Tint", .color),
     ("Alignment", alignment), ("Display", display)] ++ shaded ++ [("Map effect", noChoice)]

def slideshowLayer : Schema :=
  [("Photo", .file), ("Photo duration", whole), ("Photo clip", .options [.text "corner1"])] ++ pictorial ++
    shaded ++ keeping

def textRingLayer : Schema :=
  named ++ moving ++ lettered ++ rotated ++
    [("Alignment", alignment), ("Transform", noChoice), ("Display", display), ("Radius", extent),
     ("Ring type", .options [.text "1-12"]), ("Show every", whole), ("Hide text", .words),
     ("Text rotation", .options [.text "Upright"]), ("Angle start", whole), ("Angle end", whole),
     ("Squarify", whole)] ++ shaded ++ [("Text effect", noChoice)] ++ keeping

def roundedRectangleLayer : Schema :=
  moving ++ sized ++ [("Corner radius", extent), ("Corner type", whole)] ++ rotated ++
    [("Alignment", alignment), ("Color", .color), ("Display", display)] ++ shaded ++
    [("Shape effect", noChoice)] ++ keeping

def seriesLayer : Schema :=
  moving ++
    [("Font", .font), ("Font 2", .font), ("Text size", extent), ("Text size 2", extent), ("Color", .color),
     ("Color 2", .color)] ++ scalable ++ rotated ++
    [("Alignment", alignment), ("Transform", noChoice), ("Display", display),
     ("Series type", .options [.text "Day of the week short"]), ("Orientation", .options [.text "Vertical"]),
     ("Current position", .options [.text "Current Centered"]), ("Spacing", extent)] ++ shaded ++
    [("Text effect", noChoice)] ++ keeping

def complicationLayer : Schema :=
  [("Color text", .color), ("Color background", .color)] ++ placed ++
    [("Animation", .nested), ("Gyro effect", extent)] ++ lettered ++ rotated ++ sized ++
    [("Alignment", alignment), ("Transform", noChoice), ("Display", display)]

def chartLayer : Schema :=
  moving ++ rotated ++ sized ++
    [("Color", .color), ("Color 2", .color), ("Color 3", .color), ("Color 4", .color),
     ("Chart type", .options [.text "line"]), ("Data points", .words), ("Min max", .words), ("Chart group", extent),
     ("Line width", extent), ("Marker size", extent), ("Tension", extent), ("Top opacity", percent),
     ("Bottom opacity", percent), ("Radius", extent), ("Bar thickness", extent), ("Corner type", whole),
     ("Lines", .words), ("Labels", .words)] ++ scalable ++ [("Display", display)]

def imageCondLayer : Schema :=
  named ++ pictorial ++
    [("Shader", noChoice), ("Image selection", extent), ("Image grid", .options [.text "3x3"]),
     ("Tap action", noChoice), ("Custom image", .file), ("Weather includes night symbols", .flag)] ++ keeping

def imageGifLayer : Schema :=
  moving ++ rotated ++ [("Alignment", alignment), ("Path", .words)] ++ sized ++
    [("Gif delay", extent), ("Display", display)]

def progressLayer : Schema :=
  moving ++ rotated ++ sized ++
    [("Color", .color), ("Color 2", .color), ("Color 3", .color), ("Color 4", .color), ("Outside opacity", percent),
     ("Radius", extent), ("Pct complete", .words), ("Angle", extent), ("Margin", extent),
     ("End style", .options [.text "flat"]), ("Corner type", whole)] ++ scalable ++ [("Display", display)]

def ringLayer : Schema :=
  moving ++ rotated ++
    [("Radius outer", extent), ("Radius inner", extent), ("Radius", extent), ("Angle", extent),
     ("Angle total", extent), ("Is clockwise", .options [.text "Y"]), ("Color", .color), ("Color 2", .color),
     ("Color 3", .color), ("Outside opacity", percent)] ++ scalable ++ [("Display", display)]

def markersHMLayer : Schema :=
  moving ++ rotated ++ [("Radius", extent)] ++ scalable ++
    [("Hour markers", .options [.text "Medium"]), ("Minute markers", .options [.text "Medium"]),
     ("Hour color", .color), ("Minute color", .color), ("Squarify", whole), ("Display", display)]

def schemas : List (String × Schema) :=
  [("baseLayer", baseLayer), ("animationWidget", animationWidget), ("textLayer", textLayer),
   ("directionalLightLayer", directionalLightLayer), ("layer3D", layer3D),
   ("curvedTextLayer", curvedTextLayer), ("imageLayer", imageLayer),
   ("tachymeterLayer", tachymeterLayer), ("shapeLayer", shapeLayer), ("markerLayer", markerLayer),
   ("mapLayer", mapLayer), ("slideshowLayer", slideshowLayer), ("textRingLayer", textRingLayer),
   ("roundedRectangleLayer", roundedRectangleLayer), ("seriesLayer", seriesLayer),
   ("complicationLayer", complicationLayer), ("chartLayer", chartLayer),
   ("imageCondLayer", imageCondLayer), ("imageGifLayer", imageGifLayer),
   ("progressLayer", progressLayer), ("ringLayer", ringLayer), ("markersHMLayer", markersHMLayer)]

end WatchFace.Catalog
