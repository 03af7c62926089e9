import WatchFace.Catalog.Component

/-!
# Components of shapes
-/

namespace WatchFace.Catalog

def watchSetting : Component where
  layer := "baseLayer"
  attributes :=
    [.value "Watch name" (.text "Untitled watch") "Watch face name",
     .value "Discription" (.text "") "Watch face description",
     .value "Background" (.text "000000") "Background color (hex)",
     .value "Tags" (.text "") "Tags for categorization",
     .value "Shape" (.text "Square") "Watch shape (Square/Round)",
     .value "Author" (.text "") "Author name", .value "Web link" (.text "") "Author website URL",
     .value "Transition to bright" (.text "None") "Transition animation to bright mode",
     .value "Transition to dim" (.text "None") "Transition animation to dim mode",
     .value "Script" (.text "") "Custom Lua script",
     .value "Indicators" (.text "widget") "Indicator display type"]

def filled : List Attribute :=
  [aligned "center", .value "Color" (.text "#ffffff") "Fill color", displayed "always", shader, tapped "None",
   .value "Shape effect" (.text "None") "Shape effect"]

def shape : Component where
  layer := "shapeLayer"
  attributes :=
    heading ++ [.value "Shape" (.text "square") "Shape type"] ++ centered ++ size 100 100 ++ turned (.int 0) ++ filled

def titledScale (radius height : Int) : List Attribute :=
  heading ++ [.value "Text" (.text "TACHYMETER") "Title text"] ++ centered ++ lettering "BebasNeue" 25 ++
    [.value "Radius" (.int radius) "Radius"] ++ turned (.int 0) ++
    [aligned "Center", transform, .value "Marker width" (.int 10) "Marker width",
     .value "Marker height" (.int height) "Marker height"]

def marker : Component where
  layer := "markerLayer"
  attributes :=
    titledScale 256 35 ++
      [.value "Marker count" (.int 12) "Marker count", squarify, displayed "Always", tapped "None", textEffect]

def hourMinMarkers : Component where
  layer := "markersHMLayer"
  attributes :=
    heading ++ centered ++ turned (.int 0) ++ [.value "Radius" (.int 256) "Radius"] ++ scaled ++
      [.value "Hour markers" (.text "Medium") "Hour markers style",
       .value "Minute markers" (.text "Medium") "Minute markers style",
       .value "Hour color" (.text "ffffff") "Hour markers color",
       .value "Minute color" (.text "ffffff") "Minute markers color", squarify, displayed "Always", keepsPosition]

def rounded : Component where
  layer := "roundedRectangleLayer"
  attributes :=
    centered ++ size 300 200 ++
      [.value "Corner radius" (.int 50) "Corner radius", .value "Corner type" (.int 1) "Corner type"] ++
      turned (.int 0) ++ filled

def ring : Component where
  layer := "ringLayer"
  attributes :=
    centered ++ turned (.int 0) ++
      [.value "Radius outer" (.int 57) "Outer radius", .value "Radius inner" (.int 53) "Inner radius",
       .value "Radius" (.int 100) "Corner radius", .value "Angle" (.int 0) "Current angle",
       .value "Angle total" (.int 360) "Total angle", .value "Is clockwise" (.text "Y") "Clockwise direction",
       .value "Color" (.text "#ffffff") "Primary color", .value "Color 2" (.text "#ffffff") "Secondary color",
       .value "Color 3" (.text "#626262") "Background color",
       .value "Outside opacity" (.int 100) "Outside opacity"] ++
      scaled ++ [displayed "bd"]

def tachy : Component where
  layer := "tachymeterLayer"
  attributes :=
    titledScale 230 10 ++
      [.value "Major markers" (.text "Medium") "Major markers style",
       .value "Minor markers" (.text "Medium") "Minor markers style",
       .value "Speeds" (.text "400,300,240,200,180,160,140,120,110,95,90,85,80,75,70,65,60") "Speed values",
       .value "Text rotation" (.text "Rotate Upright") "Text rotation", squarify, displayed "Always",
       tapped "None", textEffect, keepsPosition]

def progress : Component where
  layer := "progressLayer"
  attributes :=
    centered ++ turned (.int 0) ++ size 114 24 ++
      [.value "Color" (.text "#dddddd") "Primary color", .value "Color 2" (.text "#dddddd") "Secondary color",
       .value "Color 3" (.text "#525151") "Background color",
       .value "Color 4" (.text "#3c3b3b") "Background secondary color",
       .value "Outside opacity" (.int 100) "Outside opacity", .value "Radius" (.int 0) "Corner radius",
       .value "Pct complete" (.text "\x7bbl\x7d") "Percent complete expression",
       .value "Angle" (.int 90) "Angle", .value "Margin" (.int 0) "Margin",
       .value "End style" (.text "flat") "End style", .value "Corner type" (.int 1) "Corner type"] ++
      scaled ++ [displayed "bd"]

def chart : Component where
  layer := "chartLayer"
  attributes :=
    centered ++ turned (.int 0) ++ size 205 76 ++
      [.value "Color" (.text "#ffffff") "Primary color", .value "Color 2" (.text "#9e9e9e") "Secondary color",
       .value "Color 3" (.text "#ffffff") "Tertiary color", .value "Color 4" (.text "#ffffff") "Quaternary color",
       .value "Chart type" (.text "line") "Chart type", .value "Data points" (.text "") "Data points",
       .value "Min max" (.text "") "Min/Max values", .value "Chart group" (.int 0) "Chart group",
       .value "Line width" (.int 4) "Line width", .value "Marker size" (.int 11) "Marker size",
       .value "Tension" (.int 0) "Line tension", .value "Top opacity" (.int 42) "Top opacity",
       .value "Bottom opacity" (.int 0) "Bottom opacity", .value "Radius" (.int 100) "Corner radius",
       .value "Bar thickness" (.int 67) "Bar thickness", .value "Corner type" (.int 1) "Corner type",
       .value "Lines" (.text "") "Lines config", .value "Labels" (.text "") "Labels config"] ++
      scaled ++ [displayed "bd"]

def complication : Component where
  layer := "complicationLayer"
  attributes :=
    [.value "Color text" (.text "#b3b3b3") "Text color",
     .value "Color background" (.text "#494949") "Background color"] ++
      centered ++ lettering "Roboto-Regular" 25 ++ turned (.int 0) ++ size 100 100 ++
      [aligned "Center", transform, displayed "Bright only", keepsPosition]

def light : Component where
  layer := "directionalLightLayer"
  attributes :=
    [.value "Name" (.text "Layer") "Layer name", .value "Enable" (.bool true) "Enable light",
     .value "Intensity" (.int 150) "Light intensity", .value "Direction X" (.int 0) "X direction",
     .value "Direction Y" (.int 0) "Y direction", .value "Direction Z" (.int (-100)) "Z direction",
     .value "Color" (.text "ffffff") "Light color"]

def inSpace (z : Int) (x' y' z' : Value) (scale : Int) : List Attribute :=
  point 0 0 ++
    [.value "Z" (.int z) "Z coordinate", .value "Rotation X" x' "X-axis rotation",
     .value "Rotation Y" y' "Y-axis rotation", .value "Rotation Z" z' "Z-axis rotation",
     .value "Scale X" (.int scale) "X-axis scale", .value "Scale Y" (.int scale) "Y-axis scale",
     .value "Scale Z" (.int scale) "Z-axis scale", gyroEffect, .value "Opacity" (.int 100) "Opacity",
     .value "Color" (.text "ffffff") "Color", displayed "Always", keepsPosition]

def photoCube : Component where
  layer := "3DLayer"
  attributes :=
    heading ++ [.value "Photo" (.text "") "Photo/model file"] ++
      inSpace 260 (.text "-50-\x7bc_elapsed\x7d*4") (.text "-50-\x7bc_elapsed\x7d*7")
        (.text "30-\x7bc_elapsed\x7d*10") 350

def model3d : Component where
  layer := "3DLayer"
  attributes := heading ++ inSpace 0 (.int 0) (.int 0) (.int 0) 40

end WatchFace.Catalog
