import WatchFace.Value

/-!
# Components

The value of an attribute can be a component of its own, for which a nested form is opened.
-/

namespace WatchFace.Catalog

inductive Attribute where
  | value (title : String) (value : Value) (description : String)
  | form (title : String) (layer : String) (attributes : List Attribute) (description : String)
  deriving Repr, Inhabited

structure Component where
  layer : String
  attributes : List Attribute
  deriving Repr, Inhabited

def Attribute.title : Attribute → String
  | .value t _ _ => t
  | .form t _ _ _ => t

def Attribute.description : Attribute → String
  | .value _ _ d => d
  | .form _ _ _ d => d

def stacking (n : Int) : Attribute :=
  .value "Layer" (.int n)
    ("The display order of components is as follows: " ++
      "the higher the value, the higher up the layer")

def heading : List Attribute := [.value "Name" (.text "Layer") "Layer name", stacking 0]

def point (x y : Int) : List Attribute := [.value "X" (.int x) "X coordinate", .value "Y" (.int y) "Y coordinate"]

def gyroEffect : Attribute := .value "Gyro effect" (.int 0) "Gyroscope effect"

def centered : List Attribute := point 0 0 ++ [gyroEffect]

def size (width height : Int) : List Attribute :=
  [.value "Width" (.int width) "Width", .value "Height" (.int height) "Height"]

def turned (rotation : Value) : List Attribute :=
  [.value "Rotation" rotation "Rotation angle", .value "Skew X" (.int 0) "X-axis skew",
   .value "Skew Y" (.int 0) "Y-axis skew", .value "Opacity" (.int 100) "Opacity"]

def scaled : List Attribute :=
  [.value "Anim scale X" (.int 100) "Animation scale X", .value "Anim scale Y" (.int 100) "Animation scale Y"]

def lettering (font : String) (size : Int) : List Attribute :=
  [.value "Font" (.text font) "Font name", .value "Text size" (.int size) "Font size",
   .value "Color" (.text "ffffff") "Primary color", .value "Color dim" (.text "ffffff") "Dim mode color"] ++ scaled

def squarify : Attribute := .value "Squarify" (.int 0) "Squarify for square watches"

def tint : Attribute := .value "Tint" (.text "ffffff") "Tint color"

def aligned (side : String) : Attribute := .value "Alignment" (.text side) "Alignment"

def transform : Attribute := .value "Transform" (.text "None") "Text transform"

def displayed (mode : String) : Attribute := .value "Display" (.text mode) "Display mode"

def shader : Attribute := .value "Shader" (.text "None") "Shader type"

def tapped (action : String) : Attribute := .value "Tap action" (.text action) "Tap action"

def textEffect : Attribute := .value "Text effect" (.text "None") "Text effect"

def keepsPosition : Attribute :=
  .value "Keep position if card displayed" (.bool false) "Keep position if card displayed"

def layerRecord (layer : String) : Value := .record [(.text "TYPE", .text layer)]

mutual

def Attribute.toValue : Attribute → Value
  | .value t v d => .record [(.text t, v), (.text "description", .text d)]
  | .form t layer as d =>
    .record [(.text t, .list (layerRecord layer :: attributeValues as)),
      (.text "description", .text d)]

def attributeValues : List Attribute → List Value
  | [] => []
  | a :: as => a.toValue :: attributeValues as

end

def Component.toValue (c : Component) : Value :=
  .list (layerRecord c.layer :: attributeValues c.attributes)

end WatchFace.Catalog
