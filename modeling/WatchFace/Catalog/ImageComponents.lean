import WatchFace.Catalog.Component

/-!
# Components of images
-/

namespace WatchFace.Catalog

def pictured (extent : Int) (rotation : Value) (mode : String) : Component where
  layer := "imageLayer"
  attributes :=
    heading ++ centered ++ size extent extent ++ turned rotation ++
      [tint, aligned "Center", displayed mode, shader, tapped "None",
       .value "Custom image" (.text "") "Custom image file", keepsPosition]

def watchBackground : Component := pictured 512 (.int 0) "Always"

def minuteHand : Component := pictured 512 (.text "\x7bdrm\x7d") "Always"

def hourHand : Component := pictured 512 (.text "\x7bdrh\x7d") "Always"

def secondHand : Component := pictured 512 (.text "\x7bdrs\x7d") "Always"

def compass : Component := pictured 200 (.text "\x7bsrc\x7d") "Bright only"

def selected (extent : Int) (selection grid : String) : Component where
  layer := "imageCondLayer"
  attributes :=
    heading ++ centered ++ size extent extent ++ turned (.int 0) ++
      [tint, aligned "Center", displayed "Always", shader,
       .value "Image selection" (.text selection) "Image selection expression",
       .value "Image grid" (.text grid) "Image grid layout", tapped "None",
       .value "Custom image" (.text "") "Custom image file",
       .value "Weather includes night symbols" (.bool true) "Include night weather symbols", keepsPosition]

def battery : Component :=
  selected 80 "'\x7bbc\x7d' == 'Charging' and 7 or \x7bbl\x7d >= 90 and 1 or \x7bbl\x7d >= 70 and 2 or \x7bbl\x7d >= 50 and 3 or \x7bbl\x7d >= 30 and 4 or \x7bbl\x7d >= 10 and 5 or 6" "3x3"

def wifi : Component :=
  selected 60 "\x7bpws\x7d >= 0.86 and 1 or \x7bpws\x7d >= 0.62 and 2 or \x7bpws\x7d >= 0.37 and 3 or \x7bpws\x7d >= 0.12 and 4 or 5" "3x2"

def weather : Component :=
  selected 256 "'\x7bwci\x7d' == '01d' and 1 or '\x7bwci\x7d' == '02d' and 2 or '\x7bwci\x7d' == '03d' and 3 or '\x7bwci\x7d' == '04d' and 4 or '\x7bwci\x7d' == '09d' and 5 or '\x7bwci\x7d' == '10d' and 6 or '\x7bwci\x7d' == '11d' and 7 or '\x7bwci\x7d' == '13d' and 8 or '\x7bwci\x7d' == '50d' and 9 or 1" "3x3"

def moon : Component := selected 80 "\x7bwmp\x7d" "3x3"

def imageGif : Component where
  layer := "imageGifLayer"
  attributes :=
    centered ++ turned (.int 0) ++ [aligned "cc", .value "Path" (.text "") "Image path"] ++ size 100 100 ++
      [.value "Gif delay" (.int 100) "GIF frame delay", displayed "bd"]

def slideshow : Component where
  layer := "slideshowLayer"
  attributes :=
    heading ++
      [.value "Photo" (.text "") "Photo files", .value "Photo duration" (.int 5) "Photo display duration",
       .value "Photo clip" (.text "corner1") "Photo clip style"] ++
      centered ++ size 300 300 ++ turned (.int 0) ++
      [tint, aligned "Center", displayed "Always", shader, tapped "None", keepsPosition]

def map : Component where
  layer := "mapLayer"
  attributes :=
    heading ++ centered ++ size 512 512 ++ turned (.int 0) ++
      [.value "Latitude" (.text "\x7balat\x7d") "Latitude",
       .value "Longitude" (.text "\x7balon\x7d") "Longitude",
       .value "Map zoom" (.int 16) "Map zoom level", .value "Map scale" (.int 100) "Map scale", tint,
       aligned "Center", displayed "Bright only", shader, tapped "None",
       .value "Map effect" (.text "None") "Map effect"]

end WatchFace.Catalog
