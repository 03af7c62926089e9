import WatchFace.Text.Breaks

/-!
# Style sheets
-/

namespace WatchFace.Style

inductive Sheet where
  | editor
  | script
  | menu
  | sideBar
  | tipBar
  | watches
  deriving Repr, DecidableEq

def Sheet.file : Sheet → String
  | .editor => "edit_view.qss"
  | .script => "script_view.qss"
  | .menu => "menu.qss"
  | .sideBar => "side_bar.qss"
  | .tipBar => "tip_bar.qss"
  | .watches => "my_watches_view.qss"

def load (files : List (String × String)) (s : Sheet) : String :=
  match files.lookup s.file with
  | some text => String.ofList (Text.unifyBreaks text.toList)
  | none => ""

end WatchFace.Style
