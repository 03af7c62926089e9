import WatchFace.Batch
import WatchFace.Catalog.Bare
import WatchFace.Console.Desk
import WatchFace.Console.Desktop
import WatchFace.Console.Editor
import WatchFace.Console.Font
import WatchFace.Console.Script
import WatchFace.Console.Sketch
import WatchFace.Console.Window
import WatchFace.Json.Parser
import WatchFace.Menu
import WatchFace.Proofs.ActiveHistory
import WatchFace.Proofs.Disconnecting
import WatchFace.Proofs.Dropping
import WatchFace.Proofs.Following
import WatchFace.Proofs.Font.Faces
import WatchFace.Proofs.Font.Pens
import WatchFace.Proofs.Font.Sizes
import WatchFace.Proofs.LateListeners
import WatchFace.Proofs.Layer.Anchoring
import WatchFace.Proofs.Lua.ActionNames
import WatchFace.Proofs.Lua.Brackets
import WatchFace.Proofs.Lua.ErrorLines
import WatchFace.Proofs.Lua.Faults
import WatchFace.Proofs.Lua.Literals
import WatchFace.Proofs.Lua.Margins
import WatchFace.Proofs.Pairing
import WatchFace.Proofs.Rows
import WatchFace.Proofs.ScriptPages
import WatchFace.Proofs.Studio.Agreement
import WatchFace.Proofs.Studio.Choice
import WatchFace.Proofs.Studio.Copying
import WatchFace.Proofs.Studio.Fitting
import WatchFace.Proofs.Studio.Groups
import WatchFace.Proofs.Studio.Labels
import WatchFace.Proofs.Studio.Navigation
import WatchFace.Proofs.Studio.Presets
import WatchFace.Proofs.Studio.Pulling
import WatchFace.Style
