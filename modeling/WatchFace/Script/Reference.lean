import WatchFace.Lua.Lint

/-!
# The script reference
-/

namespace WatchFace.Script

structure Entry where
  name : String
  signature : String
  description : String
  sample : String
  deriving Repr, DecidableEq

def entries : List Entry :=
  [ { name := "wm_schedule"
      signature := "wm_schedule(config)"
      description := "Manage animations and timed events. config is a table containing action, tween, " ++
        "from, to, duration, easing properties."
      sample := "wm_schedule \x7b action='tween', tween='rotation', from=0, to=360, duration=1, " ++
        "easing='outQuad' \x7d" },
    { name := "wm_unschedule_all"
      signature := "wm_unschedule_all()"
      description := "Cancel all scheduled animations or events."
      sample := "wm_unschedule_all()" },
    { name := "wm_action"
      signature := "wm_action(action_name)"
      description := "Execute various watch control actions like media playback, volume, weather update, etc."
      sample := "wm_action('media_play_pause')" },
    { name := "wm_tag"
      signature := "wm_tag(tag_name)"
      description := "Return the dynamic value of a WatchMaker tag."
      sample := "local hour = wm_tag('\x7bdh\x7d')" },
    { name := "wm_vibrate"
      signature := "wm_vibrate(duration, repeat)"
      description := "Trigger haptic feedback. duration in milliseconds, repeat is the repeat count."
      sample := "wm_vibrate(100, 2)" },
    { name := "wm_sfx"
      signature := "wm_sfx(filename)"
      description := "Play an MP3 file from the sfx folder."
      sample := "wm_sfx('click.mp3')" },
    { name := "wm_transition"
      signature := "wm_transition(effect)"
      description := "Execute screen transition effects."
      sample := "wm_transition('fade')" },
    { name := "wm_anim_set"
      signature := "wm_anim_set(layer, property, value)"
      description := "Configure animation properties for a layer."
      sample := "wm_anim_set('layer1', 'opacity', 0.5)" },
    { name := "wm_anim_start"
      signature := "wm_anim_start(layer)"
      description := "Start animation on the specified layer."
      sample := "wm_anim_start('layer1')" },
    { name := "on_hour"
      signature := "function on_hour(h)"
      description := "Executes every hour. h is the current hour (0-23)."
      sample := "function on_hour(h)\n  print('Hour: ' .. h)\nend" },
    { name := "on_minute"
      signature := "function on_minute(h, m)"
      description := "Executes every minute. h is hour, m is minute."
      sample := "function on_minute(h, m)\n  print(h .. ':' .. m)\nend" },
    { name := "on_second"
      signature := "function on_second(h, m, s)"
      description := "Executes every second. h is hour, m is minute, s is second."
      sample := "function on_second(h, m, s)\n  var_s_time = h * 3600 + m * 60 + s\nend" },
    { name := "on_millisecond"
      signature := "function on_millisecond(dt)"
      description := "Executes every millisecond. dt is delta time in ms. Use var_ms_ prefix for variables."
      sample := "function on_millisecond(dt)\n  var_ms_counter = var_ms_counter + dt\nend" },
    { name := "on_display_bright"
      signature := "function on_display_bright()"
      description := "Executes when the watch screen turns on (becomes bright)."
      sample := "function on_display_bright()\n  wm_anim_start('intro')\nend" },
    { name := "on_display_not_bright"
      signature := "function on_display_not_bright()"
      description := "Executes when the watch screen turns off (becomes dim)."
      sample := "function on_display_not_bright()\n  wm_unschedule_all()\nend" },
    { name := "is_bright"
      signature := "is_bright"
      description := "Boolean value indicating whether the screen is currently bright."
      sample := "if is_bright then\n  -- screen is on\nend" } ]

def entry? (name : String) : Option Entry := entries.find? (·.name == name)

def actions : List String :=
  ["media_play_pause", "media_next", "media_prev", "media_stop", "sw_start_stop", "sw_reset",
   "sw_lap", "vol_up", "vol_down", "vol_mute", "m_update_weather", "m_task:", "flashlight_on",
   "flashlight_off", "alarm", "timer", "stopwatch"]

def easings : List String :=
  ["linear", "inQuad", "outQuad", "inOutQuad", "inCubic", "outCubic", "inOutCubic", "inQuart",
   "outQuart", "inOutQuart", "inQuint", "outQuint", "inOutQuint", "inSine", "outSine",
   "inOutSine", "inExpo", "outExpo", "inOutExpo", "inCirc", "outCirc", "inOutCirc", "inElastic",
   "outElastic", "inOutElastic", "inBack", "outBack", "inOutBack", "inBounce", "outBounce",
   "inOutBounce"]

def vocabulary : Lua.Vocabulary where
  functions := entries.map (·.name)
  actions := actions
  easings := easings

end WatchFace.Script
