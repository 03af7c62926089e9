/-!
# Tags
-/

namespace WatchFace.Script

structure Tag where
  title : String
  name : String
  deriving Repr, DecidableEq

def Tag.text (t : Tag) : String := "\x7b" ++ t.name ++ "\x7d"

def Tag.label (t : Tag) : String := t.title ++ ":" ++ t.text

def family (title name : String) (tags : List Tag) : List Tag :=
  tags.map fun t => ⟨title ++ t.title, name ++ t.name⟩

def timeTags : List Tag :=
  [⟨"Day_in_month", "dd"⟩, ⟨"Day_in_month_with_leading_zero", "ddz"⟩, ⟨"Day_in_year", "ddy"⟩,
   ⟨"Day_of_week_format_1", "ddw1"⟩, ⟨"Day_of_week_format_2", "ddw2"⟩, ⟨"Day_of_week", "ddw"⟩,
   ⟨"Day_of_week_full", "ddww"⟩, ⟨"Day_of_week_next_format_1", "ddw1_1"⟩, ⟨"Day_of_week_next_format_2", "ddw2_1"⟩,
   ⟨"Day_of_week_next", "ddw_1"⟩, ⟨"Day_of_week_next_full", "ddww_1"⟩, ⟨"Day_of_week_Sun=0_Sat=6", "ddw0"⟩,
   ⟨"Days_in_current_month", "ddim"⟩, ⟨"Month_in_year", "dn"⟩, ⟨"Month_short", "dnn"⟩, ⟨"Month_medium", "dnnn"⟩,
   ⟨"Month_full", "dnnnn"⟩, ⟨"Year_2_digits", "dy"⟩, ⟨"Year_4_digits", "dyy"⟩, ⟨"Week_in_month", "dwm"⟩,
   ⟨"Week_in_year", "dw"⟩, ⟨"Hour_1-12", "dh"⟩, ⟨"Hour_0-11", "dh11"⟩, ⟨"Hour_1-12_with_leading_zero", "dhz"⟩,
   ⟨"Hour_0-11_with_leading_zero", "dh11z"⟩, ⟨"Hour_text_1-12", "dht"⟩, ⟨"Hour_tens_1-12", "dhtt"⟩,
   ⟨"Hour_ones_1-12", "dhto"⟩, ⟨"Hour_tens_0-11", "dh11tt"⟩, ⟨"Hour_ones_0-11", "dh11to"⟩,
   ⟨"Hour_UTC_12hr", "dhutc12"⟩, ⟨"Hour_UTC_12hr_with_leading_zero", "dhutc12z"⟩, ⟨"AM/PM", "da"⟩,
   ⟨"Hour_1-24", "dh24"⟩, ⟨"Hour_0-23", "dh23"⟩, ⟨"Hour_1-24_with_leading_zero", "dh24z"⟩,
   ⟨"Hour_0-23_with_leading_zero", "dh23z"⟩, ⟨"Hour_text_1-24", "dh24t"⟩, ⟨"Hour_tens_1-24", "dh24tt"⟩,
   ⟨"Hour_ones_1-24", "dh24to"⟩, ⟨"Hour_tens_0-23", "dh23tt"⟩, ⟨"Hour_ones_0-23", "dh23to"⟩,
   ⟨"Hour_UTC_24hr", "dhutc24"⟩, ⟨"Hour_UTC_24hr_with_leading_zero", "dhutc24z"⟩, ⟨"UTC_Offset", "dutcoff"⟩,
   ⟨"Minute_in_hour", "dm"⟩, ⟨"Minute_with_leading_zero", "dmz"⟩, ⟨"Minute_tens", "dmt"⟩, ⟨"Minute_ones", "dmo"⟩,
   ⟨"Minute_text_all", "dmat"⟩, ⟨"Minute_text_tens", "dmtt"⟩, ⟨"Minute_text_ones", "dmot"⟩,
   ⟨"Second_in_minute", "ds"⟩, ⟨"Second_with_leading_zero", "dsz"⟩, ⟨"Second_tens", "dst"⟩, ⟨"Second_ones", "dso"⟩,
   ⟨"Second_text_all", "dsat"⟩, ⟨"Second_text_tens", "dstt"⟩, ⟨"Second_text_ones", "dsot"⟩, ⟨"Milliseconds", "dss"⟩,
   ⟨"Milliseconds_with_leading_zeros", "dssz"⟩, ⟨"Seconds_*_1000_+_milliseconds", "dsps"⟩,
   ⟨"Seconds_since_epoch", "depoch"⟩, ⟨"Time_percent_24_hours", "dtp"⟩, ⟨"Timezone", "dz"⟩,
   ⟨"Hour_hand_rotation_12h", "drh"⟩, ⟨"Hour_hand_rotation_24h", "drh24"⟩,
   ⟨"Hour_hand_rotation_12h_no_adjust", "drh0"⟩, ⟨"Minute_hand_rotation", "drm"⟩, ⟨"Second_hand_rotation", "drs"⟩,
   ⟨"Second_hand_smooth_rotation", "drss"⟩, ⟨"Milliseconds_rotation", "drms"⟩]

def zoneTags (n : Nat) : List Tag :=
  family s!"Time_Zone_{n}_" s!"tz{n}"
    [⟨"Location", "l"⟩, ⟨"Location_Long", "ll"⟩, ⟨"UTC_Offset", "o"⟩, ⟨"UTC_Offset_Mins", "om"⟩,
     ⟨"Daylight_Savings", "dst"⟩, ⟨"Time", "t"⟩, ⟨"Rotation_hour", "rh"⟩, ⟨"Rotation_hour_24h", "rh24"⟩,
     ⟨"Rotation_minute", "rm"⟩]

def batteryTags : List Tag :=
  family "Battery_" "b"
    [⟨"level", "l"⟩, ⟨"level_percent", "lp"⟩, ⟨"rotation", "r"⟩, ⟨"temperature_C", "tc"⟩, ⟨"temperature_F", "tf"⟩,
     ⟨"temperature_C_percent", "tcd"⟩, ⟨"temperature_F_percent", "tfd"⟩, ⟨"charging", "c"⟩]

def deviceTags : List Tag :=
  [⟨"Operating_System", "aos"⟩, ⟨"OS_Version", "aosv"⟩, ⟨"Language_Code", "alangcode"⟩,
   ⟨"Language_Region", "alangreg"⟩, ⟨"Language_Full", "alangfull"⟩, ⟨"Device_name", "aname"⟩,
   ⟨"Device_model", "amodel"⟩, ⟨"Device_manufacturer", "aman"⟩, ⟨"System_Volume", "avol"⟩,
   ⟨"Screen_Brightness", "abrt"⟩, ⟨"Low_Power_Mode", "alowpw"⟩, ⟨"Bluetooth_Enabled", "abtc"⟩,
   ⟨"Watch_name", "awname"⟩, ⟨"Is_round", "around"⟩, ⟨"Has_flat_tyre", "atyre"⟩, ⟨"Is_bright", "abright"⟩,
   ⟨"Dim_mode_lo-bit_only", "adimlo"⟩, ⟨"Milliseconds_since_bright", "abss"⟩,
   ⟨"Seconds_since_bright_capped_30", "abssl"⟩, ⟨"Is_dark_mode", "adark"⟩, ⟨"Last_Reboot_Time", "areboot"⟩,
   ⟨"Used_Memory", "amu"⟩, ⟨"Used_Memory_Formatted", "amuf"⟩, ⟨"Used_Memory_Percentage", "amup"⟩,
   ⟨"Free_Memory", "amf"⟩, ⟨"Free_Memory_Formatted", "amff"⟩, ⟨"Free_Memory_Percentage", "amfp"⟩,
   ⟨"Total_Memory", "amt"⟩, ⟨"Total_Memory_Formatted", "amtf"⟩, ⟨"Used_Disk_Space", "adsu"⟩,
   ⟨"Used_Disk_Space_Formatted", "adsuf"⟩, ⟨"Used_Disk_Space_Percentage", "adsup"⟩, ⟨"Free_Disk_Space", "adsf"⟩,
   ⟨"Free_Disk_Space_Formatted", "adsff"⟩, ⟨"Free_Disk_Space_Percentage", "adsfp"⟩, ⟨"Total_Disk_Space", "adst"⟩,
   ⟨"Total_Disk_Space_Formatted", "adstf"⟩, ⟨"Current_latitude", "alat"⟩, ⟨"Current_longitude", "alon"⟩,
   ⟨"Current_latitude_degrees", "alatd"⟩, ⟨"Current_longitude_degrees", "alond"⟩,
   ⟨"Current_latitude_degrees_direction", "alatdd"⟩, ⟨"Current_longitude_degrees_direction", "alondd"⟩,
   ⟨"Current_altitude", "aalt"⟩, ⟨"what3words_address", "aw3w"⟩, ⟨"what3words_Word_1", "aw3w1"⟩,
   ⟨"what3words_Word_2", "aw3w2"⟩, ⟨"what3words_Word_3", "aw3w3"⟩, ⟨"Device_Online", "nc"⟩,
   ⟨"Cellular_Connected", "ncc"⟩, ⟨"WiFi_Strength_percent", "pws"⟩, ⟨"WiFi_Connected", "pwc"⟩,
   ⟨"WiFi_IP_Address", "nwip"⟩]

def stopwatchTags : List Tag :=
  family "Stopwatch_" "sw"
    [⟨"hours", "h"⟩, ⟨"minutes", "m"⟩, ⟨"seconds", "s"⟩, ⟨"milliseconds_2_digits", "ss"⟩,
     ⟨"milliseconds_3_digits", "sss"⟩, ⟨"milliseconds_total", "sst"⟩, ⟨"is_running", "r"⟩, ⟨"minute_rotation", "rm"⟩,
     ⟨"second_rotation", "rs"⟩, ⟨"millisecond_rotation", "rss"⟩]

def weatherTags : List Tag :=
  [⟨"Weather_Location", "wl"⟩, ⟨"Current_Temperature", "wt"⟩, ⟨"Today_High", "wth"⟩, ⟨"Today_Low", "wtl"⟩,
   ⟨"Current_Temperature_degrees", "wtd"⟩, ⟨"Today_High_degrees", "wthd"⟩, ⟨"Today_Low_degrees", "wtld"⟩,
   ⟨"Weather_Units", "wm"⟩, ⟨"Current_Condition_Text", "wct"⟩, ⟨"Current_Condition_Icon", "wci"⟩,
   ⟨"Current_Humidity_Number", "wh"⟩, ⟨"Current_Humidity_Percentage", "whp"⟩, ⟨"Atmospheric_Pressure", "wp"⟩,
   ⟨"Wind_Speed_mph", "wws"⟩, ⟨"Wind_Direction_degrees", "wwd"⟩, ⟨"Wind_Direction_NE", "wwdb"⟩,
   ⟨"Wind_Direction_NNE", "wwdbb"⟩, ⟨"Cloudiness_percent", "wcl"⟩, ⟨"Rain_volume_3hrs_mm", "wr"⟩,
   ⟨"Is_daytime", "wisday"⟩, ⟨"Sunrise_time", "wsr"⟩, ⟨"Sunset_time", "wss"⟩, ⟨"Sunrise_percent_24hrs", "wsrp"⟩,
   ⟨"Sunset_percent_24hrs", "wssp"⟩, ⟨"Moon_Phase", "wmp"⟩, ⟨"Weather_manual_location", "wml"⟩,
   ⟨"Weather_last_update", "wlu"⟩]

def hourTags (n : Nat) : List Tag :=
  family s!"Forecast_Hour_{n}_" s!"wf{n}h"
    [⟨"Temp", "t"⟩, ⟨"Hour", "h"⟩, ⟨"Condition_Text", "ct"⟩, ⟨"Condition_Icon", "ci"⟩]

def dayTags (n : Nat) : List Tag :=
  family s!"Forecast_Day_{n}_" s!"wf{n}d"
    [⟨"Temp", "t"⟩, ⟨"High", "th"⟩, ⟨"Low", "tl"⟩, ⟨"Condition_Text", "ct"⟩, ⟨"Condition_Icon", "ci"⟩]

def eventTags : List Tag :=
  family "Event_1_" "c1"
    [⟨"Exists", "ex"⟩, ⟨"Text", "t"⟩, ⟨"Begin_Date", "bd"⟩, ⟨"Begin_Time", "b"⟩, ⟨"Begin_Rotation", "br"⟩,
     ⟨"Begin_percent_24hrs", "bp"⟩, ⟨"End_Date", "ed"⟩, ⟨"End_Time", "e"⟩, ⟨"End_Rotation", "er"⟩,
     ⟨"End_percent_24hrs", "ep"⟩, ⟨"Location", "l"⟩, ⟨"Color", "c"⟩, ⟨"is_All_Day", "ad"⟩, ⟨"Calendar", "cal"⟩,
     ⟨"ID", "i"⟩]

def sensorTags : List Tag :=
  [⟨"Steps", "ssc"⟩, ⟨"Steps_Goal", "stsc"⟩, ⟨"Steps_percent_of_Goal", "sscp"⟩, ⟨"Distance_Units", "sdstu"⟩,
   ⟨"Distance", "sdst"⟩, ⟨"Distance_Goal", "stdst"⟩, ⟨"Distance_percent_of_Goal", "sdstp"⟩, ⟨"Calories_kCal", "scal"⟩,
   ⟨"Calories_Goal_kCal", "stcal"⟩, ⟨"Calories_percent_of_Goal", "scalp"⟩, ⟨"Move_kCal", "ham"⟩,
   ⟨"Move_Goal_kCal", "htam"⟩, ⟨"Exercise_mins", "hae"⟩, ⟨"Exercise_Goal_mins", "htae"⟩, ⟨"Stand_hrs", "has"⟩,
   ⟨"Stand_Goal_hrs", "htas"⟩, ⟨"Flights_Climbed", "hfc"⟩, ⟨"Heart_Rate", "shr"⟩, ⟨"Heart_Rate_Maximum", "sthr"⟩,
   ⟨"Heart_Rate_percent_of_Maximum", "shrp"⟩, ⟨"Heart_Rate_Previous", "shr_1"⟩, ⟨"Heart_Rate_Previous_2", "shr_2"⟩,
   ⟨"Accelerometer_X", "sax"⟩, ⟨"Accelerometer_Y", "say"⟩, ⟨"Accelerometer_Z", "saz"⟩, ⟨"Gyroscope_X", "sgx"⟩,
   ⟨"Gyroscope_Y", "sgy"⟩, ⟨"Gyroscope_Z", "sgz"⟩, ⟨"Compass_for_Rotation", "scr"⟩, ⟨"Compass_Display", "sct"⟩,
   ⟨"Compass_Display_degrees", "sctd"⟩, ⟨"Compass_Bearing_NE", "scb"⟩, ⟨"Compass_Bearing_NNE", "scbb"⟩,
   ⟨"Compass_Display_degrees_NE", "sctdb"⟩, ⟨"Compass_Display_degrees_NNE", "sctdbb"⟩, ⟨"Barometric_Pressure", "sprs"⟩]

def complicationTags (n : Nat) : List Tag :=
  family s!"Complication_{n}_" s!"m{n}"
    [⟨"Text", "text"⟩, ⟨"Title", "title"⟩, ⟨"Value", "value"⟩, ⟨"Min", "min"⟩, ⟨"Max", "max"⟩]

def tags : List Tag :=
  timeTags ++ [1, 2, 3].flatMap zoneTags ++
    [⟨"Current_Color", "ucolor"⟩, ⟨"Current_Color_Brighter", "ucolor_b"⟩,
     ⟨"Seconds_elapsed_since_loaded", "c_elapsed"⟩, ⟨"0_to_100_in_2s_stop", "c_0_100_2_st"⟩,
     ⟨"0_to_100_in_2s_repeat", "c_0_100_2_rp"⟩, ⟨"0_to_100_in_2s_reverse", "c_0_100_2_rv"⟩,
     ⟨"0_to_100_in_2s_reverse_delay", "c_0_100_2_rv_2"⟩] ++
    batteryTags ++ family "Phone_" "p" batteryTags ++ deviceTags ++ stopwatchTags ++ weatherTags ++
    [1, 2].flatMap hourTags ++ [0, 1].flatMap dayTags ++ [⟨"Events_Exist", "cex"⟩] ++ eventTags ++ sensorTags ++
    [1, 2, 3, 4].flatMap complicationTags

def tagOfLabel? (label : String) : Option Tag := tags.find? (·.label == label)

end WatchFace.Script
