import OpenAppFilter.Base.CFile
import OpenAppFilter.Base.CText
import OpenAppFilter.Daemon.Visits

/-!
# The names of the apps (`appfilter_config.c`)

The daemon reads the feature file for itself and keeps the name in front of the
colon of each line under its number.

Conventions.

* A text that does not fit in its buffer, or a line that does not fit in the table,
  is `none`. The buffer of the text in front of the colon holds its NUL, too.
* `app_id` is not initialised: without a number in the line it is `stale`, which may
  differ from line to line.
-/

namespace OpenAppFilter.Daemon

open Base

/-- `app_name_info_t`: `id` and `name`. -/
abbrev AppNameInfo := Int32 × CStr

def maxSupportAppNum : Nat := 1024

/-- Comments, short lines and lines without a colon are passed over. -/
def namesApp (lineBuf : CStr) : Bool :=
  !strstr lineBuf ['#'] && decide (10 ≤ lineBuf.length) && strstr lineBuf [':']

/-- `sscanf(app_info_buf, "%d %s", &app_id, app_name)` -/
def scanAppInfo (stale : Int32) (appInfoBuf : CStr) : AppNameInfo :=
  match scanInt appInfoBuf with
  | none => (stale, [])
  | some (appId, rest) =>
      (appId, (skipSpaces rest).takeWhile (fun c => !isSpace c))

/-- The entry of a line. -/
def appNameInfo (stale : Int32) (lineBuf : CStr) : Option AppNameInfo :=
  let appInfoBuf := lineBuf.takeWhile (fun c => decide (c ≠ ':'))
  if appInfoBuf.length ≥ 128 then none
  else
    let info := scanAppInfo stale appInfoBuf
    if info.2.length ≥ 64 then none else some info

/-- The loop body of `init_app_name_table`. -/
def appNameStep (stale : Nat → Int32) (appNameTable : List AppNameInfo) (lineBuf : CStr) :
    Option (List AppNameInfo) :=
  if namesApp lineBuf then
    if appNameTable.length ≥ maxSupportAppNum then none
    else (appNameInfo (stale appNameTable.length) lineBuf).map (fun info => appNameTable ++ [info])
  else some appNameTable

/-- `init_app_name_table` -/
def initAppNameTable (stale : Nat → Int32) (file : List Char) : Option (List AppNameInfo) :=
  (fgetsAll 2048 file).foldlM (appNameStep stale) []

end OpenAppFilter.Daemon
