import OpenAppFilter.Base.CFile
import OpenAppFilter.Base.Words
import OpenAppFilter.Daemon.Split

/-!
# What the devices visit (`appfilter_user.c`)

`update_dev_visiting_info` reads `/proc/net/af_visit` line by line and copies
the app and the URL of each line to the device its MAC names. The three words of
a line are scanned with `%s`, without a width, into three buffers that are
declared outside the loop: a word that does not fit is written past its buffer,
and a buffer that gets no word keeps the one of an earlier line.
-/

namespace OpenAppFilter.Daemon

open Base

/-- `sizeof` of `mac_buf`, `app_buf` and `url_buf`. -/
def visitBufLen : Nat := 32

/-- The buffers. Only `%s` writes to them. -/
structure VisitBufs where
  mac : CStr := []
  app : CStr := []
  url : CStr := []
  url_noSpace : NoSpace url := by exact noSpace_nil

/-- The third word of a line, else what the buffer held. -/
def thirdWord (line : CStr) (b : VisitBufs) : CStr := (words line).getD 2 b.url

theorem noSpace_thirdWord (line : CStr) (b : VisitBufs) : NoSpace (thirdWord line b) := by
  unfold thirdWord
  rw [List.getD_eq_getElem?_getD]
  cases hw : (words line)[2]? with
  | none => exact b.url_noSpace
  | some w => exact noSpace_of_mem_words (List.mem_of_getElem? hw)

/-- `sscanf(line_buf, "%s %s %s", mac_buf, app_buf, url_buf)`; `none` when one
of the words and its NUL do not fit. -/
def scanVisit (line : CStr) (b : VisitBufs) : Option VisitBufs :=
  if ∀ w ∈ (words line).take 3, w.length < visitBufLen then
    some
      { mac := (words line).getD 0 b.mac
        app := (words line).getD 1 b.app
        url := thirdWord line b
        url_noSpace := noSpace_thirdWord line b }
  else none

/-- `dev_node_t` with the two fields `update_dev_visiting_info` writes. -/
structure DevVisitNode extends DevNode where
  visitingUrl : CStr := []
  visitingApp : Int32 := 0

abbrev DevVisitTable := HTable CStr DevVisitNode maxDevNodeHashSize devHashMac

/-- The URL of a scanned word: `none` stands for no URL. -/
def visitedUrl (word : CStr) : CStr := if word = "none".toList then [] else word

/-- What a line writes to its device. -/
def DevVisitNode.visit (url : CStr) (app : Int32) (node : DevVisitNode) : DevVisitNode :=
  { node with visitingUrl := url, visitingApp := app }

/-- The loop body, on what `fgets` left in `line_buf`. -/
def visitLine (s : VisitBufs × DevVisitTable) (buf : List Char) :
    Option (VisitBufs × DevVisitTable) :=
  (scanVisit (cString buf) s.1).map (fun b =>
    (b, s.2.modify b.mac (DevVisitNode.visit (visitedUrl b.url) (atoi b.app))))

/-- `update_dev_visiting_info`; `none` for the file when it cannot be opened, and
for the result when a word is written past its buffer. -/
def updateDevVisitingInfo (file : Option CStr) (devs : DevVisitTable) : Option DevVisitTable :=
  match file with
  | none => some devs
  | some text =>
      (((fgetsAll 256 text).drop 1).foldlM visitLine ({}, devs)).map Prod.snd

end OpenAppFilter.Daemon
