import OpenAppFilter.Base.CFile
import OpenAppFilter.Base.Words
import OpenAppFilter.Daemon.DevLists
import OpenAppFilter.Kernel.ClientSeq
import OpenAppFilter.Kernel.Report

/-!
# The client list between kernel and daemon (`af_client_fs.c`, `appfilter_user.c`)

The lines of `/proc/net/af_client` as `af_client_seq_show` prints them, and
`update_dev_from_kernel`, which scans them with `sscanf` and writes them to the
device table.

Conventions.

* `ip6c` is the format `%pI6c` of the kernel.
* The rates are those of the timers; a table of clients does not hold them.
* `index` counts the calls of `show`, which a reader that comes between may have
  called too; the `Id` of a line can be any number.
* A word that does not fit its buffer is `none`: `%s` has no width.
-/

namespace OpenAppFilter.Kernel

open Base

/-! ## Printing -/

/-- The first line of the file. -/
def clientTitles : CStr :=
  leftAligned 4 "Id".toList ++ ' ' :: (leftAligned 20 "Mac".toList ++ ' ' ::
    (leftAligned 20 "IP".toList ++ ' ' :: (leftAligned 32 "IPv6".toList ++ ' ' :: ' ' ::
      (leftAligned 16 "UpRate".toList ++ ' ' :: leftAligned 16 "DownRate".toList))))

/-- The line of a node, without its newline. -/
def clientLine (ip6c : Ipv6 → CStr) (index : Int32) (mac : Mac) (info : AfClientInfo)
    (rate : FlowRate) : CStr :=
  leftAligned 4 (decimal index) ++ ' ' :: (leftAligned 20 (macText mac) ++ ' ' ::
    (leftAligned 20 (ipText info.ip) ++ ' ' :: (leftAligned 32 (ip6c info.ipv6) ++ ' ' ::
      (leftAligned 16 (decimal (Int32.ofBitVec rate.upRate)) ++ ' ' ::
        leftAligned 16 (decimal (Int32.ofBitVec rate.downRate))))))

/-- `af_client_seq_show`, behind what it looks up. -/
def recordLine (ip6c : Ipv6 → CStr) (index : Nat → Int32) (rate : Mac → FlowRate) (pos : Nat) :
    SeqRecord → Option CStr
  | .titles => some clientTitles
  | .client mac info => some (clientLine ip6c (index pos) mac info (rate mac))
  | .stray => none

/-- The contents of the file: the records it shows, one line each. -/
def clientFile (ip6c : Ipv6 → CStr) (index : Nat → Int32) (rate : Mac → FlowRate)
    (records : List SeqRecord) : Option (List Char) :=
  (records.zipIdx.mapM (fun r => recordLine ip6c index rate r.2 r.1)).map
    (List.flatMap (fun line => line ++ ['\n']))

end OpenAppFilter.Kernel

namespace OpenAppFilter.Daemon

open Base Kernel

/-! ## Scanning -/

/-- One `%s`: the word and the unread text. -/
def scanWord (s : CStr) : Option (CStr × CStr) :=
  let s := skipSpaces s
  let word := s.takeWhile (fun c => !isSpace c)
  if word = [] then none else some (word, s.drop word.length)

/-- A word in a buffer of `size` bytes. -/
def wordIn (size : Nat) (s : CStr) : Option (Option (CStr × CStr)) :=
  match scanWord s with
  | none => some none
  | some (word, rest) => if word.length < size then some (some (word, rest)) else none

/-- `sscanf(line_buf, "%d %s %s %s %u %u", ...)` with the check of what it returned;
the inner `none` is a line that is skipped. -/
def scanClient (line : CStr) : Option (Option DevClientLine) := do
  let some (_, rest) := scanInt line | some none
  let some (mac, rest) ← wordIn 32 rest | some none
  let some (ip, rest) ← wordIn 32 rest | some none
  let some (ipv6, rest) ← wordIn 128 rest | some (some { mac := mac, ip := ip })
  let some (upRate, rest) := scanUInt rest
    | some (some { mac := mac, ip := ip, ipv6 := some ipv6 })
  let some (downRate, _) := scanUInt rest
    | some (some { mac := mac, ip := ip, ipv6 := some ipv6, upRate := some upRate })
  some (some { mac := mac, ip := ip, ipv6 := some ipv6, upRate := some upRate, downRate := some downRate })

/-! ## Updating -/

/-- One line; `calloc` is what the allocator returns for the node of a key. -/
def clientLineStep (calloc : CStr → Option Nat) (now : UInt32) (s : DevLists) (buf : List Char) :
    Option DevLists := do
  let some l ← scanClient (cString buf) | some s
  devStep s (.client l (calloc (strncpy maxMacLen l.mac)) now)

/-- `update_dev_from_kernel`; `none` for the file when it cannot be opened. -/
def DevLists.updateDevFromKernel (calloc : CStr → Option Nat) (now : UInt32)
    (file : Option (List Char)) (s : DevLists) : Option DevLists :=
  match file with
  | none => some s
  | some text => ((fgetsAll 256 text).drop 1).foldlM (clientLineStep calloc now) s

/-- The parts of `update_dev_list` that write `online`: `clean_dev_online_status`, the
leases of `update_dev_hostname`, and `update_dev_online_status`. -/
def DevLists.updateDevList (calloc : CStr → Option Nat) (now : UInt32)
    (leases : List (CStr × CStr × CStr)) (file : Option (List Char)) (s : DevLists) :
    Option DevLists := do
  let s ← s.cleanDevOnlineStatus now
  let s ← leases.foldlM
    (fun s (mac, ip, hostname) =>
      devStep s (.lease mac ip hostname (calloc (strncpy maxMacLen mac)) now)) s
  s.updateDevFromKernel calloc now file

end OpenAppFilter.Daemon
