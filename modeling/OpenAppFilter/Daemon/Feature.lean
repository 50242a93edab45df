import OpenAppFilter.Kernel.Netlink

/-!
# Loading the signature base (`main.c`, `appfilter_netlink.c`)

The daemon's side of a feature reload: the file is read line by line into a
600-byte buffer, each line is trimmed and checked, built into a message in a
1024-byte buffer, wrapped with the `af_msg_hdr` in another one, and sent.

A message that does not fit its buffer is `none`: the source copies it
regardless.
-/

namespace OpenAppFilter.Daemon

open Base Kernel

def maxNlMsgLen : Nat := 1024

/-- The loop of `str_trim` that moves `last` back; the argument is the index
behind `last`. -/
def trimEnd (s : CStr) (start : Nat) : Nat → Nat
  | 0 => 0
  | last + 1 =>
      if last > start ∧ isSpace (s.getD last '\x00') = true then trimEnd s start last
      else last + 1

/-- `str_trim`. The copy goes to a lower address of the same buffer. -/
def strTrim (s : CStr) : CStr :=
  let start := (s.takeWhile isSpace).length
  let last := trimEnd s start s.length
  if start ≠ 0 ∨ last ≠ s.length then (s.drop start).take (last - start) else s

/-- The memory and the machine a message is sent from: what `malloc` returned
for the netlink message, and the byte order. -/
structure NlSender where
  order : ByteOrder
  nlh : List Char
  nlh_length : nlh.length = nlmsgHdrLen + maxNlMsgLen

/-- `send_msg_to_kernel`: the bytes handed to `sendto`. The netlink header is
filled in; behind the message the memory is as `malloc` returned it. -/
def sendMsgToKernel (m : NlSender) (msg : List Char) : Option (List Char) :=
  let body := intBytes m.order afMsgMagic ++ intBytes m.order (BitVec.ofNat 32 msg.length) ++ msg
  if sizeofAfMsgHdr + msg.length ≤ maxNlMsgLen then
    some (m.nlh.take nlmsgHdrLen ++ body ++ m.nlh.drop (nlmsgHdrLen + body.length))
  else none

/-- `af_nl_clean_feature`: the message is the action alone. -/
def afNlCleanFeature (m : NlSender) : Option (List Char) :=
  sendMsgToKernel m (intBytes m.order afMsgCleanFeature)

/-- `af_nl_add_feature`: action, text and NUL, in a zeroed buffer. -/
def afNlAddFeature (m : NlSender) (feature : CStr) : Option (List Char) :=
  if sizeofAfMsg + feature.length + 1 ≤ maxNlMsgLen then
    sendMsgToKernel m (intBytes m.order afMsgAddFeature ++ feature ++ ['\x00'])
  else none

/-- The checks `af_load_feature_to_kernel` makes on a line; the line it
forwards. -/
def featureLine (buf : List Char) : Option CStr :=
  let line := strTrim (cString buf)
  if line.length < 8 then none
  else if strstr line ['#'] then none
  else if line.length ≥ maxFeatureLineLen - 1 then none
  else some line

/-- `af_load_feature_to_kernel`: the messages sent, with the return value. `fd`
is the netlink socket and `file` the contents of `/tmp/feature.cfg`. -/
def afLoadFeatureToKernel (m : NlSender) (fd : Int) (file : Option (List Char)) :
    List (Option (List Char)) × Int :=
  match file with
  | none => ([], -1)
  | some text =>
      if fd < 0 then ([], -1)
      else
        (afNlCleanFeature m ::
          ((fgetsAll maxFeatureLineLen text).filterMap featureLine).map (afNlAddFeature m), 0)

end OpenAppFilter.Daemon
