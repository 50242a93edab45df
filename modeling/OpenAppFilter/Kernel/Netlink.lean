import OpenAppFilter.Base.CFile

/-!
# Messages from the daemon (`app_filter.c`)

The netlink receiver. A message is a netlink header, an `af_msg_hdr` with
magic and length, an `af_msg_t` with the action, and the action's data. The
receiver checks length and magic and calls one of three functions of the
module; `KernelCall` is that call with its argument.
-/

namespace OpenAppFilter.Kernel

open Base

def afMsgMagic : BitVec 32 := 0xa0b0c0d0#32
def maxOafNetlinkMsgLen : Int := 1024
def maxFeatureLineLen : Nat := 600

/-- `sizeof(struct nlmsghdr)`, `sizeof(struct af_msg_hdr)` and
`sizeof(af_msg_t)`. -/
def nlmsgHdrLen : Nat := 16
def sizeofAfMsgHdr : Nat := 8
def sizeofAfMsg : Nat := 4

/-- `enum E_MSG_TYPE`. -/
def afMsgInit : BitVec 32 := 0#32
def afMsgAddFeature : BitVec 32 := 1#32
def afMsgCleanFeature : BitVec 32 := 2#32

/-- What the receiver calls for a message. -/
inductive KernelCall where
  /-- `af_client_list_reset_report_num`, and `report_flag = 1` -/
  | resetReportNum
  /-- `af_init_feature(feature)` -/
  | initFeature (feature : CStr)
  /-- `af_clean_feature_list()` -/
  | cleanFeatureList
  deriving DecidableEq, Repr

/-- `af_add_feature_msg_handle`; `data` is the memory from the action's data on.
`strncpy` into the zeroed buffer stops at a NUL. -/
def afAddFeatureMsgHandle (data : List Char) (len : Int) : Option KernelCall :=
  if len ≤ 0 ∨ len ≥ maxFeatureLineLen then none
  else some (.initFeature (cString (data.take len.toNat)))

/-- `oaf_user_msg_handle`. -/
def oafUserMsgHandle (o : ByteOrder) (data : List Char) (len : Int) : Option KernelCall :=
  if len < sizeofAfMsg then none
  else
    let action := intAt o data
    if action = afMsgInit then some .resetReportNum
    else if action = afMsgAddFeature then
      afAddFeatureMsgHandle (data.drop sizeofAfMsg) (len - sizeofAfMsg)
    else if action = afMsgCleanFeature then some .cleanFeatureList
    else none

/-- `oaf_msg_rcv` on the bytes of a netlink message. -/
def oafMsgRcv (o : ByteOrder) (skb : List Char) : Option KernelCall :=
  if skb.length ≥ nlmsgHdrLen then
    let umsg := skb.drop nlmsgHdrLen
    let len := (intAt o (umsg.drop 4)).toInt
    if intAt o umsg ≠ afMsgMagic then none
    else if len ≤ 0 ∨ len ≥ maxOafNetlinkMsgLen then none
    else oafUserMsgHandle o (umsg.drop sizeofAfMsgHdr) len
  else none

end OpenAppFilter.Kernel
