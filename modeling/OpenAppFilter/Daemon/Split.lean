import OpenAppFilter.Daemon.Config
import OpenAppFilter.Kernel.Proc

/-!
# Device table and per-device limits (`appfilter_user.c`, `oaf_split.c`)

The daemon keeps its own table of devices, keyed by the mac as text, with the
minutes each was active in either half of the day. In split mode every device
is held against the limit on its own, and the result is written to the kernel
as text: `clear`, then one `+MAC` for every selected device over its limit.

Conventions.

* `is_selected`, `is_whitelist`, `period_blocked` and `online` only ever hold 0
  and 1.
* Each call of `time` is a reading of its own. `check_and_reset_today_active_time`
  reads the clock once for every device.
* A text is written by `fopen`, `fprintf`, `fclose`; whether `fopen` succeeds
  is an input.
-/

namespace OpenAppFilter.Daemon

open Base Kernel

variable {env : Env}

/-! ## Clock and status -/

/-- The fields of `struct tm` that are read. -/
structure Tm where
  wday : Fin 7
  hour : Fin 24
  min : Fin 60
  deriving DecidableEq

/-- The readings of one limit check: its own, and the one made for each
device. -/
structure Clock where
  now : Tm
  dev : CStr → Tm

/-- `af_run_time_status_t`, cleared by `af_init_time_status`. -/
structure AfStatus where
  denyTime : Int32 := 0
  allowTime : Int32 := 0
  filter : Int32 := 0
  matchTime : Int32 := 0
  remainTime : Int32 := 0
  usedTime : Int32 := 0
  periodBlocked : Int32 := 0
  deriving DecidableEq

/-! ## Device table -/

def maxMacLen : Nat := 32
def maxDevNodeHashSize : Nat := 64

/-- `hash_mac`: 32-bit arithmetic over the first `MAX_MAC_LEN` characters. -/
def devHashMac (mac : CStr) : Fin maxDevNodeHashSize :=
  ⟨((mac.take maxMacLen).foldl (fun (hash : BitVec 32) c => hash * 31#32 + BitVec.ofNat 32 c.toNat)
    0).toNat % maxDevNodeHashSize, Nat.mod_lt _ (by decide)⟩

/-- `dev_node_t`; the mac is the table key. -/
structure DevNode where
  online : Bool := true
  isWhitelist : Bool := false
  todayAmActiveTime : UInt32 := 0
  todayPmActiveTime : UInt32 := 0
  isSelected : Bool := false
  periodBlocked : Bool := false

abbrev DevTable := HTable CStr DevNode maxDevNodeHashSize devHashMac

/-- The two static variables of `check_and_reset_today_active_time`. -/
structure LastReset where
  hour : Int := -1
  min : Int := -1

/-- `check_and_reset_today_active_time`: at noon the morning's minutes are
cleared, unless the last call was at noon already. -/
def checkAndResetTodayActiveTime (now : Tm) (last : LastReset) (node : DevNode) :
    DevNode × LastReset :=
  if now.hour.val = 12 ∧ now.min.val = 0 then
    if last.hour ≠ 12 ∨ last.min ≠ 0 then ({ node with todayAmActiveTime := 0 }, ⟨12, 0⟩)
    else (node, last)
  else (node, ⟨now.hour.val, now.min.val⟩)

/-- `check_all_users_period_time`. -/
def checkAllUsersPeriodTime (clock : CStr → Tm) (devs : DevTable) (last : LastReset) :
    DevTable × LastReset :=
  devs.mapAccum (fun last mac node => checkAndResetTodayActiveTime (clock mac) last node) last

/-- The minutes of the half-day `hour` lies in. -/
def DevNode.activeTime (node : DevNode) (hour : Fin 24) : UInt32 :=
  if hour.val < 12 then node.todayAmActiveTime else node.todayPmActiveTime

/-- The limit of the half-day `now` lies in: `max_allowed_time`. -/
def maxAllowedTime (limit : DailyLimitConfig) (now : Tm) : Int32 :=
  if now.hour.val < 12 then limit.amTime else limit.pmTime

/-! ## Writing to the kernel -/

/-- The integer entries of `/proc/sys/oaf` the daemon writes. -/
inductive ProcKey where
  | enable
  | recordEnable
  | disableQuic
  | appFilterMode
  | splitTime
  | lanIp
  | lanMask
  deriving DecidableEq

/-- Which accesses to `/proc/sys/oaf` succeed: for an integer entry the read
and the write, for `blocked_macs` the `fopen` in front of each text. -/
structure ProcIo where
  value : ProcKey → Bool
  blockedMacs : CStr → Bool

/-- Every access succeeds. -/
def ProcIo.Ok (io : ProcIo) : Prop :=
  (∀ key, io.value key = true) ∧ ∀ text, io.blockedMacs text = true

/-- The device is one whose block is written out. -/
def DevNode.toSync (node : DevNode) : Bool := node.isSelected && node.periodBlocked

/-- The texts `af_split_sync_blocked_macs` writes, in order. -/
def syncTexts (io : ProcIo) (devs : DevTable) : List CStr :=
  if io.blockedMacs "clear".toList then
    "clear".toList ::
      ((devs.entries.filter (fun e => e.2.toSync)).map (fun e => '+' :: e.1)).filter io.blockedMacs
  else []

/-- One text after the other through the kernel's handler. -/
def writeTexts (texts : List CStr) (k : OafState env) : OafState env :=
  texts.foldl (fun k text => (oafBlockedMacsHandler k text).1) k

/-- `af_split_sync_blocked_macs`. -/
def afSplitSyncBlockedMacs (io : ProcIo) (devs : DevTable) (k : OafState env) : OafState env :=
  writeTexts (syncTexts io devs) k

/-! ## The limit check -/

/-- The part of the daemon's state the limit checks work on. -/
structure DevState where
  devs : DevTable := HTable.empty
  lastReset : LastReset := {}
  status : AfStatus := {}

/-- One round of the decision loop: a selected device is blocked iff it reached
the limit, another one keeps its flag. -/
def DevNode.mark (node : DevNode) (hour : Fin 24) (limit : UInt32) : DevNode :=
  if node.isSelected then { node with periodBlocked := decide (limit ≤ node.activeTime hour) }
  else node

/-- The decision loop. -/
def markOverLimit (devs : DevTable) (hour : Fin 24) (limit : UInt32) : DevTable :=
  devs.mapVals (fun _ node => node.mark hour limit)

/-- `any_blocked` after the decision loop. -/
def anyOverLimit (devs : DevTable) (hour : Fin 24) (limit : UInt32) : Bool :=
  devs.entries.any (fun e => e.2.isSelected && decide (limit ≤ e.2.activeTime hour))

@[simp] theorem DevNode.mark_isSelected (node : DevNode) (hour : Fin 24) (limit : UInt32) :
    (node.mark hour limit).isSelected = node.isSelected := by
  unfold DevNode.mark
  split <;> rfl

@[simp] theorem DevNode.mark_activeTime (node : DevNode) (hour hour' : Fin 24) (limit : UInt32) :
    (node.mark hour limit).activeTime hour' = node.activeTime hour' := by
  unfold DevNode.mark
  split <;> rfl

@[simp] theorem DevNode.mark_toSync (node : DevNode) (hour : Fin 24) (limit : UInt32) :
    (node.mark hour limit).toSync =
      (node.isSelected && decide (limit ≤ node.activeTime hour)) := by
  unfold DevNode.mark DevNode.toSync
  cases hsel : node.isSelected with
  | false => simp [hsel]
  | true => simp

/-- `af_split_check_period_limit`: the daemon and the kernel afterwards, and
the returned value. -/
def afSplitCheckPeriodLimit (io : ProcIo) (config : AfTimeConfig) (clock : Clock) (d : DevState)
    (k : OafState env) : DevState × OafState env × Int :=
  let limit := config.dailyLimit clock.now.wday
  let unblocked := d.devs.mapVals (fun _ node => { node with periodBlocked := false })
  if limit.enable = 0 then
    ({ d with
        devs := unblocked
        status := { d.status with periodBlocked := 0, usedTime := 0, remainTime := 0 } },
      afSplitSyncBlockedMacs io unblocked k, 0)
  else if maxAllowedTime limit clock.now ≤ 0 then
    ({ d with devs := unblocked, status := { d.status with periodBlocked := 0 } },
      afSplitSyncBlockedMacs io unblocked k, 0)
  else
    let r := checkAllUsersPeriodTime clock.dev d.devs d.lastReset
    let allowed := (maxAllowedTime limit clock.now).toUInt32
    let anyBlocked := anyOverLimit r.1 clock.now.hour allowed
    let devs := markOverLimit r.1 clock.now.hour allowed
    ({ devs := devs
       lastReset := r.2
       status := { d.status with
         periodBlocked := if anyBlocked then 1 else 0
         usedTime := 0
         remainTime := 0
         matchTime := 1 } },
      afSplitSyncBlockedMacs io devs k, if anyBlocked then 1 else 0)

/-- The kernel is sent what the device table holds on return. -/
theorem afSplitCheckPeriodLimit_kernel (io : ProcIo) (config : AfTimeConfig) (clock : Clock)
    (d : DevState) (k : OafState env) :
    (afSplitCheckPeriodLimit io config clock d k).2.1 =
      afSplitSyncBlockedMacs io (afSplitCheckPeriodLimit io config clock d k).1.devs k := by
  unfold afSplitCheckPeriodLimit
  dsimp only
  split
  · rfl
  · split <;> rfl

end OpenAppFilter.Daemon
