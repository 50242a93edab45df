import OpenAppFilter.Base.Run
import OpenAppFilter.Kernel.Hook
import OpenAppFilter.Kernel.Proc

/-!
# The kernel module as a system

Everything that can change the module's state, one event each: configuration
messages, writes under `/proc/sys/oaf`, signature updates, the passage of
time, the timer, packets on the FORWARD and PRE_ROUTING hooks, and a write to a
conntrack mark by somebody else (a new connection starts with some mark).

A packet runs through its hooks without interruption; everything else may
happen between any two packets.
-/

namespace OpenAppFilter.Kernel

open Base

variable {env : Env}

/-- An event of the module. -/
inductive Event where
  | config (msg : Option ConfigMsg)
  | proc (w : ProcWrite)
  | blockedMacs (buffer : List Char)
  | addFeature (node : AfFeatureNode)
  | cleanFeature
  | pass (ticks seconds : Nat)
  | timer
  | ctMark (ct : Nat) (mark : BitVec 32)
  | forward (skb : Skb)
  | preRouting (skb : Skb)

/-- `oaf_timer_func`. -/
def oafTimerFunc (k : OafState env) : OafState env :=
  let k := if k.oafTimerCount % 60 = 0 then checkClientExpire k else k
  afConnCleanTimeout { k with oafTimerCount := k.oafTimerCount + 1 }

/-- `app_filter_hook`. -/
def appFilterHook (k : OafState env) (skb : Skb) : OafState env × Verdict :=
  if k.afWorkMode = afModeBypass then (k, .accept) else appFilterHookGatewayHandle k skb

/-- `app_filter_by_pass_hook`. -/
def appFilterByPassHook (k : OafState env) (skb : Skb) : OafState env × Verdict :=
  if k.afWorkMode = afModeGateway then (k, .accept) else appFilterHookBypassHandle k skb

/-- The module's hooks on the FORWARD chain, by priority: `af_client_hook`,
`app_filter_hook`, and `af_client_hook2` for a packet still alive. -/
def forwardHooks (k : OafState env) (skb : Skb) : OafState env × Verdict :=
  match appFilterHook (afClientHook k skb) skb with
  | (k, .drop) => (k, .drop)
  | (k, .accept) => (afClientHook2 k skb, .accept)

/-- One event. -/
def step (k : OafState env) : Event → OafState env
  | .config msg => (afConfigHandle k msg).1
  | .proc w => procWrite k w
  | .blockedMacs buffer => (oafBlockedMacsHandler k buffer).1
  | .addFeature node => { k with afFeatureHead := node :: k.afFeatureHead }
  | .cleanFeature => { k with afFeatureHead := [] }
  | .pass ticks seconds =>
      { k with jiffies := k.jiffies + ticks, timestamp := k.timestamp + seconds }
  | .timer => oafTimerFunc k
  | .ctMark ct mark => k.setMark ct mark
  | .forward skb => (forwardHooks k skb).1
  | .preRouting skb => (appFilterByPassHook k skb).1

/-- The state after `insmod`. -/
def boot (env : Env) (jiffies : Nat) : OafState env := { jiffies := jiffies }

/-- The call of `app_filter_hook_gateway_handle` an event leads to: the state
the handler meets and the packet. -/
def gatewayCall (k : OafState env) : Event → Option (OafState env × Skb)
  | .forward skb =>
      if (afClientHook k skb).afWorkMode = afModeBypass then none
      else some (afClientHook k skb, skb)
  | _ => none

/-- The call of `app_filter_hook_bypass_handle` an event leads to. -/
def bypassCall (k : OafState env) : Event → Option (OafState env × Skb)
  | .preRouting skb => if k.afWorkMode = afModeGateway then none else some (k, skb)
  | _ => none

/-! ## A concrete router

The hash is the kernel's `jhash_3words`; the packets below match no signature
with a URL, so the regular expression engine is never asked. -/

def jhashFinal (a b c : BitVec 32) : BitVec 32 :=
  let c := (c ^^^ b) - b.rotateLeft 14
  let a := (a ^^^ c) - c.rotateLeft 11
  let b := (b ^^^ a) - a.rotateLeft 25
  let c := (c ^^^ b) - b.rotateLeft 16
  let a := (a ^^^ c) - c.rotateLeft 4
  let b := (b ^^^ a) - a.rotateLeft 14
  (c ^^^ b) - b.rotateLeft 24

def routerEnv : Env where
  hz := 100
  longBits := 64
  jhash3words a b c initval :=
    let init := initval + 0xdeadbeef#32 + 12#32
    jhashFinal (a + init) (b + init) (c + init)
  regexpMatch _ _ := 0

def memOf (bytes : List UInt8) : Mem := fun i => bytes.getD i 0

/-- An IPv4 header without options in front of a transport segment. -/
def ipv4Bytes (proto : UInt8) (src dst l4 : List UInt8) : List UInt8 :=
  [0x45, 0, 0, UInt8.ofNat (20 + l4.length), 0, 0, 0, 0, 64, proto, 0, 0] ++ src ++ dst ++ l4

/-- A segment from port 12345 to port 80. -/
def tcpBytes (payload : List UInt8) : List UInt8 :=
  [0x30, 0x39, 0, 80, 0, 0, 0, 0, 0, 0, 0, 0, 0x50, 0x18, 0, 0, 0, 0, 0, 0] ++ payload

/-- A packet of a LAN device to 1.2.3.4. -/
def lanSkb (mac : Mac) (ct : Nat) (bytes : List UInt8) : Skb where
  devName := "br-lan".toList
  hSource := mac
  protocol := .ip
  net := memOf bytes
  len := bytes.length
  ct := some { id := ct, confirmed := true, acct := some 3 }

def lanTcp (mac : Mac) (src : List UInt8) (ct : Nat) : Skb :=
  lanSkb mac ct (ipv4Bytes 6 src [1, 2, 3, 4] (tcpBytes [0x68, 0x69]))

def phoneMac : Mac := ⟨0x02, 0, 0, 0, 0, 0x11⟩
def tabletMac : Mac := ⟨0x02, 0, 0, 0, 0, 0x12⟩
def phoneIp : List UInt8 := [192, 168, 1, 2]

/-- A signature that every TCP segment with data matches. -/
def tcpFeature : AfFeatureNode := { appId := 1001#32, proto := 6 }

/-- The message that adds one app to the filtered set. -/
def addAppMsg (appid : Int) : ConfigMsg :=
  { op := some 1, data := some { apps := some [appid] } }

end OpenAppFilter.Kernel
