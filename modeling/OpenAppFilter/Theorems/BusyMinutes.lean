import OpenAppFilter.Daemon.Devices
import OpenAppFilter.Theorems.FlowLedger

/-!
# The minutes a device was busy

A tick of the timer is busy when enough packets came since the last one. The
timer raises `active` at a busy tick and lowers it when `inactive_time` has gone
past 30, so the flag says whether one of the last 31 ticks was busy. Every
thirtieth tick sends it to the daemon, before it counts its own packets, and the
daemon adds a minute to the device when the flag is up.

`inactive_time` is an `int` that keeps counting while the client is idle. It is
read only while the flag is up, and is at most 30 then.
-/

namespace OpenAppFilter.Theorems

open Base Kernel Daemon

variable {env : Env}

/-! ## Packets of a tick -/

/-- The packets between two ticks. -/
structure TickLoad where
  up : Nat := 0
  down : Nat := 0

/-- `pkt_up_rate` and `pkt_down_rate`: packets a second, as a `u32`. -/
def packetRate (packets : Nat) : BitVec 32 := BitVec.ofNat 32 (packets / 2)

def TickLoad.busy (l : TickLoad) : Bool :=
  decide (packetRate l.down > 10 ∨ packetRate l.up > 5)

/-- The packets since the last tick, and those of every tick so far, the last
tick first. -/
structure LoadHistory where
  current : TickLoad := {}
  ticks : List TickLoad := []

def loadStep (h : LoadHistory) : ClientEvent → LoadHistory
  | .up _ => { h with current := { h.current with up := h.current.up + 1 } }
  | .down _ => { h with current := { h.current with down := h.current.down + 1 } }
  | .tick _ => { ticks := h.current :: h.ticks }

/-- The packets of each tick of a record, the last tick first. -/
def tickLoads (es : List ClientEvent) : List TickLoad := (run loadStep {} es).ticks

/-- One of the last 31 ticks was busy. -/
def recentlyBusy (ticks : List TickLoad) : Bool := (ticks.take 31).any TickLoad.busy

/-- The ticks since the last busy one. -/
def idleTicks (ticks : List TickLoad) : Nat := (ticks.takeWhile (fun l => !l.busy)).length

theorem idleTicks_cons (l : TickLoad) (ticks : List TickLoad) :
    idleTicks (l :: ticks) = if l.busy then 0 else idleTicks ticks + 1 := by
  unfold idleTicks
  rw [List.takeWhile_cons]
  cases l.busy <;> rfl

/-- The search for a busy tick comes to the first one there is. -/
theorem any_take_busy_iff (ticks : List TickLoad) : ∀ n : Nat,
    (ticks.take n).any TickLoad.busy = true ↔ idleTicks ticks < n ∧ idleTicks ticks < ticks.length := by
  induction ticks with
  | nil =>
      intro n
      simp [idleTicks]
  | cons l ticks ih =>
      intro n
      cases n with
      | zero => simp
      | succ n =>
          rw [List.take_succ_cons, List.any_cons, idleTicks_cons, Bool.or_eq_true, ih n,
            List.length_cons]
          cases l.busy with
          | true => simp
          | false =>
              simp only [Bool.false_eq_true, false_or, if_false]
              omega

/-- The update of the flag, as the code makes it: an idle tick lowers it when the
ticks since the last busy one are more than 30. -/
theorem recentlyBusy_cons (l : TickLoad) (ticks : List TickLoad) :
    recentlyBusy (l :: ticks) =
      (l.busy || (recentlyBusy ticks && !decide (idleTicks ticks + 1 > 30))) := by
  have hcons := any_take_busy_iff (l :: ticks) 31
  have hticks := any_take_busy_iff ticks 31
  rw [idleTicks_cons, List.length_cons] at hcons
  unfold recentlyBusy
  rw [Bool.eq_iff_iff, hcons, Bool.or_eq_true, Bool.and_eq_true, hticks, Bool.not_eq_true',
    decide_eq_false_iff_not]
  cases l.busy with
  | true => simp
  | false =>
      simp only [Bool.false_eq_true, if_false, false_or]
      omega

/-! ## One event -/

/-- `timer_count` after so many ticks. -/
def timerCountAfter (ticks : Nat) : Nat := if ticks = 0 then 0 else (ticks - 1) % 30 + 1

/-- The thirtieth tick after a report, or after the creation of the record, has
been: the next one reports. -/
theorem timerCountAfter_ge_iff (ticks : Nat) :
    timerCountAfter ticks ≥ 30 ↔ 30 ≤ ticks ∧ ticks % 30 = 0 := by
  unfold timerCountAfter
  split <;> omega

theorem timerCountAfter_succ (ticks : Nat) :
    timerCountAfter (ticks + 1) =
      (if timerCountAfter ticks ≥ 30 then 0 else timerCountAfter ticks) + 1 := by
  unfold timerCountAfter
  split <;> split <;> split <;> omega

/-- The record says of the packets what the history says. -/
structure Follows (c : AfClientNode) (h : LoadHistory) : Prop where
  up : c.flow.upPkts = c.lastFlow.upPkts + h.current.up
  down : c.flow.downPkts = c.lastFlow.downPkts + h.current.down
  inactive : c.inactiveTime = idleTicks h.ticks
  active : c.active = recentlyBusy h.ticks
  timer : c.timerCount = timerCountAfter h.ticks.length

theorem follows_newLedger (k : OafState env) : Follows (newLedger k).node {} :=
  ⟨rfl, rfl, rfl, rfl, rfl⟩

/-- What `af_update_client_status` makes of the packets since the last tick. -/
theorem afUpdateClientStatus_activity (c : AfClientNode) (l : TickLoad)
    (hup : c.flow.upPkts = c.lastFlow.upPkts + l.up)
    (hdown : c.flow.downPkts = c.lastFlow.downPkts + l.down) :
    (afUpdateClientStatus c).inactiveTime = (if l.busy then 0 else c.inactiveTime + 1) ∧
      (afUpdateClientStatus c).active =
        (l.busy || (c.active && !decide (c.inactiveTime + 1 > 30))) := by
  have hupRate : BitVec.ofNat 32 ((c.flow.upPkts - c.lastFlow.upPkts) / 2) = packetRate l.up := by
    rw [hup, Nat.add_sub_cancel_left]
    rfl
  have hdownRate :
      BitVec.ofNat 32 ((c.flow.downPkts - c.lastFlow.downPkts) / 2) = packetRate l.down := by
    rw [hdown, Nat.add_sub_cancel_left]
    rfl
  unfold afUpdateClientStatus TickLoad.busy
  simp only [hupRate, hdownRate]
  split
  · rename_i hbusy
    rw [decide_eq_true hbusy]
    exact ⟨rfl, rfl⟩
  · rename_i hidle
    rw [decide_eq_false hidle]
    exact ⟨rfl, rfl⟩

/-- A report changes nothing the timer decides by. -/
theorem afVisitInfoReport_activity (mac : Mac) (io : ReportIo) (c : AfClientNode) :
    (afVisitInfoReport mac io c).1.inactiveTime = c.inactiveTime ∧
      (afVisitInfoReport mac io c).1.active = c.active := by
  unfold afVisitInfoReport
  split
  · exact ⟨rfl, rfl⟩
  · dsimp only
    split <;> exact ⟨rfl, rfl⟩

/-- The record a tick hands to `af_update_client_status`. -/
theorem clientTimerHandler_cases (mac : Mac) (io : ReportIo) (c : AfClientNode) :
    ∃ c', c'.flow = c.flow ∧ c'.lastFlow = c.lastFlow ∧ c'.inactiveTime = c.inactiveTime ∧
      c'.active = c.active ∧
      c'.timerCount = (if c.timerCount ≥ 30 then 0 else c.timerCount) ∧
      (clientTimerHandler mac io c).1 =
        { afUpdateClientStatus c' with timerCount := c'.timerCount + 1 } := by
  unfold clientTimerHandler
  by_cases hdue : c.timerCount ≥ 30
  · obtain ⟨hflow, hlast, -⟩ := afVisitInfoReport_cases mac io c
    obtain ⟨hinactive, hactive⟩ := afVisitInfoReport_activity mac io c
    rw [if_pos hdue, if_pos hdue]
    exact ⟨{ (afVisitInfoReport mac io c).1 with timerCount := 0 }, hflow, hlast, hinactive,
      hactive, rfl, rfl⟩
  · rw [if_neg hdue, if_neg hdue]
    exact ⟨c, rfl, rfl, rfl, rfl, rfl, rfl⟩

theorem follows_step (mac : Mac) {s : Ledger} {h : LoadHistory} (hs : Follows s.node h)
    (e : ClientEvent) : Follows (ledgerStep mac s e).node (loadStep h e) := by
  cases e with
  | up skb =>
      refine ⟨?_, ?_, hs.inactive, hs.active, hs.timer⟩
      · show (touchSender skb s.node.toAfClientInfo).flow.upPkts = _
        rw [touchSender_flow]
        show s.node.flow.upPkts + 1 = s.node.lastFlow.upPkts + (h.current.up + 1)
        rw [hs.up, Nat.add_assoc]
      · show (touchSender skb s.node.toAfClientInfo).flow.downPkts = _
        rw [touchSender_flow]
        exact hs.down
  | down skb =>
      refine ⟨hs.up, ?_, hs.inactive, hs.active, hs.timer⟩
      show s.node.flow.downPkts + 1 = s.node.lastFlow.downPkts + (h.current.down + 1)
      rw [hs.down, Nat.add_assoc]
  | tick io =>
      obtain ⟨c, hflow, hlast, hinactive, hactive, htimer, heq⟩ :=
        clientTimerHandler_cases mac io s.node
      obtain ⟨hidle, hflag⟩ := afUpdateClientStatus_activity c h.current
        (by rw [hflow, hlast]; exact hs.up) (by rw [hflow, hlast]; exact hs.down)
      show Follows (clientTimerHandler mac io s.node).1 { ticks := h.current :: h.ticks }
      rw [heq]
      refine ⟨?_, ?_, ?_, ?_, ?_⟩
      · show (afUpdateClientStatus c).flow.upPkts = (afUpdateClientStatus c).lastFlow.upPkts + 0
        rw [afUpdateClientStatus_flow, afUpdateClientStatus_lastFlow, Nat.add_zero]
      · show (afUpdateClientStatus c).flow.downPkts =
          (afUpdateClientStatus c).lastFlow.downPkts + 0
        rw [afUpdateClientStatus_flow, afUpdateClientStatus_lastFlow, Nat.add_zero]
      · show (afUpdateClientStatus c).inactiveTime = _
        rw [hidle, hinactive, hs.inactive, idleTicks_cons]
      · show (afUpdateClientStatus c).active = _
        rw [hflag, hinactive, hactive, hs.inactive, hs.active, recentlyBusy_cons]
      · show c.timerCount + 1 = timerCountAfter (h.ticks.length + 1)
        rw [htimer, hs.timer, timerCountAfter_succ]

/-! ## Runs -/

theorem follows_run (mac : Mac) (es : List ClientEvent) : ∀ {s : Ledger} {h : LoadHistory},
    Follows s.node h → Follows (run (ledgerStep mac) s es).node (run loadStep h es) := by
  induction es with
  | nil => exact id
  | cons e es ih =>
      intro s h hs
      rw [run_cons, run_cons]
      exact ih (follows_step mac hs e)

theorem length_tickLoads (es : List ClientEvent) :
    (tickLoads es).length = es.countP (·.isTick) := by
  unfold tickLoads
  induction es using List.reverseRecOn with
  | nil => rfl
  | append_singleton es e ih =>
      rw [run_append, List.countP_append, ← ih]
      cases e <;> rfl

/-- What a tick sends. -/
theorem clientTimerHandler_report (mac : Mac) (io : ReportIo) (c : AfClientNode) :
    (clientTimerHandler mac io c).2 =
      if c.timerCount ≥ 30 ∧ io.createObject = true ∧ io.print = true then
        some (afSendMsgToUser io (reportText mac c))
      else none := by
  unfold clientTimerHandler afVisitInfoReport
  split
  · rename_i hdue
    cases io.createObject with
    | false => simp
    | true =>
        cases io.print with
        | false => simp
        | true => simp [hdue]
  · rename_i hdue
    rw [if_neg (fun h => hdue h.1)]

/-- The number of the member `active`. -/
def flagValue (flag : Bool) : Int32 := if flag then 1 else 0

theorem jsonBool_eq_flagValue (flag : Bool) : jsonBool flag = decimal (flagValue flag) := by
  cases flag <;> rfl

/-- **A minute is charged when the device was busy.** From the creation of a
record on, after any packets and ticks: `active` is up iff one of the last 31
ticks was busy; the next tick reports iff the ticks so far are thirty or a
multiple of it, and what it sends carries the flag of the ticks before it; and
the daemon adds a minute for that number iff the flag is up. -/
theorem active_iff_recentlyBusy (mac : Mac) (k : OafState env) (es : List ClientEvent)
    (io : ReportIo) :
    let c := (run (ledgerStep mac) (newLedger k) es).node
    let flag := recentlyBusy (tickLoads es)
    (c.active = true ↔ ∃ l ∈ (tickLoads es).take 31, packetRate l.down > 10 ∨ packetRate l.up > 5) ∧
      (clientTimerHandler mac io c).2 =
        (if (30 ≤ es.countP (·.isTick) ∧ es.countP (·.isTick) % 30 = 0) ∧
            io.createObject = true ∧ io.print = true then
          some (afSendMsgToUser io (reportText mac { c with active := flag }))
        else none) ∧
      jsonBool flag = decimal (flagValue flag) ∧
      ∀ (dev : DevName) (hour : Fin 24) (devs : DevTable),
        appfilterNlHandler dev (some (flagValue flag)) hour devs =
          (devs.addNew dev.val {}).modify dev.val
            (fun node => if flag then node.addMinute hour else node) := by
  intro c flag
  have hfollow : Follows c (run loadStep {} es) := follows_run mac es (follows_newLedger k)
  have hactive : c.active = flag := hfollow.active
  refine ⟨?_, ?_, jsonBool_eq_flagValue flag, ?_⟩
  · rw [hactive]
    simp only [flag, recentlyBusy, List.any_eq_true, TickLoad.busy, decide_eq_true_eq]
  · have hsame : ({ c with active := flag } : AfClientNode) = c := by rw [← hactive]
    have htimer : c.timerCount = timerCountAfter (es.countP (·.isTick)) := by
      rw [hfollow.timer, ← length_tickLoads]
      rfl
    rw [hsame, clientTimerHandler_report, htimer]
    simp only [timerCountAfter_ge_iff]
  · intro dev hour devs
    unfold appfilterNlHandler
    cases flag <;> rfl

end OpenAppFilter.Theorems
