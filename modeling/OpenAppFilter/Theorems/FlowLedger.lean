import OpenAppFilter.Kernel.Report
import OpenAppFilter.Kernel.System
import Mathlib.Algebra.Order.Ring.Nat

/-!
# The bytes of a client, from the hooks to the reports

The hooks add every packet to `flow`, the timer moves what came since its last
tick from `flow` into the counters of the period, and a report takes these and
starts over. The move waits for a tick that finds `last_flow` above zero: the
first tick that sees traffic in a direction only remembers it, so what was
counted up to that tick is in no report. Everything after it is in exactly one.
-/

namespace OpenAppFilter.Theorems

open Base Kernel

variable {env : Env}

/-! ## The life of a record -/

/-- What happens to a client record: a packet of the client, a packet to it, a
tick of its timer. -/
inductive ClientEvent where
  | up (skb : Skb)
  | down (skb : Skb)
  | tick (io : ReportIo)

/-- What `af_client_hook2` does to the receiver's record. -/
def chargeReceiver (skb : Skb) (c : AfClientInfo) : AfClientInfo :=
  { c with flow := { c.flow with
      downBytes := c.flow.downBytes + skb.len, downPkts := c.flow.downPkts + 1 } }

/-- A record, with the bytes of `period_flow` at all reports sent so far. -/
structure Ledger where
  node : AfClientNode
  reported : FlowStat := {}

def ledgerStep (mac : Mac) (s : Ledger) : ClientEvent → Ledger
  | .up skb =>
      { s with node := { s.node with toAfClientInfo := touchSender skb s.node.toAfClientInfo } }
  | .down skb =>
      { s with node := { s.node with toAfClientInfo := chargeReceiver skb s.node.toAfClientInfo } }
  | .tick io =>
      let r := clientTimerHandler mac io s.node
      { node := r.1
        reported :=
          if r.2.isSome then
            { s.reported with
              upBytes := s.reported.upBytes + s.node.periodFlow.upBytes
              downBytes := s.reported.downBytes + s.node.periodFlow.downBytes }
          else s.reported }

/-- The record `nf_client_add` makes. -/
def newLedger (k : OafState env) : Ledger := { node := { toAfClientInfo := newClient k } }

/-- The hooks change the record of a client only by its events. -/
theorem hooks_follow_events (k : OafState env) (skb : Skb) (mac : Mac) {c : AfClientInfo}
    (hc : k.clients.find? mac = some c) :
    ((afClientHook k skb).clients.find? mac = some c ∨
        (afClientHook k skb).clients.find? mac = some (touchSender skb c)) ∧
      ((afClientHook2 k skb).clients.find? mac = some c ∨
        (afClientHook2 k skb).clients.find? mac = some (chargeReceiver skb c)) := by
  refine ⟨?_, ?_⟩
  · rw [afClientHook_find?, hc]
    split
    · exact Or.inr rfl
    · exact Or.inl rfl
  · unfold afClientHook2
    split
    · exact Or.inl hc
    · split
      · exact Or.inl hc
      · split
        · rename_i mac' _ _
          show (k.clients.modify mac' (chargeReceiver skb)).find? mac = _ ∨
            (k.clients.modify mac' (chargeReceiver skb)).find? mac = _
          rw [HTable.find?_modify, hc]
          split
          · exact Or.inr rfl
          · exact Or.inl rfl
        · exact Or.inl hc

/-! ## Bytes of one direction -/

inductive Direction where
  | up
  | down

def bytesOf (d : Direction) (f : FlowStat) : Nat :=
  match d with
  | .up => f.upBytes
  | .down => f.downBytes

/-- The bytes an event adds to `flow`. -/
def ClientEvent.bytes (d : Direction) : ClientEvent → Nat
  | .up skb =>
      match d with
      | .up => skb.len
      | .down => 0
  | .down skb =>
      match d with
      | .up => 0
      | .down => skb.len
  | .tick _ => 0

def ClientEvent.isTick : ClientEvent → Bool
  | .tick _ => true
  | _ => false

theorem exists_io_of_isTick {e : ClientEvent} (h : e.isTick = true) : ∃ io, e = .tick io := by
  cases e with
  | tick io => exact ⟨io, rfl⟩
  | up skb => exact absurd h (by simp [ClientEvent.isTick])
  | down skb => exact absurd h (by simp [ClientEvent.isTick])

def totalBytes (d : Direction) (es : List ClientEvent) : Nat := (es.map (·.bytes d)).sum

/-- The bytes of the packets up to the last tick. -/
def bytesByLastTick (d : Direction) (es : List ClientEvent) : Nat :=
  totalBytes d (es.reverse.dropWhile (fun e => !e.isTick))

/-- The bytes of the packets up to the first tick that finds any; `seen` are
those already counted. -/
def firstSeen (d : Direction) (seen : Nat) : List ClientEvent → Nat
  | [] => 0
  | e :: es =>
      if e.isTick && decide (0 < seen) then seen else firstSeen d (seen + e.bytes d) es

/-! ## One event -/

theorem touchSender_flow (skb : Skb) (c : AfClientInfo) :
    (touchSender skb c).flow = { c.flow with
      upBytes := c.flow.upBytes + skb.len, upPkts := c.flow.upPkts + 1 } := by
  unfold touchSender
  cases skb.protocol <;> rfl

/-- A packet moves `flow` alone. -/
theorem ledgerStep_packet (mac : Mac) (d : Direction) (s : Ledger) {e : ClientEvent}
    (he : e.isTick = false) :
    bytesOf d (ledgerStep mac s e).node.flow = bytesOf d s.node.flow + e.bytes d ∧
      (ledgerStep mac s e).node.lastFlow = s.node.lastFlow ∧
      (ledgerStep mac s e).node.periodFlow = s.node.periodFlow ∧
      (ledgerStep mac s e).reported = s.reported := by
  cases e with
  | up skb =>
      refine ⟨?_, rfl, rfl, rfl⟩
      show bytesOf d (touchSender skb s.node.toAfClientInfo).flow = _
      rw [touchSender_flow]
      cases d <;> rfl
  | down skb =>
      refine ⟨?_, rfl, rfl, rfl⟩
      cases d <;> rfl
  | tick io => exact absurd he (by simp [ClientEvent.isTick])

/-- `af_update_client_status` in one direction: the difference to `last_flow`
goes into the period when `last_flow` is above zero. -/
theorem bytesOf_status (d : Direction) (c : AfClientNode) :
    bytesOf d (afUpdateClientStatus c).periodFlow =
      bytesOf d c.periodFlow +
        if 0 < bytesOf d c.lastFlow then bytesOf d c.flow - bytesOf d c.lastFlow else 0 := by
  rw [afUpdateClientStatus_periodFlow]
  cases d with
  | up =>
      show (if 0 < c.lastFlow.upBytes then _ else _) = c.periodFlow.upBytes +
        if 0 < c.lastFlow.upBytes then _ else _
      split <;> rfl
  | down =>
      show (if 0 < c.lastFlow.downBytes then _ else _) = c.periodFlow.downBytes +
        if 0 < c.lastFlow.downBytes then _ else _
      split <;> rfl

/-- A report moves the bytes of the period, it does not change their sum with
the bytes reported before. -/
theorem bytesOf_report (d : Direction) (reported period : FlowStat) (sent : Bool) :
    bytesOf d (if sent then { reported with
          upBytes := reported.upBytes + period.upBytes
          downBytes := reported.downBytes + period.downBytes } else reported) +
        bytesOf d (if sent then {} else period) = bytesOf d reported + bytesOf d period := by
  cases sent <;> cases d <;> rfl

/-- A tick takes `flow` over into `last_flow`, and the difference into the
period when `last_flow` was above zero. -/
theorem ledgerStep_tick (mac : Mac) (d : Direction) (s : Ledger) (io : ReportIo) :
    (ledgerStep mac s (.tick io)).node.flow = s.node.flow ∧
      (ledgerStep mac s (.tick io)).node.lastFlow = s.node.flow ∧
      bytesOf d (ledgerStep mac s (.tick io)).reported +
          bytesOf d (ledgerStep mac s (.tick io)).node.periodFlow =
        bytesOf d s.reported + bytesOf d s.node.periodFlow +
          if 0 < bytesOf d s.node.lastFlow then
            bytesOf d s.node.flow - bytesOf d s.node.lastFlow
          else 0 := by
  by_cases hdue : s.node.timerCount ≥ 30
  · -- the report comes first
    obtain ⟨hflow, hlast, hperiod⟩ := afVisitInfoReport_cases mac io s.node
    have hmove := bytesOf_report d s.reported s.node.periodFlow
      (afVisitInfoReport mac io s.node).2.isSome
    simp only [ledgerStep, clientTimerHandler, if_pos hdue, afUpdateClientStatus_flow,
      afUpdateClientStatus_lastFlow, bytesOf_status, hflow, hlast, hperiod, true_and]
    omega
  · simp only [ledgerStep, clientTimerHandler, if_neg hdue, afUpdateClientStatus_flow,
      afUpdateClientStatus_lastFlow, bytesOf_status, true_and, Option.isSome_none,
      Bool.false_eq_true, if_false]
    omega

/-! ## Runs -/

/-- The traffic has been seen: from here on nothing is lost. -/
theorem ledger_after_first (mac : Mac) (d : Direction) (es : List ClientEvent) :
    ∀ s : Ledger, 0 < bytesOf d s.node.lastFlow →
      bytesOf d s.node.lastFlow ≤ bytesOf d s.node.flow →
      bytesOf d (run (ledgerStep mac) s es).reported +
          bytesOf d (run (ledgerStep mac) s es).node.periodFlow + bytesOf d s.node.lastFlow =
        bytesOf d s.reported + bytesOf d s.node.periodFlow +
          bytesOf d (run (ledgerStep mac) s es).node.lastFlow := by
  induction es with
  | nil =>
      intro s _ _
      simp
  | cons e es ih =>
      intro s hpos hle
      rw [run_cons]
      cases htick : e.isTick with
      | false =>
          obtain ⟨hflow, hlast, hperiod, hrep⟩ := ledgerStep_packet mac d s htick
          have hrest := ih (ledgerStep mac s e)
            (by rw [hlast]; exact hpos) (by rw [hlast, hflow]; omega)
          rw [hlast, hperiod, hrep] at hrest
          exact hrest
      | true =>
          obtain ⟨io, rfl⟩ := exists_io_of_isTick htick
          obtain ⟨hflow, hlast, hsum⟩ := ledgerStep_tick mac d s io
          have hrest := ih (ledgerStep mac s (.tick io))
            (by rw [hlast]; omega) (by rw [hlast, hflow])
          rw [if_pos hpos] at hsum
          rw [hlast] at hrest
          omega

/-- Before the first tick that sees traffic: what that tick finds is lost. -/
theorem ledger_before_first (mac : Mac) (d : Direction) (es : List ClientEvent) :
    ∀ s : Ledger, bytesOf d s.node.lastFlow = 0 →
      bytesOf d (run (ledgerStep mac) s es).reported +
          bytesOf d (run (ledgerStep mac) s es).node.periodFlow +
          firstSeen d (bytesOf d s.node.flow) es =
        bytesOf d s.reported + bytesOf d s.node.periodFlow +
          bytesOf d (run (ledgerStep mac) s es).node.lastFlow := by
  induction es with
  | nil =>
      intro s hzero
      simp [firstSeen, hzero]
  | cons e es ih =>
      intro s hzero
      rw [run_cons]
      unfold firstSeen
      cases htick : e.isTick with
      | false =>
          obtain ⟨hflow, hlast, hperiod, hrep⟩ := ledgerStep_packet mac d s htick
          have hrest := ih (ledgerStep mac s e) (by rw [hlast]; exact hzero)
          rw [hflow, hperiod, hrep] at hrest
          exact hrest
      | true =>
          obtain ⟨io, rfl⟩ := exists_io_of_isTick htick
          obtain ⟨hflow, hlast, hsum⟩ := ledgerStep_tick mac d s io
          rw [if_neg (by omega)] at hsum
          by_cases hseen : 0 < bytesOf d s.node.flow
          · -- this is the tick: `last_flow` is above zero from here on
            have hrest := ledger_after_first mac d es (ledgerStep mac s (.tick io))
              (by rw [hlast]; exact hseen) (by rw [hlast, hflow])
            rw [hlast] at hrest
            simp only [Bool.true_and, decide_eq_true hseen, if_true]
            omega
          · have hrest := ih (ledgerStep mac s (.tick io)) (by rw [hlast]; omega)
            rw [hflow] at hrest
            simp only [Bool.true_and, decide_eq_false hseen, Bool.false_eq_true, if_false]
            show _ + firstSeen d (bytesOf d s.node.flow + 0) es = _
            rw [Nat.add_zero]
            omega

/-- `flow` holds every packet, `last_flow` those up to the last tick. -/
theorem ledger_flows (mac : Mac) (d : Direction) (k : OafState env) (es : List ClientEvent) :
    bytesOf d (run (ledgerStep mac) (newLedger k) es).node.flow = totalBytes d es ∧
      bytesOf d (run (ledgerStep mac) (newLedger k) es).node.lastFlow = bytesByLastTick d es := by
  induction es using List.reverseRecOn with
  | nil => cases d <;> exact ⟨rfl, rfl⟩
  | append_singleton es e ih =>
      obtain ⟨hflow, hlast⟩ := ih
      have htotal : totalBytes d (es ++ [e]) = totalBytes d es + e.bytes d := by
        simp [totalBytes]
      rw [run_append, htotal]
      unfold bytesByLastTick
      rw [List.reverse_append, List.reverse_singleton, List.singleton_append, List.dropWhile_cons]
      cases htick : e.isTick with
      | false =>
          obtain ⟨hflow', hlast', -, -⟩ :=
            ledgerStep_packet mac d (run (ledgerStep mac) (newLedger k) es) htick
          refine ⟨hflow'.trans (by rw [hflow]), ?_⟩
          simp only [Bool.not_false, if_true]
          exact (congrArg (bytesOf d) hlast').trans hlast
      | true =>
          obtain ⟨io, rfl⟩ := exists_io_of_isTick htick
          obtain ⟨hflow', hlast', -⟩ :=
            ledgerStep_tick mac d (run (ledgerStep mac) (newLedger k) es) io
          refine ⟨(congrArg (bytesOf d) hflow').trans hflow, ?_⟩
          refine (congrArg (bytesOf d) hlast').trans (hflow.trans ?_)
          simp [totalBytes, List.sum_reverse, ClientEvent.bytes]

/-- **Where the bytes are.** From the creation of a record on, after any packets
and ticks and in each direction: the bytes of all reports, the bytes of the
current period and the bytes of the packets before the first tick that saw any
are together the bytes of `last_flow`, which are those of the packets up to the
last tick. -/
theorem reported_bytes_balance (mac : Mac) (d : Direction) (k : OafState env)
    (es : List ClientEvent) :
    bytesOf d (run (ledgerStep mac) (newLedger k) es).reported +
          bytesOf d (run (ledgerStep mac) (newLedger k) es).node.periodFlow +
          firstSeen d 0 es =
        bytesOf d (run (ledgerStep mac) (newLedger k) es).node.lastFlow ∧
      bytesOf d (run (ledgerStep mac) (newLedger k) es).node.lastFlow = bytesByLastTick d es := by
  refine ⟨?_, (ledger_flows mac d k es).2⟩
  have hfresh : ∀ d, bytesOf d (newLedger k).node.lastFlow = 0 ∧
      bytesOf d (newLedger k).node.flow = 0 ∧ bytesOf d (newLedger k).reported = 0 ∧
      bytesOf d (newLedger k).node.periodFlow = 0 := by
    intro d
    cases d <;> exact ⟨rfl, rfl, rfl, rfl⟩
  obtain ⟨hlast, hflow, hrep, hperiod⟩ := hfresh d
  have hrun := ledger_before_first mac d es (newLedger k) hlast
  rw [hflow, hrep, hperiod] at hrun
  omega

/-- One packet of the phone and one tick: the packet is in `last_flow`, and
neither in a report nor in the current period. -/
theorem first_packet_unreported :
    ¬ ∀ (k : OafState routerEnv) (d : Direction) (es : List ClientEvent),
      bytesOf d (run (ledgerStep phoneMac) (newLedger k) es).reported +
          bytesOf d (run (ledgerStep phoneMac) (newLedger k) es).node.periodFlow =
        bytesOf d (run (ledgerStep phoneMac) (newLedger k) es).node.lastFlow := by
  intro h
  have hrun := h (boot routerEnv 0) .up [.up (lanTcp phoneMac phoneIp 7), .tick {}]
  exact absurd hrun (by decide +kernel)

end OpenAppFilter.Theorems
