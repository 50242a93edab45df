import OpenAppFilter.Theorems.BusyMinutes
import OpenAppFilter.Theorems.DeviceTable
import OpenAppFilter.Theorems.FlowLedger
import OpenAppFilter.Theorems.ReportReading

/-!
# Today's bytes of a device

A byte goes a long way: a hook counts it, the timer moves it into the period, a
report carries the period as kilobytes in a JSON text, and the daemon adds them to
the device. Along every run the daemon's count and what was lost on the way are
together the bytes that passed (`today_bytes_account`). Lost are the rest below a
kilobyte of each report, the reports that did not arrive or found no room, what the
daemon cleared, and what no report covers.
-/

namespace OpenAppFilter.Theorems

open Base Kernel Daemon

variable {env : Env} {parse : CStr → Option Json}

/-! ## The way of a report -/

/-- What happens: packets, visits of apps, ticks of the client's timer with what the
daemon meets when a report arrives, and everything else the daemon does to its
table. -/
inductive PipeEvent where
  | up (skb : Skb)
  | down (skb : Skb)
  | visit (now : Nat) (appId : BitVec 32) (drop : Bool)
  | tick (io : ReportIo) (recv : Reception)
  | daemon (act : DevAct)

/-- The client record with its ledger and the daemon's table; the periods of the
reports that were written to the device and of those that were not, and what was
taken off its counters again. -/
structure Pipeline where
  ledger : Ledger
  daemon : Option DevLists := some {}
  stored : List FlowStat := []
  dropped : List FlowStat := []
  cleared : Direction → Nat := fun _ => 0

/-- A record the kernel has just made, before the daemon has heard of it. -/
def newPipeline (k : OafState env) : Pipeline := { ledger := newLedger k }

/-- The key of a device in the table. -/
def deviceKey (mac : Mac) : CStr := strncpy maxMacLen (macText mac)

/-- The counter of a direction in a device. -/
def todayOf (d : Direction) (node : DevInfo) : UInt64 :=
  match d with
  | .up => node.todayUpBytes
  | .down => node.todayDownBytes

/-- The bytes of a direction the device shows; none for a device that is not known. -/
def todayBytes (d : Direction) (node : Option DevInfo) : Nat :=
  node.elim 0 (fun n => (todayOf d n).toNat)

def Pipeline.today (s : Pipeline) (mac : Mac) (d : Direction) : Nat :=
  todayBytes d (s.daemon.bind (fun lists => deviceOf lists (macText mac)))

/-- What a tick sends arrives, if it was handed over, and is stored, if the device
is there then. -/
def receive (parse : CStr → Option Json) (mac : Mac) (recv : Reception)
    (sent : Option (Int × Option CStr)) (period : FlowStat) (s : Pipeline) : Pipeline :=
  match sent with
  | none => s
  | some (_, none) => { s with dropped := s.dropped ++ [period] }
  | some (_, some text) =>
      let daemon := s.daemon.bind (handleReport parse recv (reportMsg text recv.junk))
      if (daemon.bind (fun lists => deviceOf lists (macText mac))).isSome then
        { s with daemon := daemon, stored := s.stored ++ [period] }
      else { s with daemon := daemon, dropped := s.dropped ++ [period] }

def pipeStep (parse : CStr → Option Json) (mac : Mac) (s : Pipeline) : PipeEvent → Pipeline
  | .up skb => { s with ledger := ledgerStep mac s.ledger (.up skb) }
  | .down skb => { s with ledger := ledgerStep mac s.ledger (.down skb) }
  | .visit now appId drop =>
      { s with ledger := { s.ledger with node := { s.ledger.node with
          toAfClientInfo := afUpdateClientAppInfo now appId drop s.ledger.node.toAfClientInfo } } }
  | .tick io recv =>
      receive parse mac recv (clientTimerHandler mac io s.ledger.node).2 s.ledger.node.periodFlow
        { s with ledger := ledgerStep mac s.ledger (.tick io) }
  | .daemon act =>
      let after := { s with daemon := s.daemon.bind (fun lists => devStep lists act) }
      { after with cleared := fun d => s.cleared d + (s.today mac d - after.today mac d) }

/-- The events of the client record's counters. -/
def clientEvent : PipeEvent → Option ClientEvent
  | .up skb => some (.up skb)
  | .down skb => some (.down skb)
  | .tick io _ => some (.tick io)
  | _ => none

/-- The bytes of a period as whole kilobytes. -/
def wholeKilobytes (d : Direction) (period : FlowStat) : Nat := bytesOf d period / 1024 * 1024

/-- The bytes of a period beyond them. -/
def restBytes (d : Direction) (period : FlowStat) : Nat := bytesOf d period % 1024

def sumOf (f : FlowStat → Nat) (periods : List FlowStat) : Nat := (periods.map f).sum

/-- What else the daemon does raises no counter of the device: it may clear them. -/
def NoGain (mac : Mac) : DevAct → Prop
  | .report mac' _ _ _ _ => strncpy maxMacLen mac' ≠ deviceKey mac
  | .write _ f => ∀ d node, todayOf d (f node) ≤ todayOf d node
  | .writeAll f => ∀ d node, todayOf d (f node) ≤ todayOf d node
  | _ => True

/-- What is asked of an event: the app ids and the kilobytes of a period fit an `int`. -/
def Orderly (mac : Mac) (s : Pipeline) : PipeEvent → Prop
  | .visit _ appId _ => appId.toNat < 2 ^ 31
  | .tick _ _ => ∀ d, bytesOf d s.ledger.node.periodFlow < 2 ^ 41
  | .daemon act => NoGain mac act
  | _ => True

/-! ## The device of the table -/

/-- The bytes the device of the table shows. -/
def todayIn (mac : Mac) (d : Direction) (t : DevCells) : Nat :=
  todayBytes d ((t.find? (deviceKey mac)).map Prod.snd)

/-- A producer that leaves the counters of a node leaves those of the device, and a
device just added has none. -/
theorem todayIn_reachEntry {mac : Mac} {d : Direction} {t : DevCells} {mac' : CStr}
    {room : Option Nat} {now : UInt32} {fresh f : DevInfo → DevInfo}
    (hfresh : ∀ node, todayOf d (fresh node) = todayOf d node)
    (hf : ∀ node, todayOf d (f node) = todayOf d node) :
    todayIn mac d (reachEntry t mac' room now fresh f) = todayIn mac d t := by
  unfold todayIn
  rw [find?_reachEntry]
  split
  · cases hfind : t.find? (deviceKey mac) with
    | some e =>
        show (todayOf d (f e.2)).toNat = (todayOf d e.2).toNat
        rw [hf]
    | none =>
        cases room with
        | none => rfl
        | some a =>
            show (todayOf d (f (fresh { online := true, onlineTime := now }))).toNat = 0
            rw [hf, hfresh]
            cases d <;> rfl
  · rfl

theorem todayBytes_map_le {d : Direction} {f : DevInfo → DevInfo} (node : Option DevInfo)
    (hf : ∀ node, todayOf d (f node) ≤ todayOf d node) :
    todayBytes d (node.map f) ≤ todayBytes d node := by
  cases node with
  | none => exact Nat.le_refl 0
  | some node => exact UInt64.le_iff_toNat_le.mp (hf node)

theorem todayOf_named (d : Direction) (hostname : CStr) (node : DevInfo) :
    todayOf d (node.named hostname) = todayOf d node := by
  unfold DevInfo.named
  split <;> cases d <;> rfl

theorem todayOf_cleanOnline (d : Direction) (now : UInt32) (node : DevInfo) :
    todayOf d (node.cleanOnline now) = todayOf d node := by
  unfold DevInfo.cleanOnline
  split <;> cases d <;> rfl

theorem todayOf_checkExpire (d : Direction) (now : UInt32) (node : DevInfo) :
    todayOf d (node.checkExpire now) = todayOf d node := by
  unfold DevInfo.checkExpire
  split
  · rfl
  · split <;> cases d <;> rfl

/-- What else the daemon does raises no counter. -/
theorem todayIn_cellStep_le {mac : Mac} (d : Direction) {act : DevAct} (h : NoGain mac act)
    (s : DevLists) (t : DevCells) : todayIn mac d (cellStep s t act) ≤ todayIn mac d t := by
  have hmodify : ∀ (f : DevInfo → DevInfo) (e : Option (Nat × DevInfo)),
      (e.map (fun e => (e.1, f e.2))).map Prod.snd = (e.map Prod.snd).map f := by
    intro f e
    cases e <;> rfl
  have hfilter : ∀ (flag : Nat × DevInfo → Bool) (e : Option (Nat × DevInfo)),
      todayBytes d ((e.filter flag).map Prod.snd) ≤ todayBytes d (e.map Prod.snd) := by
    intro flag e
    cases e with
    | none => exact Nat.le_refl 0
    | some e =>
        rw [Option.filter_some]
        split
        · exact Nat.le_refl _
        · exact Nat.zero_le _
  cases act with
  | report mac' calloc c hour r =>
      have hkey : deviceKey mac ≠ strncpy maxMacLen mac' := Ne.symm h
      unfold todayIn cellStep
      rw [find?_reachEntry, if_neg hkey]
  | lease mac' ip hostname calloc now =>
      refine Nat.le_of_eq (todayIn_reachEntry (fun node => ?_) (todayOf_named d hostname))
      cases d <;> rfl
  | client l calloc now =>
      unfold cellStep
      dsimp only
      split
      · exact Nat.le_refl _
      · refine Nat.le_of_eq (todayIn_reachEntry (fun node => rfl) (fun node => ?_))
        cases d <;> rfl
  | userLine mac' am pm calloc now =>
      refine Nat.le_of_eq (todayIn_reachEntry (fun node => rfl) (fun node => ?_))
      cases d <;> rfl
  | write mac' f =>
      unfold todayIn cellStep
      rw [HTable.find?_modify]
      split
      · rw [hmodify]
        exact todayBytes_map_le _ (h d)
      · exact Nat.le_refl _
  | writeAll f =>
      unfold todayIn cellStep
      rw [HTable.find?_mapVals, hmodify]
      exact todayBytes_map_le _ (h d)
  | cleanOnline now =>
      unfold todayIn cellStep
      rw [HTable.find?_mapVals, hmodify]
      exact todayBytes_map_le _ (fun node => UInt64.le_of_eq (todayOf_cleanOnline d now node))
  | checkExpire now =>
      unfold todayIn cellStep
      rw [HTable.find?_mapVals, hmodify]
      exact todayBytes_map_le _ (fun node => UInt64.le_of_eq (todayOf_checkExpire d now node))
  | flushExpired =>
      unfold todayIn cellStep
      rw [HTable.find?_filter]
      exact hfilter _ _
  | flushOffline =>
      unfold todayIn cellStep
      rw [HTable.find?_filter]
      exact hfilter _ _

/-! ## Numbers of a report -/

/-- Nothing counts `visit_app_num`, and the recorded ids fit. -/
structure SmallIds (c : AfClientNode) : Prop where
  visitAppNum : c.visitAppNum = 0
  ids : ∀ i, (c.visitInfo i).appId.toNat < 2 ^ 31

/-- The numbers of a report fit, and its kilobytes are those of the period. -/
structure FitsReport (c : AfClientNode) : Prop where
  numbers : FitsInt c
  bytes : ∀ d, bytesOf d c.periodFlow < 2 ^ 41

theorem SmallIds.fits {c : AfClientNode} (h : SmallIds c)
    (hbytes : ∀ d, bytesOf d c.periodFlow < 2 ^ 41) : FitsReport c := by
  refine ⟨?_, hbytes⟩
  have hkilo : ∀ n, n < 2 ^ 41 → (kilobytes n).toNat < 2 ^ 31 := by
    intro n hn
    unfold kilobytes
    rw [BitVec.toNat_ofNat]
    omega
  have hflag : ∀ flag : Bool, (if flag then (1 : BitVec 32) else 0).toNat < 2 ^ 31 := by
    intro flag
    cases flag <;> decide
  intro n hn
  unfold reportNumbers at hn
  simp only [List.cons_append, List.nil_append, List.mem_cons, List.mem_flatMap, List.not_mem_nil,
    or_false] at hn
  rcases hn with rfl | rfl | rfl | rfl | ⟨v, hv, rfl | rfl⟩
  · rw [h.visitAppNum]
    decide
  · exact hkilo _ (hbytes .up)
  · exact hkilo _ (hbytes .down)
  · exact hflag _
  · -- the app of a slot
    obtain ⟨i, -, rfl⟩ := List.mem_map.mp (List.mem_of_mem_filter hv)
    exact h.ids i
  · exact hflag _

theorem SmallIds.visit {c : AfClientNode} (h : SmallIds c) (now : Nat) {appId : BitVec 32}
    (hid : appId.toNat < 2 ^ 31) (drop : Bool) :
    SmallIds { c with toAfClientInfo := afUpdateClientAppInfo now appId drop c.toAfClientInfo } := by
  refine ⟨h.visitAppNum, fun i => ?_⟩
  show (if i = afGetVisitIndex c.toAfClientInfo appId then _ else c.visitInfo i : AppVisitInfo).appId.toNat < _
  split
  · exact hid
  · exact h.ids i

theorem SmallIds.tick {c : AfClientNode} (h : SmallIds c) (mac : Mac) (io : ReportIo) :
    SmallIds (clientTimerHandler mac io c).1 := by
  have hstatus : ∀ {c : AfClientNode} (n : Nat), SmallIds c →
      SmallIds { afUpdateClientStatus c with timerCount := n } := by
    intro c n h
    unfold afUpdateClientStatus
    dsimp only
    split <;> exact ⟨h.visitAppNum, h.ids⟩
  have hdrained : ∀ i, (if (c.visitInfo i).appId = 0 then c.visitInfo i else {} : AppVisitInfo).appId.toNat <
      2 ^ 31 := by
    intro i
    split
    · exact h.ids i
    · decide
  have hreport : SmallIds (afVisitInfoReport mac io c).1 := by
    unfold afVisitInfoReport
    split
    · exact h
    · dsimp only
      split <;> exact ⟨h.visitAppNum, hdrained⟩
  unfold clientTimerHandler
  dsimp only
  apply hstatus
  split
  · exact ⟨hreport.visitAppNum, hreport.ids⟩
  · exact h

/-! ## One event -/

theorem sumOf_append (f : FlowStat → Nat) (periods : List FlowStat) (period : FlowStat) :
    sumOf f (periods ++ [period]) = sumOf f periods + f period := by
  simp [sumOf]

theorem sumOf_whole_rest (d : Direction) (periods : List FlowStat) :
    sumOf (wholeKilobytes d) periods + sumOf (restBytes d) periods = sumOf (bytesOf d) periods := by
  induction periods with
  | nil => rfl
  | cons period periods ih =>
      simp only [sumOf, List.map_cons, List.sum_cons] at ih ⊢
      have hsplit : wholeKilobytes d period + restBytes d period = bytesOf d period :=
        Nat.div_add_mod' (bytesOf d period) 1024
      omega

/-- What a report adds to the counter of a device. -/
theorem todayOf_recordReport {c : AfClientNode} (hfits : FitsReport c) (d : Direction) (clock : UsageClock)
    (hour : Fin 24) {node : DevInfo}
    (hroom : (todayOf d node).toNat + wholeKilobytes d c.periodFlow < 2 ^ 64) :
    (todayOf d (DevInfo.report clock hour (recordReport c) node)).toNat =
      (todayOf d node).toNat + wholeKilobytes d c.periodFlow := by
  have hadd : ∀ (today : UInt64) (bytes : Nat), bytes < 2 ^ 41 →
      today.toNat + bytes / 1024 * 1024 < 2 ^ 64 →
      (today + UInt64.ofNat (kilobytes bytes).toNat * 1024).toNat =
        today.toNat + bytes / 1024 * 1024 := by
    intro today bytes hbytes hsum
    have hkilo : (kilobytes bytes).toNat = bytes / 1024 := by
      unfold kilobytes
      rw [BitVec.toNat_ofNat]
      omega
    rw [hkilo, UInt64.toNat_add, UInt64.toNat_mul, UInt64.toNat_ofNat']
    change (today.toNat + bytes / 1024 % 2 ^ 64 * 1024 % 2 ^ 64) % 2 ^ 64 = _
    omega
  cases d with
  | up => exact hadd node.todayUpBytes _ (hfits.bytes .up) hroom
  | down => exact hadd node.todayDownBytes _ (hfits.bytes .down) hroom

/-- What a tick sends. -/
theorem sent_of_tick {mac : Mac} {io : ReportIo} {c : AfClientNode} {sent : Int × Option CStr}
    (h : (clientTimerHandler mac io c).2 = some sent) : (afVisitInfoReport mac io c).2 = some sent := by
  unfold clientTimerHandler at h
  dsimp only at h
  split at h
  · exact h
  · exact absurd h (by simp)

/-- What is true of the two sides whenever no event is under way. -/
structure Accounted (mac : Mac) (s : Pipeline) (lists : DevLists) (t : DevCells) : Prop where
  daemon : s.daemon = some lists
  stands : Stands lists t
  shown : ∀ d, todayIn mac d t + s.cleared d = sumOf (wholeKilobytes d) s.stored
  sent : ∀ d, sumOf (bytesOf d) s.stored + sumOf (bytesOf d) s.dropped = bytesOf d s.ledger.reported
  seen : ∀ d, bytesOf d s.ledger.reported + bytesOf d s.ledger.node.periodFlow ≤
    bytesOf d s.ledger.node.lastFlow ∧
    bytesOf d s.ledger.node.lastFlow ≤ bytesOf d s.ledger.node.flow
  ids : SmallIds s.ledger.node

/-- The device of the daemon is the one of the table. -/
theorem Accounted.today {mac : Mac} {s : Pipeline} {lists : DevLists} {t : DevCells}
    (h : Accounted mac s lists t) (d : Direction) : s.today mac d = todayIn mac d t := by
  unfold Pipeline.today
  rw [h.daemon, Option.bind_some, h.stands.device (macText mac)]
  rfl

theorem accounted_start (k : OafState env) (mac : Mac) :
    Accounted mac (newPipeline k) {} HTable.empty where
  daemon := rfl
  stands := stands_start
  shown d := by cases d <;> rfl
  sent d := by cases d <;> rfl
  seen d := by cases d <;> exact ⟨Nat.le_refl 0, Nat.le_refl 0⟩
  ids := ⟨rfl, fun _ => (by decide : (0 : BitVec 32).toNat < 2 ^ 31)⟩

/-- What the daemon makes of a report: the device shows the whole kilobytes of the
period, or it is not there. -/
theorem todayIn_report {mac : Mac} {c : AfClientNode} (hfits : FitsReport c) (lists : DevLists)
    {t : DevCells} (recv : Reception)
    (hsum : ∀ d, todayIn mac d t + wholeKilobytes d c.periodFlow < 2 ^ 64) :
    let t' := cellStep lists t (.report (macText mac) recv.calloc recv.clock recv.hour (recordReport c))
    ((t'.find? (deviceKey mac)).isSome = true ∧
        ∀ d, todayIn mac d t' = todayIn mac d t + wholeKilobytes d c.periodFlow) ∨
      ((t'.find? (deviceKey mac)).isSome = false ∧ ∀ d, todayIn mac d t' = todayIn mac d t) := by
  intro t'
  have hfind := find?_reachEntry t (macText mac) (recv.calloc.filter (fun a => (lists.heap a).isNone))
    recv.clock.now id (DevInfo.report recv.clock recv.hour (recordReport c)) (deviceKey mac)
  rw [if_pos (show deviceKey mac = strncpy maxMacLen (macText mac) from rfl)] at hfind
  change t'.find? (deviceKey mac) = _ at hfind
  unfold todayIn at hsum ⊢
  rw [hfind]
  cases hthere : t.find? (deviceKey mac) with
  | some e =>
      refine Or.inl ⟨rfl, fun d => ?_⟩
      rw [hthere] at hsum
      exact todayOf_recordReport hfits d recv.clock recv.hour (hsum d)
  | none =>
      cases recv.calloc.filter (fun a => (lists.heap a).isNone) with
      | none => exact Or.inr ⟨rfl, fun d => rfl⟩
      | some a =>
          refine Or.inl ⟨rfl, fun d => ?_⟩
          have hnew : (todayOf d { online := true, onlineTime := recv.clock.now }).toNat = 0 := by
            cases d <;> rfl
          have hroom := hsum d
          rw [hthere] at hroom
          have hadd := @todayOf_recordReport c hfits d recv.clock recv.hour
            { online := true, onlineTime := recv.clock.now } (by rw [hnew]; exact hroom)
          rw [hnew] at hadd
          exact hadd

/-- The daemon's side of a tick. -/
theorem receive_account (hparse : ReadsJson parse) {mac : Mac} {s : Pipeline} (io : ReportIo)
    (recv : Reception) {lists : DevLists} {t : DevCells} (h : Accounted mac s lists t)
    (hfits : FitsReport s.ledger.node) (hroom : ∀ d, bytesOf d s.ledger.node.flow < 2 ^ 64)
    (ledger : Ledger) :
    let s' := receive parse mac recv (clientTimerHandler mac io s.ledger.node).2
      s.ledger.node.periodFlow { s with ledger := ledger }
    s'.ledger = ledger ∧ ∃ lists' t', s'.daemon = some lists' ∧ Stands lists' t' ∧
      (∀ d, todayIn mac d t' + s'.cleared d = sumOf (wholeKilobytes d) s'.stored) ∧
      ∀ d, sumOf (bytesOf d) s'.stored + sumOf (bytesOf d) s'.dropped =
        bytesOf d s.ledger.reported +
          if (clientTimerHandler mac io s.ledger.node).2.isSome then
            bytesOf d s.ledger.node.periodFlow
          else 0 := by
  have hlost : ∀ d, sumOf (bytesOf d) s.stored +
      sumOf (bytesOf d) (s.dropped ++ [s.ledger.node.periodFlow]) =
        bytesOf d s.ledger.reported + bytesOf d s.ledger.node.periodFlow := by
    intro d
    have hsent := h.sent d
    rw [sumOf_append]
    omega
  cases hsend : (clientTimerHandler mac io s.ledger.node).2 with
  | none => exact ⟨rfl, lists, t, h.daemon, h.stands, h.shown, h.sent⟩
  | some sent =>
      obtain ⟨ret, _ | text⟩ := sent
      · -- the message was not handed over
        exact ⟨rfl, lists, t, h.daemon, h.stands, h.shown, hlost⟩
      · obtain ⟨rfl, hlen⟩ := handed_over (sent_of_tick hsend)
        obtain ⟨lists', hstep, hstands'⟩ := h.stands.step
          (.report (macText mac) recv.calloc recv.clock recv.hour (recordReport s.ledger.node))
        have hhandle : handleReport parse recv
            (reportMsg (reportText mac s.ledger.node) recv.junk) lists = some lists' := by
          unfold handleReport
          rw [readReport_reportText hparse hfits.numbers mac hlen]
          exact hstep
        have hsum : ∀ d, todayIn mac d t + wholeKilobytes d s.ledger.node.periodFlow < 2 ^ 64 := by
          intro d
          have hshown := h.shown d
          have hsent := h.sent d
          have hseen := h.seen d
          have hflow := hroom d
          have hsplit := sumOf_whole_rest d s.stored
          have hkilo : wholeKilobytes d s.ledger.node.periodFlow ≤
              bytesOf d s.ledger.node.periodFlow := Nat.div_mul_le_self _ 1024
          omega
        have hdevice : deviceOf lists' (macText mac) = Option.map Prod.snd
            (HTable.find? _ (deviceKey mac)) := hstands'.device (macText mac)
        dsimp only [receive]
        rw [h.daemon, Option.bind_some, hhandle, Option.bind_some, hdevice, Option.isSome_map]
        rcases todayIn_report hfits lists recv hsum with ⟨hthere, htoday⟩ | ⟨hgone, htoday⟩
        · rw [if_pos hthere]
          refine ⟨rfl, lists', _, rfl, hstands', fun d => ?_, fun d => ?_⟩
          · have hshown := h.shown d
            rw [sumOf_append]
            rw [htoday d]
            show _ + s.cleared d = _
            omega
          · have hsent := h.sent d
            rw [sumOf_append]
            show _ + sumOf (bytesOf d) s.dropped =
              bytesOf d s.ledger.reported + bytesOf d s.ledger.node.periodFlow
            omega
        · rw [if_neg (by rw [hgone]; exact Bool.false_ne_true)]
          refine ⟨rfl, lists', _, rfl, hstands', fun d => ?_, hlost⟩
          rw [htoday d]
          exact h.shown d

theorem accounted_tick (hparse : ReadsJson parse) {mac : Mac} {s : Pipeline} {io : ReportIo}
    {recv : Reception} {lists : DevLists} {t : DevCells} (h : Accounted mac s lists t)
    (hbytes : ∀ d, bytesOf d s.ledger.node.periodFlow < 2 ^ 41)
    (hroom : ∀ d, bytesOf d s.ledger.node.flow < 2 ^ 64) :
    ∃ lists' t', Accounted mac (pipeStep parse mac s (.tick io recv)) lists' t' := by
  obtain ⟨hledger, lists', t', hdaemon, hstands, hshown, hsent⟩ :=
    receive_account hparse io recv h (h.ids.fits hbytes) hroom (ledgerStep mac s.ledger (.tick io))
  refine ⟨lists', t', hdaemon, hstands, hshown, fun d => ?_, fun d => ?_, ?_⟩
  · refine (hsent d).trans ?_
    show _ = bytesOf d (receive parse mac recv _ _ _).ledger.reported
    rw [hledger]
    show _ = bytesOf d (if (clientTimerHandler mac io s.ledger.node).2.isSome then _ else _)
    cases (clientTimerHandler mac io s.ledger.node).2.isSome <;> cases d <;> rfl
  · show bytesOf d (receive parse mac recv _ _ _).ledger.reported +
        bytesOf d (receive parse mac recv _ _ _).ledger.node.periodFlow ≤
        bytesOf d (receive parse mac recv _ _ _).ledger.node.lastFlow ∧
      bytesOf d (receive parse mac recv _ _ _).ledger.node.lastFlow ≤
        bytesOf d (receive parse mac recv _ _ _).ledger.node.flow
    rw [hledger]
    obtain ⟨hflow, hlast, hmoved⟩ := ledgerStep_tick mac d s.ledger io
    have hseen := h.seen d
    rw [hflow, hlast]
    split at hmoved <;> omega
  · show SmallIds (receive parse mac recv _ _ _).ledger.node
    rw [hledger]
    exact h.ids.tick mac io

theorem accounted_step (hparse : ReadsJson parse) {mac : Mac} {s : Pipeline} {e : PipeEvent}
    {lists : DevLists} {t : DevCells} (h : Accounted mac s lists t) (he : Orderly mac s e)
    (hroom : ∀ d, bytesOf d s.ledger.node.flow < 2 ^ 64) :
    ∃ lists' t', Accounted mac (pipeStep parse mac s e) lists' t' := by
  have hpacket : ∀ {e' : ClientEvent}, e'.isTick = false →
      SmallIds (ledgerStep mac s.ledger e').node →
      Accounted mac { s with ledger := ledgerStep mac s.ledger e' } lists t := by
    intro e' hno hids
    refine ⟨h.daemon, h.stands, h.shown, fun d => ?_, fun d => ?_, hids⟩
    · obtain ⟨-, -, -, hreported⟩ := ledgerStep_packet mac d s.ledger hno
      rw [hreported]
      exact h.sent d
    · obtain ⟨hflow, hlast, hperiod, hreported⟩ := ledgerStep_packet mac d s.ledger hno
      rw [hflow, hlast, hperiod, hreported]
      have hseen := h.seen d
      omega
  cases e with
  | up skb =>
      refine ⟨lists, t, hpacket rfl ⟨h.ids.visitAppNum, ?_⟩⟩
      show ∀ i, ((touchSender skb s.ledger.node.toAfClientInfo).visitInfo i).appId.toNat < _
      unfold touchSender
      cases skb.protocol <;> exact h.ids.ids
  | down skb => exact ⟨lists, t, hpacket rfl ⟨h.ids.visitAppNum, h.ids.ids⟩⟩
  | visit now appId drop =>
      exact ⟨lists, t, h.daemon, h.stands, h.shown, h.sent, h.seen, h.ids.visit now he drop⟩
  | tick io recv => exact accounted_tick hparse h he hroom
  | daemon act =>
      obtain ⟨lists', hstep, hstands'⟩ := h.stands.step act
      have hdaemon : s.daemon.bind (fun lists => devStep lists act) = some lists' := by
        rw [h.daemon]
        exact hstep
      refine ⟨lists', _, hdaemon, hstands', fun d => ?_, h.sent, h.seen, h.ids⟩
      have hafter : Pipeline.today { s with daemon := some lists' } mac d =
          todayIn mac d (cellStep lists t act) := congrArg (todayBytes d) (hstands'.device (macText mac))
      have hle := todayIn_cellStep_le d he lists t
      have hshown := h.shown d
      show _ + (s.cleared d + (s.today mac d - Pipeline.today { s with daemon := _ } mac d)) = _
      rw [hdaemon, hafter, h.today d]
      show _ = sumOf (wholeKilobytes d) s.stored
      omega

/-! ## The ledger of the run -/

/-- Two records with the same counters. -/
structure SameFlows (c c' : AfClientNode) : Prop where
  flow : c.flow = c'.flow
  lastFlow : c.lastFlow = c'.lastFlow
  periodFlow : c.periodFlow = c'.periodFlow
  timerCount : c.timerCount = c'.timerCount

/-- A tick of the timer, as far as the counters go. -/
theorem clientTimerHandler_flows (mac : Mac) (io : ReportIo) (c : AfClientNode) :
    (clientTimerHandler mac io c).1.flow = c.flow ∧
      (clientTimerHandler mac io c).1.lastFlow = c.flow ∧
      (clientTimerHandler mac io c).1.timerCount = (if c.timerCount ≥ 30 then 0 else c.timerCount) + 1 ∧
      (clientTimerHandler mac io c).1.periodFlow =
        (afUpdateClientStatus { c with
          periodFlow := if (clientTimerHandler mac io c).2.isSome then {} else c.periodFlow }).periodFlow := by
  obtain ⟨hflow, hlast, hperiod⟩ := afVisitInfoReport_cases mac io c
  unfold clientTimerHandler
  by_cases hdue : c.timerCount ≥ 30
  · simp only [if_pos hdue, afUpdateClientStatus_flow, afUpdateClientStatus_lastFlow,
      afUpdateClientStatus_periodFlow, hflow, hlast, hperiod, true_and]
  · simp only [if_neg hdue, afUpdateClientStatus_flow, afUpdateClientStatus_lastFlow,
      afUpdateClientStatus_periodFlow, true_and, Option.isSome_none, Bool.false_eq_true, if_false]

theorem clientTimerHandler_isSome (mac : Mac) (io : ReportIo) (c : AfClientNode) :
    (clientTimerHandler mac io c).2.isSome = (decide (c.timerCount ≥ 30) && io.createObject && io.print) := by
  rw [clientTimerHandler_report]
  split
  · rename_i h
    simp [h]
  · rename_i h
    symm
    simpa [and_assoc] using h

theorem SameFlows.step (mac : Mac) {l l' : Ledger} (h : SameFlows l.node l'.node)
    (hreported : l.reported = l'.reported) (e : ClientEvent) :
    SameFlows (ledgerStep mac l e).node (ledgerStep mac l' e).node ∧
      (ledgerStep mac l e).reported = (ledgerStep mac l' e).reported := by
  cases e with
  | up skb =>
      refine ⟨⟨?_, h.lastFlow, h.periodFlow, h.timerCount⟩, hreported⟩
      show (touchSender skb l.node.toAfClientInfo).flow = (touchSender skb l'.node.toAfClientInfo).flow
      rw [touchSender_flow, touchSender_flow, h.flow]
  | down skb =>
      refine ⟨⟨?_, h.lastFlow, h.periodFlow, h.timerCount⟩, hreported⟩
      show (chargeReceiver skb l.node.toAfClientInfo).flow =
        (chargeReceiver skb l'.node.toAfClientInfo).flow
      unfold chargeReceiver
      rw [h.flow]
  | tick io =>
      obtain ⟨hflow, hlast, hcount, hperiod⟩ := clientTimerHandler_flows mac io l.node
      obtain ⟨hflow', hlast', hcount', hperiod'⟩ := clientTimerHandler_flows mac io l'.node
      have hsent : (clientTimerHandler mac io l.node).2.isSome =
          (clientTimerHandler mac io l'.node).2.isSome := by
        rw [clientTimerHandler_isSome, clientTimerHandler_isSome, h.timerCount]
      refine ⟨⟨?_, ?_, ?_, ?_⟩, ?_⟩
      · exact hflow.trans (h.flow.trans hflow'.symm)
      · exact hlast.trans (h.flow.trans hlast'.symm)
      · refine hperiod.trans (Eq.trans ?_ hperiod'.symm)
        simp only [afUpdateClientStatus_periodFlow, hsent, h.flow, h.lastFlow, h.periodFlow]
      · refine hcount.trans (Eq.trans ?_ hcount'.symm)
        rw [h.timerCount]
      · show (if (clientTimerHandler mac io l.node).2.isSome then _ else _) =
          (if (clientTimerHandler mac io l'.node).2.isSome then _ else _)
        rw [hsent, hreported, h.periodFlow]

theorem receive_ledger (mac : Mac) (recv : Reception) (sent : Option (Int × Option CStr))
    (period : FlowStat) (s : Pipeline) :
    (receive parse mac recv sent period s).ledger = s.ledger := by
  unfold receive
  split
  · rfl
  · rfl
  · dsimp only
    split <;> rfl

/-- The counters of the record follow the packets and the ticks alone. -/
theorem pipeline_ledger (parse : CStr → Option Json) (mac : Mac) (k : OafState env) (es : List PipeEvent) :
    SameFlows (run (pipeStep parse mac) (newPipeline k) es).ledger.node
        (run (ledgerStep mac) (newLedger k) (es.filterMap clientEvent)).node ∧
      (run (pipeStep parse mac) (newPipeline k) es).ledger.reported =
        (run (ledgerStep mac) (newLedger k) (es.filterMap clientEvent)).reported := by
  induction es using List.reverseRecOn with
  | nil => exact ⟨⟨rfl, rfl, rfl, rfl⟩, rfl⟩
  | append_singleton es e ih =>
      obtain ⟨hsame, hreported⟩ := ih
      rw [run_append, List.filterMap_append, run_append]
      have hstep := fun e' => hsame.step mac hreported e'
      cases e with
      | up skb => exact hstep (.up skb)
      | down skb => exact hstep (.down skb)
      | visit now appId drop =>
          exact ⟨⟨hsame.flow, hsame.lastFlow, hsame.periodFlow, hsame.timerCount⟩, hreported⟩
      | daemon act => exact ⟨hsame, hreported⟩
      | tick io recv =>
          have hledger : ∀ sent period s, (receive parse mac recv sent period s).ledger = s.ledger :=
            receive_ledger mac recv
          show SameFlows (receive parse mac recv _ _ _).ledger.node _ ∧
            (receive parse mac recv _ _ _).ledger.reported = _
          rw [hledger]
          exact hstep (.tick io)

/-! ## Runs -/

theorem totalBytes_filterMap_append (es fs : List PipeEvent) (d : Direction) :
    totalBytes d ((es ++ fs).filterMap clientEvent) =
      totalBytes d (es.filterMap clientEvent) + totalBytes d (fs.filterMap clientEvent) := by
  simp [totalBytes]

/-- A record that was just made has counted nothing. -/
theorem newLedger_zero (d : Direction) (k : OafState env) :
    bytesOf d (newLedger k).node.lastFlow = 0 ∧ bytesOf d (newLedger k).node.flow = 0 ∧
      bytesOf d (newLedger k).reported = 0 ∧ bytesOf d (newLedger k).node.periodFlow = 0 := by
  cases d <;> exact ⟨rfl, rfl, rfl, rfl⟩

theorem bytesByLastTick_le (d : Direction) (es : List ClientEvent) :
    bytesByLastTick d es ≤ totalBytes d es := by
  have hparts : ∀ es fs : List ClientEvent, totalBytes d (es ++ fs) = totalBytes d es + totalBytes d fs := by
    intro es fs
    simp [totalBytes]
  have hsum := hparts (es.reverse.takeWhile (fun e => !e.isTick)) (es.reverse.dropWhile (fun e => !e.isTick))
  rw [List.takeWhile_append_dropWhile] at hsum
  have hreverse : totalBytes d es.reverse = totalBytes d es := by
    unfold totalBytes
    rw [List.map_reverse, List.sum_reverse]
  unfold bytesByLastTick
  omega

/-- Along a run the daemon stays in order, and both sides agree. -/
theorem accounted_run (hparse : ReadsJson parse) (mac : Mac) (k : OafState env) (es : List PipeEvent)
    (horder : EveryStep (pipeStep parse mac) (Orderly mac) (newPipeline k) es)
    (htotal : ∀ d, totalBytes d (es.filterMap clientEvent) < 2 ^ 64) :
    ∃ lists t, Accounted mac (run (pipeStep parse mac) (newPipeline k) es) lists t := by
  have hflows : EveryStep (pipeStep parse mac)
      (fun s e => Orderly mac s e ∧ ∀ d, bytesOf d s.ledger.node.flow < 2 ^ 64) (newPipeline k) es := by
    intro front e back hes
    refine ⟨horder front e back hes, fun d => ?_⟩
    obtain ⟨hsame, -⟩ := pipeline_ledger parse mac k front
    have hpart := totalBytes_filterMap_append front (e :: back) d
    rw [← hes] at hpart
    rw [hsame.flow, (ledger_flows mac d k _).1]
    have hall := htotal d
    omega
  refine run_invariant (I := fun s => ∃ lists t, Accounted mac s lists t) ?_
    ⟨{}, HTable.empty, accounted_start k mac⟩ hflows
  rintro s e ⟨lists, t, h⟩ ⟨he, hroom⟩
  exact accounted_step hparse h he hroom

/-- Below 2 TiB in all, no period of a run is too long. -/
theorem orderly_of_total (mac : Mac) (k : OafState env) {es : List PipeEvent}
    (htotal : ∀ d, totalBytes d (es.filterMap clientEvent) < 2 ^ 41)
    (hvisit : ∀ now appId drop, .visit now appId drop ∈ es → appId.toNat < 2 ^ 31)
    (hdaemon : ∀ act, .daemon act ∈ es → NoGain mac act) :
    EveryStep (pipeStep parse mac) (Orderly mac) (newPipeline k) es := by
  intro front e back hes
  have hmem : e ∈ es := by
    rw [hes]
    exact List.mem_append_right _ List.mem_cons_self
  cases e with
  | up skb => trivial
  | down skb => trivial
  | visit now appId drop => exact hvisit now appId drop hmem
  | daemon act => exact hdaemon act hmem
  | tick io recv =>
      intro d
      obtain ⟨hsame, -⟩ := pipeline_ledger parse mac k front
      have hfresh := newLedger_zero d k
      have hbalance := ledger_before_first mac d (front.filterMap clientEvent) (newLedger k) hfresh.1
      obtain ⟨-, hlast⟩ := ledger_flows mac d k (front.filterMap clientEvent)
      have hpart := totalBytes_filterMap_append front (.tick io recv :: back) d
      have hbefore := bytesByLastTick_le d (front.filterMap clientEvent)
      have hall := htotal d
      rw [hes] at hall
      rw [hsame.periodFlow]
      omega

/-- The phone sends, opens a video and goes quiet; its first report is the one of
the thirty-first tick, and finds no room in the daemon. -/
def quietPhone : List PipeEvent :=
  [.up (lanTcp phoneMac phoneIp 7), .tick {} receivedAtNoon, .up (lanTcp phoneMac phoneIp 7),
    .visit 43190 3001 false] ++
  List.replicate 30 (.tick {} { receivedAtNoon with calloc := none }) ++
  [.daemon (.cleanOnline 43200), .up (lanTcp phoneMac phoneIp 7)] ++
  List.replicate 30 (.tick {} receivedAtNoon) ++
  [.daemon (.writeAll (fun node => { node with todayUpBytes := 0, todayDownBytes := 0 }))]

end OpenAppFilter.Theorems
