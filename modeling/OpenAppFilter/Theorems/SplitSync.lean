import OpenAppFilter.Daemon.Split
import OpenAppFilter.Kernel.System

/-!
# The per-device limits in the kernel

`af_split_check_period_limit` leaves in the kernel what it decided in the
daemon: whatever either side held before, a client is blocked afterwards iff a
selected device with its address reached the limit.
-/

namespace OpenAppFilter.Theorems

open Base Kernel Daemon

variable {env : Env}

/-! ## The texts -/

/-- A row of texts that start with `+` raises the flags of the addresses it
names and leaves the others. -/
theorem clientBlocked_writeTexts {texts : List CStr} (hplus : ∀ t ∈ texts, ∃ s, t = '+' :: s)
    (mac : Mac) : ∀ k : OafState env,
    ((clientBlocked (writeTexts texts k) mac).isSome ↔ (clientBlocked k mac).isSome) ∧
      (clientBlocked (writeTexts texts k) mac = some true ↔
        clientBlocked k mac = some true ∨
          ((clientBlocked k mac).isSome ∧ ∃ t ∈ texts, blockTarget t = some mac)) := by
  induction texts with
  | nil =>
      intro k
      simp [writeTexts]
  | cons t texts ih =>
      intro k
      obtain ⟨s, rfl⟩ := hplus t List.mem_cons_self
      obtain ⟨hsome, hblocked⟩ := ih (fun t' ht' => hplus t' (List.mem_cons_of_mem _ ht'))
        (oafBlockedMacsHandler k ('+' :: s)).1
      rw [clientBlocked_plus] at hsome hblocked
      show (_ ↔ _) ∧
        (clientBlocked (writeTexts texts (oafBlockedMacsHandler k ('+' :: s)).1) mac = _ ↔ _)
      by_cases hhead : blockTarget ('+' :: s) = some mac
      · rw [if_pos hhead] at hsome hblocked
        refine ⟨hsome.trans (by simp), hblocked.trans ?_⟩
        cases clientBlocked k mac with
        | none => simp
        | some b => simp [hhead]
      · rw [if_neg hhead] at hsome hblocked
        refine ⟨hsome, hblocked.trans ?_⟩
        simp [hhead]

/-- The sync leaves a client blocked iff a device that is written out has its
address. -/
theorem clientBlocked_sync {io : ProcIo} (hio : io.Ok) {devs : DevTable}
    (hcanon : ∀ e ∈ devs.entries, ∃ mac, CanonicalMac e.1 mac) (k : OafState env) (mac : Mac) :
    ((clientBlocked (afSplitSyncBlockedMacs io devs k) mac).isSome ↔
        (clientBlocked k mac).isSome) ∧
      (clientBlocked (afSplitSyncBlockedMacs io devs k) mac = some true ↔
        (clientBlocked k mac).isSome ∧
          ∃ e ∈ devs.entries, CanonicalMac e.1 mac ∧ e.2.toSync = true) := by
  have htexts : syncTexts io devs = "clear".toList ::
      (devs.entries.filter (fun e => e.2.toSync)).map (fun e => '+' :: e.1) := by
    unfold syncTexts
    rw [if_pos (hio.2 _), List.filter_eq_self.mpr (fun t _ => hio.2 t)]
  have hplus : ∀ t ∈ (devs.entries.filter (fun e => e.2.toSync)).map (fun e => '+' :: e.1),
      ∃ s, t = '+' :: s := by
    intro t ht
    obtain ⟨e, -, rfl⟩ := List.mem_map.mp ht
    exact ⟨e.1, rfl⟩
  obtain ⟨hsome, hblocked⟩ := clientBlocked_writeTexts hplus mac (unblockAll k)
  have hrun : afSplitSyncBlockedMacs io devs k =
      writeTexts ((devs.entries.filter (fun e => e.2.toSync)).map (fun e => '+' :: e.1))
        (unblockAll k) := by
    unfold afSplitSyncBlockedMacs
    rw [htexts]
    unfold writeTexts
    rw [List.foldl_cons, oafBlockedMacsHandler_clear]
  rw [hrun]
  rw [clientBlocked_unblockAll] at hsome hblocked
  refine ⟨hsome.trans (by simp), hblocked.trans ?_⟩
  have hnone : ((clientBlocked k mac).map (fun _ => false) = some true) ↔ False := by
    simp
  rw [hnone, false_or, Option.isSome_map]
  refine and_congr Iff.rfl ?_
  constructor
  · rintro ⟨t, ht, htarget⟩
    obtain ⟨e, he, rfl⟩ := List.mem_map.mp ht
    obtain ⟨hmem, hsync⟩ := List.mem_filter.mp he
    obtain ⟨mac', hcan⟩ := hcanon e hmem
    rw [blockTarget_canonical hcan] at htarget
    obtain rfl := Option.some.inj htarget
    exact ⟨e, hmem, hcan, hsync⟩
  · rintro ⟨e, hmem, hcan, hsync⟩
    exact ⟨'+' :: e.1, List.mem_map.mpr ⟨e, List.mem_filter.mpr ⟨hmem, hsync⟩, rfl⟩,
      blockTarget_canonical hcan⟩

/-! ## The decision and its realisation -/

/-- The device is selected, a limit is set for the current half of the day, and
the device's minutes in it have reached the limit. -/
def ReachedLimit (config : AfTimeConfig) (now : Tm) (node : DevNode) : Prop :=
  node.isSelected = true ∧ (config.dailyLimit now.wday).enable ≠ 0 ∧
    0 < (maxAllowedTime (config.dailyLimit now.wday) now).toInt ∧
    (maxAllowedTime (config.dailyLimit now.wday) now).toInt ≤ (node.activeTime now.hour).toNat

/-- No device's clock reading is at noon while the check's own was before. -/
def SameHalf (clock : Clock) : Prop :=
  clock.now.hour.val < 12 → ∀ mac, ¬ ((clock.dev mac).hour.val = 12 ∧ (clock.dev mac).min.val = 0)

/-- The test `max_allowed_time <= 0`, on the number. -/
theorem le_zero_iff_toInt {limit : Int32} : limit ≤ 0 ↔ limit.toInt ≤ 0 := by
  rw [Int32.le_iff_toInt_le]
  rfl

/-- A positive limit as `u_int32_t` is the same number. -/
theorem toUInt32_le_iff {limit : Int32} (h : 0 < limit.toInt) (t : UInt32) :
    limit.toUInt32 ≤ t ↔ limit.toInt ≤ t.toNat := by
  have hnat : (limit.toUInt32.toNat : Int) = limit.toInt := by
    have hcond : limit.toInt = if 2 * limit.toUInt32.toNat < 2 ^ 32 then
        (limit.toUInt32.toNat : Int) else (limit.toUInt32.toNat : Int) - (2 ^ 32 : Nat) :=
      BitVec.toInt_eq_toNat_cond limit.toBitVec
    have hlt : limit.toUInt32.toNat < 2 ^ 32 := limit.toUInt32.toNat_lt
    split at hcond <;> omega
  rw [UInt32.le_iff_toNat_le]
  omega

/-- The devices after the decision loop. -/
theorem mem_markOverLimit {devs : DevTable} {hour : Fin 24} {limit : UInt32}
    {e : CStr × DevNode} : e ∈ (markOverLimit devs hour limit).entries ↔
      ∃ e₀ ∈ devs.entries, e = (e₀.1, e₀.2.mark hour limit) := by
  unfold markOverLimit
  rw [HTable.entries_mapVals, List.mem_map]
  constructor
  · rintro ⟨e₀, he₀, rfl⟩
    exact ⟨e₀, he₀, rfl⟩
  · rintro ⟨e₀, he₀, rfl⟩
    exact ⟨e₀, he₀, rfl⟩

/-- The loop's `any_blocked` is 1 iff a selected device reached the limit. -/
theorem anyOverLimit_iff (devs : DevTable) (hour : Fin 24) (limit : UInt32) :
    anyOverLimit devs hour limit = true ↔
      ∃ e ∈ (markOverLimit devs hour limit).entries,
        e.2.isSelected = true ∧ limit ≤ e.2.activeTime hour := by
  unfold anyOverLimit
  rw [List.any_eq_true]
  constructor
  · rintro ⟨e, he, hover⟩
    exact ⟨_, mem_markOverLimit.mpr ⟨e, he, rfl⟩, by simpa using hover⟩
  · rintro ⟨e, he, hover⟩
    obtain ⟨e₀, he₀, rfl⟩ := mem_markOverLimit.mp he
    exact ⟨e₀, he₀, by simpa using hover⟩

/-- A limit check on its device table, status and returned value: either nobody
can have reached a limit and every flag is cleared, or the minutes left after
the noon reset decide every flag of a selected device. -/
theorem afSplitCheckPeriodLimit_cases (io : ProcIo) (config : AfTimeConfig) (clock : Clock)
    (d : DevState) (k : OafState env) :
    let r := afSplitCheckPeriodLimit io config clock d k
    let devs := (checkAllUsersPeriodTime clock.dev d.devs d.lastReset).1
    ((∀ node, ¬ ReachedLimit config clock.now node) ∧
      r.1.devs = d.devs.mapVals (fun _ node => { node with periodBlocked := false }) ∧
      r.1.status.periodBlocked = 0 ∧ r.2.2 = 0) ∨
    ∃ limit, (∀ node : DevNode, ReachedLimit config clock.now node ↔
        node.isSelected = true ∧ limit ≤ node.activeTime clock.now.hour) ∧
      r.1.devs = markOverLimit devs clock.now.hour limit ∧
      r.1.status.periodBlocked = (if anyOverLimit devs clock.now.hour limit then 1 else 0) ∧
      r.2.2 = if anyOverLimit devs clock.now.hour limit then 1 else 0 := by
  intro r devs
  by_cases hen : (config.dailyLimit clock.now.wday).enable = 0
  · -- no limit on this weekday
    have hr : r = _ := if_pos hen
    rw [hr]
    exact Or.inl ⟨fun node h => h.2.1 hen, rfl, rfl, rfl⟩
  have hr : r = _ := if_neg hen
  by_cases hmax : maxAllowedTime (config.dailyLimit clock.now.wday) clock.now ≤ 0
  · -- no limit in this half of the day
    rw [if_pos hmax] at hr
    rw [hr]
    refine Or.inl ⟨?_, rfl, rfl, rfl⟩
    intro node h
    have hneg := le_zero_iff_toInt.mp hmax
    have hpos := h.2.2.1
    omega
  · rw [if_neg hmax] at hr
    rw [hr]
    have hpos : 0 < (maxAllowedTime (config.dailyLimit clock.now.wday) clock.now).toInt :=
      Int.not_le.mp (fun h => hmax (le_zero_iff_toInt.mpr h))
    refine Or.inr ⟨_, ?_, rfl, rfl, rfl⟩
    intro node
    unfold ReachedLimit
    rw [toUInt32_le_iff hpos]
    simp [hen, hpos]

/-- What the limit check reads of a device. -/
def devView (hour : Fin 24) (node : DevNode) : Bool × UInt32 :=
  (node.isSelected, node.activeTime hour)

/-- The noon reset touches no minutes of the current half of the day. -/
theorem checkAllUsersPeriodTime_view {clock : Clock} (hhalf : SameHalf clock) (devs : DevTable)
    (last : LastReset) :
    (checkAllUsersPeriodTime clock.dev devs last).1.entries.map
        (fun e => (e.1, devView clock.now.hour e.2)) =
      devs.entries.map (fun e => (e.1, devView clock.now.hour e.2)) := by
  refine HTable.entries_mapAccum_observe devs ?_ last
  intro s mac node
  unfold checkAndResetTodayActiveTime
  split
  · rename_i hnoon
    split
    · -- only the morning's minutes are cleared, and it is past noon
      have hafter : ¬ clock.now.hour.val < 12 := fun h => hhalf h mac hnoon
      simp [devView, DevNode.activeTime, hafter]
    · rfl
  · rfl

/-- The check adds and removes no device. -/
theorem checkAllUsersPeriodTime_keys (clock : CStr → Tm) (devs : DevTable) (last : LastReset) :
    (checkAllUsersPeriodTime clock devs last).1.entries.map Prod.fst =
      devs.entries.map Prod.fst := by
  have hobs := HTable.entries_mapAccum_observe devs (g := fun _ => ())
    (f := fun last mac node => checkAndResetTodayActiveTime (clock mac) last node)
    (fun _ _ _ => rfl) last
  have hfst := congrArg (List.map Prod.fst) hobs
  rw [List.map_map, List.map_map] at hfst
  exact hfst

/-- The names are canonical after the noon reset and the decision loop. -/
theorem canonical_markOverLimit {devs : DevTable}
    (hcanon : ∀ e ∈ devs.entries, ∃ mac, CanonicalMac e.1 mac) (clock : CStr → Tm)
    (last : LastReset) (hour : Fin 24) (limit : UInt32) :
    ∀ e ∈ (markOverLimit (checkAllUsersPeriodTime clock devs last).1 hour limit).entries,
      ∃ mac, CanonicalMac e.1 mac := by
  intro e he
  obtain ⟨e₀, he₀, rfl⟩ := mem_markOverLimit.mp he
  have hkey : e₀.1 ∈ devs.entries.map Prod.fst := by
    rw [← checkAllUsersPeriodTime_keys clock devs last]
    exact List.mem_map_of_mem he₀
  obtain ⟨e₁, he₁, heq⟩ := List.mem_map.mp hkey
  have hcan := hcanon e₁ he₁
  rw [heq] at hcan
  exact hcan

/-- When the flags of the device table are the decision, the sync carries it
over. -/
theorem sync_realises {io : ProcIo} (hio : io.Ok) (devs : DevTable)
    (hcanon : ∀ e ∈ devs.entries, ∃ mac, CanonicalMac e.1 mac) {P : DevNode → Prop}
    (hflags : ∀ e ∈ devs.entries, e.2.toSync = true ↔ P e.2) (k : OafState env) :
    (∀ mac, ((afSplitSyncBlockedMacs io devs k).clients.find? mac).isSome ↔
      (k.clients.find? mac).isSome) ∧
    ∀ mac c, (afSplitSyncBlockedMacs io devs k).clients.find? mac = some c →
      (c.periodBlocked = true ↔ ∃ e ∈ devs.entries, CanonicalMac e.1 mac ∧ P e.2) := by
  refine ⟨?_, ?_⟩
  · intro mac
    have hsome := (clientBlocked_sync hio hcanon k mac).1
    unfold clientBlocked at hsome
    simpa using hsome
  · intro mac c hc
    obtain ⟨hsome, hblocked⟩ := clientBlocked_sync hio hcanon k mac
    have hflag : clientBlocked (afSplitSyncBlockedMacs io devs k) mac = some c.periodBlocked := by
      unfold clientBlocked
      rw [hc]
      rfl
    rw [hflag] at hsome hblocked
    constructor
    · intro hb
      obtain ⟨-, e, he, hcan, hsync⟩ := hblocked.mp (by rw [hb])
      exact ⟨e, he, hcan, (hflags e he).mp hsync⟩
    · rintro ⟨e, he, hcan, hP⟩
      exact Option.some.inj (hblocked.mpr ⟨hsome.mp rfl, e, he, hcan, (hflags e he).mpr hP⟩)

/-- No limit for the current half of the day: every flag is cleared, and no
device has reached a limit. -/
theorem unblocked_realises {io : ProcIo} (hio : io.Ok) {devs : DevTable}
    (hcanon : ∀ e ∈ devs.entries, ∃ mac, CanonicalMac e.1 mac) {P : DevNode → Prop}
    (hP : ∀ node, ¬ P node) (hour : Fin 24) (k : OafState env) :
    let unblocked : DevTable := devs.mapVals (fun _ node => { node with periodBlocked := false })
    (∀ mac, ((afSplitSyncBlockedMacs io unblocked k).clients.find? mac).isSome ↔
      (k.clients.find? mac).isSome) ∧
    (∀ mac c, (afSplitSyncBlockedMacs io unblocked k).clients.find? mac = some c →
      (c.periodBlocked = true ↔ ∃ e ∈ unblocked.entries, CanonicalMac e.1 mac ∧ P e.2)) ∧
    unblocked.entries.map (fun e => (e.1, devView hour e.2)) =
      devs.entries.map (fun e => (e.1, devView hour e.2)) := by
  intro unblocked
  have hentries : unblocked.entries =
      devs.entries.map (fun e => (e.1, { e.2 with periodBlocked := false })) :=
    HTable.entries_mapVals devs _
  have hmem : ∀ e ∈ unblocked.entries, ∃ e₀ ∈ devs.entries,
      e = (e₀.1, { e₀.2 with periodBlocked := false }) := by
    intro e he
    rw [hentries] at he
    obtain ⟨e₀, he₀, rfl⟩ := List.mem_map.mp he
    exact ⟨e₀, he₀, rfl⟩
  have hsync := sync_realises (P := P) hio unblocked ?_ ?_ k
  · refine ⟨hsync.1, hsync.2, ?_⟩
    rw [hentries, List.map_map]
    rfl
  · intro e he
    obtain ⟨e₀, he₀, rfl⟩ := hmem e he
    exact hcanon e₀ he₀
  · intro e he
    obtain ⟨e₀, -, rfl⟩ := hmem e he
    simp [DevNode.toSync, hP]

/-- **The sync realises the decision.** After `af_split_check_period_limit`
with all writes successful the kernel has the same clients as before, a client
is blocked iff a selected device with its address reached the limit, and the
function returned 1 iff some selected device did. The minutes are those of the
device table on return; they are the ones from before the call unless a clock
reading crossed noon in the middle of it. -/
theorem split_sync_realises (io : ProcIo) (config : AfTimeConfig) (clock : Clock)
    (d d' : DevState) (k k' : OafState env) (ret : Int) (hio : io.Ok)
    (hcanon : ∀ e ∈ d.devs.entries, ∃ mac, CanonicalMac e.1 mac)
    (hrun : afSplitCheckPeriodLimit io config clock d k = (d', k', ret)) :
    (∀ mac, (k'.clients.find? mac).isSome ↔ (k.clients.find? mac).isSome) ∧
    (∀ mac c, k'.clients.find? mac = some c →
      (c.periodBlocked = true ↔
        ∃ e ∈ d'.devs.entries, CanonicalMac e.1 mac ∧ ReachedLimit config clock.now e.2)) ∧
    (ret = 1 ↔ ∃ e ∈ d'.devs.entries, ReachedLimit config clock.now e.2) ∧
    (SameHalf clock →
      d'.devs.entries.map (fun e => (e.1, devView clock.now.hour e.2)) =
        d.devs.entries.map (fun e => (e.1, devView clock.now.hour e.2))) := by
  obtain rfl : (afSplitCheckPeriodLimit io config clock d k).1 = d' := by rw [hrun]
  obtain rfl : (afSplitCheckPeriodLimit io config clock d k).2.1 = k' := by rw [hrun]
  obtain rfl : (afSplitCheckPeriodLimit io config clock d k).2.2 = ret := by rw [hrun]
  rw [afSplitCheckPeriodLimit_kernel]
  rcases afSplitCheckPeriodLimit_cases io config clock d k with
    ⟨hnot, hdevs, -, hret⟩ | ⟨limit, hreached, hdevs, -, hret⟩
  · rw [hdevs, hret]
    obtain ⟨hthere, hflags, hview⟩ := unblocked_realises hio hcanon hnot clock.now.hour k
    exact ⟨hthere, hflags, by simp [hnot], fun _ => hview⟩
  · rw [hdevs, hret]
    obtain ⟨hthere, hflags⟩ := sync_realises (P := ReachedLimit config clock.now) hio _
      (canonical_markOverLimit hcanon clock.dev d.lastReset clock.now.hour limit)
      (fun e he => by
        obtain ⟨e₀, -, rfl⟩ := mem_markOverLimit.mp he
        simp [hreached]) k
    refine ⟨hthere, hflags, ?_, ?_⟩
    · -- the returned value is `any_blocked`
      simp only [hreached]
      rw [← anyOverLimit_iff]
      cases anyOverLimit (checkAllUsersPeriodTime clock.dev d.devs d.lastReset).1 clock.now.hour
        limit with
      | false => simp
      | true => simp
    · intro hhalf
      rw [← checkAllUsersPeriodTime_view hhalf d.devs d.lastReset]
      unfold markOverLimit
      rw [HTable.entries_mapVals, List.map_map]
      simp [Function.comp_def, devView]

/-! ## One device over its limit -/

def phoneText : CStr := "02:00:00:00:00:11".toList

theorem find?_empty_phone : (HTable.empty : DevTable).find? phoneText = none :=
  HTable.find?_empty phoneText

/-- The daemon's table with the phone, one hour active this morning. -/
def phoneDevs : DevTable :=
  HTable.empty.add phoneText { isSelected := true, todayAmActiveTime := 60 } find?_empty_phone

/-- Mode 2, one hour in each half of every day. -/
def oneHourConfig : AfTimeConfig where
  timeMode := 2
  splitTime := 1
  denyTime := 0
  allowTime := 0
  segStart := {}
  segEnd := {}
  days := fun _ => true
  timeList := []
  dailyLimit := fun _ => { enable := 1, amTime := 60, pmTime := 60 }

/-- Monday, nine in the morning. -/
def mondayMorning : Tm := ⟨1, 9, 0⟩

/-- Every reading of the check is in that minute. -/
def morningClock : Clock := ⟨mondayMorning, fun _ => mondayMorning⟩

/-- The kernel after one packet of the phone. -/
def phoneSeen : OafState routerEnv :=
  step (boot routerEnv 0) (.forward (lanTcp phoneMac phoneIp 7))

def allOk : ProcIo := { value := fun _ => true, blockedMacs := fun _ => true }

theorem canonicalMac_phone : CanonicalMac phoneText phoneMac := by
  refine ⟨['0', '2'], ['0', '0'], ['0', '0'], ['0', '0'], ['0', '0'], ['1', '1'],
    ⟨_, _, 0, 2, rfl, ?_, ?_, ?_⟩, ⟨_, _, 0, 0, rfl, ?_, ?_, ?_⟩, ⟨_, _, 0, 0, rfl, ?_, ?_, ?_⟩,
    ⟨_, _, 0, 0, rfl, ?_, ?_, ?_⟩, ⟨_, _, 0, 0, rfl, ?_, ?_, ?_⟩, ⟨_, _, 1, 1, rfl, ?_, ?_, ?_⟩,
    ?_⟩ <;> decide

/-- The phone used its hour: its record in the kernel is blocked afterwards,
and the function returns 1. -/
theorem split_sync_blocks_phone :
    ∃ d' k' ret c,
      afSplitCheckPeriodLimit allOk oneHourConfig morningClock { devs := phoneDevs } phoneSeen =
        (d', k', ret) ∧
      k'.clients.find? phoneMac = some c ∧ c.periodBlocked = true ∧ ret = 1 := by
  have hcanon : ∀ e ∈ phoneDevs.entries, ∃ mac, CanonicalMac e.1 mac := by
    intro e he
    rcases HTable.mem_entries_add.mp he with rfl | hnone
    · exact ⟨phoneMac, canonicalMac_phone⟩
    · simp at hnone
  obtain ⟨hthere, hflags, hret, -⟩ := split_sync_realises allOk oneHourConfig morningClock
    { devs := phoneDevs } _ phoneSeen _ _ ⟨fun _ => rfl, fun _ => rfl⟩ hcanon rfl
  -- the phone stands in the table on return, selected and with its hour used
  have hdev : ∃ e ∈ (afSplitCheckPeriodLimit allOk oneHourConfig morningClock
      { devs := phoneDevs } phoneSeen).1.devs.entries,
      e.1 = phoneText ∧ e.2.isSelected = true ∧ (e.2.activeTime 9).toNat = 60 := by
    decide +kernel
  obtain ⟨e, he, hkey, hsel, htime⟩ := hdev
  have hreached : ReachedLimit oneHourConfig mondayMorning e.2 := by
    refine ⟨hsel, by decide, by decide, ?_⟩
    show (60 : Int) ≤ ((e.2.activeTime 9).toNat : Int)
    omega
  obtain ⟨c, hc⟩ := Option.isSome_iff_exists.mp ((hthere phoneMac).mpr (by decide +kernel))
  refine ⟨_, _, _, c, rfl, hc, (hflags phoneMac c hc).mpr ⟨e, he, ?_, hreached⟩,
    hret.mpr ⟨e, he, hreached⟩⟩
  rw [hkey]
  exact canonicalMac_phone

end OpenAppFilter.Theorems
