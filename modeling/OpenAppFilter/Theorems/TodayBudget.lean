import OpenAppFilter.Daemon.Day
import OpenAppFilter.Theorems.SplitSync

/-!
# Minutes of an earlier day

The minutes of a device are cleared by `check_date_change`, once a minute and
after the limit checks of that tick, and the usage file carries no date. So the
minutes held against today's limit are today's exactly as long as no midnight
has passed over minutes that are still there.

The proof sorts the calls of the daemon: all but a report and a restart leave
every device with at most the minutes it had (`FewerMinutes`).
-/

namespace OpenAppFilter.Theorems

open Base Kernel Daemon

variable {env : Env}

/-! ## Calls that add no minutes -/

/-- Every device has at most the minutes it had before; a new one has none. -/
def FewerMinutes (devs devs' : DevTable) : Prop :=
  ∀ e ∈ devs'.entries, (PlainName e.1 ∧ e.2.minutes = 0) ∨
    ∃ node, (e.1, node) ∈ devs.entries ∧ e.2.minutes ≤ node.minutes

theorem FewerMinutes.refl (devs : DevTable) : FewerMinutes devs devs :=
  fun e he => Or.inr ⟨e.2, he, Nat.le_refl _⟩

theorem FewerMinutes.trans {devs devs' devs'' : DevTable} (h : FewerMinutes devs devs')
    (h' : FewerMinutes devs' devs'') : FewerMinutes devs devs'' := by
  intro e he
  rcases h' e he with hnew | ⟨node, hnode, hle⟩
  · exact Or.inl hnew
  · rcases h _ hnode with ⟨hplain, hzero⟩ | ⟨node', hnode', hle'⟩
    · refine Or.inl ⟨hplain, ?_⟩
      have hz : node.minutes = 0 := hzero
      omega
    · exact Or.inr ⟨node', hnode', Nat.le_trans hle hle'⟩

/-- A loop over all devices that adds no minutes. -/
theorem fewerMinutes_mapVals (devs : DevTable) {f : CStr → DevNode → DevNode}
    (hf : ∀ mac node, (f mac node).minutes ≤ node.minutes) :
    FewerMinutes devs (devs.mapVals f) := by
  intro e he
  rw [HTable.entries_mapVals] at he
  obtain ⟨e₀, he₀, rfl⟩ := List.mem_map.mp he
  exact Or.inr ⟨e₀.2, he₀, hf e₀.1 e₀.2⟩

theorem fewerMinutes_modify (devs : DevTable) (mac : CStr) {f : DevNode → DevNode}
    (hf : ∀ node, (f node).minutes ≤ node.minutes) : FewerMinutes devs (devs.modify mac f) := by
  refine fewerMinutes_mapVals devs ?_
  intro name node
  split
  · exact hf node
  · exact Nat.le_refl _

theorem fewerMinutes_filter (devs : DevTable) (p : CStr → DevNode → Bool) :
    FewerMinutes devs (devs.filter p) :=
  fun e he => Or.inr ⟨e.2, HTable.mem_of_mem_entries_filter he, Nat.le_refl _⟩

theorem fewerMinutes_addNew (devs : DevTable) (mac : DevName) {node : DevNode}
    (h : node.minutes = 0) : FewerMinutes devs (devs.addNew mac.val node) := by
  intro e he
  rcases HTable.mem_entries_addNew he with rfl | hold
  · exact Or.inl ⟨mac.property, h⟩
  · exact Or.inr ⟨e.2, hold, Nat.le_refl _⟩

/-- A loop over a list of names. -/
theorem fewerMinutes_foldl {α : Type} {f : DevTable → α → DevTable}
    (hf : ∀ devs a, FewerMinutes devs (f devs a)) (as : List α) :
    ∀ devs, FewerMinutes devs (as.foldl f devs) := by
  induction as with
  | nil => exact FewerMinutes.refl
  | cons a as ih =>
      intro devs
      exact (hf devs a).trans (ih (f devs a))

theorem fewerMinutes_selectUsers (users : List (Option CStr)) :
    ∀ macStr devs, FewerMinutes devs (selectUsers users macStr devs) := by
  induction users with
  | nil =>
      intro macStr devs
      exact FewerMinutes.refl devs
  | cons user users ih =>
      intro macStr devs
      refine FewerMinutes.trans ?_ (ih _ _)
      exact fewerMinutes_modify devs _ (fun _ => Nat.le_refl _)

theorem fewerMinutes_selectedFlag (userMode : Int32) (afUsers : List (Option CStr))
    (devs : DevTable) : FewerMinutes devs (updateDevSelectedFlag userMode afUsers devs) := by
  unfold updateDevSelectedFlag
  split
  · exact fewerMinutes_mapVals devs (fun _ _ => Nat.le_refl _)
  · refine FewerMinutes.trans ?_ (fewerMinutes_selectUsers afUsers _ _)
    exact fewerMinutes_mapVals devs (fun _ _ => Nat.le_refl _)

theorem fewerMinutes_devList (userMode : Int32) (afUsers : List (Option CStr))
    (leases clients : List DevName) (devs : DevTable) :
    FewerMinutes devs (updateDevList userMode afUsers leases clients devs) := by
  have honline : FewerMinutes devs (cleanDevOnlineStatus devs) :=
    fewerMinutes_mapVals devs (fun _ _ => Nat.le_refl _)
  have hleases : ∀ devs, FewerMinutes devs (updateDevHostname leases devs) :=
    fewerMinutes_foldl (fun devs mac => fewerMinutes_addNew devs mac rfl) leases
  have hclients : ∀ devs, FewerMinutes devs (updateDevFromKernel clients devs) := by
    refine fewerMinutes_foldl ?_ clients
    intro devs mac
    refine (fewerMinutes_addNew devs mac ?_).trans (fewerMinutes_modify _ _ ?_)
    · rfl
    · exact fun node => Nat.le_refl _
  exact honline.trans ((hleases _).trans ((hclients _).trans (fewerMinutes_selectedFlag _ _ _)))

/-! ## The limit check -/

/-- The noon reset clears minutes. -/
theorem fewerMinutes_periodTime (clock : CStr → Tm) (devs : DevTable) (last : LastReset) :
    FewerMinutes devs (checkAllUsersPeriodTime clock devs last).1 := by
  intro e he
  obtain ⟨node, s, hnode, hval⟩ := HTable.mem_entries_mapAccum he
  refine Or.inr ⟨node, hnode, ?_⟩
  rw [hval]
  unfold checkAndResetTodayActiveTime
  split
  · split
    · simp [DevNode.minutes]
    · exact Nat.le_refl _
  · exact Nat.le_refl _

theorem DevNode.mark_minutes (node : DevNode) (hour : Fin 24) (limit : UInt32) :
    (node.mark hour limit).minutes = node.minutes := by
  unfold DevNode.mark
  split <;> rfl

theorem fewerMinutes_split (io : ProcIo) (config : AfTimeConfig) (clock : Clock) (d : DevState)
    (k : OafState env) :
    FewerMinutes d.devs (afSplitCheckPeriodLimit io config clock d k).1.devs := by
  rcases afSplitCheckPeriodLimit_cases io config clock d k with
    ⟨-, hdevs, -, -⟩ | ⟨limit, -, hdevs, -, -⟩
  · rw [hdevs]
    exact fewerMinutes_mapVals d.devs (fun _ _ => Nat.le_refl _)
  · rw [hdevs]
    exact (fewerMinutes_periodTime _ _ _).trans
      (fewerMinutes_mapVals _ (fun _ node => Nat.le_of_eq (DevNode.mark_minutes node _ _)))

theorem fewerMinutes_shared (config : AfTimeConfig) (clock : Clock) (d : DevState) :
    FewerMinutes d.devs (afCheckSharedPeriodLimit config clock d).1.devs := by
  unfold afCheckSharedPeriodLimit
  dsimp only
  split
  · exact FewerMinutes.refl _
  · split
    · exact FewerMinutes.refl _
    · exact fewerMinutes_periodTime _ _ _

theorem fewerMinutes_timeValid (io : ProcIo) (config : AfTimeConfig) (clock : Clock)
    (d : DevState) (k : OafState env) :
    FewerMinutes d.devs (afCheckTimeValid io config clock d k).1.devs := by
  rcases afCheckTimeValid_cases io config clock d k with ⟨hdevs, -⟩ | hsplit | ⟨hshared, -⟩
  · rw [hdevs]
    exact FewerMinutes.refl _
  · rw [hsplit]
    exact fewerMinutes_split io config clock d k
  · rw [hshared]
    exact fewerMinutes_shared config clock d

theorem fewerMinutes_oafStatus (io : ProcIo) (clock : Clock) (d : DaemonState)
    (k : OafState env) : FewerMinutes d.dev.devs (updateOafStatus io clock d k).1.dev.devs := by
  unfold updateOafStatus
  dsimp only
  split
  · exact fewerMinutes_timeValid io d.time clock d.dev k
  · exact FewerMinutes.refl _

/-! ## Clearing -/

theorem fewerMinutes_clear (io : ProcIo) (mac : Option CStr) (d : DevState) (k : OafState env) :
    FewerMinutes d.devs (clearActiveTime io mac d k).1.devs := by
  have hzero : ∀ node : DevNode, node.clearMinutes.minutes ≤ node.minutes := by
    intro node
    exact Nat.zero_le _
  unfold clearActiveTime
  split
  · unfold resetOneUserTodayActiveTime
    split
    · exact FewerMinutes.refl _
    · exact fewerMinutes_modify _ _ (fun node => hzero node)
  · exact fewerMinutes_mapVals _ (fun _ node => hzero node)

theorem minutes_resetAll {d : DevState} {e : CStr × DevNode}
    (he : e ∈ (resetAllUsersTodayActiveTime d).devs.entries) : e.2.minutes = 0 := by
  have he' : e ∈ (d.devs.mapVals (fun _ node => node.clearMinutes)).entries := he
  rw [HTable.entries_mapVals] at he'
  obtain ⟨e₀, -, rfl⟩ := List.mem_map.mp he'
  rfl

theorem fewerMinutes_dateChange (mday : Nat) (lastDay : Int) (d : DevState) :
    FewerMinutes d.devs (checkDateChange mday lastDay d).1.devs := by
  unfold checkDateChange
  split
  · dsimp only
    split
    · exact fewerMinutes_mapVals _ (fun _ _ => Nat.zero_le _)
    · exact FewerMinutes.refl _
  · exact FewerMinutes.refl _

/-! ## The invariant -/

/-- What a restart finds in the usage file. -/
def DayState.loaded (s : DayState env) : DevTable :=
  loadUserTimeFromFile s.userFile HTable.empty

/-- Until a midnight passes over them, the minutes in the table and those in the
file are backed by reports since midnight. -/
structure DayInv (s : DayState env) : Prop where
  plain : ∀ e ∈ s.devs.entries, PlainName e.1
  table : s.carried = false → OnlyToday s
  filePlain : ∀ e ∈ (DayState.loaded s).entries, PlainName e.1
  file : s.fileCarried = false →
    ∀ e ∈ (DayState.loaded s).entries, e.2.minutes ≤ s.reports e.1

theorem FewerMinutes.plain {devs devs' : DevTable} (h : FewerMinutes devs devs')
    (hplain : ∀ e ∈ devs.entries, PlainName e.1) : ∀ e ∈ devs'.entries, PlainName e.1 := by
  intro e he
  rcases h e he with hnew | ⟨node, hnode, -⟩
  · exact hnew.1
  · exact hplain (e.1, node) hnode

theorem FewerMinutes.bound {devs devs' : DevTable} (h : FewerMinutes devs devs')
    {reports : CStr → Nat} (hle : ∀ e ∈ devs.entries, e.2.minutes ≤ reports e.1) :
    ∀ e ∈ devs'.entries, e.2.minutes ≤ reports e.1 := by
  intro e he
  rcases h e he with ⟨-, hzero⟩ | ⟨node, hnode, hmin⟩
  · rw [hzero]
    exact Nat.zero_le _
  · exact Nat.le_trans hmin (hle _ hnode)

/-- A call that adds no minutes keeps the invariant. -/
theorem DayInv.of_fewer {s s' : DayState env} (h : DayInv s)
    (hdevs : FewerMinutes s.devs s'.devs) (hfile : s'.userFile = s.userFile)
    (hreports : s'.reports = s.reports) (hcarried : s'.carried = s.carried)
    (hfileCarried : s'.fileCarried = s.fileCarried) : DayInv s' := by
  have hloaded : DayState.loaded s' = DayState.loaded s := by
    unfold DayState.loaded
    rw [hfile]
  refine ⟨hdevs.plain h.plain, ?_, ?_, ?_⟩
  · intro hc
    unfold OnlyToday
    rw [hreports]
    exact hdevs.bound (h.table (hcarried ▸ hc))
  · rw [hloaded]
    exact h.filePlain
  · intro hfc
    rw [hloaded, hreports]
    exact h.file (hfileCarried ▸ hfc)

/-- So does one after which no device has minutes. -/
theorem DayInv.of_cleared {s s' : DayState env} (h : DayInv s)
    (hdevs : FewerMinutes s.devs s'.devs) (hzero : ∀ e ∈ s'.devs.entries, e.2.minutes = 0)
    (hfile : s'.userFile = s.userFile) (hreports : s'.reports = s.reports)
    (hfileCarried : s'.fileCarried = s.fileCarried) : DayInv s' := by
  have hkept : DayInv { s' with carried := s.carried } :=
    h.of_fewer hdevs hfile hreports rfl hfileCarried
  refine ⟨hkept.plain, ?_, hkept.filePlain, hkept.file⟩
  intro _ e he
  rw [hzero e he]
  exact Nat.zero_le _

/-! ## Reports, saves and restarts -/

/-- One more minute is at most one more. -/
theorem minutes_addMinute (node : DevNode) (hour : Fin 24) :
    (node.addMinute hour).minutes ≤ node.minutes + 1 := by
  have hle : ∀ n : UInt32, (n + 1).toNat ≤ n.toNat + 1 := by
    intro n
    rw [UInt32.toNat_add]
    exact Nat.mod_le _ _
  unfold DevNode.addMinute
  split
  · have ham := hle node.todayAmActiveTime
    simp only [DevNode.minutes]
    omega
  · have hpm := hle node.todayPmActiveTime
    simp only [DevNode.minutes]
    omega

theorem dayInv_report {s : DayState env} (h : DayInv s) (mday : Nat → Nat) (mac : DevName)
    (active : Option Int32) (hour : Fin 24) :
    DayInv (dayStep mday s (.report mac active hour)) := by
  have hnew := @fewerMinutes_addNew s.devs mac {} rfl
  -- a device after the report is one from before, or the new one, counted up
  have hmem : ∀ e ∈ (dayStep mday s (.report mac active hour)).devs.entries,
      ∃ node, (e.1, node) ∈ (s.devs.addNew mac.val {}).entries ∧
        e.2 = if e.1 = mac.val then (if isActive active then node.addMinute hour else node)
          else node :=
    fun e he => HTable.mem_entries_modify.mp he
  -- every report count stays or grows
  have hmono : ∀ name, s.reports name ≤
      (if name = mac.val ∧ isActive active then s.reports name + 1 else s.reports name) := by
    intro name
    split <;> omega
  refine ⟨?_, ?_, h.filePlain, ?_⟩
  · intro e he
    obtain ⟨node, hnode, -⟩ := hmem e he
    exact hnew.plain h.plain (e.1, node) hnode
  · intro hc e he
    obtain ⟨node, hnode, hval⟩ := hmem e he
    have hold : node.minutes ≤ s.reports e.1 := hnew.bound (h.table hc) _ hnode
    show e.2.minutes ≤ if e.1 = mac.val ∧ isActive active then s.reports e.1 + 1
      else s.reports e.1
    rw [hval]
    by_cases hcount : e.1 = mac.val ∧ isActive active
    · rw [if_pos hcount.1, if_pos hcount.2, if_pos hcount]
      have hone := minutes_addMinute node hour
      omega
    · rw [if_neg hcount]
      split
      · rename_i hkey
        rw [if_neg (fun hact => hcount ⟨hkey, hact⟩)]
        exact hold
      · exact hold
  · intro hfc e he
    exact Nat.le_trans (h.file hfc e he) (hmono e.1)

/-- What a saved table loads as has the table's names and minutes. -/
theorem mem_loaded_save {devs : DevTable} (hplain : ∀ e ∈ devs.entries, PlainName e.1)
    {e : CStr × DevNode}
    (he : e ∈ (loadUserTimeFromFile (some (saveUserTimeToFile devs)) HTable.empty).entries) :
    ∃ node, (e.1, node) ∈ devs.entries ∧ e.2.minutes = node.minutes := by
  rw [loadUserTimeFromFile_save hplain] at he
  rcases mem_setMinutes _ _ he with hnone | hrow
  · simp at hnone
  · obtain ⟨e₀, he₀, heq⟩ := List.mem_map.mp hrow
    simp only [Prod.mk.injEq] at heq
    obtain ⟨hkey, ham, hpm⟩ := heq
    refine ⟨e₀.2, ?_, ?_⟩
    · rw [← hkey]
      exact he₀
    · unfold DevNode.minutes
      rw [ham, hpm]

theorem dayInv_save {s : DayState env} (h : DayInv s) :
    DayInv { s with
      userFile := some (saveUserTimeToFile s.devs), fileCarried := s.carried } := by
  refine ⟨h.plain, h.table, ?_, ?_⟩
  · intro e he
    obtain ⟨node, hnode, -⟩ := mem_loaded_save h.plain he
    exact h.plain (e.1, node) hnode
  · intro hfc e he
    obtain ⟨node, hnode, hmin⟩ := mem_loaded_save h.plain he
    rw [hmin]
    exact h.table hfc _ hnode

theorem anyMinutes_false {devs : DevTable} (h : anyMinutes devs = false) :
    ∀ e ∈ devs.entries, e.2.minutes = 0 := by
  intro e he
  have hnone := List.any_eq_false.mp h e he
  simpa using hnone

theorem dayInv_midnight {s : DayState env} (h : DayInv s) (mday : Nat → Nat) :
    DayInv (dayStep mday s .midnight) := by
  refine ⟨h.plain, ?_, h.filePlain, ?_⟩
  · intro hc e he
    have hnone : anyMinutes s.devs = false := (Bool.or_eq_false_iff.mp hc).2
    rw [anyMinutes_false hnone e he]
    exact Nat.zero_le _
  · intro hfc e he
    have hnone : anyMinutes (DayState.loaded s) = false := (Bool.or_eq_false_iff.mp hfc).2
    rw [anyMinutes_false hnone e he]
    exact Nat.zero_le _

/-- A restart takes over the minutes of the file. -/
theorem dayInv_restart {s : DayState env} (h : DayInv s) (mday : Nat → Nat)
    (config : LoadedConfig) : DayInv (dayStep mday s (.restart config)) :=
  ⟨h.filePlain, h.file, h.filePlain, h.file⟩

/-! ## Every call -/

theorem dayInv_dateChange {s : DayState env} (h : DayInv s) (mday : Nat → Nat) :
    DayInv (dayStep mday s .checkDateChange) := by
  have hfewer : FewerMinutes s.devs (dayStep mday s .checkDateChange).devs :=
    fewerMinutes_dateChange (mday s.today) s.lastDay s.daemon.dev
  by_cases hreset : s.lastDay ≠ mday s.today ∧ s.lastDay ≠ -1
  · refine h.of_cleared hfewer ?_ rfl rfl rfl
    intro e he
    have hdev : (dayStep mday s .checkDateChange).devs =
        (resetAllUsersTodayActiveTime s.daemon.dev).devs := by
      show (checkDateChange (mday s.today) s.lastDay s.daemon.dev).1.devs = _
      unfold checkDateChange
      rw [if_pos hreset.1, if_pos hreset.2]
    rw [hdev] at he
    exact minutes_resetAll he
  · exact h.of_fewer hfewer rfl rfl (if_neg hreset) rfl

theorem dayInv_clear {s : DayState env} (h : DayInv s) (mday : Nat → Nat) (io : ProcIo)
    (mac : Option CStr) : DayInv (dayStep mday s (.clearActiveTime io mac)) := by
  have hfewer : FewerMinutes s.devs (dayStep mday s (.clearActiveTime io mac)).devs :=
    fewerMinutes_clear io mac s.daemon.dev s.kernel
  match mac with
  | some (c :: cs) => exact h.of_fewer hfewer rfl rfl rfl rfl
  | some [] => exact h.of_cleared hfewer (fun e he => minutes_resetAll he) rfl rfl rfl
  | none => exact h.of_cleared hfewer (fun e he => minutes_resetAll he) rfl rfl rfl

/-- Every event keeps the invariant. -/
theorem dayInv_step {s : DayState env} (h : DayInv s) (mday : Nat → Nat) (a : DayAct) :
    DayInv (dayStep mday s a) := by
  cases a with
  | report mac active hour => exact dayInv_report h mday mac active hour
  | midnight => exact dayInv_midnight h mday
  | restart config => exact dayInv_restart h mday config
  | updateDevList afUsers leases clients =>
      exact h.of_fewer (fewerMinutes_devList _ afUsers leases clients s.devs) rfl rfl rfl rfl
  | updateOafStatus io clock =>
      exact h.of_fewer (fewerMinutes_oafStatus io clock s.daemon s.kernel) rfl rfl rfl rfl
  | updateDynamicUsedTime now =>
      exact h.of_fewer (FewerMinutes.refl s.devs) rfl rfl rfl rfl
  | updateLanIp io ip mask => exact h.of_fewer (FewerMinutes.refl s.devs) rfl rfl rfl rfl
  | flushDevExpireNode expired =>
      have hfewer : FewerMinutes s.devs (flushDevExpireNode expired s.devs) :=
        fewerMinutes_filter s.devs _
      exact h.of_fewer hfewer rfl rfl rfl rfl
  | checkDateChange => exact dayInv_dateChange h mday
  | checkAllUsersPeriodTime clock =>
      exact h.of_fewer (fewerMinutes_periodTime clock s.devs _) rfl rfl rfl rfl
  | saveUserTimeToFile opened =>
      cases opened with
      | false => exact h
      | true => exact dayInv_save h
  | loadConfig config => exact h.of_fewer (FewerMinutes.refl s.devs) rfl rfl rfl rfl
  | updateDevSelectedFlag afUsers =>
      exact h.of_fewer (fewerMinutes_selectedFlag _ afUsers s.devs) rfl rfl rfl rfl
  | updateSwitches io => exact h.of_fewer (FewerMinutes.refl s.devs) rfl rfl rfl rfl
  | clearActiveTime io mac => exact dayInv_clear h mday io mac
  | flushOfflineUsers =>
      have hfewer : FewerMinutes s.devs (flushOfflineUsers s.devs) := fewerMinutes_filter s.devs _
      exact h.of_fewer hfewer rfl rfl rfl rfl

theorem dayInv_start (config : LoadedConfig) (k : OafState env) : DayInv (dayStart config k) :=
  ⟨fun _ he => absurd he List.not_mem_nil, fun _ _ he => absurd he List.not_mem_nil,
    fun _ he => absurd he List.not_mem_nil, fun _ _ he => absurd he List.not_mem_nil⟩

/-! ## Today's minutes -/

/-- With the report counts back at zero, the minutes are today's iff there are
none. -/
theorem bound_zero_iff (devs : DevTable) :
    (∀ e ∈ devs.entries, e.2.minutes ≤ 0) ↔ anyMinutes devs = false := by
  constructor
  · intro h
    refine List.any_eq_false.mpr ?_
    intro e he
    have hzero := h e he
    simp only [decide_eq_true_eq]
    omega
  · intro h e he
    exact Nat.le_of_eq (anyMinutes_false h e he)

/-- **Minutes held against today's limit.** In every run of the daemon in which
no limit check meets minutes that a midnight has passed over, each limit check
finds every device with at most as many minutes as active reports since
midnight. A midnight spoils this at once when a device has minutes in the
table, and a restart after it when one has minutes in the usage file. -/
theorem today_budget_only_today (mday : Nat → Nat) (config : LoadedConfig) (k : OafState env)
    (acts : List DayAct)
    (hfresh : EveryStep (dayStep mday) (fun s a => limitCheck s a = true → s.carried = false)
      (dayStart config k) acts) :
    EveryStep (dayStep mday) (fun s a => limitCheck s a = true → OnlyToday s)
      (dayStart config k) acts ∧
    (∀ s : DayState env, OnlyToday (dayStep mday s .midnight) ↔ anyMinutes s.devs = false) ∧
    ∀ (s : DayState env) (config' : LoadedConfig),
      OnlyToday (dayStep mday (dayStep mday s .midnight) (.restart config')) ↔
        anyMinutes (loadUserTimeFromFile s.userFile HTable.empty) = false := by
  refine ⟨?_, ?_, ?_⟩
  · refine EveryStep.of_invariant (I := DayInv) ?_ ?_ (dayInv_start config k) hfresh
    · intro s a hinv _
      exact dayInv_step hinv mday a
    · intro s a hinv hcond hcheck
      exact hinv.table (hcond hcheck)
  · intro s
    exact bound_zero_iff s.devs
  · intro s config'
    exact bound_zero_iff (DayState.loaded s)

/-! ## An evening and the morning after -/

instance (s : DayState env) : Decidable (OnlyToday s) :=
  inferInstanceAs (Decidable (∀ e ∈ s.devs.entries, e.2.minutes ≤ s.reports e.1))

theorem plainName_phone : PlainName phoneText := by decide

/-- Filtering on, one hour in each half of every day. -/
def hourConfig : LoadedConfig := { global := { enable := 1 }, time := oneHourConfig }

/-- Months of 31 days. -/
def calendar (day : Nat) : Nat := day % 31 + 1

/-- A tick in which nothing new is read. -/
def quietTick : TickInput where
  io := allOk
  ip := 0
  mask := 0
  afUsers := []
  leases := []
  clients := []
  tenClock := morningClock
  minuteClock := morningClock
  periodClock := fun _ => mondayMorning
  expired := fun _ => false
  opened := true
  change := none

def phoneReport (hour : Fin 24) : DayAct := .report ⟨phoneText, plainName_phone⟩ (some 1) hour

/-- A minute in the morning, the minutes cleared by hand in the evening, and a
minute in the next morning. -/
def clearedEvening : List DayAct :=
  phoneReport mondayMorning.hour :: oafTimeoutHandler 60 2 quietTick ++
    .clearActiveTime allOk none :: .midnight ::
      phoneReport mondayMorning.hour :: oafTimeoutHandler 10 2 quietTick

/-- The cleared minutes do not count, and the limit checks of both days see one
minute each. -/
theorem today_budget_cleared_evening :
    EveryStep (dayStep calendar) (fun s a => limitCheck s a = true → OnlyToday s)
      (dayStart hourConfig (boot routerEnv 0)) clearedEvening := by
  refine (today_budget_only_today calendar hourConfig (boot routerEnv 0) clearedEvening ?_).1
  decide +kernel

/-- A minute late in the evening, midnight, and the next tick that is a whole
minute: its limit checks come before its `check_date_change`. -/
def afterMidnight : List DayAct :=
  phoneReport (Fin.last 23) :: .midnight :: oafTimeoutHandler 60 2 quietTick

/-- A minute late in the evening that is saved, midnight, a restart, and the
first ticks after it. -/
def afterRestart : List DayAct :=
  phoneReport (Fin.last 23) :: .saveUserTimeToFile true :: .midnight :: .restart hourConfig ::
    oafTimeoutHandler 0 2 quietTick ++ oafTimeoutHandler 10 2 quietTick

/-- Yesterday's minute is held against today's limit, in the first tick after
midnight as well as after a restart. -/
theorem today_budget_counts_yesterday :
    ¬ EveryStep (dayStep calendar) (fun s a => limitCheck s a = true → OnlyToday s)
      (dayStart hourConfig (boot routerEnv 0)) afterMidnight ∧
    ¬ EveryStep (dayStep calendar) (fun s a => limitCheck s a = true → OnlyToday s)
      (dayStart hourConfig (boot routerEnv 0)) afterRestart := by
  decide +kernel

end OpenAppFilter.Theorems
