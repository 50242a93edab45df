import OpenAppFilter.Daemon.Users
import OpenAppFilter.Theorems.TodayBudget

/-!
# Which devices are filtered, in the daemon and in the kernel

Every change of the user mode or of a device list is pushed to the kernel at
once, so the kernel always holds the stored configuration (`Pushed`). The
daemon works on copies that other requests refresh, and on texts where the
kernel has addresses. After `update_dev_list` the two agree when the copies are
current and the lists spell the addresses as the device table does.
-/

namespace OpenAppFilter.Theorems

open Base Kernel Daemon

variable {env : Env}

/-! ## What the kernel holds -/

/-- What `match_app_filter_user` reads. -/
def userView (k : OafState env) :
    Int32 × (Fin maxAfMacHashSize → List Mac) × (Fin maxAfMacHashSize → List Mac) :=
  (k.gUserMode, k.afMacHtable, k.afWhitelistMacHtable)

theorem userView_setAppStatus (apps : List Int) (status : Bool) :
    ∀ k : OafState env,
      userView (apps.foldl (fun k a => setAppStatus k a status) k) = userView k := by
  induction apps with
  | nil =>
      intro k
      rfl
  | cons a apps ih =>
      intro k
      exact (ih (setAppStatus k a status)).trans rfl

/-- The message of `load_rule`. -/
theorem userView_appMsg (apps : List Int) (k : OafState env) :
    userView (step k (.config (some { op := some 1, data := some { apps := some apps } }))) =
      userView k := by
  have happs := userView_setAppStatus apps true k
  exact happs

/-- The message of `load_mac_list`. -/
theorem userView_macMsg (macs : List CStr) (k : OafState env) :
    userView (step k (.config (some { op := some 4, data := some { macList := some macs } }))) =
      (k.gUserMode, macListOf macs, k.afWhitelistMacHtable) := rfl

/-- The message of `load_whitelist_mac`. -/
theorem userView_whitelistMsg (macs : List CStr) (k : OafState env) :
    userView (step k (.config (some { op := some 5, data := some { macList := some macs } }))) =
      (k.gUserMode, k.afMacHtable, macListOf macs) := rfl

theorem userView_reloadRule (u : UserConfig) (k : OafState env) :
    userView (run step k (reloadRule u)) =
      (k.gUserMode, macListOf u.macList, macListOf (listMacs u.whitelist)) := by
  unfold reloadRule
  rw [run_cons, run_cons, run_cons, run_cons, run_nil, userView_whitelistMsg]
  generalize hk₁ : step k (.config (some { op := some 3, data := some {} })) = k₁
  have hclean : userView k₁ = userView k := by
    rw [← hk₁]
    rfl
  generalize hk₂ : step k₁ (.config (some
    { op := some 1, data := some { apps := some u.rule.apps } })) = k₂
  have happs : userView k₂ = userView k := by
    rw [← hk₂, userView_appMsg, hclean]
  have hmacs := userView_macMsg u.macList k₂
  have hmode : k₂.gUserMode = k.gUserMode := congrArg Prod.fst happs
  rw [hmode] at hmacs
  have hfirst := congrArg Prod.fst hmacs
  have hsecond := congrArg (fun v => v.2.1) hmacs
  simp only [userView] at hfirst hsecond
  rw [hfirst, hsecond]

theorem gUserMode_reloadBaseConfig (u : UserConfig) (k : OafState env) :
    (run step k (reloadBaseConfig u)).gUserMode = u.userMode.getD k.gUserMode := by
  unfold reloadBaseConfig
  rw [run_append]
  cases u.rule.workMode with
  | none =>
      cases u.userMode with
      | none => split <;> rfl
      | some mode => split <;> rfl
  | some work =>
      cases u.userMode with
      | none => split <;> rfl
      | some mode => split <;> rfl

/-- The stored mode and lists are the kernel's. -/
def Pushed (s : UserState env) : Prop :=
  userView s.kernel =
    (s.uci.userMode.getD 0, macListOf s.uci.macList, macListOf (listMacs s.uci.whitelist))

theorem userView_reload (u : UserConfig) (k : OafState env) :
    userView (reloadOafRule u k) =
      (u.userMode.getD k.gUserMode, macListOf u.macList, macListOf (listMacs u.whitelist)) := by
  unfold reloadOafRule
  rw [run_append, userView_reloadRule, gUserMode_reloadBaseConfig]

/-- A change is pushed with what was stored before; a mode once stored stays
stored. -/
theorem pushed_commit {s : UserState env} (h : Pushed s) {u : UserConfig}
    (hmode : u.userMode = none → s.uci.userMode = none) : Pushed (s.commit u) := by
  unfold Pushed
  show userView (reloadOafRule u s.kernel) = _
  rw [userView_reload]
  cases hu : u.userMode with
  | some mode =>
      show _ = (u.userMode.getD 0, _, _)
      rw [hu]
      rfl
  | none =>
      have hkernel : s.kernel.gUserMode = s.uci.userMode.getD 0 := congrArg Prod.fst h
      show _ = (u.userMode.getD 0, _, _)
      rw [hu, hkernel, hmode hu]
      rfl

/-! ## Calls that leave the kernel's lists alone -/

section Views

/-! What does not see the client records and the filter switch. -/

variable {α : Type*} {view : OafState env → α}
  (hclients : ∀ k clients, view { k with clients := clients } = view k)
include hclients

theorem view_writeTexts (texts : List CStr) :
    ∀ k : OafState env, view (writeTexts texts k) = view k := by
  induction texts with
  | nil =>
      intro k
      rfl
  | cons text texts ih =>
      intro k
      refine (ih (oafBlockedMacsHandler k text).1).trans ?_
      rw [oafBlockedMacsHandler_config]
      exact hclients k _

theorem view_timeValid (io : ProcIo) (config : AfTimeConfig) (clock : Clock) (d : DevState)
    (k : OafState env) : view (afCheckTimeValid io config clock d k).2.1 = view k := by
  rcases afCheckTimeValid_cases io config clock d k with ⟨-, hkernel⟩ | hsplit | ⟨-, hkernel⟩
  · rw [hkernel]
  · rw [hsplit, afSplitCheckPeriodLimit_kernel]
    exact view_writeTexts hclients _ k
  · rw [hkernel]

theorem view_oafStatus (henable : ∀ k enable, view { k with gOafFilterEnable := enable } = view k)
    (io : ProcIo) (clock : Clock) (d : DaemonState) (k : OafState env) :
    view (updateOafStatus io clock d k).2 = view k := by
  have hvalue : ∀ (old new : CStr) (v : Int32) (k : OafState env),
      view (updateOafProcValue io .enable old new (.enable v) k) = view k := by
    intro old new v k
    unfold updateOafProcValue
    split
    · exact henable k v
    · rfl
  unfold updateOafStatus updateSwitch
  dsimp only
  rw [hvalue]
  split
  · exact view_timeValid hclients io d.time clock d.dev k
  · rfl

end Views

theorem userView_oafStatus (io : ProcIo) (clock : Clock) (d : DaemonState) (k : OafState env) :
    userView (updateOafStatus io clock d k).2 = userView k :=
  view_oafStatus (fun _ _ => rfl) (fun _ _ => rfl) io clock d k

theorem userView_quiet {k k' : OafState env} (h : Quiet k k') : userView k' = userView k := by
  unfold userView
  rw [h.config]

/-- Every event leaves the stored configuration pushed. -/
theorem pushed_step {s : UserState env} (h : Pushed s) (a : UserAct) : Pushed (userStep s a) := by
  cases a with
  | setAppFilterUser mode =>
      cases mode with
      | none => exact h
      | some mode => exact pushed_commit h (fun hnone => absurd hnone (by simp))
  | addAppFilterUser macs =>
      cases macs with
      | none => exact h
      | some macs => exact pushed_commit h (fun hnone => hnone)
  | delAppFilterUser mac =>
      cases mac with
      | none => exact h
      | some mac => exact pushed_commit h (fun hnone => hnone)
  | addWhitelistUser macs =>
      cases macs with
      | none => exact h
      | some macs => exact pushed_commit h (fun hnone => hnone)
  | delWhitelistUser mac =>
      cases mac with
      | none => exact h
      | some mac => exact pushed_commit h (fun hnone => hnone)
  | setAppFilter rule =>
      have hcommit : Pushed (s.commit { s.uci with rule := rule }) :=
        pushed_commit h (fun hnone => hnone)
      exact hcommit
  | announce => exact h
  | setNickname => exact pushed_commit h (fun hnone => hnone)
  | getAllUsers => exact h
  | report mac active hour => exact h
  | updateDevList leases clients => exact h
  | updateOafStatus io clock => exact (userView_oafStatus io clock s.daemon s.kernel).trans h
  | flushDevExpireNode expired => exact h
  | flushOfflineUsers => exact h
  | configChange config =>
      by_cases hset : s.configChange = true
      · have hstep : (userStep s (.configChange config)).uci = s.uci ∧
            (userStep s (.configChange config)).kernel = s.kernel := by
          simp [userStep, hset]
        unfold Pushed
        rw [hstep.1, hstep.2]
        exact h
      · have hstep : userStep s (.configChange config) = s := by
          simp [userStep, hset]
        rw [hstep]
        exact h
  | kernel ev hev =>
      refine (userView_quiet ?_).trans h
      rcases Bool.or_eq_true_iff.mp hev with hpacket | htime
      · exact (steady_step_packet hpacket).toQuiet
      · exact quiet_step_time htime

theorem pushed_start (u : UserConfig) (config : LoadedConfig) (jiffies : Nat) :
    Pushed (userStart u config jiffies : UserState env) :=
  userView_reload u (boot env jiffies)

/-! ## What the daemon selects -/

/-- A short text is what the buffer holds iff it is the text that was read. -/
theorem take_eq_iff {k text : CStr} {n : Nat} (hk : k.length < n) : text.take n = k ↔ text = k := by
  constructor
  · intro h
    have hlen : (text.take n).length = k.length := by rw [h]
    rw [List.length_take] at hlen
    rw [← h, List.take_of_length_le (by omega)]
  · rintro rfl
    exact List.take_of_length_le (Nat.le_of_lt hk)

/-- A loop over the sections of a list reaches a device iff a section names it.
A section without a MAC repeats the one before it, which changes nothing. -/
theorem find?_markListed {f : DevNode → DevNode} (hf : ∀ node, f (f node) = f node) {k : CStr}
    (hk : k.length < maxMacLen) (users : List (Option CStr)) :
    ∀ macStr devs, (macStr = k → ∀ node, devs.find? k = some node → f node = node) →
      (markListed f users macStr devs).find? k =
        (devs.find? k).map (fun node => if some k ∈ users then f node else node) := by
  have hk127 : k.length < 127 := Nat.lt_trans hk (by decide)
  induction users with
  | nil =>
      intro macStr devs _
      simp [markListed]
  | cons user users ih =>
      intro macStr devs hdone
      have hread : (user.getD macStr).take 127 = k ↔ user.getD macStr = k := take_eq_iff hk127
      have hfind : (devs.modify (((user.getD macStr).take 127).take maxMacLen) f).find? k =
          if user.getD macStr = k then (devs.find? k).map f else devs.find? k := by
        rw [HTable.find?_modify]
        refine if_congr ?_ rfl rfl
        rw [eq_comm, take_eq_iff hk, hread]
      show (markListed f users ((user.getD macStr).take 127)
        (devs.modify (((user.getD macStr).take 127).take maxMacLen) f)).find? k = _
      by_cases hhere : user.getD macStr = k
      · -- the device was just marked, or had been before
        rw [if_pos hhere] at hfind
        rw [ih _ _ (fun _ node hnode => by
          rw [hfind] at hnode
          obtain ⟨node', -, rfl⟩ := Option.map_eq_some_iff.mp hnode
          exact hf node'), hfind]
        cases hdev : devs.find? k with
        | none => rfl
        | some node =>
            cases user with
            | some text =>
                have htext : text = k := hhere
                simp [htext, hf]
            | none =>
                have hfix : f node = node := hdone hhere node hdev
                simp [hfix]
      · rw [if_neg hhere] at hfind
        rw [ih _ _ (fun hsame => absurd (hread.mp hsame) hhere), hfind]
        have hother : user ≠ some k := by
          rintro rfl
          exact hhere rfl
        simp [hother.symm]

/-- The devices `update_dev_list` knows when it comes to the selection. -/
def knownDevs (leases clients : List DevName) (devs : DevTable) : DevTable :=
  updateDevFromKernel clients (updateDevHostname leases (cleanDevOnlineStatus devs))

/-- The flag `update_dev_selected_flag` leaves. -/
theorem selected_iff {userMode : Int32} {afUsers : List (Option CStr)} {devs : DevTable}
    {e : CStr × DevNode} (he : e ∈ (updateDevSelectedFlag userMode afUsers devs).entries)
    (hne : e.1 ≠ []) (hlen : e.1.length < maxMacLen) :
    ∃ node, (e.1, node) ∈ devs.entries ∧
      (e.2.isSelected = true ↔
        if userMode = 0 then node.isWhitelist = false else some e.1 ∈ afUsers) := by
  have hfind := HTable.find?_eq_some_iff.mpr he
  unfold updateDevSelectedFlag at hfind
  by_cases hmode : userMode = 0
  · rw [if_pos hmode, HTable.find?_mapVals] at hfind
    obtain ⟨node, hnode, heq⟩ := Option.map_eq_some_iff.mp hfind
    refine ⟨node, HTable.find?_eq_some_iff.mp hnode, ?_⟩
    rw [if_pos hmode, ← heq]
    simp
  · have hmark := @find?_markListed (fun node => { node with isSelected := true })
      (fun _ => rfl) e.1 hlen afUsers []
      (devs.mapVals (fun _ node => { node with isSelected := false }))
      (fun h => absurd h.symm hne)
    rw [if_neg hmode, selectUsers_eq_markListed, hmark, HTable.find?_mapVals,
      Option.map_map] at hfind
    obtain ⟨node, hnode, heq⟩ := Option.map_eq_some_iff.mp hfind
    refine ⟨node, HTable.find?_eq_some_iff.mp hnode, ?_⟩
    rw [if_neg hmode, ← heq]
    by_cases hlisted : some e.1 ∈ afUsers
    · simp [hlisted]
    · simp [hlisted]

/-! ## What the kernel filters -/

/-- A section of the list has the address of the device `name`. -/
def sameAddress (name : CStr) (user : Option CStr) : Bool :=
  match user with
  | some text => (macToHex text).isSome && decide (macToHex text = macToHex name)
  | none => false

def onList (users : List (Option CStr)) (name : CStr) : Bool := users.any (sameAddress name)

/-- The pushed list holds an address iff a section has it. -/
theorem mem_pushed_iff {users : List (Option CStr)} {name : CStr} {mac : Mac}
    (h : macToHex name = some mac) :
    mac ∈ macListOf (listMacs users) (hashMac mac) ↔ onList users name = true := by
  rw [mem_macListOf]
  unfold onList listMacs
  rw [List.any_eq_true]
  constructor
  · rintro ⟨text, htext, hmac⟩
    obtain ⟨hmem, -⟩ := List.mem_filter.mp htext
    obtain ⟨user, huser, hsome⟩ := List.mem_filterMap.mp hmem
    refine ⟨user, huser, ?_⟩
    have huser' : user = some text := hsome
    rw [huser']
    simp [sameAddress, hmac, h]
  · rintro ⟨user, huser, hsame⟩
    cases user with
    | none => exact absurd hsame (by simp [sameAddress])
    | some text =>
        have hmac : macToHex text = some mac := by
          simp only [sameAddress, Bool.and_eq_true, decide_eq_true_eq] at hsame
          rw [hsame.2, h]
        refine ⟨text, List.mem_filter.mpr ⟨List.mem_filterMap.mpr ⟨_, huser, rfl⟩, ?_⟩, hmac⟩
        have hne : text ≠ [] := by
          rintro rfl
          have hnil : macToHex [] = none := by decide
          rw [hnil] at hmac
          exact absurd hmac (by simp)
        simp [hne]

/-- The kernel's answer, for a pushed configuration. -/
theorem matchUser_iff {s : UserState env} (h : Pushed s)
    (hvalid : s.uci.userMode.getD 0 = 0 ∨ s.uci.userMode.getD 0 = 1) {name : CStr} {mac : Mac}
    (hname : macToHex name = some mac) :
    matchAppFilterUser s.kernel mac = true ↔
      if s.uci.userMode.getD 0 = 0 then onList s.uci.whitelist name = false
      else onList s.uci.afUsers name = true := by
  have hmode : s.kernel.gUserMode = s.uci.userMode.getD 0 := congrArg Prod.fst h
  have hmacs : s.kernel.afMacHtable = macListOf s.uci.macList := congrArg (fun v => v.2.1) h
  have hwhite : s.kernel.afWhitelistMacHtable = macListOf (listMacs s.uci.whitelist) :=
    congrArg (fun v => v.2.2) h
  have hany : ∀ l : List Mac, l.any (fun m => decide (m = mac)) = true ↔ mac ∈ l := by
    intro l
    simp
  unfold matchAppFilterUser afWhitelistMacFind afMacFind
  rw [hmode, hmacs, hwhite]
  by_cases hauto : s.uci.userMode.getD 0 = 0
  · rw [if_pos hauto, if_pos hauto, Bool.not_eq_true', ← Bool.not_eq_true, ← Bool.not_eq_true,
      hany, mem_pushed_iff hname]
  · have hone : s.uci.userMode = some 1 := by
      rcases hvalid with hzero | hone
      · exact absurd hzero hauto
      · cases hm : s.uci.userMode with
        | none =>
            rw [hm] at hauto
            exact absurd rfl hauto
        | some mode =>
            rw [hm] at hone
            exact congrArg some hone
    have hlist : s.uci.macList = listMacs s.uci.afUsers := by
      unfold UserConfig.macList
      rw [hone]
      exact if_pos (by decide)
    rw [if_neg hauto, if_neg hauto, hlist, ← mem_pushed_iff hname]
    exact hany _

/-! ## Agreement -/

/-- The copies the daemon selects from are current when it comes to the
selection among the devices `known`: the cached mode is auto iff the stored one
is, and the stored mode is 0 or 1; in auto mode `is_whitelist` is set on exactly
the devices whose address is on the whitelist; in manual mode a device whose
address is listed is listed in the spelling of the device table. -/
structure CopiesCurrent (s : UserState env) (known : DevTable) : Prop where
  mode : s.daemon.global.userMode = 0 ↔ s.uci.userMode.getD 0 = 0
  valid : s.uci.userMode.getD 0 = 0 ∨ s.uci.userMode.getD 0 = 1
  flags : s.uci.userMode.getD 0 = 0 →
    ∀ e ∈ known.entries, e.2.isWhitelist = onList s.uci.whitelist e.1
  spelling : s.uci.userMode.getD 0 = 1 →
    ∀ e ∈ known.entries, onList s.uci.afUsers e.1 = true → some e.1 ∈ s.uci.afUsers

instance (s : UserState env) (known : DevTable) : Decidable (CopiesCurrent s known) :=
  decidable_of_iff
    ((s.daemon.global.userMode = 0 ↔ s.uci.userMode.getD 0 = 0) ∧
      (s.uci.userMode.getD 0 = 0 ∨ s.uci.userMode.getD 0 = 1) ∧
      (s.uci.userMode.getD 0 = 0 →
        ∀ e ∈ known.entries, e.2.isWhitelist = onList s.uci.whitelist e.1) ∧
      (s.uci.userMode.getD 0 = 1 →
        ∀ e ∈ known.entries, onList s.uci.afUsers e.1 = true → some e.1 ∈ s.uci.afUsers))
    ⟨fun h => ⟨h.1, h.2.1, h.2.2.1, h.2.2.2⟩, fun h => ⟨h.mode, h.valid, h.flags, h.spelling⟩⟩

/-- Every `update_dev_list` finds its copies current. -/
def updatesCurrent (s : UserState env) : UserAct → Bool
  | .updateDevList leases clients =>
      decide (CopiesCurrent s (knownDevs leases clients s.devs))
  | _ => true

def isDevListUpdate : UserAct → Bool
  | .updateDevList _ _ => true
  | _ => false

theorem agrees_updateDevList {s : UserState env} (h : Pushed s) {leases clients : List DevName}
    (hcurrent : CopiesCurrent s (knownDevs leases clients s.devs)) :
    SelectionAgrees (userStep s (.updateDevList leases clients)) := by
  intro e he mac hmac
  have hlen : e.1.length = 17 := hmac.length
  have hne : e.1 ≠ [] := by
    intro hnil
    rw [hnil] at hlen
    exact absurd hlen (by decide)
  have hname : macToHex e.1 = some mac := macToHex_canonical hmac
  have he' : e ∈ (updateDevSelectedFlag s.daemon.global.userMode s.uci.afUsers
      (knownDevs leases clients s.devs)).entries := he
  obtain ⟨node, hnode, hsel⟩ := selected_iff he' hne (by rw [hlen]; decide)
  show e.2.isSelected = true ↔ matchAppFilterUser s.kernel mac = true
  rw [hsel, matchUser_iff h hcurrent.valid hname]
  by_cases hauto : s.uci.userMode.getD 0 = 0
  · rw [if_pos hauto, if_pos (hcurrent.mode.mpr hauto)]
    have hflag : node.isWhitelist = onList s.uci.whitelist e.1 :=
      hcurrent.flags hauto (e.1, node) hnode
    rw [hflag]
  · rw [if_neg hauto, if_neg (fun hzero => hauto (hcurrent.mode.mp hzero))]
    have hone : s.uci.userMode.getD 0 = 1 := hcurrent.valid.resolve_left hauto
    constructor
    · intro hlisted
      refine List.any_eq_true.mpr ⟨some e.1, hlisted, ?_⟩
      simp [sameAddress, hname]
    · intro hlisted
      exact hcurrent.spelling hone (e.1, node) hnode hlisted

/-- **Daemon and kernel select the same devices.** In every run of ubus calls,
timer calls, reports and packets in which each `update_dev_list` finds the
daemon's copies current, it leaves exactly the devices selected that the kernel
filters. -/
theorem selection_agrees (u : UserConfig) (config : LoadedConfig) (jiffies : Nat)
    (acts : List UserAct)
    (hcurrent : EveryStep userStep (fun s a => updatesCurrent s a = true)
      (userStart u config jiffies : UserState env) acts) :
    EveryStep userStep (fun s a => isDevListUpdate a = true → SelectionAgrees (userStep s a))
      (userStart u config jiffies : UserState env) acts := by
  refine EveryStep.of_invariant (I := Pushed) ?_ ?_ (pushed_start u config jiffies) hcurrent
  · intro s a hpushed _
    exact pushed_step hpushed a
  · intro s a hpushed hcond hupdate
    cases a with
    | updateDevList leases clients =>
        exact agrees_updateDevList hpushed (of_decide_eq_true hcond)
    | _ => exact absurd hupdate (by simp [isDevListUpdate])

/-! ## A phone on the lists -/

def phoneName : DevName := ⟨phoneText, plainName_phone⟩

theorem phone_fits_whitelist : fitsParam whitelistKey phoneText = true := by decide

/-- The phone goes on the whitelist, and the list of users is looked at before
the next update. -/
def whitelistSeen : List UserAct :=
  [.updateDevList [] [phoneName], .addWhitelistUser (some [⟨phoneText, phone_fits_whitelist⟩]),
    .getAllUsers, .updateDevList [] [phoneName]]

/-- The phone is selected, and after that neither selected nor filtered. -/
theorem selection_agrees_whitelist :
    EveryStep userStep (fun s a => isDevListUpdate a = true → SelectionAgrees (userStep s a))
      (userStart {} hourConfig 0 : UserState routerEnv) whitelistSeen := by
  refine selection_agrees {} hourConfig 0 whitelistSeen ?_
  decide +kernel

/-- The user mode goes to manual, with no user listed. -/
def modeChanged : List UserAct :=
  [.setAppFilterUser (some 1), .updateDevList [] [phoneName]]

/-- The phone goes on the whitelist, and nobody looks at the list of users. -/
def whitelistUnseen : List UserAct :=
  [.addWhitelistUser (some [⟨phoneText, phone_fits_whitelist⟩]),
    .updateDevList [] [phoneName]]

def laptopText : CStr := "02:00:00:00:00:ab".toList
def laptopMac : Mac := ⟨0x02, 0, 0, 0, 0, 0xab⟩

theorem plainName_laptop : PlainName laptopText := by decide

theorem canonicalMac_laptop : CanonicalMac laptopText laptopMac := by
  refine ⟨['0', '2'], ['0', '0'], ['0', '0'], ['0', '0'], ['0', '0'], ['a', 'b'],
    ⟨_, _, 0, 2, rfl, ?_, ?_, ?_⟩, ⟨_, _, 0, 0, rfl, ?_, ?_, ?_⟩, ⟨_, _, 0, 0, rfl, ?_, ?_, ?_⟩,
    ⟨_, _, 0, 0, rfl, ?_, ?_, ?_⟩, ⟨_, _, 0, 0, rfl, ?_, ?_, ?_⟩, ⟨_, _, 10, 11, rfl, ?_, ?_, ?_⟩,
    ?_⟩ <;> decide

/-- Manual mode, with the laptop listed in capital letters. -/
def capitals : UserConfig :=
  { userMode := some 1, afUsers := [some "02:00:00:00:00:AB".toList] }

theorem not_selectionAgrees {s : UserState env} {name : CStr} {mac : Mac}
    (hcanon : CanonicalMac name mac)
    (h : ∃ e ∈ s.devs.entries, e.1 = name ∧ e.2.isSelected ≠ matchAppFilterUser s.kernel mac) :
    ¬ SelectionAgrees s := by
  intro hagree
  obtain ⟨e, he, rfl, hdiffer⟩ := h
  exact hdiffer (Bool.eq_iff_iff.mpr (hagree e he mac hcanon))

/-- After a change of the user mode, after a change of the whitelist, and for an
address listed in capital letters, the daemon selects other devices than the
kernel filters. -/
theorem selection_differs :
    ¬ EveryStep userStep (fun s a => isDevListUpdate a = true → SelectionAgrees (userStep s a))
      (userStart {} hourConfig 0 : UserState routerEnv) modeChanged ∧
    ¬ EveryStep userStep (fun s a => isDevListUpdate a = true → SelectionAgrees (userStep s a))
      (userStart {} hourConfig 0 : UserState routerEnv) whitelistUnseen ∧
    ¬ EveryStep userStep (fun s a => isDevListUpdate a = true → SelectionAgrees (userStep s a))
      (userStart capitals hourConfig 0 : UserState routerEnv)
      [.updateDevList [] [⟨laptopText, plainName_laptop⟩]] := by
  refine ⟨?_, ?_, ?_⟩
  · intro h
    refine not_selectionAgrees canonicalMac_phone ?_ (h [_] _ [] rfl rfl)
    decide +kernel
  · intro h
    refine not_selectionAgrees canonicalMac_phone ?_ (h [_] _ [] rfl rfl)
    decide +kernel
  · intro h
    refine not_selectionAgrees canonicalMac_laptop ?_ (h [] _ [] rfl rfl)
    decide +kernel

end OpenAppFilter.Theorems
