import OpenAppFilter.Daemon.Tick
import OpenAppFilter.Base.CFile

/-!
# Devices and their minutes (`appfilter_user.c`, `appfilter_netlink.c`, `main.c`)

How a device gets into the daemon's table and out of it again, how its minutes
are counted and cleared, and the file they are kept in while the daemon is not
running.

Conventions.

* The daemon gets the MAC of a device from the kernel or from the DHCP leases,
  scanned into 32 bytes (`DevName`). A file that cannot be opened gives no
  device.
* Host name, nickname, addresses, flow counters and visited apps are left out;
  nothing below reads them.
-/

namespace OpenAppFilter.Daemon

open Base Kernel

variable {env : Env}

/-! ## Names -/

/-- A text that fits `char mac[32]` and keeps apart from the separators of the
usage file. -/
def PlainName (s : CStr) : Prop :=
  s ≠ [] ∧ s.length < maxMacLen ∧ ',' ∉ s ∧ '\n' ∉ s ∧ '\x00' ∉ s

instance (s : CStr) : Decidable (PlainName s) :=
  inferInstanceAs (Decidable (_ ∧ _ ∧ _ ∧ _ ∧ _))

abbrev DevName := { s : CStr // PlainName s }

/-! ## The device list -/

/-- `clean_dev_online_status`. -/
def cleanDevOnlineStatus (devs : DevTable) : DevTable :=
  devs.mapVals (fun _ node => { node with online := false })

/-- `update_dev_hostname`: a device known from its lease alone is not online. -/
def updateDevHostname (leases : List DevName) (devs : DevTable) : DevTable :=
  leases.foldl (fun devs mac => devs.addNew mac.val { online := false }) devs

/-- `update_dev_from_kernel`. -/
def updateDevFromKernel (clients : List DevName) (devs : DevTable) : DevTable :=
  clients.foldl (fun devs mac =>
    (devs.addNew mac.val {}).modify mac.val (fun node => { node with online := true })) devs

/-- `update_dev_list`. -/
def updateDevList (userMode : Int32) (afUsers : List (Option CStr)) (leases clients : List DevName)
    (devs : DevTable) : DevTable :=
  updateDevSelectedFlag userMode afUsers
    (updateDevFromKernel clients (updateDevHostname leases (cleanDevOnlineStatus devs)))

/-- `check_dev_expire` and `flush_dev_expire_node`; `expired` are the devices
whose `offline_time` is more than a week ago. -/
def flushDevExpireNode (expired : CStr → Bool) (devs : DevTable) : DevTable :=
  devs.filter (fun mac node => node.online || !expired mac)

/-- `flush_offline_users`. -/
def flushOfflineUsers (devs : DevTable) : DevTable := devs.filter (fun _ node => node.online)

/-! ## Minutes -/

/-- One more minute in the half of the day `hour` lies in. -/
def DevNode.addMinute (node : DevNode) (hour : Fin 24) : DevNode :=
  if hour.val < 12 then { node with todayAmActiveTime := node.todayAmActiveTime + 1 }
  else { node with todayPmActiveTime := node.todayPmActiveTime + 1 }

/-- The member `active` of a report. -/
def isActive (active : Option Int32) : Bool := decide (active.getD 0 ≠ 0)

/-- `appfilter_nl_handler`. -/
def appfilterNlHandler (mac : DevName) (active : Option Int32) (hour : Fin 24) (devs : DevTable) :
    DevTable :=
  (devs.addNew mac.val {}).modify mac.val (fun node =>
    if isActive active then node.addMinute hour else node)

def DevNode.clearMinutes (node : DevNode) : DevNode :=
  { node with todayAmActiveTime := 0, todayPmActiveTime := 0 }

/-- `reset_all_users_today_active_time`. -/
def resetAllUsersTodayActiveTime (d : DevState) : DevState :=
  { d with
    devs := d.devs.mapVals (fun _ node => node.clearMinutes)
    status := { d.status with periodBlocked := 0 } }

/-- `strcasecmp(a, b) == 0`. -/
def strcaseEq (a b : CStr) : Bool := decide (a.map Char.toLower = b.map Char.toLower)

/-- `reset_one_user_today_active_time`: the first device with this MAC, in
either case, and the block in the kernel. -/
def resetOneUserTodayActiveTime (io : ProcIo) (mac : CStr) (d : DevState) (k : OafState env) :
    DevState × OafState env :=
  match d.devs.first? (fun name _ => strcaseEq name mac) with
  | none => (d, k)
  | some (name, _) =>
      ({ d with
          devs := d.devs.modify name
            (fun node => { node.clearMinutes with periodBlocked := false }) },
        if io.blockedMacs ('-' :: mac) then (oafBlockedMacsHandler k ('-' :: mac)).1 else k)

/-- `clear_active_time` of the ubus method `cmd`. -/
def clearActiveTime (io : ProcIo) (mac : Option CStr) (d : DevState) (k : OafState env) :
    DevState × OafState env :=
  match mac with
  | some (c :: s) => resetOneUserTodayActiveTime io (c :: s) d k
  | _ => (resetAllUsersTodayActiveTime d, k)

/-- `check_date_change`, with its static `last_day`; `mday` is the day of the
month. -/
def checkDateChange (mday : Nat) (lastDay : Int) (d : DevState) : DevState × Int :=
  if lastDay ≠ mday then (if lastDay ≠ -1 then resetAllUsersTodayActiveTime d else d, mday)
  else (d, lastDay)

/-! ## The usage file -/

/-- `fprintf(fp, "%s,%u,%u\n")`, without the newline. -/
def userLine (mac : CStr) (am pm : UInt32) : CStr :=
  mac ++ ',' :: (Nat.toDigits 10 am.toNat ++ ',' :: Nat.toDigits 10 pm.toNat)

/-- `save_user_time_to_file`: the contents of the file. -/
def saveUserTimeToFile (devs : DevTable) : CStr :=
  ("MAC,AM_Time,PM_Time".toList ::
    devs.entries.map (fun e => userLine e.1 e.2.todayAmActiveTime e.2.todayPmActiveTime)).flatMap
      (fun line => line ++ ['\n'])

/-- One `%u` conversion of `sscanf`. -/
def scanUInt (s : CStr) : Option (UInt32 × CStr) :=
  (scanInt s).map (fun r => (r.1.toUInt32, r.2))

/-- `sscanf(line, "%31[^,],%u,%u")`, when all three conversions are made. -/
def scanUserLine (line : CStr) : Option (CStr × UInt32 × UInt32) :=
  let mac := (line.takeWhile (fun c => c ≠ ',')).take 31
  if mac = [] then none
  else
    match line.drop mac.length with
    | ',' :: rest =>
        match scanUInt rest with
        | some (am, ',' :: rest) => (scanUInt rest).map (fun r => (mac, am, r.1))
        | _ => none
    | _ => none

/-- A line that was scanned: the device is found or added, and its minutes are
set. -/
def setMinutes (devs : DevTable) (row : CStr × UInt32 × UInt32) : DevTable :=
  (devs.addNew row.1 {}).modify row.1 (fun node =>
    { node with todayAmActiveTime := row.2.1, todayPmActiveTime := row.2.2 })

/-- `load_user_time_from_file`: the first line is skipped. -/
def loadUserTimeFromFile (file : Option CStr) (devs : DevTable) : DevTable :=
  match file with
  | none => devs
  | some text =>
      (((fgetsAll 256 text).drop 1).filterMap (fun buf => scanUserLine (cString buf))).foldl
        setMinutes devs

/-! ## Saving and loading -/

theorem scanUInt_toDigits (n : UInt32) {rest : CStr} (hrest : DigitStop rest) :
    scanUInt (Nat.toDigits 10 n.toNat ++ rest) = some (n, rest) := by
  have hdig : ∀ c ∈ Nat.toDigits 10 n.toNat, c.isDigit = true := by
    intro c hc
    exact Nat.isDigit_of_mem_toDigits (by decide) (by decide) hc
  have hvalue : natPrefix (Nat.toDigits 10 n.toNat) = n.toNat := by
    have h := @natPrefix_toDigits n.toNat [] trivial
    rwa [List.append_nil] at h
  unfold scanUInt
  rw [scanInt_digits Nat.toDigits_ne_nil hdig hrest, hvalue]
  have hback : (Int32.ofInt (n.toNat : Int)).toUInt32 = n := by
    apply UInt32.toBitVec_inj.mp
    show BitVec.ofInt 32 (n.toNat : Int) = n.toBitVec
    rw [BitVec.ofInt_natCast]
    exact BitVec.eq_of_toNat_eq (by simp)
  rw [Option.map_some, hback]

/-- A line that was written is scanned back. -/
theorem scanUserLine_userLine {mac : CStr} (hmac : PlainName mac) (am pm : UInt32) :
    scanUserLine (userLine mac am pm ++ ['\n']) = some (mac, am, pm) := by
  obtain ⟨hne, hlen, hcomma, -, -⟩ := hmac
  have hsplit : userLine mac am pm ++ ['\n'] =
      mac ++ ',' :: (Nat.toDigits 10 am.toNat ++
        ',' :: (Nat.toDigits 10 pm.toNat ++ ['\n'])) := by
    simp [userLine]
  have htake : ((userLine mac am pm ++ ['\n']).takeWhile (fun c => c ≠ ',')).take 31 = mac := by
    have hall : ∀ c ∈ mac, decide (c ≠ ',') = true := by
      intro c hc
      exact decide_eq_true (fun h => hcomma (h ▸ hc))
    have hlen' : mac.length ≤ 31 := Nat.le_of_lt_succ hlen
    rw [hsplit, List.takeWhile_append_of_pos hall]
    simpa using hlen'
  unfold scanUserLine
  dsimp only
  rw [htake, if_neg hne, hsplit, List.drop_left]
  have hcommaStop : DigitStop (',' :: (Nat.toDigits 10 pm.toNat ++ ['\n'])) :=
    (by decide : Char.isDigit ',' = false)
  have hlineStop : DigitStop ['\n'] := (by decide : Char.isDigit '\n' = false)
  simp only [scanUInt_toDigits am hcommaStop, scanUInt_toDigits pm hlineStop, Option.map_some]

theorem toDigits_plain (n : UInt32) {c : Char} (hc : c ∈ Nat.toDigits 10 n.toNat) :
    c ≠ '\n' ∧ c ≠ '\x00' := by
  have hdig : c.isDigit = true := Nat.isDigit_of_mem_toDigits (by decide) (by decide) hc
  refine ⟨?_, ?_⟩
  · rintro rfl
    exact absurd hdig (by decide)
  · rintro rfl
    exact absurd hdig (by decide)

theorem toDigits_length_uint32 (n : UInt32) : (Nat.toDigits 10 n.toNat).length ≤ 10 := by
  have hlt : n.toNat < 2 ^ 32 := n.toNat_lt
  exact (Nat.length_toDigits_le_iff (by decide) (by decide)).mpr (by omega)

/-- A line of the file has no newline, no NUL, and fits the buffer. -/
theorem userLine_plain {mac : CStr} (hmac : PlainName mac) (am pm : UInt32) :
    '\n' ∉ userLine mac am pm ∧ '\x00' ∉ userLine mac am pm ∧
      (userLine mac am pm).length < 255 := by
  obtain ⟨-, hlen, -, hnl, hnul⟩ := hmac
  have hchars : ∀ c ∈ userLine mac am pm, c ∈ mac ∨ (c ≠ '\n' ∧ c ≠ '\x00') := by
    intro c hc
    unfold userLine at hc
    rw [List.mem_append, List.mem_cons, List.mem_append, List.mem_cons] at hc
    rcases hc with hc | rfl | hc | rfl | hc
    · exact Or.inl hc
    · exact Or.inr (by decide)
    · exact Or.inr (toDigits_plain am hc)
    · exact Or.inr (by decide)
    · exact Or.inr (toDigits_plain pm hc)
  refine ⟨?_, ?_, ?_⟩
  · intro h
    rcases hchars _ h with h | h
    · exact hnl h
    · exact h.1 rfl
  · intro h
    rcases hchars _ h with h | h
    · exact hnul h
    · exact h.2 rfl
  · have ham := toDigits_length_uint32 am
    have hpm := toDigits_length_uint32 pm
    unfold maxMacLen at hlen
    unfold userLine
    simp only [List.length_append, List.length_cons]
    omega

/-- The rows of a saved table. -/
def userRows (devs : DevTable) : List (CStr × UInt32 × UInt32) :=
  devs.entries.map (fun e => (e.1, e.2.todayAmActiveTime, e.2.todayPmActiveTime))

/-- Loading a saved table sets its rows. -/
theorem loadUserTimeFromFile_save {devs : DevTable} (hplain : ∀ e ∈ devs.entries, PlainName e.1)
    (devs' : DevTable) :
    loadUserTimeFromFile (some (saveUserTimeToFile devs)) devs' =
      (userRows devs).foldl setMinutes devs' := by
  have hread : fgetsAll 256 (saveUserTimeToFile devs) =
      ("MAC,AM_Time,PM_Time".toList ::
        devs.entries.map (fun e => userLine e.1 e.2.todayAmActiveTime e.2.todayPmActiveTime)).map
          (fun line => line ++ ['\n']) := by
    refine fgetsAll_lines ?_
    intro l hl
    rcases List.mem_cons.mp hl with rfl | hl
    · decide
    · obtain ⟨e, he, rfl⟩ := List.mem_map.mp hl
      have hline := userLine_plain (hplain e he) e.2.todayAmActiveTime e.2.todayPmActiveTime
      exact ⟨hline.1, hline.2.2⟩
  unfold loadUserTimeFromFile
  dsimp only
  rw [hread, List.map_cons, List.drop_one, List.tail_cons, List.map_map, List.filterMap_map]
  congr 1
  unfold userRows
  rw [← List.filterMap_eq_map]
  refine List.filterMap_congr ?_
  intro e he
  have hline := userLine_plain (hplain e he) e.2.todayAmActiveTime e.2.todayPmActiveTime
  have hstr : cString (userLine e.1 e.2.todayAmActiveTime e.2.todayPmActiveTime ++ ['\n']) =
      userLine e.1 e.2.todayAmActiveTime e.2.todayPmActiveTime ++ ['\n'] := by
    refine cString_of_no_nul ?_
    simp [hline.2.1]
  simp only [Function.comp_apply]
  rw [hstr, scanUserLine_userLine (hplain e he)]

/-- A device that stands in the table after rows were set was there before, or
has the minutes of a row with its name. -/
theorem mem_setMinutes {e : CStr × DevNode} (rows : List (CStr × UInt32 × UInt32)) :
    ∀ devs : DevTable, e ∈ (rows.foldl setMinutes devs).entries →
      e ∈ devs.entries ∨ (e.1, e.2.todayAmActiveTime, e.2.todayPmActiveTime) ∈ rows := by
  induction rows with
  | nil =>
      intro devs h
      exact Or.inl h
  | cons row rows ih =>
      intro devs h
      rcases ih (setMinutes devs row) h with hmem | hmem
      · unfold setMinutes at hmem
        obtain ⟨node, hnode, he⟩ := HTable.mem_entries_modify.mp hmem
        by_cases hkey : e.1 = row.1
        · rw [if_pos hkey] at he
          refine Or.inr (List.mem_cons.mpr (Or.inl ?_))
          rw [he, hkey]
        · rw [if_neg hkey] at he
          rcases HTable.mem_entries_addNew hnode with hnew | hold
          · exact absurd (congrArg Prod.fst hnew) hkey
          · refine Or.inl ?_
            rw [← he] at hold
            exact hold
      · exact Or.inr (List.mem_cons_of_mem _ hmem)

end OpenAppFilter.Daemon
