import OpenAppFilter.Daemon.Loop
import OpenAppFilter.Kernel.Report
import OpenAppFilter.Theorems.SplitMode
import OpenAppFilter.Theorems.TodayBudget

/-!
# Clearing the minutes by hand

`clear_active_time` with a MAC clears the minutes and the block of one device,
in the daemon and in the kernel, and nothing else; without a MAC it clears all
minutes, and the tick that handles the command unblocks everybody.
-/

namespace OpenAppFilter.Theorems

open Base Kernel Daemon

variable {env : Env}

/-! ## Texts of one address -/

/-- A hex digit of either case in lower case. -/
theorem toLower_of_hexVal {c : Char} {x : Nat} (h : hexVal c = some x) :
    x < 16 ∧ c.toLower = Nat.digitChar x := by
  have hall : ∀ n < 128, ∀ x ∈ hexVal (Char.ofNat n),
      x < 16 ∧ (Char.ofNat n).toLower = Nat.digitChar x := by
    decide +kernel
  have hsmall : c.toNat < 128 := by
    unfold hexVal at h
    simp only [Char.le_def, UInt32.le_iff_toNat_le] at h
    have hval : c.val.toNat = c.toNat := rfl
    have h9 : ('9' : Char).val.toNat = 57 := rfl
    have hf : ('f' : Char).val.toNat = 102 := rfl
    have hF : ('F' : Char).val.toNat = 70 := rfl
    split_ifs at h <;> omega
  have hn := hall c.toNat hsmall x
  rw [Char.ofNat_toNat] at hn
  exact hn h

theorem toLower_hexByte {s : CStr} {b : UInt8} (h : HexByte s b) :
    s.map Char.toLower = hexByte b := by
  obtain ⟨hi, lo, x, y, rfl, hx, hy, rfl⟩ := h
  obtain ⟨hx16, hlx⟩ := toLower_of_hexVal hx
  obtain ⟨hy16, hly⟩ := toLower_of_hexVal hy
  have hbyte : (UInt8.ofNat (16 * x + y)).toNat = 16 * x + y := by
    rw [UInt8.toNat_ofNat']
    omega
  unfold hexByte
  rw [hbyte, show (16 * x + y) / 16 = x by omega, show (16 * x + y) % 16 = y by omega]
  simp [hlx, hly]

/-- In lower case every text of an address is the one `MAC_FMT` prints. -/
theorem toLower_canonical {s : CStr} {mac : Mac} (h : CanonicalMac s mac) :
    s.map Char.toLower = macText mac := by
  obtain ⟨g₀, g₁, g₂, g₃, g₄, g₅, h₀, h₁, h₂, h₃, h₄, h₅, rfl⟩ := h
  simp only [List.map_append, List.map_cons, toLower_hexByte h₀, toLower_hexByte h₁,
    toLower_hexByte h₂, toLower_hexByte h₃, toLower_hexByte h₄, toLower_hexByte h₅]
  rfl

theorem canonicalMac_macText (mac : Mac) : CanonicalMac (macText mac) mac :=
  ⟨_, _, _, _, _, _, hexByte_hexByte _, hexByte_hexByte _, hexByte_hexByte _, hexByte_hexByte _,
    hexByte_hexByte _, hexByte_hexByte _, rfl⟩

/-- Two texts of addresses are equal up to case iff the addresses are. -/
theorem strcaseEq_canonical {s s' : CStr} {mac mac' : Mac} (h : CanonicalMac s mac)
    (h' : CanonicalMac s' mac') : strcaseEq s s' = true ↔ mac = mac' := by
  unfold strcaseEq
  rw [decide_eq_true_iff, toLower_canonical h, toLower_canonical h']
  constructor
  · intro heq
    have hscan := scanMac_canonical (canonicalMac_macText mac)
    rw [heq, scanMac_canonical (canonicalMac_macText mac')] at hscan
    exact (Option.some.inj hscan).symm
  · rintro rfl
    rfl

/-! ## One device -/

/-- Canonical texts, no two of them equal up to case. -/
structure ProperNames (devs : DevTable) : Prop where
  canonical : ∀ e ∈ devs.entries, ∃ mac, CanonicalMac e.1 mac
  distinct : ∀ e ∈ devs.entries, ∀ e' ∈ devs.entries, strcaseEq e.1 e'.1 = true → e.1 = e'.1

theorem strcaseEq_comm (a b : CStr) : strcaseEq a b = strcaseEq b a := by
  unfold strcaseEq
  exact decide_eq_decide.mpr eq_comm

theorem strcaseEq_trans {a b c : CStr} (h : strcaseEq a b = true) (h' : strcaseEq b c = true) :
    strcaseEq a c = true := by
  unfold strcaseEq at h h' ⊢
  rw [decide_eq_true_iff] at h h' ⊢
  exact h.trans h'

/-- With proper names the scan finds the one device of this name, if there is
one. -/
theorem first?_strcaseEq {devs : DevTable} (hnames : ProperNames devs) {name mac : CStr}
    {node : DevNode} (hfind : devs.find? name = some node) (hname : strcaseEq name mac = true) :
    devs.first? (fun name _ => strcaseEq name mac) = some (name, node) := by
  cases hfirst : devs.first? (fun name _ => strcaseEq name mac) with
  | none =>
      have hmem := HTable.find?_eq_some_iff.mp hfind
      have hno := List.find?_eq_none.mp hfirst (name, node) hmem
      exact absurd hname hno
  | some e =>
      obtain ⟨name', node'⟩ := e
      obtain ⟨hfind', hname'⟩ := HTable.first?_some hfirst
      have hsame : name' = name :=
        hnames.distinct _ (HTable.find?_eq_some_iff.mp hfind') _
          (HTable.find?_eq_some_iff.mp hfind)
          (strcaseEq_trans hname' (by rw [strcaseEq_comm]; exact hname))
      subst hsame
      rw [hfind'] at hfind
      rw [Option.some.inj hfind]

/-- The command on the device table. -/
theorem clear_one_find? {devs : DevTable} (hnames : ProperNames devs) (io : ProcIo) {mac : CStr}
    (hne : mac ≠ []) (last : LastReset) (status : AfStatus) (k : OafState env) (name : CStr) :
    (clearActiveTime io (some mac) ⟨devs, last, status⟩ k).1.devs.find? name =
      (devs.find? name).map (fun node =>
        if strcaseEq name mac then { node.clearMinutes with periodBlocked := false } else node) := by
  obtain ⟨c, rest, rfl⟩ := List.exists_cons_of_ne_nil hne
  show (resetOneUserTodayActiveTime io (c :: rest) ⟨devs, last, status⟩ k).1.devs.find? name = _
  unfold resetOneUserTodayActiveTime
  cases hfirst : devs.first? (fun name _ => strcaseEq name (c :: rest)) with
  | none =>
      dsimp only
      cases hfind : devs.find? name with
      | none => rfl
      | some node =>
          have hno : ¬ strcaseEq name (c :: rest) = true := by
            intro hname
            rw [first?_strcaseEq hnames hfind hname] at hfirst
            cases hfirst
          simp [hno]
  | some e =>
      obtain ⟨name', node'⟩ := e
      dsimp only
      rw [HTable.find?_modify]
      cases hfind : devs.find? name with
      | none => simp
      | some node =>
          by_cases hname : strcaseEq name (c :: rest) = true
          · have hsame := first?_strcaseEq hnames hfind hname
            rw [hfirst] at hsame
            have hkey : name = name' := (congrArg Prod.fst (Option.some.inj hsame)).symm
            simp [hkey ▸ hname, hkey]
          · have hkey : name ≠ name' := by
              rintro rfl
              exact hname (HTable.first?_some hfirst).2
            simp [hname, hkey]

/-- The command in the kernel: the block of the address goes when the daemon
knows the device, every other block stays. -/
theorem clear_one_kernel (devs : DevTable) (io : ProcIo) {mac : CStr} {m : Mac}
    (hmac : CanonicalMac mac m) (hio : io.blockedMacs ('-' :: mac) = true) (last : LastReset)
    (status : AfStatus) (k : OafState env) (m' : Mac) :
    clientBlocked (clearActiveTime io (some mac) ⟨devs, last, status⟩ k).2 m' =
      if m' = m ∧ (devs.first? (fun name _ => strcaseEq name mac)).isSome then
        (clientBlocked k m').map (fun _ => false)
      else clientBlocked k m' := by
  have hne : mac ≠ [] := by
    rintro rfl
    exact absurd hmac.length (by simp)
  obtain ⟨c, rest, rfl⟩ := List.exists_cons_of_ne_nil hne
  show clientBlocked (resetOneUserTodayActiveTime io (c :: rest) ⟨devs, last, status⟩ k).2 m' = _
  unfold resetOneUserTodayActiveTime
  cases hfirst : devs.first? (fun name _ => strcaseEq name (c :: rest)) with
  | none => simp
  | some e =>
      simp only [hio, if_true, oafBlockedMacsHandler_minus hmac, Option.isSome_some, and_true]
      exact clientBlocked_setBlocked k m m' false

/-! ## Limit checks after the command -/

/-- A device without minutes has not reached a limit. -/
theorem not_reachedLimit {config : AfTimeConfig} {now : Tm} {node : DevNode}
    (h : node.minutes = 0) : ¬ ReachedLimit config now node := by
  rintro ⟨-, -, hpos, hle⟩
  have hzero : (node.activeTime now.hour).toNat = 0 := by
    unfold DevNode.minutes at h
    unfold DevNode.activeTime
    split <;> omega
  omega

theorem checkAndReset_flags (now : Tm) (last : LastReset) (node : DevNode) :
    (checkAndResetTodayActiveTime now last node).1.isSelected = node.isSelected ∧
      (checkAndResetTodayActiveTime now last node).1.periodBlocked = node.periodBlocked ∧
      (checkAndResetTodayActiveTime now last node).1.minutes ≤ node.minutes := by
  unfold checkAndResetTodayActiveTime
  split
  · split
    · exact ⟨rfl, rfl, by simp [DevNode.minutes]⟩
    · exact ⟨rfl, rfl, Nat.le_refl _⟩
  · exact ⟨rfl, rfl, Nat.le_refl _⟩

/-- What a limit check makes of a device. -/
structure Checked (config : AfTimeConfig) (now : Tm) (node node' : DevNode) : Prop where
  minutes : node'.minutes ≤ node.minutes
  selected : node'.isSelected = node.isSelected
  decided : node'.isSelected = true → (node'.periodBlocked = true ↔ ReachedLimit config now node')
  left : node'.isSelected = false → node'.periodBlocked = true → node.periodBlocked = true

/-- Without a limit every flag is cleared. -/
theorem checked_unblocked {config : AfTimeConfig} {now : Tm}
    (hno : ∀ node, ¬ ReachedLimit config now node) (node : DevNode) :
    Checked config now node { node with periodBlocked := false } where
  minutes := Nat.le_refl _
  selected := rfl
  decided _ := by simp [hno]
  left _ h := absurd h (by simp)

/-- Every device in the table after a limit check is one from before, checked. -/
theorem mem_limitCheck {io : ProcIo} {config : AfTimeConfig} {clock : Clock} {d : DevState}
    {k : OafState env} {e : CStr × DevNode}
    (he : e ∈ (afSplitCheckPeriodLimit io config clock d k).1.devs.entries) :
    ∃ node, (e.1, node) ∈ d.devs.entries ∧ Checked config clock.now node e.2 := by
  rcases afSplitCheckPeriodLimit_cases io config clock d k with
    ⟨hno, hdevs, -, -⟩ | ⟨limit, hreached, hdevs, -, -⟩
  · rw [hdevs, HTable.entries_mapVals] at he
    obtain ⟨e₀, he₀, rfl⟩ := List.mem_map.mp he
    exact ⟨e₀.2, he₀, checked_unblocked hno e₀.2⟩
  · rw [hdevs] at he
    obtain ⟨e₀, he₀, rfl⟩ := mem_markOverLimit.mp he
    obtain ⟨node, last, hnode, hval⟩ := HTable.mem_entries_mapAccum he₀
    obtain ⟨hsel, hblocked, hmin⟩ := checkAndReset_flags (clock.dev e₀.1) last node
    rw [← hval] at hsel hblocked hmin
    refine ⟨node, hnode, ?_, ?_, ?_, ?_⟩
    · rw [DevNode.mark_minutes]
      exact hmin
    · rw [DevNode.mark_isSelected]
      exact hsel
    · intro hs
      rw [DevNode.mark_isSelected] at hs
      rw [hreached, DevNode.mark_isSelected, DevNode.mark_activeTime]
      simp [DevNode.mark, hs]
    · intro hs hb
      rw [DevNode.mark_isSelected] at hs
      rw [← hblocked]
      simpa [DevNode.mark, hs] using hb

theorem properNames_limitCheck {io : ProcIo} {config : AfTimeConfig} {clock : Clock} {d : DevState}
    {k : OafState env} (h : ProperNames d.devs) :
    ProperNames (afSplitCheckPeriodLimit io config clock d k).1.devs where
  canonical e he := by
    obtain ⟨node, hnode, -⟩ := mem_limitCheck he
    exact h.canonical (e.1, node) hnode
  distinct e he e' he' heq := by
    obtain ⟨node, hnode, -⟩ := mem_limitCheck he
    obtain ⟨node', hnode', -⟩ := mem_limitCheck he'
    exact h.distinct (e.1, node) hnode (e'.1, node') hnode' heq

/-- The device of this name, if there is one, has no minutes and no block. -/
def Cleared (mac : CStr) (devs : DevTable) : Prop :=
  ∀ e ∈ devs.entries, strcaseEq e.1 mac = true → e.2.minutes = 0 ∧ e.2.periodBlocked = false

theorem cleared_limitCheck {io : ProcIo} {config : AfTimeConfig} {clock : Clock} {d : DevState}
    {k : OafState env} {mac : CStr} (h : Cleared mac d.devs) :
    Cleared mac (afSplitCheckPeriodLimit io config clock d k).1.devs := by
  intro e he hname
  obtain ⟨node, hnode, hchecked⟩ := mem_limitCheck he
  obtain ⟨hzero, hflag⟩ := h (e.1, node) hnode hname
  have hzero' : e.2.minutes = 0 := by
    have hle := hchecked.minutes
    rw [show node.minutes = 0 from hzero] at hle
    omega
  refine ⟨hzero', ?_⟩
  cases hsel : e.2.isSelected with
  | true =>
      rw [Bool.eq_false_iff]
      intro hb
      exact not_reachedLimit hzero' ((hchecked.decided hsel).mp hb)
  | false =>
      rw [Bool.eq_false_iff]
      intro hb
      have hbefore : node.periodBlocked = false := hflag
      rw [hchecked.left hsel hb] at hbefore
      exact absurd hbefore (by decide)

/-- Further limit checks, each with its own configuration and clock. -/
def limitChecks (io : ProcIo) (s : DevState × OafState env) (checks : List (AfTimeConfig × Clock)) :
    DevState × OafState env :=
  run (fun s c =>
    let r := afSplitCheckPeriodLimit io c.1 c.2 s.1 s.2
    (r.1, r.2.1)) s checks

theorem limitChecks_keeps (io : ProcIo) (mac : CStr) (checks : List (AfTimeConfig × Clock)) :
    ∀ s : DevState × OafState env, ProperNames s.1.devs → Cleared mac s.1.devs →
      ProperNames (limitChecks io s checks).1.devs ∧ Cleared mac (limitChecks io s checks).1.devs := by
  induction checks with
  | nil =>
      intro s hnames hcleared
      exact ⟨hnames, hcleared⟩
  | cons c checks ih =>
      intro s hnames hcleared
      exact ih _ (properNames_limitCheck hnames) (cleared_limitCheck hcleared)

/-- The kernel after a limit check: the cleared address is not blocked, and a
device's client is blocked iff the device reached its limit. -/
theorem kernel_limitCheck {io : ProcIo} (hio : io.Ok) (config : AfTimeConfig) (clock : Clock)
    {d : DevState} (k : OafState env) (hnames : ProperNames d.devs) {mac : CStr} {m : Mac}
    (hmac : CanonicalMac mac m) (hcleared : Cleared mac d.devs) :
    let r := afSplitCheckPeriodLimit io config clock d k
    clientBlocked r.2.1 m ≠ some true ∧
      ∀ e ∈ r.1.devs.entries, ∀ m', CanonicalMac e.1 m' → ∀ b, clientBlocked r.2.1 m' = some b →
        (b = true ↔ ReachedLimit config clock.now e.2) := by
  intro r
  have hnames' : ProperNames r.1.devs := properNames_limitCheck hnames
  have hcleared' : Cleared mac r.1.devs := cleared_limitCheck hcleared
  have hsync : ∀ e ∈ r.1.devs.entries,
      e.2.toSync = true ↔ ReachedLimit config clock.now e.2 := by
    intro e he
    obtain ⟨node, -, hchecked⟩ := mem_limitCheck he
    unfold DevNode.toSync
    rw [Bool.and_eq_true]
    constructor
    · rintro ⟨hsel, hb⟩
      exact (hchecked.decided hsel).mp hb
    · intro hreached
      exact ⟨hreached.1, (hchecked.decided hreached.1).mpr hreached⟩
  have hkernel : r.2.1 = afSplitSyncBlockedMacs io r.1.devs k :=
    afSplitCheckPeriodLimit_kernel io config clock d k
  obtain ⟨-, hflags⟩ := sync_realises hio r.1.devs hnames'.canonical hsync k
  rw [← hkernel] at hflags
  refine ⟨?_, ?_⟩
  · intro hb
    obtain ⟨c, hc, hflag⟩ := Option.map_eq_some_iff.mp hb
    obtain ⟨e, he, hcan, hreached⟩ := (hflags m c hc).mp hflag
    exact not_reachedLimit (hcleared' e he ((strcaseEq_canonical hcan hmac).mpr rfl)).1 hreached
  · intro e he m' hcan b hb
    obtain ⟨c, hc, rfl⟩ := Option.map_eq_some_iff.mp hb
    rw [hflags m' c hc]
    constructor
    · rintro ⟨e', he', hcan', hreached⟩
      -- only this device has the address
      have hkey := hnames'.distinct e' he' e he ((strcaseEq_canonical hcan' hcan).mpr rfl)
      have hnode : e'.2 = e.2 := by
        have hfind := HTable.find?_eq_some_iff.mpr (show (e.1, e.2) ∈ r.1.devs.entries from he)
        have hfind' := HTable.find?_eq_some_iff.mpr (show (e'.1, e'.2) ∈ r.1.devs.entries from he')
        rw [hkey, hfind] at hfind'
        exact (Option.some.inj hfind').symm
      rw [← hnode]
      exact hreached
    · intro hreached
      exact ⟨e, he, hcan, hreached⟩

/-- Every device in the table after the command is one from before, cleared if it
has this name. -/
theorem mem_clear_one {devs : DevTable} (hnames : ProperNames devs) {io : ProcIo} {mac : CStr}
    (hne : mac ≠ []) {last : LastReset} {status : AfStatus} {k : OafState env} {e : CStr × DevNode}
    (he : e ∈ (clearActiveTime io (some mac) ⟨devs, last, status⟩ k).1.devs.entries) :
    ∃ node, (e.1, node) ∈ devs.entries ∧
      e.2 = if strcaseEq e.1 mac then { node.clearMinutes with periodBlocked := false }
        else node := by
  have hfind := HTable.find?_eq_some_iff.mpr (show (e.1, e.2) ∈ _ from he)
  rw [clear_one_find? hnames io hne] at hfind
  obtain ⟨node, hnode, heq⟩ := Option.map_eq_some_iff.mp hfind
  exact ⟨node, HTable.find?_eq_some_iff.mp hnode, heq.symm⟩

/-- The command leaves proper names, and the device without minutes and block. -/
theorem clear_one_keeps {devs : DevTable} (hnames : ProperNames devs) (io : ProcIo) {mac : CStr}
    (hne : mac ≠ []) (last : LastReset) (status : AfStatus) (k : OafState env) :
    ProperNames (clearActiveTime io (some mac) ⟨devs, last, status⟩ k).1.devs ∧
      Cleared mac (clearActiveTime io (some mac) ⟨devs, last, status⟩ k).1.devs := by
  refine ⟨⟨?_, ?_⟩, ?_⟩
  · intro e he
    obtain ⟨node, hnode, -⟩ := mem_clear_one hnames hne he
    exact hnames.canonical (e.1, node) hnode
  · intro e he e' he' heq
    obtain ⟨node, hnode, -⟩ := mem_clear_one hnames hne he
    obtain ⟨node', hnode', -⟩ := mem_clear_one hnames hne he'
    exact hnames.distinct (e.1, node) hnode (e'.1, node') hnode' heq
  · intro e he hname
    obtain ⟨node, -, heq⟩ := mem_clear_one hnames hne he
    rw [if_pos hname] at heq
    rw [heq]
    exact ⟨rfl, rfl⟩

/-- **Clearing one device.** `clear_active_time` with a MAC clears the minutes and
the block of the device with this MAC and the block of its client in the
kernel; every other device and every other client is left, and so is everything
when there is no such device. Limit checks that follow without a report in
between keep the device and its client unblocked, and decide on every selected
device by its own minutes. -/
theorem clear_one_device (io : ProcIo) (d : DevState) (k : OafState env) (mac : CStr) (m : Mac)
    (hio : io.Ok) (hnames : ProperNames d.devs) (hmac : CanonicalMac mac m) :
    let r := clearActiveTime io (some mac) d k
    (∀ name node, d.devs.find? name = some node → strcaseEq name mac = true →
      r.1.devs.find? name =
          some { node with todayAmActiveTime := 0, todayPmActiveTime := 0, periodBlocked := false } ∧
        clientBlocked r.2 m ≠ some true) ∧
    (∀ name, strcaseEq name mac = false → r.1.devs.find? name = d.devs.find? name) ∧
    (∀ m', m' ≠ m → clientBlocked r.2 m' = clientBlocked k m') ∧
    ((∀ e ∈ d.devs.entries, strcaseEq e.1 mac = false) → r = (d, k)) ∧
    ∀ (checks : List (AfTimeConfig × Clock)) (config : AfTimeConfig) (clock : Clock),
      let s := limitChecks io r checks
      let s' := afSplitCheckPeriodLimit io config clock s.1 s.2
      Cleared mac s'.1.devs ∧ clientBlocked s'.2.1 m ≠ some true ∧
      ∀ e ∈ s'.1.devs.entries, e.2.isSelected = true →
        (e.2.periodBlocked = true ↔ ReachedLimit config clock.now e.2) ∧
        ∀ m', CanonicalMac e.1 m' → ∀ b, clientBlocked s'.2.1 m' = some b →
          (b = true ↔ ReachedLimit config clock.now e.2) := by
  intro r
  have hne : mac ≠ [] := by
    rintro rfl
    exact absurd hmac.length (by simp)
  have htable : ∀ name, r.1.devs.find? name = (d.devs.find? name).map (fun node =>
      if strcaseEq name mac then { node.clearMinutes with periodBlocked := false } else node) :=
    clear_one_find? hnames io hne d.lastReset d.status k
  have hkernel := clear_one_kernel d.devs io hmac (hio.2 _) d.lastReset d.status k
  refine ⟨?_, ?_, ?_, ?_, ?_⟩
  · intro name node hfind hname
    refine ⟨?_, ?_⟩
    · rw [htable, hfind, Option.map_some, if_pos hname]
      rfl
    · have hthis : clientBlocked r.2 m = _ := hkernel m
      rw [hthis, first?_strcaseEq hnames hfind hname, if_pos ⟨rfl, rfl⟩]
      cases clientBlocked k m <;> simp
  · intro name hname
    rw [htable, hname]
    simp
  · intro m' hm'
    have hthis : clientBlocked r.2 m' = _ := hkernel m'
    rw [hthis, if_neg (fun h => hm' h.1)]
  · intro hno
    have hfirst : d.devs.first? (fun name _ => strcaseEq name mac) = none := by
      refine List.find?_eq_none.mpr ?_
      intro e he
      simp [hno e he]
    obtain ⟨c, rest, rfl⟩ := List.exists_cons_of_ne_nil hne
    show resetOneUserTodayActiveTime io (c :: rest) d k = (d, k)
    unfold resetOneUserTodayActiveTime
    rw [hfirst]
  · intro checks config clock s s'
    obtain ⟨hproper, hcleared⟩ := clear_one_keeps hnames io hne d.lastReset d.status k
    obtain ⟨hproper', hcleared'⟩ := limitChecks_keeps io mac checks r hproper hcleared
    obtain ⟨hclient, hothers⟩ := kernel_limitCheck hio config clock s.2 hproper' hmac hcleared'
    refine ⟨cleared_limitCheck hcleared', hclient, ?_⟩
    intro e he hsel
    obtain ⟨node, -, hchecked⟩ := mem_limitCheck he
    exact ⟨hchecked.decided hsel, hothers e he⟩

theorem properNames_phone : ProperNames phoneDevs := by
  have hphone : ∀ e ∈ phoneDevs.entries, e.1 = phoneText := by
    intro e he
    rcases HTable.mem_entries_add.mp he with rfl | hnone
    · rfl
    · simp at hnone
  refine ⟨?_, ?_⟩
  · intro e he
    exact ⟨phoneMac, by rw [hphone e he]; exact canonicalMac_phone⟩
  · intro e he e' he' _
    rw [hphone e he, hphone e' he']

/-- The phone used its hour and is blocked; the command takes the block off in
both places. -/
theorem clear_phone :
    let blocked := afSplitCheckPeriodLimit allOk oneHourConfig morningClock { devs := phoneDevs }
      phoneSeen
    let r := clearActiveTime allOk (some phoneText) blocked.1 blocked.2.1
    clientBlocked blocked.2.1 phoneMac = some true ∧ clientBlocked r.2 phoneMac ≠ some true ∧
      (r.1.devs.find? phoneText).map (fun node => (node.minutes, node.periodBlocked)) =
        some (0, false) := by
  intro blocked r
  obtain ⟨node, hfind⟩ := Option.isSome_iff_exists.mp
    (show (blocked.1.devs.find? phoneText).isSome = true by decide +kernel)
  obtain ⟨hthis, -⟩ := clear_one_device allOk blocked.1 blocked.2.1 phoneText phoneMac
    ⟨fun _ => rfl, fun _ => rfl⟩ (properNames_limitCheck properNames_phone) canonicalMac_phone
  obtain ⟨hnode, hclient⟩ := hthis phoneText node hfind (by decide)
  refine ⟨by decide +kernel, hclient, ?_⟩
  rw [hnode]
  rfl

/-! ## Everybody -/

/-- No device has minutes. -/
def NoMinutes (devs : DevTable) : Prop := ∀ e ∈ devs.entries, e.2.minutes = 0

theorem FewerMinutes.noMinutes {devs devs' : DevTable} (h : FewerMinutes devs devs')
    (hzero : NoMinutes devs) : NoMinutes devs' := by
  intro e he
  rcases h e he with hnew | ⟨node, hnode, hle⟩
  · exact hnew.2
  · have hnone : node.minutes = 0 := hzero _ hnode
    omega

/-- The calls that count no minute: all but a report and a restart. -/
def countsNone : DayAct → Bool
  | .report _ _ _ => false
  | .restart _ => false
  | _ => true

theorem noMinutes_step {s : DayState env} (h : NoMinutes s.devs) (mday : Nat → Nat) {a : DayAct}
    (ha : countsNone a = true) : NoMinutes (dayStep mday s a).devs := by
  cases a with
  | report mac active hour => exact absurd ha (by simp [countsNone])
  | restart config => exact absurd ha (by simp [countsNone])
  | updateDevList afUsers leases clients =>
      exact (fewerMinutes_devList _ _ _ _ _).noMinutes h
  | updateOafStatus io clock => exact (fewerMinutes_oafStatus io clock _ _).noMinutes h
  | flushDevExpireNode expired =>
      exact (fewerMinutes_filter s.devs (fun mac node => node.online || !expired mac)).noMinutes h
  | checkDateChange => exact (fewerMinutes_dateChange _ _ _).noMinutes h
  | checkAllUsersPeriodTime clock => exact (fewerMinutes_periodTime _ _ _).noMinutes h
  | updateDevSelectedFlag afUsers => exact (fewerMinutes_selectedFlag _ _ _).noMinutes h
  | clearActiveTime io mac => exact (fewerMinutes_clear io mac _ _).noMinutes h
  | flushOfflineUsers =>
      exact (fewerMinutes_filter s.devs (fun _ node => node.online)).noMinutes h
  | saveUserTimeToFile opened =>
      cases opened with
      | true => exact h
      | false => exact h
  | midnight => exact h
  | updateDynamicUsedTime now => exact h
  | updateLanIp io ip mask => exact h
  | loadConfig config => exact h
  | updateSwitches io => exact h

theorem noMinutes_run (mday : Nat → Nat) (calls : List DayAct) : ∀ {s : DayState env},
    NoMinutes s.devs → (∀ a ∈ calls, countsNone a = true) →
      NoMinutes (run (dayStep mday) s calls).devs := by
  induction calls with
  | nil =>
      intro s h _
      exact h
  | cons a calls ih =>
      intro s h hall
      exact ih (noMinutes_step h mday (hall a List.mem_cons_self))
        (fun a' ha' => hall a' (List.mem_cons_of_mem _ ha'))

theorem countsNone_earlyCalls (s : LoopState env) (i : TickInput) :
    ∀ a ∈ s.earlyCalls i, countsNone a = true := by
  have hall : (s.earlyCalls i).all countsNone = true := by
    unfold LoopState.earlyCalls oafTimeoutHandler
    simp only [List.all_append, Bool.and_eq_true]
    refine ⟨⟨⟨?_, ?_⟩, ?_⟩, rfl⟩
    · split <;> rfl
    · split <;> rfl
    · split <;> rfl
  exact List.all_eq_true.mp hall

/-- A limit check that finds no minutes returns 0, and says so in the status. -/
theorem limitCheck_status {io : ProcIo} (config : AfTimeConfig) (clock : Clock) {d : DevState}
    (k : OafState env) (h : NoMinutes d.devs) :
    (afSplitCheckPeriodLimit io config clock d k).1.status.periodBlocked = 0 ∧
      (afSplitCheckPeriodLimit io config clock d k).2.2 = 0 := by
  rcases afSplitCheckPeriodLimit_cases io config clock d k with
    ⟨-, -, hstatus, hret⟩ | ⟨limit, hreached, hdevs, hstatus, hret⟩
  · exact ⟨hstatus, hret⟩
  · have hzero := (fewerMinutes_split io config clock d k).noMinutes h
    rw [hdevs] at hzero
    have hnot : anyOverLimit (checkAllUsersPeriodTime clock.dev d.devs d.lastReset).1
        clock.now.hour limit = false := by
      rw [Bool.eq_false_iff]
      intro hany
      obtain ⟨e, he, hover⟩ := (anyOverLimit_iff _ _ _).mp hany
      exact not_reachedLimit (hzero e he) ((hreached e.2).mpr hover)
    rw [hnot] at hstatus hret
    exact ⟨hstatus, hret⟩

/-- A limit check that finds no minutes blocks nobody. -/
theorem limitCheck_noMinutes {io : ProcIo} (hio : io.Ok) (config : AfTimeConfig) (clock : Clock)
    {d : DevState} (k : OafState env) (h : NoMinutes d.devs) :
    let r := afSplitCheckPeriodLimit io config clock d k
    (∀ e ∈ r.1.devs.entries, e.2.isSelected = true → e.2.periodBlocked = false) ∧
      r.2.1 = unblockAll k ∧ r.1.status.periodBlocked = 0 ∧ r.2.2 = 0 := by
  intro r
  have hzero : NoMinutes r.1.devs := (fewerMinutes_split io config clock d k).noMinutes h
  have hflags : ∀ e ∈ r.1.devs.entries, e.2.isSelected = true → e.2.periodBlocked = false := by
    intro e he hsel
    obtain ⟨node, -, hchecked⟩ := mem_limitCheck he
    rw [Bool.eq_false_iff]
    intro hb
    exact not_reachedLimit (hzero e he) ((hchecked.decided hsel).mp hb)
  refine ⟨hflags, ?_, limitCheck_status config clock k h⟩
  -- nothing to write after `clear`
  have hnone : r.1.devs.entries.filter (fun e => e.2.toSync) = [] := by
    rw [List.filter_eq_nil_iff]
    intro e he
    unfold DevNode.toSync
    rw [Bool.and_eq_true]
    rintro ⟨hsel, hb⟩
    rw [hflags e he hsel] at hb
    exact Bool.false_ne_true hb
  show (afSplitCheckPeriodLimit io config clock d k).2.1 = _
  rw [afSplitCheckPeriodLimit_kernel]
  unfold afSplitSyncBlockedMacs syncTexts
  rw [if_pos (hio.2 _), hnone]
  show (oafBlockedMacsHandler k "clear".toList).1 = _
  rw [oafBlockedMacsHandler_clear]

/-- A switch whose write leaves a part of the kernel leaves it. -/
theorem updateSwitch_keeps {α : Type} (part : OafState env → α) (io : ProcIo) (key : ProcKey)
    (old : Int32) {w : Int32 → ProcWrite} (on : Bool) {k : OafState env}
    (hw : ∀ v, part (procWrite k (w v)) = part k) :
    part (updateSwitch io key old w on k) = part k := by
  unfold updateSwitch updateOafProcValue
  by_cases hwrite : io.value key = true ∧ decimal old ≠ decimal (if on then 1 else 0)
  · rw [if_pos hwrite, hw]
  · rw [if_neg hwrite]

/-- What the other switches leave: the clients and `enable`. -/
def unswitched (k : OafState env) : ClientTable × Int32 :=
  (k.clients, k.gOafFilterEnable)

/-- The switches other than `enable` leave the clients and `enable`. -/
theorem updateSwitches_split (io : ProcIo) {d : DaemonState} (hmode : d.time.timeMode = 2)
    (hsplit : d.time.splitTime = 1) (k : OafState env) :
    unswitched (updateOafSplitTimeStatus io d (updateOafAppFilterModeStatus io d
      (updateOafDisableQuicStatus io d (updateOafRecordStatus io d k)))) = unswitched k := by
  have hrecord : ∀ k : OafState env, unswitched (updateOafRecordStatus io d k) = unswitched k :=
    fun k => updateSwitch_keeps unswitched io _ _ _ (fun _ => rfl)
  have hquic : ∀ k : OafState env,
      unswitched (updateOafDisableQuicStatus io d k) = unswitched k :=
    fun k => updateSwitch_keeps unswitched io _ _ _ (fun _ => rfl)
  have happ : ∀ k : OafState env,
      unswitched (updateOafAppFilterModeStatus io d k) = unswitched k :=
    fun k => updateSwitch_keeps unswitched io _ _ _ (fun _ => rfl)
  have htime : ∀ k : OafState env,
      unswitched (updateOafSplitTimeStatus io d k) = unswitched k := by
    intro k
    unfold updateOafSplitTimeStatus
    simp only [hmode, hsplit, decide_true, Bool.and_true, Bool.not_true, Bool.false_and,
      Bool.false_eq_true, if_false]
    exact updateSwitch_keeps unswitched io _ _ _ (fun _ => rfl)
  rw [htime, happ, hquic, hrecord]

/-- In split mode with no minutes in the table, `update_oaf_status` unblocks all
clients and then writes 0 to `enable`. -/
theorem updateOafStatus_noMinutes {io : ProcIo} (hio : io.Ok) (clock : Clock) {d : DaemonState}
    (hen : d.global.enable = 1) (hper : PerDevice d.time) (h : NoMinutes d.dev.devs)
    (k : OafState env) :
    updateOafStatus io clock d k =
      ({ d with dev := (afSplitCheckPeriodLimit io d.time clock d.dev k).1 },
        updateSwitch io .enable (unblockAll k).gOafFilterEnable .enable false (unblockAll k)) := by
  obtain ⟨-, hkernel, -, hret⟩ := limitCheck_noMinutes hio d.time clock k h
  unfold updateOafStatus
  dsimp only
  rw [if_pos hen, afCheckTimeValid_perDevice hper, hkernel, hret]
  rfl

theorem updateSwitch_off {io : ProcIo} (hio : io.Ok) (k : OafState env) :
    (updateSwitch io .enable k.gOafFilterEnable .enable false k).gOafFilterEnable = 0 := by
  rw [updateSwitch_eq (hio.1 .enable)]
  by_cases hsame : k.gOafFilterEnable = if false then 1 else 0
  · rw [if_pos hsame, hsame]
    rfl
  · rw [if_neg hsame]
    rfl

/-- The block that handles the flag, in split mode and with no minutes in the
table. -/
theorem changeCalls_unblock (mday : Nat → Nat) {s : DayState env} (h : NoMinutes s.devs)
    {i : TickInput} (hio : i.io.Ok) {config : LoadedConfig} (hen : config.global.enable = 1)
    (hmode : config.time.timeMode = 2) (hsplit : config.time.splitTime = 1) :
    let s' := run (dayStep mday) s (changeCalls i config)
    (∀ e ∈ s'.devs.entries, e.2.isSelected = true → e.2.periodBlocked = false) ∧
      (∀ m, clientBlocked s'.kernel m ≠ some true) ∧
      s'.daemon.dev.status.periodBlocked = 0 ∧ s'.kernel.gOafFilterEnable = 0 := by
  intro s'
  -- the state `update_oaf_status` finds
  let s₁ := run (dayStep mday) s [.updateLanIp i.io i.ip i.mask, .loadConfig config,
    .updateDevSelectedFlag i.afUsers, .updateDynamicUsedTime i.minuteClock.now]
  have hzero : NoMinutes s₁.devs := noMinutes_run mday _ h (List.all_eq_true.mp rfl)
  have hper : PerDevice s₁.daemon.time := ⟨hmode, by
    show config.time.splitTime ≠ 0
    rw [hsplit]
    decide⟩
  obtain ⟨hflags, -, hstatus, -⟩ :=
    limitCheck_noMinutes hio s₁.daemon.time i.minuteClock s₁.kernel hzero
  have hcheck := updateOafStatus_noMinutes hio i.minuteClock
    (show s₁.daemon.global.enable = 1 from hen) hper hzero s₁.kernel
  obtain ⟨hclients, henable⟩ := Prod.mk.inj (updateSwitches_split i.io (show
    (updateOafStatus i.io i.minuteClock s₁.daemon s₁.kernel).1.time.timeMode = 2 from hmode)
    hsplit (updateOafStatus i.io i.minuteClock s₁.daemon s₁.kernel).2)
  refine ⟨?_, ?_, ?_, ?_⟩
  · intro e he
    have hdevs : s'.devs = (afSplitCheckPeriodLimit i.io s₁.daemon.time i.minuteClock
        s₁.daemon.dev s₁.kernel).1.devs := by
      show (updateOafStatus i.io i.minuteClock s₁.daemon s₁.kernel).1.dev.devs = _
      rw [hcheck]
    rw [hdevs] at he
    exact hflags e he
  · intro m
    have hsame : s'.kernel.clients = (unblockAll s₁.kernel).clients := by
      refine Eq.trans hclients ?_
      rw [hcheck]
      exact updateSwitch_keeps OafState.clients i.io _ _ _ (fun _ => rfl)
    have hblocked : clientBlocked s'.kernel m = clientBlocked (unblockAll s₁.kernel) m := by
      unfold clientBlocked
      rw [hsame]
    rw [hblocked, clientBlocked_unblockAll]
    cases clientBlocked s₁.kernel m <;> simp
  · show (updateOafStatus i.io i.minuteClock s₁.daemon s₁.kernel).1.dev.status.periodBlocked = 0
    rw [hcheck]
    exact hstatus
  · refine Eq.trans henable ?_
    rw [hcheck]
    exact updateSwitch_off hio (unblockAll s₁.kernel)

/-- **Clearing everybody unblocks everybody.** In split mode with the filter
enabled, whatever the tables, the clock and the flags were: after
`clear_active_time` without a MAC and the next tick, no selected device and no
client is blocked, `period_blocked` is 0, and filtering is switched off. -/
theorem clear_all_unblocks (mday : Nat → Nat) (s : LoopState env) (io : ProcIo)
    (mac : Option CStr) (i : TickInput) (hmac : mac = none ∨ mac = some []) (hio : i.io.Ok)
    (hen : s.stored.global.enable = 1) (hmode : s.stored.time.timeMode = 2)
    (hsplit : s.stored.time.splitTime = 1) :
    let s' := run (loopStep mday) s [.clearActiveTime io mac, .tick i]
    (∀ e ∈ s'.day.devs.entries, e.2.isSelected = true → e.2.periodBlocked = false) ∧
      (∀ m, clientBlocked s'.day.kernel m ≠ some true) ∧
      s'.day.daemon.dev.status.periodBlocked = 0 ∧ s'.day.kernel.gOafFilterEnable = 0 := by
  intro s'
  let s₁ := loopStep mday s (.clearActiveTime io mac)
  have hzero : NoMinutes s₁.day.devs := by
    intro e he
    rcases hmac with rfl | rfl
    · exact minutes_resetAll he
    · exact minutes_resetAll he
  have hday : s'.day = run (dayStep mday) (run (dayStep mday) s₁.day (s₁.earlyCalls i))
      (changeCalls i s.stored) := by
    show run (dayStep mday) s₁.day (s₁.calls i) = _
    rw [LoopState.calls_eq, run_append]
    rfl
  rw [hday]
  exact changeCalls_unblock mday
    (noMinutes_run mday _ hzero (countsNone_earlyCalls s₁ i)) hio hen hmode hsplit

/-- The daemon after the check that blocks the phone, with filtering on. -/
def phoneUsedUp : LoopState routerEnv :=
  let blocked := afSplitCheckPeriodLimit allOk oneHourConfig morningClock { devs := phoneDevs }
    phoneSeen
  { day :=
      { daemon := { global := hourConfig.global, time := oneHourConfig, dev := blocked.1 }
        kernel := procWrite blocked.2.1 (.enable 1) }
    configChange := false
    stored := hourConfig }

theorem clear_all_unblocks_phone :
    let s' := run (loopStep id) phoneUsedUp [.clearActiveTime allOk none, .tick quietTick]
    clientBlocked phoneUsedUp.day.kernel phoneMac = some true ∧
      phoneUsedUp.day.kernel.gOafFilterEnable = 1 ∧
      clientBlocked s'.day.kernel phoneMac ≠ some true ∧ s'.day.kernel.gOafFilterEnable = 0 := by
  intro s'
  obtain ⟨-, hclients, -, hoff⟩ := clear_all_unblocks id phoneUsedUp allOk none quietTick
    (.inl rfl) ⟨fun _ => rfl, fun _ => rfl⟩ rfl rfl rfl
  exact ⟨by decide +kernel, by decide +kernel, hclients phoneMac, hoff⟩

end OpenAppFilter.Theorems
