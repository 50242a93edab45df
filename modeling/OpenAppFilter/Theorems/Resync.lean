import OpenAppFilter.Kernel.Verdict
import OpenAppFilter.Theorems.SplitSync

/-!
# Packets during a resync

`af_split_sync_blocked_macs` clears every block in the kernel and writes the
blocks again, one text at a time, every ten seconds. Packets are handled
between any two texts. In split mode, with the filter on and all apps filtered,
a device over its limit is to be dropped. It is, except for the packets that
come after the `clear` and before the device's own `+MAC`.
-/

namespace OpenAppFilter.Theorems

open Base Kernel Daemon

variable {env : Env}

/-! ## Interleavings -/

/-- The text an event writes to `blocked_macs`. -/
def textOf : Event → Option CStr
  | .blockedMacs text => some text
  | _ => none

def textsOf (es : List Event) : List CStr := es.filterMap textOf

/-- The events `es` interleave the texts of one sync with packets, in split
mode with the filter on and all apps filtered; the device `mac` is blocked at
both ends. -/
structure Resync (io : ProcIo) (devs : DevTable) (k : OafState env) (mac : Mac)
    (es : List Event) : Prop where
  writes : textsOf es = syncTexts io devs
  packets : ∀ ev ∈ es, textOf ev = none → ev.isPacket = true
  enabled : k.gOafFilterEnable ≠ 0
  split : k.gSplitTime ≠ 0
  allApps : k.gAppFilterMode = 1
  before : clientBlocked k mac = some true
  after : clientBlocked (run step k es) mac = some true

/-- The event is a packet that the gateway handler takes for one of `mac`. -/
def GetsPacketOf (mac : Mac) (k : OafState env) (ev : Event) : Prop :=
  ∃ k' skb e, gatewayCall k ev = some (k', skb) ∧ gatewayEntry k' skb = some e ∧ e.mac = mac

/-- Such a packet is dropped. -/
def DropsPacketsOf (mac : Mac) (k : OafState env) (ev : Event) : Prop :=
  ∀ k' skb e, gatewayCall k ev = some (k', skb) → gatewayEntry k' skb = some e → e.mac = mac →
    (appFilterHookGatewayHandle k' skb).2 = .drop

/-- Of the texts written so far, `clear` is one and no `+MAC` of the device
is. -/
def InHole (mac : Mac) (texts : List CStr) : Prop :=
  "clear".toList ∈ texts ∧ ∀ t ∈ texts, blockTarget t ≠ some mac

/-! ## The flag during the resync -/

/-- The texts of a sync: none, or `clear` and then texts that start with
`+`. -/
theorem syncTexts_cases {io : ProcIo} {devs : DevTable} {before after : List CStr} {text : CStr}
    (h : syncTexts io devs = before ++ text :: after) :
    (before = [] ∧ text = "clear".toList) ∨
      ("clear".toList ∈ before ∧ ∃ s, text = '+' :: s) := by
  unfold syncTexts at h
  split at h
  · cases before with
    | nil => exact Or.inl ⟨rfl, (List.cons.inj h).1.symm⟩
    | cons first before =>
        rw [List.cons_append] at h
        obtain ⟨rfl, htail⟩ := List.cons.inj h
        refine Or.inr ⟨List.mem_cons_self, ?_⟩
        have hmem : text ∈ before ++ text :: after := by simp
        rw [← htail] at hmem
        obtain ⟨e, -, rfl⟩ := List.mem_map.mp (List.mem_of_mem_filter hmem)
        exact ⟨e.1, rfl⟩
  · exact absurd h (by simp)

theorem textsOf_append (es fs : List Event) : textsOf (es ++ fs) = textsOf es ++ textsOf fs :=
  List.filterMap_append

/-- One more text: `clear` opens the hole, the device's own `+MAC` closes
it, another device's leaves it as it is. -/
theorem flag_text {k : OafState env} {mac : Mac} {texts : List CStr} {text : CStr} {b : Bool}
    (hflag : clientBlocked k mac = some b) (hb : b = true ↔ ¬ InHole mac texts)
    (hnext : (texts = [] ∧ text = "clear".toList) ∨
      ("clear".toList ∈ texts ∧ ∃ s, text = '+' :: s)) :
    ∃ b', clientBlocked (oafBlockedMacsHandler k text).1 mac = some b' ∧
      (b' = true ↔ ¬ InHole mac (texts ++ [text])) := by
  rcases hnext with ⟨rfl, rfl⟩ | ⟨hclear, s, rfl⟩
  · refine ⟨false, ?_, ?_⟩
    · rw [oafBlockedMacsHandler_clear, clientBlocked_unblockAll, hflag]
      rfl
    · have htarget : blockTarget "clear".toList = none := by decide
      have hhole : InHole mac ([] ++ ["clear".toList]) := by
        refine ⟨List.mem_singleton.mpr rfl, ?_⟩
        intro t ht
        rw [List.mem_singleton.mp ht, htarget]
        exact (Option.some_ne_none mac).symm
      simp only [Bool.false_eq_true, false_iff, not_not]
      exact hhole
  · rw [clientBlocked_plus, hflag]
    by_cases htarget : blockTarget ('+' :: s) = some mac
    · refine ⟨true, by rw [if_pos htarget]; rfl, ?_⟩
      simp [InHole, htarget]
    · refine ⟨b, by rw [if_neg htarget], hb.trans (not_congr ?_)⟩
      unfold InHole
      constructor
      · rintro ⟨-, hnone⟩
        refine ⟨List.mem_append_left _ hclear, ?_⟩
        intro t ht
        rcases List.mem_append.mp ht with ht | ht
        · exact hnone t ht
        · rw [List.mem_singleton.mp ht]
          exact htarget
      · rintro ⟨-, hnone⟩
        exact ⟨hclear, fun t ht => hnone t (List.mem_append_left _ ht)⟩

/-- At every point of the resync the switches are as they were, and the flag is
up unless the texts so far leave the device in the hole. -/
theorem Resync.flag {io : ProcIo} {devs : DevTable} {k : OafState env} {mac : Mac}
    {es : List Event} (h : Resync io devs k mac es) (pre : List Event) :
    ∀ post, es = pre ++ post →
      (run step k pre).gOafFilterEnable ≠ 0 ∧ (run step k pre).gSplitTime ≠ 0 ∧
      (run step k pre).gAppFilterMode = 1 ∧
      ∃ b, clientBlocked (run step k pre) mac = some b ∧
        (b = true ↔ ¬ InHole mac (textsOf pre)) := by
  -- induction on the events so far: a packet keeps the flag, a text is `clear` or `+MAC`
  induction pre using List.reverseRecOn with
  | nil =>
      intro post _
      exact ⟨h.enabled, h.split, h.allApps, true, h.before, by simp [InHole, textsOf]⟩
  | append_singleton pre ev ih =>
      intro post heq
      rw [List.append_assoc] at heq
      obtain ⟨hen, hsplit, hmode, b, hflag, hb⟩ := ih _ heq
      have hmem : ev ∈ es := by
        rw [heq]
        simp
      rw [run_append, textsOf_append, run_cons, run_nil]
      cases htext : textOf ev with
      | none =>
          have hsteady := steady_step_packet (k := run step k pre) (h.packets ev hmem htext)
          have hno : textsOf [ev] = [] := by simp [textsOf, htext]
          rw [hsteady.enable, hsteady.split, hsteady.mode, hno, List.append_nil]
          exact ⟨hen, hsplit, hmode, b, hsteady.keeps mac b hflag, hb⟩
      | some text =>
          obtain rfl : ev = .blockedMacs text := by
            cases ev <;> simp_all [textOf]
          have hone : textsOf [Event.blockedMacs text] = [text] := rfl
          have hwrites := h.writes
          rw [heq, textsOf_append, textsOf_append, hone] at hwrites
          have hconfig := oafBlockedMacsHandler_config (run step k pre) text
          refine ⟨?_, ?_, ?_, flag_text hflag hb (syncTexts_cases hwrites.symm)⟩
          · show (oafBlockedMacsHandler (run step k pre) text).1.gOafFilterEnable ≠ 0
            rw [hconfig]
            exact hen
          · show (oafBlockedMacsHandler (run step k pre) text).1.gSplitTime ≠ 0
            rw [hconfig]
            exact hsplit
          · show (oafBlockedMacsHandler (run step k pre) text).1.gAppFilterMode = 1
            rw [hconfig]
            exact hmode

/-- At a packet of the device the handler's verdict is the flag. -/
theorem Resync.drop_iff {io : ProcIo} {devs : DevTable} {k k' : OafState env} {mac : Mac}
    {es pre post : List Event} {ev : Event} {skb : Skb} {e : GatewayEntry}
    (h : Resync io devs k mac es) (hes : es = pre ++ ev :: post)
    (hcall : gatewayCall (run step k pre) ev = some (k', skb))
    (hentry : gatewayEntry k' skb = some e) (hmac : e.mac = mac) :
    (appFilterHookGatewayHandle k' skb).2 = .drop ↔ ¬ InHole mac (textsOf pre) := by
  obtain ⟨hen, hsplit, hmode, b, hflag, hb⟩ := h.flag pre _ hes
  obtain ⟨-, rfl⟩ := gatewayCall_some hcall
  have hsteady := steady_afClientHook (run step k pre) skb
  rw [← hsteady.enable] at hen
  rw [← hsteady.split] at hsplit
  rw [← hsteady.mode] at hmode
  rw [gateway_split_drop_iff hentry hen hsplit hmode, ← hb]
  -- the handler reads the flag of the device's own record
  have hread := gatewayEntry_blocked hentry
  rw [hmac, hsteady.keeps mac b hflag] at hread
  rw [← Option.some.inj hread]

/-- **A resync opens no hole** iff no packet of the device is handled after the
`clear` and before the device's own `+MAC`. -/
theorem resync_drops_iff (io : ProcIo) (devs : DevTable) (k : OafState env) (mac : Mac)
    (es : List Event) (h : Resync io devs k mac es) :
    EveryStep step (DropsPacketsOf mac) k es ↔
      ∀ pre ev post, es = pre ++ ev :: post → GetsPacketOf mac (run step k pre) ev →
        ¬ InHole mac (textsOf pre) := by
  constructor
  · rintro hdrops pre ev post heq ⟨k', skb, e, hcall, hentry, hmac⟩
    exact (h.drop_iff heq hcall hentry hmac).mp (hdrops pre ev post heq k' skb e hcall hentry hmac)
  · intro hout pre ev post heq k' skb e hcall hentry hmac
    exact (h.drop_iff heq hcall hentry hmac).mpr
      (hout pre ev post heq ⟨k', skb, e, hcall, hentry, hmac⟩)

/-! ## The phone over its limit -/

/-- The phone is known and blocked, in split mode with all apps filtered. -/
def phoneBlocked : OafState routerEnv :=
  run step (boot routerEnv 0)
    [.forward (lanTcp phoneMac phoneIp 7), .proc (.enable 1), .proc (.appFilterMode 1),
      .proc (.splitTime 1), .blockedMacs ('+' :: phoneText)]

/-- The daemon's table with the phone over its limit. -/
def phoneOverLimit : DevTable :=
  HTable.empty.add phoneText { isSelected := true, periodBlocked := true } find?_empty_phone

/-- The sync with a packet of the phone in front of it. -/
def packetFirst : List Event :=
  [.forward (lanTcp phoneMac phoneIp 7), .blockedMacs "clear".toList,
    .blockedMacs ('+' :: phoneText)]

theorem packetFirst_drops : EveryStep step (DropsPacketsOf phoneMac) phoneBlocked packetFirst := by
  have hsync : Resync allOk phoneOverLimit phoneBlocked phoneMac packetFirst :=
    { writes := by decide +kernel
      packets := by decide
      enabled := by decide +kernel
      split := by decide +kernel
      allApps := by decide +kernel
      before := by decide +kernel
      after := by decide +kernel }
  refine (resync_drops_iff _ _ _ _ _ hsync).mpr ?_
  rintro pre ev post heq ⟨k', skb, e, hcall, -, -⟩
  cases pre with
  | nil => simp [InHole, textsOf]
  | cons ev₀ pre =>
      -- behind the packet only texts are left
      obtain ⟨-, htail⟩ := List.cons.inj heq
      have hmem : ev ∈ [Event.blockedMacs "clear".toList, .blockedMacs ('+' :: phoneText)] := by
        rw [htail]
        simp
      obtain ⟨rfl, -⟩ := gatewayCall_some hcall
      simp at hmem

/-- The same packet between the `clear` and the `+MAC`. -/
def packetBetween : List Event :=
  [.blockedMacs "clear".toList, .forward (lanTcp phoneMac phoneIp 7),
    .blockedMacs ('+' :: phoneText)]

/-- The phone is blocked before the sync and after it, and its packet in between
is let through. -/
theorem resync_lets_packet_through :
    Resync allOk phoneOverLimit phoneBlocked phoneMac packetBetween ∧
      ¬ EveryStep step (DropsPacketsOf phoneMac) phoneBlocked packetBetween := by
  refine ⟨
    { writes := by decide +kernel
      packets := by decide
      enabled := by decide +kernel
      split := by decide +kernel
      allApps := by decide +kernel
      before := by decide +kernel
      after := by decide +kernel }, ?_⟩
  intro h
  have hat := h [.blockedMacs "clear".toList] _ _ rfl
  obtain ⟨e, he⟩ := Option.isSome_iff_exists.mp (show (gatewayEntry
    (afClientHook (step phoneBlocked (.blockedMacs "clear".toList)) (lanTcp phoneMac phoneIp 7))
    (lanTcp phoneMac phoneIp 7)).isSome = true by decide +kernel)
  have hmac : (gatewayEntry
      (afClientHook (step phoneBlocked (.blockedMacs "clear".toList)) (lanTcp phoneMac phoneIp 7))
      (lanTcp phoneMac phoneIp 7)).map (·.mac) = some phoneMac := by decide +kernel
  rw [he] at hmac
  have hdrop := hat _ _ e rfl he (Option.some.inj hmac)
  exact absurd hdrop (by decide +kernel)

end OpenAppFilter.Theorems
