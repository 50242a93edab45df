import OpenAppFilter.Theorems.SwitchedOff

/-!
# Verdicts that change by themselves

Two packets of one classified flow with nothing but time between them. The
gateway handler writes a re-evaluated decision back into the mark, so the only
ways to a different verdict are a re-evaluation window that opens again by
itself (32-bit `jiffies` wrap around, five minutes after boot for the first
time) and a client record that expired together with its `period_blocked`
flag. The bypass handler uses the re-evaluated decision for one packet and
does not store it, so there the verdict also changes when the window closes.
-/

namespace OpenAppFilter.Theorems

open Base Kernel

variable {env : Env}

/-- Two verdicts are equal when both or none of them is a drop. -/
theorem verdict_eq_iff {v w : Verdict} : v = w ↔ (v = .drop ↔ w = .drop) := by
  cases v <;> cases w <;> simp

/-! ## Marks and connections while time passes -/

theorem findAndAddAfClient_ctMark (k : OafState env) (mac : Mac) (alloc : Bool) :
    (findAndAddAfClient k mac alloc).1.ctMark = k.ctMark := by
  unfold findAndAddAfClient
  split
  · rfl
  · cases alloc <;> rfl

theorem afClientHook_ctMark (k : OafState env) (skb : Skb) :
    (afClientHook k skb).ctMark = k.ctMark := by
  have hadd := findAndAddAfClient_ctMark k skb.hSource skb.alloc.client
  unfold afClientHook
  split
  · rfl
  · split
    · rfl
    · split
      · rfl
      · split
        · rename_i k' heq
          rw [heq] at hadd
          exact hadd
        · rename_i k' heq
          rw [heq] at hadd
          exact hadd

theorem afClientHook2_ctMark (k : OafState env) (skb : Skb) :
    (afClientHook2 k skb).ctMark = k.ctMark := by
  unfold afClientHook2
  split
  · rfl
  · split
    · rfl
    · split <;> rfl

theorem checkClientExpire_frame (k : OafState env) :
    (checkClientExpire k).ctMark = k.ctMark ∧ (checkClientExpire k).conns = k.conns := by
  unfold checkClientExpire
  split <;> exact ⟨rfl, rfl⟩

/-- The timer writes no mark, and a connection it leaves in the table is
unchanged. -/
theorem oafTimerFunc_frame (k : OafState env) :
    (oafTimerFunc k).ctMark = k.ctMark ∧
      ∀ t conn, (oafTimerFunc k).conns.find? t = some conn → k.conns.find? t = some conn := by
  have hexp : (if k.oafTimerCount % 60 = 0 then checkClientExpire k else k).ctMark = k.ctMark ∧
      (if k.oafTimerCount % 60 = 0 then checkClientExpire k else k).conns = k.conns := by
    split
    · exact checkClientExpire_frame k
    · exact ⟨rfl, rfl⟩
  refine ⟨hexp.1, ?_⟩
  intro t conn h
  rw [← hexp.2]
  unfold oafTimerFunc at h
  exact afConnCleanTimeout_find? h

theorem run_time_frame {es : List Event} (h : ∀ ev ∈ es, ev.isTime = true) (k : OafState env) :
    (run step k es).ctMark = k.ctMark ∧
      ∀ t conn, (run step k es).conns.find? t = some conn → k.conns.find? t = some conn := by
  induction es generalizing k with
  | nil => exact ⟨rfl, fun _ _ hc => hc⟩
  | cons ev es ih =>
      have hstep : (step k ev).ctMark = k.ctMark ∧ ∀ t conn,
          (step k ev).conns.find? t = some conn → k.conns.find? t = some conn := by
        cases ev with
        | pass ticks seconds => exact ⟨rfl, fun _ _ hc => hc⟩
        | timer => exact oafTimerFunc_frame k
        | _ => exact absurd (h _ List.mem_cons_self) (by simp [Event.isTime])
      obtain ⟨hmark, hconn⟩ := ih (fun e he => h e (List.mem_cons_of_mem _ he)) (step k ev)
      exact ⟨hmark.trans hstep.1, fun t conn hc => hstep.2 t conn (hconn t conn hc)⟩

/-! ## Gateway -/

/-- Two successive packets of one classified flow of one device in gateway
mode, with nothing but time between them. -/
structure GatewayPair (k : OafState env) (skb₁ : Skb) (between : List Event) (skb₂ : Skb)
    (k₁ : OafState env) (e₁ : GatewayEntry) (k₂ : OafState env) (e₂ : GatewayEntry) : Prop where
  first : gatewayCall k (.forward skb₁) = some (k₁, skb₁)
  entry₁ : gatewayEntry k₁ skb₁ = some e₁
  classified : Classified (k₁.ctMark e₁.ct.id)
  time : ∀ ev ∈ between, ev.isTime = true
  second : gatewayCall (run step (step k (.forward skb₁)) between) (.forward skb₂) =
    some (k₂, skb₂)
  entry₂ : gatewayEntry k₂ skb₂ = some e₂
  sameFlow : e₂.ct.id = e₁.ct.id
  sameDevice : e₂.mac = e₁.mac

/-- Between the two calls no configuration changes and no flag is raised, and
the marks are those the first call left. -/
theorem GatewayPair.quiet {k k₁ k₂ : OafState env} {skb₁ skb₂ : Skb} {between : List Event}
    {e₁ e₂ : GatewayEntry} (h : GatewayPair k skb₁ between skb₂ k₁ e₁ k₂ e₂) :
    Quiet k₁ k₂ ∧ k₂.ctMark = (appFilterHookGatewayHandle k₁ skb₁).1.ctMark := by
  obtain ⟨hk₁, -, hmode⟩ := gatewayCall_forward h.first
  obtain ⟨hk₂, -, -⟩ := gatewayCall_forward h.second
  have hstep : Quiet k₁ (step k (.forward skb₁)) ∧
      (step k (.forward skb₁)).ctMark = (appFilterHookGatewayHandle k₁ skb₁).1.ctMark := by
    show Quiet k₁ (forwardHooks k skb₁).1 ∧ (forwardHooks k skb₁).1.ctMark = _
    unfold forwardHooks appFilterHook
    rw [← hk₁, if_neg hmode]
    have hgw := (tame_gateway k₁ skb₁).quiet
    split
    · rename_i k' heq
      rw [heq] at hgw ⊢
      exact ⟨hgw, rfl⟩
    · rename_i k' heq
      rw [heq] at hgw ⊢
      exact ⟨hgw.trans (tame_afClientHook2 k' skb₁).quiet, afClientHook2_ctMark k' skb₁⟩
  obtain ⟨hmark, -⟩ := run_time_frame h.time (step k (.forward skb₁))
  rw [hk₂, afClientHook_ctMark, hmark]
  exact ⟨(hstep.1.trans (quiet_run_time h.time _)).trans (steady_afClientHook _ _).toQuiet, hstep.2⟩

/-- The verdict flips: filtering is on and either the re-evaluation window was
closed at the first packet, is open at the second, and the rule contradicts the
cached bit that decided the first; or the record of a blocked device expired in
between and came back unblocked. -/
def GatewayFlips (k₁ : OafState env) (e₁ : GatewayEntry) (k₂ : OafState env)
    (e₂ : GatewayEntry) : Prop :=
  let mark := k₁.ctMark e₁.ct.id
  let rule := matchAppFilterRule k₁ (markAppId mark).toInt e₁.mac
  k₁.gOafFilterEnable ≠ 0 ∧
    (((k₁.gSplitTime = 0 ∨ (e₂.client.periodBlocked = true ∧ k₁.gAppFilterMode ≠ 1)) ∧
        ¬ (k₁.gAppFilterMode ≠ 0 ∧ markDrop mark = true) ∧ actionWindowOpen k₁ = false ∧
        actionWindowOpen k₂ = true ∧ rule ≠ markDrop mark) ∨
      (k₁.gSplitTime ≠ 0 ∧ e₁.client.periodBlocked = true ∧ e₂.client.periodBlocked = false ∧
        (k₁.gAppFilterMode = 1 ∨ (k₁.gAppFilterMode ≠ 0 ∧ markDrop mark = true) ∨
          (if actionWindowOpen k₁ then rule else markDrop mark) = true)))

/-- The decision of two packets from the same cache: all-apps shortcut or
re-evaluation, with the first packet's result written back. They differ exactly
when the window opens in between and the rule contradicts the cache. -/
theorem cached_decision_iff {M : Prop} {d₁ d₂ r w₁ : Bool} (w₂ : Bool)
    [Decidable (M ∧ d₁ = true)] (h : d₂ = if M ∧ d₁ = true then true else if w₁ then r else d₁) :
    (((M ∧ d₁ = true) ∨ (if w₁ then r else d₁) = true) ↔
      ((M ∧ d₂ = true) ∨ (if w₂ then r else d₂) = true)) ↔
      ¬ (¬ (M ∧ d₁ = true) ∧ w₁ = false ∧ w₂ = true ∧ r ≠ d₁) := by
  by_cases hM : M
  · cases d₁ <;> cases r <;> cases w₁ <;> cases w₂ <;> simp_all
  · cases d₁ <;> cases r <;> cases w₁ <;> cases w₂ <;> simp_all

/-- Gateway mode: the two verdicts are equal iff the flip condition fails. -/
theorem gateway_stable_iff {k k₁ k₂ : OafState env} {skb₁ skb₂ : Skb} {between : List Event}
    {e₁ e₂ : GatewayEntry} (h : GatewayPair k skb₁ between skb₂ k₁ e₁ k₂ e₂) :
    (appFilterHookGatewayHandle k₁ skb₁).2 = (appFilterHookGatewayHandle k₂ skb₂).2 ↔
      ¬ GatewayFlips k₁ e₁ k₂ e₂ := by
  obtain ⟨hq, hmarks⟩ := h.quiet
  by_cases hen : k₁.gOafFilterEnable = 0
  · -- nothing is dropped and nothing flips
    rw [gateway_off hen, gateway_off (hq.enable.trans hen)]
    exact ⟨fun _ hflip => hflip.1 hen, fun _ => rfl⟩
  · obtain ⟨hid, hbit⟩ := gateway_mark h.entry₁ h.classified hen
    rw [← hmarks] at hid hbit
    have hc₂ : Classified (k₂.ctMark e₂.ct.id) := by
      unfold Classified
      rw [h.sameFlow, hid]
      exact h.classified
    -- the flag can only have been lost in between
    have hflag : e₂.client.periodBlocked = true → e₁.client.periodBlocked = true := by
      intro hb
      have h₂ := gatewayEntry_blocked h.entry₂
      rw [hb, h.sameDevice] at h₂
      have h₁ := hq.blocks _ h₂
      rw [gatewayEntry_blocked h.entry₁] at h₁
      exact Option.some.inj h₁
    have hdrop₁ := gateway_drop_iff h.entry₁ h.classified
    have hdrop₂ := gateway_drop_iff h.entry₂ hc₂
    simp only [newAction, h.sameFlow, hid, h.sameDevice, hq.enable, hq.mode, hq.split, hq.rule]
      at hdrop₁ hdrop₂ hbit
    rw [verdict_eq_iff, hdrop₁, hdrop₂]
    unfold GatewayFlips
    unfold PassesGate at hbit
    by_cases hsplit : k₁.gSplitTime = 0
    · have hcore := cached_decision_iff (actionWindowOpen k₂) (hbit (Or.inl hsplit))
      simpa [hsplit, hen] using hcore
    · cases hb₁ : e₁.client.periodBlocked with
      | false =>
          -- let through by the gate both times
          have hb₂ : e₂.client.periodBlocked = false := by
            cases hb₂ : e₂.client.periodBlocked with
            | false => rfl
            | true => exact absurd (hflag hb₂) (by simp [hb₁])
          simp [hsplit, hb₂]
      | true =>
          by_cases hmode : k₁.gAppFilterMode = 1
          · cases hb₂ : e₂.client.periodBlocked <;> simp [hsplit, hen, hmode]
          · have hcore := cached_decision_iff (actionWindowOpen k₂)
              (hbit (Or.inr ⟨hb₁, hmode⟩))
            cases hb₂ : e₂.client.periodBlocked with
            | false => simp [hsplit, hen, hmode]
            | true => simpa [hsplit, hen, hmode] using hcore

/-! ## Bypass -/

/-- The handler gets to a connection that is stored already. -/
structure BypassMeets (k : OafState env) (skb : Skb) (flow : FlowInfo) (conn : AfConn) : Prop where
  entry : bypassEntry k skb = some flow
  client : (k.clients.find? skb.hSource).isSome = true ∨ skb.alloc.client = true
  stored : k.conns.find? flow.tuple = some conn

theorem BypassMeets.found {k : OafState env} {skb : Skb} {flow : FlowInfo} {conn : AfConn}
    (h : BypassMeets k skb flow conn) : bypassConnOf k skb flow = some conn := by
  unfold bypassConnOf
  rw [if_neg, h.stored]
  rintro ⟨hnone, halloc⟩
  rcases h.client with hc | hc
  · rw [Option.isNone_iff_eq_none.mp hnone] at hc
    exact Bool.false_ne_true hc
  · rw [halloc] at hc
    exact Bool.false_ne_true hc

/-- Two successive packets of one classified connection of one device in
bypass mode, with nothing but time between them; the connection is still in the
table at the second. -/
structure BypassPair (k : OafState env) (skb₁ : Skb) (between : List Event) (skb₂ : Skb)
    (k₁ k₂ : OafState env) (flow₁ flow₂ : FlowInfo) (conn₁ conn₂ : AfConn) : Prop where
  first : bypassCall k (.preRouting skb₁) = some (k₁, skb₁)
  meets₁ : BypassMeets k₁ skb₁ flow₁ conn₁
  classified : conn₁.classified
  time : ∀ ev ∈ between, ev.isTime = true
  second : bypassCall (run step (step k (.preRouting skb₁)) between) (.preRouting skb₂) =
    some (k₂, skb₂)
  meets₂ : BypassMeets k₂ skb₂ flow₂ conn₂
  sameFlow : flow₂.tuple = flow₁.tuple
  sameDevice : skb₂.hSource = skb₁.hSource

/-- The verdict flips: filtering is on, the all-apps shortcut is not taken, the
window is open at exactly one of the packets, and the rule contradicts the
stored flag. -/
def BypassFlips (k₁ k₂ : OafState env) (skb₁ : Skb) (conn : AfConn) : Prop :=
  k₁.gOafFilterEnable ≠ 0 ∧ ¬ (conn.drop = true ∧ k₁.gAppFilterMode ≠ 0) ∧
    actionWindowOpen k₁ ≠ actionWindowOpen k₂ ∧
    matchAppFilterRule k₁ conn.appId.toInt skb₁.hSource ≠ conn.drop

theorem bypassCall_preRouting {k k' : OafState env} {skb skb' : Skb}
    (h : bypassCall k (.preRouting skb) = some (k', skb')) :
    k' = k ∧ skb' = skb ∧ k.afWorkMode ≠ afModeGateway := by
  unfold bypassCall at h
  dsimp only at h
  split at h
  · exact absurd h (by simp)
  · rename_i hmode
    obtain ⟨rfl, rfl⟩ := Prod.mk.inj (Option.some.inj h)
    exact ⟨rfl, rfl, hmode⟩

/-- On a classified connection the handler leaves the connection table as it
found it. -/
theorem bypassFlow_classified_conns (k : OafState env) (skb : Skb) (flow : FlowInfo)
    (t : ConnTuple) {conn : AfConn} (hc : conn.classified) :
    (bypassFlow k skb flow t conn).1.conns = k.conns := by
  unfold bypassFlow
  split
  · rfl
  · rw [if_pos hc.ne_zero]
    unfold bypassClassified
    split
    · rfl
    · unfold bypassFinish recordVisit
      dsimp only
      split <;> rfl

/-- Between the two calls no configuration changes, and the connection keeps
its app id and its flag. -/
theorem BypassPair.quiet {k k₁ k₂ : OafState env} {skb₁ skb₂ : Skb} {between : List Event}
    {flow₁ flow₂ : FlowInfo} {conn₁ conn₂ : AfConn}
    (h : BypassPair k skb₁ between skb₂ k₁ k₂ flow₁ flow₂ conn₁ conn₂) :
    Quiet k₁ k₂ ∧ conn₂ = conn₁.touch k₁.jiffiesWord := by
  obtain ⟨hk₁, -, hmode⟩ := bypassCall_preRouting h.first
  obtain ⟨hk₂, -, -⟩ := bypassCall_preRouting h.second
  subst hk₁
  obtain ⟨k', hq, -, hfind, heq⟩ := (bypass_eq h.meets₁.entry).2 conn₁ h.meets₁.found
  have hc : (conn₁.touch k₁.jiffiesWord).classified := h.classified
  have hflow := (tame_bypassFlow k' skb₁ flow₁ flow₁.tuple (conn₁.touch k₁.jiffiesWord)).quiet
  have hconns := bypassFlow_classified_conns k' skb₁ flow₁ flow₁.tuple hc
  have hstep : step k₁ (.preRouting skb₁) =
      (bypassFlow k' skb₁ flow₁ flow₁.tuple (conn₁.touch k₁.jiffiesWord)).1 := by
    show (appFilterByPassHook k₁ skb₁).1 = _
    unfold appFilterByPassHook
    rw [if_neg hmode, heq]
  rw [hstep] at hk₂
  obtain ⟨-, hkeep⟩ := run_time_frame h.time
    (bypassFlow k' skb₁ flow₁ flow₁.tuple (conn₁.touch k₁.jiffiesWord)).1
  refine ⟨?_, ?_⟩
  · rw [hk₂]
    exact (hq.trans hflow).trans (quiet_run_time h.time _)
  · have hst := h.meets₂.stored
    rw [hk₂, h.sameFlow] at hst
    have hst' := hkeep _ _ hst
    rw [hconns, hfind] at hst'
    exact (Option.some.inj hst').symm

/-- Bypass mode: the two verdicts are equal iff the flip condition fails. -/
theorem bypass_stable_iff {k k₁ k₂ : OafState env} {skb₁ skb₂ : Skb} {between : List Event}
    {flow₁ flow₂ : FlowInfo} {conn₁ conn₂ : AfConn}
    (h : BypassPair k skb₁ between skb₂ k₁ k₂ flow₁ flow₂ conn₁ conn₂) :
    (appFilterHookBypassHandle k₁ skb₁).2 = (appFilterHookBypassHandle k₂ skb₂).2 ↔
      ¬ BypassFlips k₁ k₂ skb₁ conn₁ := by
  obtain ⟨hq, hconn⟩ := h.quiet
  have hc₂ : conn₂.classified := by
    rw [hconn]
    exact h.classified
  have hid : conn₂.appId = conn₁.appId := by rw [hconn]; rfl
  have hdr : conn₂.drop = conn₁.drop := by rw [hconn]; rfl
  rw [verdict_eq_iff, bypass_drop_iff h.meets₁.entry h.meets₁.found h.classified,
    bypass_drop_iff h.meets₂.entry h.meets₂.found hc₂]
  unfold BypassFlips newAction
  rw [hid, hdr, h.sameDevice, hq.enable, hq.mode, hq.rule]
  by_cases hall : conn₁.drop = true ∧ k₁.gAppFilterMode ≠ 0
  · simp [hall]
  · simp only [hall, false_or, not_false_eq_true, true_and]
    by_cases hen : k₁.gOafFilterEnable = 0
    · simp [hen]
    · -- the flag and the rule, each read under its own window
      simp only [hen, ne_eq, not_false_eq_true, and_true, true_and]
      cases actionWindowOpen k₁ <;> cases actionWindowOpen k₂ <;>
        cases matchAppFilterRule k₁ conn₁.appId.toInt skb₁.hSource <;> cases conn₁.drop <;> simp

/-! ## Both modes -/

/-- Bypass mode; a flow is classified while its app is allowed, then the app is
added to the filtered set. -/
def addedLate : List Event :=
  [.proc (.workMode 1), .proc (.lanIp 0x0101a8c0#32), .proc (.lanMask 0x00ffffff#32),
    .addFeature tcpFeature, .proc (.enable 1), .preRouting (lanTcp phoneMac phoneIp 7),
    .config (some (addAppMsg 1001))]

/-- Gateway mode; the flow is classified while its app is allowed. -/
def allowedFlow : List Event :=
  [.addFeature tcpFeature, .proc (.enable 1), .forward (lanTcp phoneMac phoneIp 7)]

/-- The packet of these runs and its connection key. -/
def phoneSkb : Skb := lanTcp phoneMac phoneIp 7

def phoneTuple : ConnTuple := ⟨0x0201a8c0#32, 0x04030201#32, 12345, 80, 6⟩

/-- The handler's state at the first packet, 29 seconds before the window of
the run closes. -/
abbrev bypassFirst : OafState routerEnv := run step (boot routerEnv 0) addedLate

/-- The handler's state at the second packet, after the window has closed. -/
abbrev bypassSecond : OafState routerEnv :=
  run step (step bypassFirst (.preRouting phoneSkb)) [.pass 4000 40]

theorem bypassPair_addedLate : ∃ flow₁ flow₂ conn₁ conn₂,
    BypassPair bypassFirst phoneSkb [.pass 4000 40] phoneSkb bypassFirst bypassSecond
      flow₁ flow₂ conn₁ conn₂ := by
  obtain ⟨flow₁, he₁, ht₁⟩ := Option.map_eq_some_iff.mp
    (show (bypassEntry bypassFirst phoneSkb).map FlowInfo.tuple = some phoneTuple by
      decide +kernel)
  obtain ⟨flow₂, he₂, ht₂⟩ := Option.map_eq_some_iff.mp
    (show (bypassEntry bypassSecond phoneSkb).map FlowInfo.tuple = some phoneTuple by
      decide +kernel)
  obtain ⟨conn₁, hc₁, hid₁⟩ := Option.map_eq_some_iff.mp
    (show (bypassFirst.conns.find? phoneTuple).map AfConn.appId = some 1001#32 by
      decide +kernel)
  obtain ⟨conn₂, hc₂, -⟩ := Option.map_eq_some_iff.mp
    (show (bypassSecond.conns.find? phoneTuple).map AfConn.appId = some 1001#32 by
      decide +kernel)
  refine ⟨flow₁, flow₂, conn₁, conn₂, ?_⟩
  exact
    { first := rfl
      meets₁ := ⟨he₁, Or.inr rfl, ht₁.symm ▸ hc₁⟩
      classified := by
        unfold AfConn.classified
        rw [hid₁]
        decide
      time := by simp [Event.isTime]
      second := rfl
      meets₂ := ⟨he₂, Or.inr rfl, ht₂.symm ▸ hc₂⟩
      sameFlow := ht₂.trans ht₁.symm
      sameDevice := rfl }

/-- Gateway mode: the handler's states at two packets one second apart. -/
abbrev gatewayStart : OafState routerEnv := run step (boot routerEnv 0) allowedFlow

abbrev gatewayFirst : OafState routerEnv := afClientHook gatewayStart phoneSkb

abbrev gatewaySecond : OafState routerEnv :=
  afClientHook (run step (step gatewayStart (.forward phoneSkb)) [.pass 100 1]) phoneSkb

theorem gatewayPair_allowedFlow : ∃ e₁ e₂,
    GatewayPair gatewayStart phoneSkb [.pass 100 1] phoneSkb gatewayFirst e₁ gatewaySecond e₂ :=
  ⟨(gatewayEntry gatewayFirst phoneSkb).get (by decide +kernel),
    (gatewayEntry gatewaySecond phoneSkb).get (by decide +kernel),
    { first := rfl
      entry₁ := by simp
      classified := by decide +kernel
      time := by simp [Event.isTime]
      second := rfl
      entry₂ := by simp
      sameFlow := by decide +kernel
      sameDevice := by decide +kernel }⟩

end OpenAppFilter.Theorems
