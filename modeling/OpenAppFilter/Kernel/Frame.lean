import OpenAppFilter.Kernel.System

/-!
# What packets and time leave alone

Packets, the timer and the passage of time write the two tables, the marks
and the clock, and nothing else: the switches, the rules and the stamp of the
last configuration message stay. They also never raise a `period_blocked`
flag; a record that expires and is made again starts with the flag down.
`Quiet` is that relation. Packets alone are `Steady`: they also delete no
record and lower no flag. `Tame` is stronger again, every record keeping its
address too: it holds of everything on the FORWARD chain after
`af_client_hook`.
-/

namespace OpenAppFilter.Kernel

open Base

variable {env : Env}

/-- `k'` comes from `k` without a configuration message, a switch write or a
new block. -/
structure Quiet (k k' : OafState env) : Prop where
  config : k' = { k with
    jiffies := k'.jiffies
    timestamp := k'.timestamp
    clients := k'.clients
    conns := k'.conns
    connLastBucket := k'.connLastBucket
    oafTimerCount := k'.oafTimerCount
    ctMark := k'.ctMark }
  blocks : ∀ mac, clientBlocked k' mac = some true → clientBlocked k mac = some true

namespace Quiet

theorem refl (k : OafState env) : Quiet k k := ⟨rfl, fun _ h => h⟩

theorem trans {k k' k'' : OafState env} (h : Quiet k k') (h' : Quiet k' k'') : Quiet k k'' := by
  refine ⟨?_, fun mac hb => h.blocks mac (h'.blocks mac hb)⟩
  refine h'.config.trans ?_
  rw [h.config]

variable {k k' : OafState env} (h : Quiet k k')
include h

theorem enable : k'.gOafFilterEnable = k.gOafFilterEnable := by rw [h.config]

theorem mode : k'.gAppFilterMode = k.gAppFilterMode := by rw [h.config]

theorem split : k'.gSplitTime = k.gSplitTime := by rw [h.config]

theorem quic : k'.gDisableQuic = k.gDisableQuic := by rw [h.config]

theorem accl : k'.gByPassAccl = k.gByPassAccl := by rw [h.config]

theorem packetDirUp (skb : Skb) : packetDirUp k' skb = packetDirUp k skb := by
  rw [h.config]
  rfl

theorem update : k'.gUpdateJiffies = k.gUpdateJiffies := by rw [h.config]

theorem user (mac : Mac) : matchAppFilterUser k' mac = matchAppFilterUser k mac := by
  rw [h.config]
  rfl

theorem rule (appid : Int) (mac : Mac) :
    matchAppFilterRule k' appid mac = matchAppFilterRule k appid mac := by
  rw [h.config]
  rfl

end Quiet

/-! ## Writes that keep every address and flag -/

/-- What the decisions read of the record of `mac`: its IPv4 address and its
flag. -/
def clientView (k : OafState env) (mac : Mac) : Option (Ipv4 × Bool) :=
  (k.clients.find? mac).map (fun c => (c.ip, c.periodBlocked))

/-- Like `Quiet`, with every record still there and its address and flag as
they were. -/
structure Tame (k k' : OafState env) : Prop where
  config : k' = { k with
    jiffies := k'.jiffies
    timestamp := k'.timestamp
    clients := k'.clients
    conns := k'.conns
    connLastBucket := k'.connLastBucket
    oafTimerCount := k'.oafTimerCount
    ctMark := k'.ctMark }
  clients : ∀ mac, clientView k' mac = clientView k mac

theorem clientBlocked_eq_view (k : OafState env) (mac : Mac) :
    clientBlocked k mac = (clientView k mac).map Prod.snd := by
  simp [clientBlocked, clientView, Function.comp_def]

namespace Tame

theorem refl (k : OafState env) : Tame k k := ⟨rfl, fun _ => rfl⟩

theorem trans {k k' k'' : OafState env} (h : Tame k k') (h' : Tame k' k'') : Tame k k'' := by
  refine ⟨?_, fun mac => (h'.clients mac).trans (h.clients mac)⟩
  refine h'.config.trans ?_
  rw [h.config]

theorem quiet {k k' : OafState env} (h : Tame k k') : Quiet k k' := by
  refine ⟨h.config, ?_⟩
  intro mac hb
  rw [clientBlocked_eq_view, h.clients mac, ← clientBlocked_eq_view] at hb
  exact hb

end Tame

/-- Like `Quiet`, with every record still there and its flag as it was: what
packets do. A record may be new, and an address may change. -/
structure Steady (k k' : OafState env) : Prop extends Quiet k k' where
  keeps : ∀ mac b, clientBlocked k mac = some b → clientBlocked k' mac = some b

namespace Steady

theorem refl (k : OafState env) : Steady k k := ⟨Quiet.refl k, fun _ _ h => h⟩

theorem trans {k k' k'' : OafState env} (h : Steady k k') (h' : Steady k' k'') : Steady k k'' :=
  ⟨h.toQuiet.trans h'.toQuiet, fun mac b hb => h'.keeps mac b (h.keeps mac b hb)⟩

end Steady

theorem Tame.steady {k k' : OafState env} (h : Tame k k') : Steady k k' := by
  refine ⟨h.quiet, ?_⟩
  intro mac b hb
  rw [clientBlocked_eq_view, h.clients mac, ← clientBlocked_eq_view]
  exact hb

theorem tame_updateClient (k : OafState env) (mac : Mac) {f : AfClientInfo → AfClientInfo}
    (hf : ∀ c, (f c).ip = c.ip ∧ (f c).periodBlocked = c.periodBlocked) :
    Tame k (k.updateClient mac f) := by
  refine ⟨rfl, ?_⟩
  intro mac'
  unfold clientView OafState.updateClient
  rw [HTable.find?_modify]
  by_cases hm : mac' = mac
  · rw [if_pos hm, Option.map_map]
    congr 1
    funext c
    show ((f c).ip, (f c).periodBlocked) = (c.ip, c.periodBlocked)
    rw [(hf c).1, (hf c).2]
  · rw [if_neg hm]

theorem tame_setMark (k : OafState env) (ct : Nat) (mark : BitVec 32) :
    Tame k (k.setMark ct mark) := ⟨rfl, fun _ => rfl⟩

theorem tame_recordVisit (k : OafState env) (mac : Mac) (ignore : Bool) (appId : BitVec 32)
    (drop : Bool) : Tame k (recordVisit k mac ignore appId drop) := by
  unfold recordVisit
  split
  · exact tame_updateClient k mac (fun _ => ⟨rfl, rfl⟩)
  · exact Tame.refl k

theorem tame_afClientHook2 (k : OafState env) (skb : Skb) : Tame k (afClientHook2 k skb) := by
  unfold afClientHook2
  cases skb.ct with
  | none => exact Tame.refl k
  | some ct =>
      simp only
      split
      · exact Tame.refl k
      · split
        · exact tame_updateClient k _ (fun _ => ⟨rfl, rfl⟩)
        · exact Tame.refl k

/-! ## The gateway handler -/

theorem updateUrlVisitingInfo_view (now : Nat) (flow : FlowInfo) (c : AfClientInfo) :
    (updateUrlVisitingInfo now flow c).ip = c.ip ∧
      (updateUrlVisitingInfo now flow c).periodBlocked = c.periodBlocked := by
  unfold updateUrlVisitingInfo
  cases reportHost flow with
  | none => exact ⟨rfl, rfl⟩
  | some host =>
      simp only
      split <;> exact ⟨rfl, rfl⟩

theorem tame_gatewayClassified (k : OafState env) (mac : Mac) (ct : Nat) :
    Tame k (gatewayClassified k mac ct).1 := by
  unfold gatewayClassified
  refine Tame.trans ?_ (tame_recordVisit _ _ _ _ _)
  split
  · exact tame_setMark k ct _
  · exact Tame.refl k

theorem tame_gatewayMatched (k : OafState env) (flow : FlowInfo) (mac : Mac) (ct : Nat)
    (splitSkip : Bool) : Tame k (gatewayMatched k flow mac ct splitSkip).1 := by
  unfold gatewayMatched
  by_cases hskip : k.gOafFilterEnable ≠ 0 ∧ splitSkip = true ∧ k.gAppFilterMode ≠ 0
  · rw [if_pos hskip]
    exact tame_setMark k ct _
  · rw [if_neg hskip]
    exact (tame_setMark k ct _).trans (tame_recordVisit _ _ _ _ _)

theorem tame_gatewayInspect (k : OafState env) (flow : FlowInfo) (mac : Mac) (ct : Nat)
    (splitSkip : Bool) : Tame k (gatewayInspect k flow mac ct splitSkip).1 := by
  have hurl := (tame_updateClient k mac
    (updateUrlVisitingInfo_view k.timestamp (dpiMain flow))).trans
      (tame_setMark _ ct (setMarkHello (k.ctMark ct) (dpiMain flow).clientHello))
  unfold gatewayInspect
  dsimp only
  split
  · exact hurl
  · exact hurl.trans (tame_gatewayMatched _ _ _ _ _)

theorem tame_gatewayDpi (k : OafState env) (skb : Skb) (flow : FlowInfo) (mac : Mac)
    (ct : CtRef) (splitSkip : Bool) : Tame k (gatewayDpi k skb flow mac ct splitSkip).1 := by
  unfold gatewayDpi
  cases ct.acct with
  | none => exact Tame.refl k
  | some totalPackets =>
      dsimp only
      split
      · exact Tame.refl k
      · split
        · exact tame_setMark k _ _
        · split
          · exact Tame.refl k
          · exact tame_gatewayInspect _ _ _ _ _

theorem tame_gatewayFlow (k : OafState env) (skb : Skb) (e : GatewayEntry) (splitSkip : Bool) :
    Tame k (gatewayFlow k skb e splitSkip).1 := by
  unfold gatewayFlow
  simp only
  split
  · exact tame_gatewayDpi _ _ _ _ _ _
  · split
    · exact Tame.refl k
    · split
      · exact Tame.refl k
      · split
        · exact tame_gatewayClassified _ _ _
        · exact tame_gatewayDpi _ _ _ _ _ _

theorem tame_gateway (k : OafState env) (skb : Skb) :
    Tame k (appFilterHookGatewayHandle k skb).1 := by
  unfold appFilterHookGatewayHandle
  cases gatewayEntry k skb with
  | none => exact Tame.refl k
  | some e =>
      have hup : Tame k (k.updateClient e.mac
          (fun c => { c with updateJiffies := k.jiffiesWord })) :=
        tame_updateClient k e.mac (fun _ => ⟨rfl, rfl⟩)
      simp only
      split
      · exact hup
      · split
        · exact hup
        · exact hup.trans (tame_gatewayFlow _ _ _ _)

theorem tame_appFilterHook (k : OafState env) (skb : Skb) :
    Tame k (appFilterHook k skb).1 := by
  unfold appFilterHook
  split
  · exact Tame.refl k
  · exact tame_gateway k skb

/-- After `af_client_hook`, the rest of the FORWARD chain keeps every address
and flag. -/
theorem tame_forwardHooks (k : OafState env) (skb : Skb) :
    Tame (afClientHook k skb) (forwardHooks k skb).1 := by
  have hhook := tame_appFilterHook (afClientHook k skb) skb
  unfold forwardHooks
  split
  · rename_i k' heq
    rw [heq] at hhook
    exact hhook
  · rename_i k' heq
    rw [heq] at hhook
    exact hhook.trans (tame_afClientHook2 _ _)

theorem gatewayCall_forward {k k' : OafState env} {skb skb' : Skb}
    (h : gatewayCall k (.forward skb) = some (k', skb')) :
    k' = afClientHook k skb ∧ skb' = skb ∧ k'.afWorkMode ≠ afModeBypass := by
  unfold gatewayCall at h
  dsimp only at h
  split at h
  · exact absurd h (by simp)
  · rename_i hmode
    obtain ⟨rfl, rfl⟩ := Prod.mk.inj (Option.some.inj h)
    exact ⟨rfl, rfl, hmode⟩

/-- Only a forwarded packet calls the gateway handler. -/
theorem gatewayCall_some {k k' : OafState env} {ev : Event} {skb : Skb}
    (h : gatewayCall k ev = some (k', skb)) :
    ev = .forward skb ∧ k' = afClientHook k skb := by
  cases ev with
  | forward skb' =>
      obtain ⟨hk, rfl, -⟩ := gatewayCall_forward h
      exact ⟨rfl, hk⟩
  | _ => exact absurd h (by simp [gatewayCall])

/-! ## The bypass handler -/

theorem tame_putConn (k : OafState env) (t : ConnTuple) (conn : AfConn) :
    Tame k (k.putConn t conn) := ⟨rfl, fun _ => rfl⟩

theorem tame_bypassFinish (k : OafState env) (mac : Mac) (ignore : Bool) (appId : BitVec 32)
    (drop : Bool) : Tame k (bypassFinish k mac ignore appId drop).1 :=
  tame_recordVisit k mac ignore appId drop

theorem tame_bypassInspect (k : OafState env) (flow : FlowInfo) (mac : Mac) (t : ConnTuple)
    (conn : AfConn) : Tame k (bypassInspect k flow mac t conn).1 := by
  have hurl : ∀ conn' flow', Tame k ((k.putConn t conn').updateClient mac
      (updateUrlVisitingInfo k.timestamp flow')) := by
    intro conn' flow'
    exact (tame_putConn k t conn').trans
      (tame_updateClient _ mac (updateUrlVisitingInfo_view k.timestamp flow'))
  unfold bypassInspect
  dsimp only
  split
  · exact hurl _ _
  · exact (hurl _ _).trans ((tame_putConn _ t _).trans (tame_bypassFinish _ _ _ _ _))

theorem tame_bypassFlow (k : OafState env) (skb : Skb) (flow : FlowInfo) (t : ConnTuple)
    (conn : AfConn) : Tame k (bypassFlow k skb flow t conn).1 := by
  unfold bypassFlow
  split
  · exact Tame.refl k
  · split
    · unfold bypassClassified
      split
      · exact Tame.refl k
      · exact tame_bypassFinish _ _ _ _ _
    · unfold bypassDpi
      split
      · exact Tame.refl k
      · split
        · exact tame_putConn k t _
        · split
          · exact Tame.refl k
          · exact tame_bypassInspect _ _ _ _ _

/-! ## Writes that make or delete a record -/

theorem steady_findAndAddAfClient (k : OafState env) (mac : Mac) (alloc : Bool) :
    Steady k (findAndAddAfClient k mac alloc).1 := by
  refine ⟨⟨?_, ?_⟩, ?_⟩
  · unfold findAndAddAfClient
    split
    · rfl
    · cases alloc <;> rfl
  · intro mac' hb
    unfold clientBlocked at hb ⊢
    rw [findAndAddAfClient_find?] at hb
    by_cases hm : mac' = mac
    · rw [if_pos hm] at hb
      rw [hm]
      cases hfind : k.clients.find? mac with
      | some c => simpa [hfind] using hb
      | none =>
          -- a new record starts unblocked
          cases alloc <;> simp [hfind, newClient] at hb
    · rw [if_neg hm] at hb
      exact hb
  · intro mac' b hb
    unfold clientBlocked at hb ⊢
    rw [findAndAddAfClient_find?]
    obtain ⟨c, hc, hflag⟩ := Option.map_eq_some_iff.mp hb
    by_cases hm : mac' = mac
    · rw [hm] at hc
      simpa [hm, hc] using hflag
    · simpa [hm, hc] using hflag

theorem steady_updateClient (k : OafState env) (mac : Mac) {f : AfClientInfo → AfClientInfo}
    (hf : ∀ c, (f c).periodBlocked = c.periodBlocked) : Steady k (k.updateClient mac f) := by
  have hsame : ∀ mac', clientBlocked (k.updateClient mac f) mac' = clientBlocked k mac' := by
    intro mac'
    unfold clientBlocked OafState.updateClient
    rw [HTable.find?_modify]
    by_cases hm : mac' = mac
    · rw [if_pos hm, Option.map_map]
      congr 1
      funext c
      exact hf c
    · rw [if_neg hm]
  exact ⟨⟨rfl, fun mac' hb => (hsame mac') ▸ hb⟩, fun mac' b hb => (hsame mac').trans hb⟩

theorem steady_afConnFindAndAdd {k k' : OafState env} {t : ConnTuple} {alloc : Alloc}
    {conn : AfConn} (h : afConnFindAndAdd k t alloc = some (k', conn)) : Steady k k' := by
  obtain ⟨-, hk⟩ := afConnFindAndAdd_some h
  rw [hk]
  exact ⟨⟨rfl, fun _ hb => hb⟩, fun _ _ hb => hb⟩

theorem touchSender_blocked (skb : Skb) (c : AfClientInfo) :
    (touchSender skb c).periodBlocked = c.periodBlocked := by
  unfold touchSender
  cases skb.protocol <;> rfl

theorem steady_afClientHook (k : OafState env) (skb : Skb) : Steady k (afClientHook k skb) := by
  unfold afClientHook
  have hadd := steady_findAndAddAfClient k skb.hSource skb.alloc.client
  cases skb.ct with
  | none => exact Steady.refl k
  | some ct =>
      simp only
      split
      · exact Steady.refl k
      · split
        · exact Steady.refl k
        · split
          · rename_i k' heq
            rw [heq] at hadd
            exact hadd.trans (steady_updateClient k' _ (touchSender_blocked skb))
          · rename_i k' heq
            rw [heq] at hadd
            exact hadd

theorem steady_bypass (k : OafState env) (skb : Skb) :
    Steady k (appFilterHookBypassHandle k skb).1 := by
  unfold appFilterHookBypassHandle
  have hadd := steady_findAndAddAfClient k skb.hSource skb.alloc.client
  cases bypassEntry k skb with
  | none => exact Steady.refl k
  | some flow =>
      dsimp only
      split
      · rename_i k' heq
        rw [heq] at hadd
        exact hadd
      · rename_i k' heq
        rw [heq] at hadd
        have htouch : Steady k (k'.updateClient skb.hSource (fun c => { c with
            updateJiffies := k'.jiffiesWord
            ip := if flow.src ≠ 0 then flow.src else c.ip })) :=
          hadd.trans (steady_updateClient k' _ (fun _ => rfl))
        split
        · exact htouch
        · rename_i k'' conn hconn
          exact ((htouch.trans (steady_afConnFindAndAdd hconn)).trans
            (tame_putConn _ _ _).steady).trans (tame_bypassFlow _ _ _ _ _).steady

/-- An event that is a packet on one of the two hooks. -/
def Event.isPacket : Event → Bool
  | .forward _ => true
  | .preRouting _ => true
  | _ => false

theorem steady_step_packet {k : OafState env} {ev : Event} (h : ev.isPacket = true) :
    Steady k (step k ev) := by
  cases ev with
  | forward skb => exact (steady_afClientHook k skb).trans (tame_forwardHooks k skb).steady
  | preRouting skb =>
      show Steady k (appFilterByPassHook k skb).1
      unfold appFilterByPassHook
      split
      · exact Steady.refl k
      · exact steady_bypass k skb
  | _ => exact absurd h (by simp [Event.isPacket])

theorem quiet_checkClientExpire (k : OafState env) : Quiet k (checkClientExpire k) := by
  unfold checkClientExpire
  split
  · refine ⟨rfl, ?_⟩
    intro mac' hb
    unfold clientBlocked at hb
    simp only [HTable.find?_erase] at hb
    split at hb
    · exact absurd hb (by simp)
    · exact hb
  · exact Quiet.refl k

/-! ## The timer and the clock -/

theorem quiet_oafTimerFunc (k : OafState env) : Quiet k (oafTimerFunc k) := by
  have hexp : Quiet k (if k.oafTimerCount % 60 = 0 then checkClientExpire k else k) := by
    split
    · exact quiet_checkClientExpire k
    · exact Quiet.refl k
  unfold oafTimerFunc
  exact hexp.trans ⟨rfl, fun _ h => h⟩

/-- An event that is only time: the clock moves, or the timer fires. -/
def Event.isTime : Event → Bool
  | .pass _ _ => true
  | .timer => true
  | _ => false

theorem quiet_step_time {k : OafState env} {ev : Event} (h : ev.isTime = true) :
    Quiet k (step k ev) := by
  cases ev with
  | pass ticks seconds => exact ⟨rfl, fun _ hb => hb⟩
  | timer => exact quiet_oafTimerFunc k
  | _ => exact absurd h (by simp [Event.isTime])

theorem quiet_run_time {es : List Event} (h : ∀ ev ∈ es, ev.isTime = true) (k : OafState env) :
    Quiet k (run step k es) := by
  induction es generalizing k with
  | nil => exact Quiet.refl k
  | cons ev es ih =>
      have hhead : Quiet k (step k ev) := quiet_step_time (h ev List.mem_cons_self)
      exact hhead.trans (ih (fun e he => h e (List.mem_cons_of_mem _ he)) _)

/-! ## Configuration messages -/

/-- Where a configuration message writes: the app table, the two device lists
and the stamp. -/
def RulesOnly (k k' : OafState env) : Prop :=
  k' = { k with
    gUpdateJiffies := k'.gUpdateJiffies
    gAppIdArray := k'.gAppIdArray
    afMacHtable := k'.afMacHtable
    afWhitelistMacHtable := k'.afWhitelistMacHtable }

theorem rulesOnly_afChangeAppStatus (k : OafState env) (data : Option ConfigData)
    (status : Bool) : RulesOnly k (afChangeAppStatus k data status).1 := by
  have hfold : ∀ (apps : List Int) (k : OafState env),
      RulesOnly k (apps.foldl (fun k a => setAppStatus k a status) k) := by
    intro apps
    induction apps with
    | nil =>
        intro k
        rfl
    | cons a apps ih =>
        intro k
        have htail := ih (setAppStatus k a status)
        unfold RulesOnly at htail ⊢
        rw [List.foldl_cons, htail]
        rfl
  unfold afChangeAppStatus
  split
  · rfl
  · split
    · rfl
    · exact hfold _ k

theorem rulesOnly_afConfigHandle (k : OafState env) (msg : Option ConfigMsg) :
    RulesOnly k (afConfigHandle k msg).1 := by
  unfold afConfigHandle
  split
  · rfl
  · split
    · rfl
    · split
      · rfl
      · rename_i handler hfind
        have hhandler : ∀ data, RulesOnly k (handler k data).1 := by
          intro data
          unfold afFindHandler at hfind
          split_ifs at hfind <;> obtain rfl := Option.some.inj hfind
          · exact rulesOnly_afChangeAppStatus k data true
          · exact rulesOnly_afChangeAppStatus k data false
          · rfl
          · unfold afConfigSetMacList
            split
            · rfl
            · split <;> rfl
          · unfold afConfigSetWhitelistMacList
            split
            · rfl
            · split <;> rfl
        have hdata := hhandler ‹ConfigMsg›.data
        unfold RulesOnly at hdata ⊢
        dsimp only
        rw [hdata]

end OpenAppFilter.Kernel
