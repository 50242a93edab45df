import OpenAppFilter.Kernel.Frame

/-!
# What the handlers decide

For a flow that already carries an app id, the verdict of both handlers is a
function of the switches, the rule, the re-evaluation window and the cached
drop decision: `gateway_drop_iff` and `bypass_drop_iff`. The results about
runs use these and never unfold a handler.
-/

namespace OpenAppFilter.Kernel

open Base

variable {env : Env}

/-! ## The mark -/

/-- The mark carries an app id in 1001..31999. -/
def Classified (mark : BitVec 32) : Prop :=
  1000#32 < markAppId mark ∧ markAppId mark < 32000#32

instance (mark : BitVec 32) : Decidable (Classified mark) :=
  inferInstanceAs (Decidable (_ ∧ _))

theorem Classified.ne_zero {mark : BitVec 32} (h : Classified mark) : mark ≠ 0 := by
  rintro rfl
  exact absurd h.1 (by decide)

theorem Classified.ne_quic {mark : BitVec 32} (h : Classified mark) :
    markAppId mark ≠ appidQuic := by
  intro hq
  have hlt := h.1
  rw [hq] at hlt
  exact absurd hlt (by decide)

@[simp] theorem markAppId_setMarkDrop (mark : BitVec 32) (drop : Bool) :
    markAppId (setMarkDrop mark drop) = markAppId mark := by
  unfold markAppId setMarkDrop nfDropBit
  cases drop with
  | true =>
      rw [if_pos rfl, BitVec.and_or_distrib_right]
      simp
  | false =>
      rw [if_neg Bool.false_ne_true, BitVec.and_assoc]
      rfl

@[simp] theorem markDrop_setMarkDrop (mark : BitVec 32) (drop : Bool) :
    markDrop (setMarkDrop mark drop) = drop := by
  unfold markDrop setMarkDrop nfDropBit
  cases drop with
  | true =>
      rw [if_pos rfl, BitVec.and_or_distrib_right]
      have hself : 2147483648#32 &&& 2147483648#32 = 2147483648#32 := by decide
      rw [hself]
      have habs : mark &&& 2147483648#32 ||| 2147483648#32 = 2147483648#32 := by
        ext i hi
        simp only [BitVec.getElem_or, BitVec.getElem_and]
        cases (2147483648#32)[i] <;> simp
      simp [habs]
  | false =>
      rw [if_neg Bool.false_ne_true, BitVec.and_assoc]
      have hzero : ~~~2147483648#32 &&& 2147483648#32 = 0#32 := by decide
      rw [hzero]
      simp

/-! ## Re-evaluation -/

/-- The drop decision after re-evaluation: the rule's while the window is
open, the cached one otherwise. -/
def newAction (k : OafState env) (action : Bool) (appId : BitVec 32) (client : Mac) : Bool :=
  if actionWindowOpen k then matchAppFilterRule k appId.toInt client else action

/-- Flipping the cached decision exactly when `check_app_action_changed` says
so gives the re-evaluated one. -/
theorem flip_checkAppActionChanged (k : OafState env) (action : Bool) (appId : BitVec 32)
    (client : Mac) :
    (if checkAppActionChanged k action appId client then !action else action) =
      newAction k action appId client := by
  unfold checkAppActionChanged newAction
  cases actionWindowOpen k with
  | false => simp
  | true =>
      cases matchAppFilterRule k appId.toInt client <;> cases action <;> rfl

/-! ## Frame -/

@[simp] theorem updateClient_enable (k : OafState env) (mac : Mac)
    (f : AfClientInfo → AfClientInfo) :
    (k.updateClient mac f).gOafFilterEnable = k.gOafFilterEnable := rfl

@[simp] theorem updateClient_mode (k : OafState env) (mac : Mac)
    (f : AfClientInfo → AfClientInfo) :
    (k.updateClient mac f).gAppFilterMode = k.gAppFilterMode := rfl

@[simp] theorem updateClient_split (k : OafState env) (mac : Mac)
    (f : AfClientInfo → AfClientInfo) : (k.updateClient mac f).gSplitTime = k.gSplitTime := rfl

@[simp] theorem setMark_enable (k : OafState env) (ct : Nat) (mark : BitVec 32) :
    (k.setMark ct mark).gOafFilterEnable = k.gOafFilterEnable := rfl

@[simp] theorem setMark_ctMark (k : OafState env) (ct : Nat) (mark : BitVec 32) :
    (k.setMark ct mark).ctMark ct = mark := if_pos rfl

@[simp] theorem newAction_updateClient (k : OafState env) (mac : Mac)
    (f : AfClientInfo → AfClientInfo) (action : Bool) (appId : BitVec 32) (client : Mac) :
    newAction (k.updateClient mac f) action appId client = newAction k action appId client :=
  rfl

@[simp] theorem recordVisit_ctMark (k : OafState env) (mac : Mac) (ignore : Bool)
    (appId : BitVec 32) (drop : Bool) :
    (recordVisit k mac ignore appId drop).ctMark = k.ctMark := by
  unfold recordVisit
  split <;> rfl

@[simp] theorem recordVisit_enable (k : OafState env) (mac : Mac) (ignore : Bool)
    (appId : BitVec 32) (drop : Bool) :
    (recordVisit k mac ignore appId drop).gOafFilterEnable = k.gOafFilterEnable := by
  unfold recordVisit
  split <;> rfl

/-! ## Gateway -/

/-- The classified branch drops exactly when filtering is on and the
re-evaluated decision is to drop. -/
theorem gatewayClassified_drop_iff (k : OafState env) (mac : Mac) (ct : Nat) :
    (gatewayClassified k mac ct).2 = .drop ↔
      k.gOafFilterEnable ≠ 0 ∧
        newAction k (markDrop (k.ctMark ct)) (markAppId (k.ctMark ct)) mac = true := by
  rw [← flip_checkAppActionChanged]
  cases hchg : checkAppActionChanged k (markDrop (k.ctMark ct)) (markAppId (k.ctMark ct)) mac with
  | false => simp [gatewayClassified, hchg]
  | true => simp [gatewayClassified, hchg]

/-- The classified branch writes the re-evaluated decision back into the mark
and keeps its app id. -/
theorem gatewayClassified_mark (k : OafState env) (mac : Mac) (ct : Nat) :
    markAppId ((gatewayClassified k mac ct).1.ctMark ct) = markAppId (k.ctMark ct) ∧
      markDrop ((gatewayClassified k mac ct).1.ctMark ct) =
        newAction k (markDrop (k.ctMark ct)) (markAppId (k.ctMark ct)) mac := by
  rw [← flip_checkAppActionChanged]
  cases hchg : checkAppActionChanged k (markDrop (k.ctMark ct)) (markAppId (k.ctMark ct)) mac with
  | false => simp [gatewayClassified, hchg]
  | true => simp [gatewayClassified, hchg]

/-- After the split gate, a classified flow is decided by the all-apps
shortcut on the cached bit or by the re-evaluated decision. -/
theorem gatewayFlow_drop_iff {k : OafState env} {skb : Skb} {e : GatewayEntry} {splitSkip : Bool}
    (hc : Classified (k.ctMark e.ct.id)) :
    (gatewayFlow k skb e splitSkip).2 = .drop ↔
      k.gOafFilterEnable ≠ 0 ∧
        ((k.gAppFilterMode ≠ 0 ∧ markDrop (k.ctMark e.ct.id) = true) ∨
          newAction k (markDrop (k.ctMark e.ct.id)) (markAppId (k.ctMark e.ct.id)) e.mac
            = true) := by
  unfold gatewayFlow
  rw [if_neg hc.ne_zero, if_neg (fun h => hc.ne_quic h.2.2.1)]
  by_cases hall : k.gOafFilterEnable ≠ 0 ∧ k.gAppFilterMode ≠ 0 ∧
      markDrop (k.ctMark e.ct.id) = true
  · rw [if_pos hall]
    exact ⟨fun _ => ⟨hall.1, Or.inl hall.2⟩, fun _ => rfl⟩
  · rw [if_neg hall, if_pos (show _ ∧ _ from hc), gatewayClassified_drop_iff]
    refine ⟨fun h => ⟨h.1, Or.inr h.2⟩, ?_⟩
    rintro ⟨hen, hmode | hnew⟩
    · exact absurd ⟨hen, hmode⟩ hall
    · exact ⟨hen, hnew⟩

/-- The verdict of the gateway handler for a flow whose mark carries an app
id: filtering is on, the split gate does not let the device through, and one
of the three drop exits is taken. -/
theorem gateway_drop_iff {k : OafState env} {skb : Skb} {e : GatewayEntry}
    (he : gatewayEntry k skb = some e) (hc : Classified (k.ctMark e.ct.id)) :
    (appFilterHookGatewayHandle k skb).2 = .drop ↔
      k.gOafFilterEnable ≠ 0 ∧ (k.gSplitTime = 0 ∨ e.client.periodBlocked = true) ∧
        ((k.gSplitTime ≠ 0 ∧ k.gAppFilterMode = 1) ∨
          (k.gAppFilterMode ≠ 0 ∧ markDrop (k.ctMark e.ct.id) = true) ∨
          newAction k (markDrop (k.ctMark e.ct.id)) (markAppId (k.ctMark e.ct.id)) e.mac
            = true) := by
  -- the record update in front of the gate touches none of what the verdict reads
  have hflow : ∀ f b, (gatewayFlow (k.updateClient e.mac f) skb e b).2 = .drop ↔
      k.gOafFilterEnable ≠ 0 ∧
        ((k.gAppFilterMode ≠ 0 ∧ markDrop (k.ctMark e.ct.id) = true) ∨
          newAction k (markDrop (k.ctMark e.ct.id)) (markAppId (k.ctMark e.ct.id)) e.mac
            = true) :=
    fun f b => gatewayFlow_drop_iff (k := k.updateClient e.mac f) hc
  unfold appFilterHookGatewayHandle
  simp only [he, updateClient_split, updateClient_enable, updateClient_mode]
  by_cases hen : k.gOafFilterEnable = 0
  · simp [hen, hflow]
  · by_cases hsplit : k.gSplitTime = 0
    · simp [hen, hsplit, hflow]
    · cases hb : e.client.periodBlocked with
      | false => simp [hen, hsplit]
      | true =>
          by_cases hmode : k.gAppFilterMode = 1
          · simp [hen, hsplit, hmode]
          · simp [hen, hsplit, hmode, hflow]

/-- With split mode, filtering and all-apps mode on, the flag of the record is
the verdict, whatever the flow. -/
theorem gateway_split_drop_iff {k : OafState env} {skb : Skb} {e : GatewayEntry}
    (he : gatewayEntry k skb = some e) (hen : k.gOafFilterEnable ≠ 0) (hsplit : k.gSplitTime ≠ 0)
    (hmode : k.gAppFilterMode = 1) :
    (appFilterHookGatewayHandle k skb).2 = .drop ↔ e.client.periodBlocked = true := by
  unfold appFilterHookGatewayHandle
  simp only [he, updateClient_split, updateClient_enable, updateClient_mode]
  cases hb : e.client.periodBlocked with
  | false => simp [hen, hsplit]
  | true => simp [hen, hsplit, hmode]

/-- After the split gate, the mark of a classified flow holds the re-evaluated
decision, or is untouched when the all-apps shortcut was taken. -/
theorem gatewayFlow_mark (k : OafState env) (skb : Skb) (e : GatewayEntry) (splitSkip : Bool)
    (hc : Classified (k.ctMark e.ct.id)) :
    markAppId ((gatewayFlow k skb e splitSkip).1.ctMark e.ct.id) =
        markAppId (k.ctMark e.ct.id) ∧
      markDrop ((gatewayFlow k skb e splitSkip).1.ctMark e.ct.id) =
        if k.gOafFilterEnable ≠ 0 ∧ k.gAppFilterMode ≠ 0 ∧
            markDrop (k.ctMark e.ct.id) = true then true
        else newAction k (markDrop (k.ctMark e.ct.id)) (markAppId (k.ctMark e.ct.id)) e.mac := by
  unfold gatewayFlow
  rw [if_neg hc.ne_zero, if_neg (fun h => hc.ne_quic h.2.2.1)]
  by_cases hall : k.gOafFilterEnable ≠ 0 ∧ k.gAppFilterMode ≠ 0 ∧
      markDrop (k.ctMark e.ct.id) = true
  · rw [if_pos hall, if_pos hall]
    exact ⟨rfl, hall.2.2⟩
  · rw [if_neg hall, if_neg hall, if_pos (show _ ∧ _ from hc)]
    exact gatewayClassified_mark k e.mac e.ct.id

/-- The split gate lets the packet through to the mark. -/
def PassesGate (k : OafState env) (e : GatewayEntry) : Prop :=
  k.gSplitTime = 0 ∨ (e.client.periodBlocked = true ∧ k.gAppFilterMode ≠ 1)

/-- The mark of a classified flow after the handler, with filtering on. -/
theorem gateway_mark {k : OafState env} {skb : Skb} {e : GatewayEntry}
    (he : gatewayEntry k skb = some e) (hc : Classified (k.ctMark e.ct.id))
    (hen : k.gOafFilterEnable ≠ 0) :
    markAppId ((appFilterHookGatewayHandle k skb).1.ctMark e.ct.id) =
        markAppId (k.ctMark e.ct.id) ∧
      (PassesGate k e → markDrop ((appFilterHookGatewayHandle k skb).1.ctMark e.ct.id) =
        if k.gAppFilterMode ≠ 0 ∧ markDrop (k.ctMark e.ct.id) = true then true
        else newAction k (markDrop (k.ctMark e.ct.id)) (markAppId (k.ctMark e.ct.id)) e.mac) := by
  have hflow := fun f b => gatewayFlow_mark (k.updateClient e.mac f) skb e b hc
  have hmark : ∀ f, (k.updateClient e.mac f).ctMark = k.ctMark := fun _ => rfl
  simp only [updateClient_enable, updateClient_mode, newAction_updateClient, hmark] at hflow
  unfold appFilterHookGatewayHandle PassesGate
  simp only [he, updateClient_split, updateClient_enable, updateClient_mode]
  by_cases hsplit : k.gSplitTime = 0
  · simpa [hen, hsplit] using hflow _ _
  · cases hb : e.client.periodBlocked with
    | false => simp [hen, hsplit, hmark]
    | true =>
        by_cases hmode : k.gAppFilterMode = 1
        · simp [hen, hsplit, hmode, hmark]
        · simpa [hen, hsplit, hmode] using hflow _ _

/-- What the entry checks return is a record of the table. -/
theorem gatewayEntry_blocked {k : OafState env} {skb : Skb} {e : GatewayEntry}
    (he : gatewayEntry k skb = some e) :
    clientBlocked k e.mac = some e.client.periodBlocked := by
  have hclient : ∀ {flow : FlowInfo} {mac : Mac} {c : AfClientInfo},
      gatewayClient k flow = some (mac, c) → k.clients.find? mac = some c := by
    intro flow mac c h
    unfold gatewayClient at h
    split at h
    · exact (HTable.first?_some h).1
    · split at h
      · exact (HTable.first?_some h).1
      · exact absurd h (by simp)
  unfold gatewayEntry at he
  split at he
  · exact absurd he (by simp)
  · split at he
    · split at he
      · exact absurd he (by simp)
      · split at he
        · rename_i mac c hlook
          obtain rfl := Option.some.inj he
          unfold clientBlocked
          rw [hclient hlook]
          rfl
        · exact absurd he (by simp)
    · exact absurd he (by simp)

/-! ## Bypass -/

/-- The connection the bypass handler works on, as it is before the packet: the
stored one or a fresh one. `none` when the handler gives up because the client
or the connection cannot be allocated. -/
def bypassConnOf (k : OafState env) (skb : Skb) (flow : FlowInfo) : Option AfConn :=
  if (k.clients.find? skb.hSource).isNone ∧ skb.alloc.client = false then none
  else
    match k.conns.find? flow.tuple with
    | some conn => some conn
    | none => if skb.alloc.conn then some (newConn k skb.alloc.staleIgnore) else none

/-- A connection with the packet counted in. -/
def AfConn.touch (conn : AfConn) (now : Nat) : AfConn :=
  { conn with lastJiffies := now, totalPkts := conn.totalPkts + 1 }

theorem findAndAddAfClient_conns (k : OafState env) (mac : Mac) (alloc : Bool) :
    (findAndAddAfClient k mac alloc).1.conns = k.conns ∧
      (findAndAddAfClient k mac alloc).1.jiffies = k.jiffies := by
  unfold findAndAddAfClient
  split
  · exact ⟨rfl, rfl⟩
  · cases alloc <;> exact ⟨rfl, rfl⟩

/-- `af_conn_find_and_add` returns the stored connection or the fresh one. -/
theorem afConnFindAndAdd_map (k : OafState env) (t : ConnTuple) (alloc : Alloc) :
    (afConnFindAndAdd k t alloc).map Prod.snd =
      match k.conns.find? t with
      | some conn => some conn
      | none => if alloc.conn then some (newConn k alloc.staleIgnore) else none := by
  unfold afConnFindAndAdd
  split
  · rename_i c hfind
    rw [hfind]
    rfl
  · rename_i hfind
    cases halloc : alloc.conn with
    | false => simp [hfind]
    | true => simp [hfind]

/-- Past the entry checks the bypass handler either gives up or runs on the
connection of the flow, in a state with the same configuration. -/
theorem bypass_eq {k : OafState env} {skb : Skb} {flow : FlowInfo}
    (he : bypassEntry k skb = some flow) :
    (bypassConnOf k skb flow = none → (appFilterHookBypassHandle k skb).2 = .accept) ∧
      ∀ conn, bypassConnOf k skb flow = some conn →
        ∃ k', Quiet k k' ∧ k'.jiffies = k.jiffies ∧
          k'.conns.find? flow.tuple = some (conn.touch k.jiffiesWord) ∧
          appFilterHookBypassHandle k skb =
            bypassFlow k' skb flow flow.tuple (conn.touch k.jiffiesWord) := by
  have hquiet := (steady_findAndAddAfClient k skb.hSource skb.alloc.client).toQuiet
  have hok := findAndAddAfClient_snd k skb.hSource skb.alloc.client
  obtain ⟨hconns, hjiff⟩ := findAndAddAfClient_conns k skb.hSource skb.alloc.client
  unfold appFilterHookBypassHandle bypassConnOf
  rw [he]
  cases heq : findAndAddAfClient k skb.hSource skb.alloc.client with
  | mk k₀ ok =>
  cases ok with
  | false =>
    -- no client record
    rw [heq] at hok
    have hno : (k.clients.find? skb.hSource).isNone ∧ skb.alloc.client = false := by
      simpa using hok.symm
    rw [if_pos hno]
    exact ⟨fun _ => rfl, fun conn h => absurd h (by simp)⟩
  | true =>
    -- the client record is there: look at the connection
    rw [heq] at hok hquiet hconns hjiff
    have hyes : ¬ ((k.clients.find? skb.hSource).isNone ∧ skb.alloc.client = false) := by
      rintro ⟨hnone, halloc⟩
      rw [Option.isNone_iff_eq_none] at hnone
      rw [hnone, halloc] at hok
      exact Bool.false_ne_true hok.symm
    rw [if_neg hyes]
    dsimp only
    generalize hk₁ : k₀.updateClient skb.hSource _ = k₁
    have hq₁ : Quiet k k₁ := by
      rw [← hk₁]
      refine hquiet.trans (Steady.toQuiet ?_)
      exact steady_updateClient k₀ _ (fun _ => rfl)
    have hc₁ : k₁.conns = k.conns := by
      rw [← hk₁]
      exact hconns
    have hj₁ : k₁.jiffies = k.jiffies := by
      rw [← hk₁]
      exact hjiff
    have hnew : newConn k₁ skb.alloc.staleIgnore = newConn k skb.alloc.staleIgnore := by
      simp only [newConn, OafState.jiffiesWord, hj₁]
    have hmap := afConnFindAndAdd_map k₁ flow.tuple skb.alloc
    rw [hc₁, hnew] at hmap
    rw [← hmap]
    cases hadd : afConnFindAndAdd k₁ flow.tuple skb.alloc with
    | none => exact ⟨fun _ => rfl, fun conn h => absurd h (by simp)⟩
    | some r =>
        obtain ⟨k₂, conn₂⟩ := r
        obtain ⟨hfind, hk₂⟩ := afConnFindAndAdd_some hadd
        refine ⟨fun h => absurd h (by simp), ?_⟩
        intro conn hconn
        obtain rfl : conn₂ = conn := by simpa using hconn
        have hj₂ : k₂.jiffies = k₁.jiffies := by rw [hk₂]
        have hword : k₂.jiffiesWord = k.jiffiesWord := by
          simp only [OafState.jiffiesWord, hj₂, hj₁]
        refine ⟨k₂.putConn flow.tuple (conn₂.touch k.jiffiesWord),
          (hq₁.trans (steady_afConnFindAndAdd hadd).toQuiet).trans (tame_putConn _ _ _).quiet,
          ?_, ?_, ?_⟩
        · exact hj₂.trans hj₁
        · show (k₂.conns.modify flow.tuple (fun _ => conn₂.touch k.jiffiesWord)).find?
            flow.tuple = _
          rw [HTable.find?_modify, if_pos rfl, hfind]
          rfl
        · simp only [AfConn.touch, hword]

/-- A connection carries an app id in 1001..31999. -/
def AfConn.classified (conn : AfConn) : Prop := 1000#32 < conn.appId ∧ conn.appId < 32000#32

theorem AfConn.classified.ne_zero {conn : AfConn} (h : conn.classified) : conn.appId ≠ 0 := by
  intro h0
  have hlt := h.1
  rw [h0] at hlt
  exact absurd hlt (by decide)

theorem AfConn.classified.ne_quic {conn : AfConn} (h : conn.classified) :
    conn.appId ≠ appidQuic := by
  intro hq
  have hlt := h.1
  rw [hq] at hlt
  exact absurd hlt (by decide)

theorem newAction_quiet {k k' : OafState env} (h : Quiet k k') (hj : k'.jiffies = k.jiffies)
    (action : Bool) (appId : BitVec 32) (client : Mac) :
    newAction k' action appId client = newAction k action appId client := by
  unfold newAction actionWindowOpen
  rw [h.rule, h.update, hj]

/-- The verdict of the bypass handler for a classified connection. -/
theorem bypass_drop_iff {k : OafState env} {skb : Skb} {flow : FlowInfo} {conn : AfConn}
    (he : bypassEntry k skb = some flow) (hconn : bypassConnOf k skb flow = some conn)
    (hc : conn.classified) :
    (appFilterHookBypassHandle k skb).2 = .drop ↔
      (conn.drop = true ∧ k.gAppFilterMode ≠ 0) ∨
        (newAction k conn.drop conn.appId skb.hSource = true ∧ k.gOafFilterEnable ≠ 0) := by
  obtain ⟨k', hq, hj, -, heq⟩ := (bypass_eq he).2 conn hconn
  rw [heq, ← hq.mode, ← hq.enable, ← newAction_quiet hq hj]
  unfold bypassFlow AfConn.touch
  by_cases hall : conn.drop = true ∧ k'.gAppFilterMode ≠ 0
  · rw [if_pos hall]
    exact ⟨fun _ => Or.inl hall, fun _ => rfl⟩
  · rw [if_neg hall, if_pos hc.ne_zero]
    unfold bypassClassified bypassFinish
    rw [if_neg (fun h => hc.ne_quic h.2.2)]
    simp only [flip_checkAppActionChanged, recordVisit_enable, hall, false_or]
    split
    · rename_i hdrop
      exact ⟨fun _ => hdrop, fun _ => rfl⟩
    · rename_i hdrop
      exact ⟨fun h => absurd h (by decide), fun h => absurd h hdrop⟩

end OpenAppFilter.Kernel
