import OpenAppFilter.Kernel.Frame

/-!
# Whose record a decision is made for

Client records are kept by mac and looked up by address. `af_client_hook`
writes a packet's source address into the sender's record and leaves the same
address standing in any other record, so after an address has moved from one
device to another two records hold it until the older one expires, and the
lookup returns whichever stands first in the table.

* One packet: the lookup returns the sender's record iff no record in front of
  it in the table holds the address.
* Whole runs: as long as no device takes an address that a live record of
  another device still holds, an address belongs to at most one record, the
  handler always finds the sender, and downstream bytes are charged to the
  device that last sent from the address.
-/

namespace OpenAppFilter.Theorems

open Base Kernel

variable {env : Env}

/-! ## One packet -/

/-- The gateway handler looks up the sender of an IPv4 packet by its address. -/
structure LooksUpSender (k : OafState env) (skb : Skb) (flow : FlowInfo) : Prop where
  up : packetDirUp k skb = true
  ipv4 : skb.protocol = .ip
  parsed : parseFlowProto skb = some flow
  tracked : ∃ ct, skb.ct = some ct ∧ ¬ (flow.l4Protocol = ipprotoTcp ∧ ct.confirmed = false)
  src : flow.src ≠ 0

/-- Every such lookup of the event returns the record of the packet's source
mac. -/
def AttributesSender (k : OafState env) (ev : Event) : Prop :=
  ∀ k' skb flow, gatewayCall k ev = some (k', skb) → LooksUpSender k' skb flow →
    ∃ c, gatewayClient k' flow = some (skb.hSource, c)

/-- The sender has a record, and no record in front of it holds the address. -/
def SenderFirst (k : OafState env) (skb : Skb) (flow : FlowInfo) : Prop :=
  (k.clients.find? skb.hSource).isSome = true ∧
    ∀ e ∈ k.clients.entries.takeWhile (fun e => decide (e.1 ≠ skb.hSource)),
      e.2.ip ≠ flow.src

theorem parseFlowProto_src {skb : Skb} {flow : FlowInfo} (hip : skb.protocol = .ip)
    (h : parseFlowProto skb = some flow) : flow.src = ipSaddr skb := by
  unfold parseFlowProto at h
  simp only [hip] at h
  split at h
  · obtain rfl := Option.some.inj h
    rfl
  · split at h
    · obtain rfl := Option.some.inj h
      rfl
    · exact absurd h (by simp)

/-- A packet whose sender is looked up is one `af_client_hook` kept a record
for. -/
theorem LooksUpSender.fromClient {k : OafState env} {skb : Skb} {flow : FlowInfo}
    (h : LooksUpSender (afClientHook k skb) skb flow) : fromClient k skb = true := by
  have hup : packetDirUp k skb = true := by
    rw [← (steady_afClientHook k skb).packetDirUp skb]
    exact h.up
  obtain ⟨ct, hct, -⟩ := h.tracked
  simp [Kernel.fromClient, hct, h.ipv4, hup]

/-- `af_client_hook` has put the packet's source address into the sender's
record by the time the handler looks it up. -/
theorem sender_holds_source {k : OafState env} {skb : Skb} {flow : FlowInfo}
    (h : LooksUpSender (afClientHook k skb) skb flow) {c : AfClientInfo}
    (hc : (afClientHook k skb).clients.find? skb.hSource = some c) : c.ip = flow.src := by
  rw [afClientHook_find?, if_pos ⟨h.fromClient, rfl⟩] at hc
  obtain ⟨c₀, -, rfl⟩ := Option.map_eq_some_iff.mp hc
  rw [parseFlowProto_src h.ipv4 h.parsed]
  simp [touchSender, h.ipv4]

/-- One call: the lookup returns the sender iff the sender's record comes
first. -/
theorem attributes_iff_senderFirst {k : OafState env} {skb : Skb} {flow : FlowInfo}
    (h : LooksUpSender (afClientHook k skb) skb flow) :
    (∃ c, gatewayClient (afClientHook k skb) flow = some (skb.hSource, c)) ↔
      SenderFirst (afClientHook k skb) skb flow := by
  unfold gatewayClient findAfClientByIp SenderFirst
  rw [if_pos h.src]
  rw [HTable.first?_eq_key_iff]
  · simp only [decide_eq_false_iff_not]
  · intro c hc
    exact decide_eq_true (sender_holds_source h hc)

/-! ## Whole runs -/

/-- The address and the sender of an upstream IPv4 packet. -/
def sentBy (k : OafState env) : Event → Option (Ipv4 × Mac)
  | .forward skb =>
      if fromClient k skb = true ∧ skb.protocol = .ip then some (ipSaddr skb, skb.hSource)
      else none
  | _ => none

/-- A step that also remembers which device last sent from each address. -/
def stepSent (s : OafState env × (Ipv4 → Option Mac)) (ev : Event) :
    OafState env × (Ipv4 → Option Mac) :=
  (step s.1 ev,
    match sentBy s.1 ev with
    | some (ip, mac) => fun a => if a = ip then some mac else s.2 a
    | none => s.2)

/-- The state after `insmod`, before any packet. -/
def bootSent (env : Env) (jiffies : Nat) : OafState env × (Ipv4 → Option Mac) :=
  (boot env jiffies, fun _ => none)

/-- The event is not a packet of bypass mode, and when it is an upstream packet
its address is held by no live record of another device. -/
def NoTakeover (s : OafState env × (Ipv4 → Option Mac)) (ev : Event) : Prop :=
  match ev with
  | .preRouting _ => False
  | ev =>
      match sentBy s.1 ev with
      | some (ip, mac) => ip ≠ 0 → ∀ e ∈ s.1.clients.entries, e.2.ip = ip → e.1 = mac
      | none => True

/-- The record `af_client_hook2` charges for a downstream IPv4 packet. -/
def charged (k : OafState env) (skb : Skb) : Option (Mac × AfClientInfo) :=
  match appFilterHook (afClientHook k skb) skb with
  | (k', .accept) =>
      if skb.ct.isSome = true ∧ packetDirUp k' skb = false ∧ skb.protocol = .ip then
        receiver k' skb
      else none
  | (_, .drop) => none

/-- Whatever the handler finds for a packet is the sender's record, and
downstream bytes go to the device that last sent from the address. -/
def LookupsRight (s : OafState env × (Ipv4 → Option Mac)) (ev : Event) : Prop :=
  (∀ k' skb flow mac c, gatewayCall s.1 ev = some (k', skb) → LooksUpSender k' skb flow →
    gatewayClient k' flow = some (mac, c) → mac = skb.hSource) ∧
  (∀ skb mac c, ev = .forward skb → charged s.1 skb = some (mac, c) → ipDaddr skb ≠ 0 →
    s.2 (ipDaddr skb) = some mac)

/-- The invariant: a record's address was last used by its own device. So no
two records hold the same address. -/
def OwnsAddress (s : OafState env × (Ipv4 → Option Mac)) : Prop :=
  ∀ mac c, s.1.clients.find? mac = some c → c.ip ≠ 0 → s.2 c.ip = some mac

/-- `k'` has no record that `k` does not have with the same address. -/
def KeepsAddresses (k k' : OafState env) : Prop :=
  ∀ mac c', k'.clients.find? mac = some c' → ∃ c, k.clients.find? mac = some c ∧ c.ip = c'.ip

theorem keeps_of_clients_eq {k k' : OafState env} (h : k'.clients = k.clients) :
    KeepsAddresses k k' := by
  intro mac c' hc
  rw [h] at hc
  exact ⟨c', hc, rfl⟩

theorem keeps_of_view {k k' : OafState env} (h : ∀ mac, clientView k' mac = clientView k mac) :
    KeepsAddresses k k' := by
  intro mac c' hc
  have hv := h mac
  unfold clientView at hv
  rw [hc] at hv
  obtain ⟨c, hfind, heq⟩ := Option.map_eq_some_iff.mp hv.symm
  exact ⟨c, hfind, (Prod.mk.inj heq).1⟩

theorem afConfigHandle_clients (k : OafState env) (msg : Option ConfigMsg) :
    (afConfigHandle k msg).1.clients = k.clients := by
  rw [rulesOnly_afConfigHandle k msg]

theorem oafBlockedMacsHandler_keeps (k : OafState env) (buffer : List Char) :
    KeepsAddresses k (oafBlockedMacsHandler k buffer).1 := by
  rcases oafBlockedMacsHandler_cases k buffer with h | h | ⟨mac, b, h⟩
  · rw [h]
    exact keeps_of_clients_eq rfl
  · rw [h]
    intro mac c' hc
    unfold unblockAll at hc
    rw [HTable.find?_mapVals] at hc
    obtain ⟨c, hfind, rfl⟩ := Option.map_eq_some_iff.mp hc
    exact ⟨c, hfind, rfl⟩
  · rw [h]
    intro mac' c' hc
    unfold setBlocked OafState.updateClient at hc
    rw [HTable.find?_modify] at hc
    by_cases hm : mac' = mac
    · rw [if_pos hm] at hc
      obtain ⟨c, hfind, rfl⟩ := Option.map_eq_some_iff.mp hc
      exact ⟨c, hfind, rfl⟩
    · rw [if_neg hm] at hc
      exact ⟨c', hc, rfl⟩

theorem oafTimerFunc_keeps (k : OafState env) : KeepsAddresses k (oafTimerFunc k) := by
  intro mac c' hc
  have hexp : (if k.oafTimerCount % 60 = 0 then checkClientExpire k else k).clients.find? mac =
      some c' → k.clients.find? mac = some c' := by
    split
    · unfold checkClientExpire
      split
      · intro hfind
        simp only [HTable.find?_erase] at hfind
        split at hfind
        · exact absurd hfind (by simp)
        · exact hfind
      · exact id
    · exact id
  exact ⟨c', hexp hc, rfl⟩

/-- No event but a packet gives a record a new address. -/
theorem step_keeps {k : OafState env} {ev : Event} (hf : ∀ skb, ev ≠ .forward skb)
    (hp : ∀ skb, ev ≠ .preRouting skb) : KeepsAddresses k (step k ev) := by
  cases ev with
  | config msg => exact keeps_of_clients_eq (afConfigHandle_clients k msg)
  | proc w => cases w <;> exact keeps_of_clients_eq rfl
  | blockedMacs buffer => exact oafBlockedMacsHandler_keeps k buffer
  | addFeature node => exact keeps_of_clients_eq rfl
  | cleanFeature => exact keeps_of_clients_eq rfl
  | pass ticks seconds => exact keeps_of_clients_eq rfl
  | timer => exact oafTimerFunc_keeps k
  | ctMark ct mark => exact keeps_of_clients_eq rfl
  | forward skb => exact absurd rfl (hf skb)
  | preRouting skb => exact absurd rfl (hp skb)

theorem OwnsAddress.keeps {k k' : OafState env} {last : Ipv4 → Option Mac}
    (h : OwnsAddress (k, last)) (hk : KeepsAddresses k k') : OwnsAddress (k', last) := by
  intro mac c' hc hne
  obtain ⟨c, hfind, heq⟩ := hk mac c' hc
  show last c'.ip = some mac
  rw [← heq]
  exact h mac c hfind (by rw [heq]; exact hne)

/-- Through `af_client_hook` the invariant holds with the packet remembered:
the sender's record takes the address, and nobody else had it. -/
theorem OwnsAddress.hook {s : OafState env × (Ipv4 → Option Mac)} {skb : Skb}
    (h : OwnsAddress s) (hfree : NoTakeover s (.forward skb)) :
    OwnsAddress (afClientHook s.1 skb, (stepSent s (.forward skb)).2) := by
  unfold NoTakeover at hfree
  dsimp only at hfree
  intro mac c hc hne
  show (match sentBy s.1 (.forward skb) with
    | some (ip, mac) => fun a => if a = ip then some mac else s.2 a
    | none => s.2) c.ip = some mac
  dsimp only at hc hne
  rw [afClientHook_find?] at hc
  by_cases hsend : fromClient s.1 skb = true ∧ mac = skb.hSource
  · -- the sender's own record
    rw [if_pos hsend] at hc
    obtain ⟨hfrom, rfl⟩ := hsend
    obtain ⟨c₀, hc₀, rfl⟩ := Option.map_eq_some_iff.mp hc
    by_cases hip : skb.protocol = .ip
    · have hsent : sentBy s.1 (.forward skb) = some (ipSaddr skb, skb.hSource) :=
        if_pos ⟨hfrom, hip⟩
      have haddr : (touchSender skb c₀).ip = ipSaddr skb := by simp [touchSender, hip]
      rw [hsent, haddr]
      exact if_pos rfl
    · have hsent : sentBy s.1 (.forward skb) = none := if_neg (fun hs => hip hs.2)
      have haddr : (touchSender skb c₀).ip = c₀.ip := by
        unfold touchSender
        cases hproto : skb.protocol with
        | ip => exact absurd hproto hip
        | _ => rfl
      rw [hsent, haddr]
      rw [haddr] at hne
      cases hold : s.1.clients.find? skb.hSource with
      | some c₁ =>
          rw [hold] at hc₀
          obtain rfl : c₁ = c₀ := by simpa using hc₀
          exact h _ _ hold hne
      | none =>
          -- a new record without an IPv4 address
          rw [hold] at hc₀
          cases halloc : skb.alloc.client with
          | false => simp [halloc] at hc₀
          | true =>
              simp only [halloc, if_true, Option.none_or, Option.some.injEq] at hc₀
              rw [← hc₀] at hne
              exact absurd rfl hne
  · -- a record the hook does not touch
    rw [if_neg hsend] at hc
    have hown := h mac c hc hne
    cases hsent : sentBy s.1 (.forward skb) with
    | none => exact hown
    | some p =>
        obtain ⟨ip, sender⟩ := p
        rw [hsent] at hfree
        show (if c.ip = ip then some sender else s.2 c.ip) = some mac
        by_cases haddr : c.ip = ip
        · have hsame : mac = sender :=
            hfree (haddr ▸ hne) (mac, c) (HTable.find?_eq_some_iff.mp hc) haddr
          rw [if_pos haddr, hsame]
        · rw [if_neg haddr]
          exact hown

theorem ownsAddress_step (s : OafState env × (Ipv4 → Option Mac)) (ev : Event)
    (h : OwnsAddress s) (hfree : NoTakeover s ev) : OwnsAddress (stepSent s ev) := by
  by_cases hf : ∃ skb, ev = .forward skb
  · obtain ⟨skb, rfl⟩ := hf
    exact (h.hook hfree).keeps (keeps_of_view (tame_forwardHooks s.1 skb).clients)
  · have hnf : ∀ skb, ev ≠ .forward skb := fun skb he => hf ⟨skb, he⟩
    have hnp : ∀ skb, ev ≠ .preRouting skb := by
      rintro skb rfl
      exact hfree
    have hsent : sentBy s.1 ev = none := by
      cases ev with
      | forward skb => exact absurd rfl (hnf skb)
      | _ => rfl
    have hlast : (stepSent s ev).2 = s.2 := by
      unfold stepSent
      rw [hsent]
    have hkeep : OwnsAddress (step s.1 ev, s.2) := OwnsAddress.keeps h (step_keeps hnf hnp)
    intro mac c hc hne
    rw [hlast]
    exact hkeep mac c hc hne

theorem lookupsRight_of_owns (s : OafState env × (Ipv4 → Option Mac)) (ev : Event)
    (h : OwnsAddress s) (hfree : NoTakeover s ev) : LookupsRight s ev := by
  refine ⟨?_, ?_⟩
  · -- upstream: the address was last used by the packet's own sender
    intro k' skb flow mac c hcall hlook hclient
    obtain ⟨rfl, rfl⟩ := gatewayCall_some hcall
    unfold gatewayClient findAfClientByIp at hclient
    rw [if_pos hlook.src] at hclient
    obtain ⟨hfind, haddr⟩ := HTable.first?_some hclient
    have hip : c.ip = flow.src := by simpa using haddr
    have hown := h.hook hfree mac c hfind (hip ▸ hlook.src)
    have hsent : sentBy s.1 (.forward skb) = some (flow.src, skb.hSource) := by
      rw [parseFlowProto_src hlook.ipv4 hlook.parsed]
      exact if_pos ⟨hlook.fromClient, hlook.ipv4⟩
    have hlast : (stepSent s (.forward skb)).2 flow.src = some skb.hSource := by
      unfold stepSent
      rw [hsent]
      exact if_pos rfl
    rw [← hip] at hlast
    exact Option.some.inj (hown.symm.trans hlast)
  · -- downstream: the packet itself is sent by nobody in the table
    intro skb mac c hev hcharged hne
    subst hev
    unfold charged at hcharged
    have htame := tame_appFilterHook (afClientHook s.1 skb) skb
    split at hcharged
    · rename_i k' heq
      rw [heq] at htame
      split at hcharged
      · rename_i hdown
        obtain ⟨-, hup, hip⟩ := hdown
        simp only [receiver, hip] at hcharged
        obtain ⟨hfind, haddr⟩ := HTable.first?_some hcharged
        have hda : c.ip = ipDaddr skb := by simpa using haddr
        have hup₀ : packetDirUp s.1 skb = false := by
          rw [← ((steady_afClientHook s.1 skb).toQuiet.trans htame.quiet).packetDirUp skb]
          exact hup
        have hsent : sentBy s.1 (.forward skb) = none := by
          refine if_neg ?_
          simp [fromClient, hup₀]
        have hown := ((h.hook hfree).keeps (keeps_of_view htame.clients)) mac c hfind
          (hda ▸ hne)
        have hlast : (stepSent s (.forward skb)).2 = s.2 := by
          unfold stepSent
          rw [hsent]
        rw [hlast, hda] at hown
        exact hown
      · exact absurd hcharged (by simp)
    · exact absurd hcharged (by simp)

/-! ## The result -/

/-- For every packet of every run the handler's lookup returns the record of
the sender iff the sender's record stands before every other record with the
address; and in every run from `insmod` in which no device takes an address that
a live record of another one holds, every record found is the sender's and
downstream bytes are charged to the last sender. -/
theorem sender_attribution_iff :
    (∀ (k : OafState env) (es : List Event),
      EveryStep step AttributesSender k es ↔
        EveryStep step (fun k ev => ∀ k' skb flow, gatewayCall k ev = some (k', skb) →
          LooksUpSender k' skb flow → SenderFirst k' skb flow) k es) ∧
    (∀ (jiffies : Nat) (es : List Event),
      EveryStep stepSent NoTakeover (bootSent env jiffies) es →
        EveryStep stepSent LookupsRight (bootSent env jiffies) es) := by
  refine ⟨?_, ?_⟩
  · intro k es
    apply everyStep_congr
    intro k ev
    constructor
    · intro h k' skb flow hcall hlook
      obtain ⟨-, rfl⟩ := gatewayCall_some hcall
      exact (attributes_iff_senderFirst hlook).mp (h _ skb flow hcall hlook)
    · intro h k' skb flow hcall hlook
      obtain ⟨-, rfl⟩ := gatewayCall_some hcall
      exact (attributes_iff_senderFirst hlook).mpr (h _ skb flow hcall hlook)
  · intro jiffies es hfree
    have hboot : OwnsAddress (bootSent env jiffies) := by
      intro mac c hc
      exact absurd hc (by simp [bootSent, boot])
    exact EveryStep.of_invariant ownsAddress_step lookupsRight_of_owns hboot hfree

def phonePacket : Skb := lanTcp phoneMac phoneIp 7
def tabletPacket : Skb := lanTcp tabletMac [192, 168, 1, 3] 8

/-- The tablet sends from the address the phone had. -/
def movedPacket : Skb := lanTcp tabletMac phoneIp 9

/-- Two devices with an address each: the run takes no address over, so all its
lookups are right. -/
theorem two_devices_lookups_right :
    EveryStep stepSent LookupsRight (bootSent routerEnv 0)
      [.forward phonePacket, .forward tabletPacket] := by
  refine sender_attribution_iff.2 0 _ ?_
  refine everyStep_cons.mpr ⟨?_, everyStep_cons.mpr ⟨?_, everyStep_nil _⟩⟩
  · show _ → ∀ e ∈ (boot routerEnv 0).clients.entries, e.2.ip = _ → e.1 = _
    decide +kernel
  · show _ → ∀ e ∈ (step (boot routerEnv 0) (.forward phonePacket)).clients.entries,
      e.2.ip = _ → e.1 = _
    decide +kernel

/-- The phone sends, then the tablet takes over its address: the tablet's
packet is decided with the phone's record. -/
theorem moved_address_misattributed :
    ¬ EveryStep step AttributesSender (boot routerEnv 0)
      [.forward phonePacket, .forward movedPacket] := by
  intro h
  obtain ⟨flow, hflow⟩ := Option.isSome_iff_exists.mp
    (show (parseFlowProto movedPacket).isSome = true by decide +kernel)
  have hsrc : flow.src = ipSaddr movedPacket := parseFlowProto_src rfl hflow
  obtain ⟨c, hc⟩ := h [.forward phonePacket] (.forward movedPacket) [] rfl _ movedPacket flow rfl
    { up := by decide +kernel
      ipv4 := rfl
      parsed := hflow
      tracked := ⟨_, rfl, fun hconf => absurd hconf.2 (by decide)⟩
      src := by rw [hsrc]; decide }
  -- the first record with the address is the phone's
  have hfirst : (findAfClientByIp (afClientHook (step (boot routerEnv 0) (.forward phonePacket))
      movedPacket) (ipSaddr movedPacket)).map Prod.fst = some phoneMac := by decide +kernel
  unfold gatewayClient at hc
  rw [hsrc, if_pos (by decide)] at hc
  rw [show run step (boot routerEnv 0) [.forward phonePacket] =
    step (boot routerEnv 0) (.forward phonePacket) from rfl] at hc
  rw [hc] at hfirst
  have hmac : tabletMac = phoneMac := Option.some.inj hfirst
  exact absurd hmac (by decide)

end OpenAppFilter.Theorems
