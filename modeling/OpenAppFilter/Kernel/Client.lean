import OpenAppFilter.Kernel.State

/-!
# Client table (`af_client.c`)

Records are created and looked up by mac in the bucket of the mac, and looked
up by address over all buckets in table order. The hook of the FORWARD chain
that runs first (`afClientHook`) keeps a record for the sender of every
upstream packet; the one that runs last (`afClientHook2`) charges downstream
bytes to the record that holds the destination address.
-/

namespace OpenAppFilter.Kernel

open Base

variable {env : Env}

/-! ## Header fields -/

/-- A 32-bit word at `off`, loaded as it lies in memory. -/
def load32 (m : Mem) (off : Nat) : BitVec 32 :=
  (m (off + 3)).toBitVec ++ (m (off + 2)).toBitVec ++ (m (off + 1)).toBitVec ++
    (m off).toBitVec

/-- `ntohs` of the 16-bit word at `off`. -/
def ntohs16 (m : Mem) (off : Nat) : Nat := 256 * (m off).toNat + (m (off + 1)).toNat

/-- The IPv6 address at `off`. -/
def load128 (m : Mem) (off : Nat) : Ipv6 :=
  load32 m (off + 12) ++ load32 m (off + 8) ++ load32 m (off + 4) ++ load32 m off

/-- `iph->saddr`, `iph->daddr`, `ip6h->saddr`, `ip6h->daddr`. -/
def ipSaddr (skb : Skb) : Ipv4 := load32 skb.net 12
def ipDaddr (skb : Skb) : Ipv4 := load32 skb.net 16
def ip6Saddr (skb : Skb) : Ipv6 := load128 skb.net 8
def ip6Daddr (skb : Skb) : Ipv6 := load128 skb.net 24

/-- `get_packet_dir(dev) == PKT_DIR_UP`. -/
def packetDirUp (k : OafState env) (skb : Skb) : Bool := strstr skb.devName k.gLanIfname

/-! ## Lookup -/

/-- `find_af_client_by_ip`: the first record in table order with that address. -/
def findAfClientByIp (k : OafState env) (ip : Ipv4) : Option (Mac × AfClientInfo) :=
  k.clients.first? (fun _ c => decide (c.ip = ip))

/-- `find_af_client_by_ipv6`. -/
def findAfClientByIpv6 (k : OafState env) (ip : Ipv6) : Option (Mac × AfClientInfo) :=
  k.clients.first? (fun _ c => decide (c.ipv6 = ip))

/-- Rewrite the record of `mac` in place. -/
def OafState.updateClient (k : OafState env) (mac : Mac) (f : AfClientInfo → AfClientInfo) :
    OafState env :=
  { k with clients := k.clients.modify mac f }

/-! ## Creation and expiry -/

/-- The record `nf_client_add` fills in. -/
def newClient (k : OafState env) : AfClientInfo :=
  { createJiffies := k.jiffiesWord, updateJiffies := k.jiffiesWord }

/-- `find_and_add_af_client`: the record of `mac`, created at the head of its
bucket when there is none (`nf_client_add`); `false` when that allocation
fails. -/
def findAndAddAfClient (k : OafState env) (mac : Mac) (alloc : Bool) : OafState env × Bool :=
  match h : k.clients.find? mac with
  | some _ => (k, true)
  | none =>
      if alloc then ({ k with clients := k.clients.add mac (newClient k) h }, true)
      else (k, false)

/-- `check_client_expire`: delete the first record, in table order, whose
last update is too old. -/
def checkClientExpire (k : OafState env) : OafState env :=
  match k.clients.first? (fun _ c => decide (k.jiffiesWord >
      (c.updateJiffies + maxClientActiveTime * env.hz) % 2 ^ env.longBits)) with
  | some (mac, _) => { k with clients := k.clients.erase mac }
  | none => k

/-! ## Hooks -/

/-- The address and traffic update `af_client_hook` makes in the sender's
record. -/
def touchSender (skb : Skb) (c : AfClientInfo) : AfClientInfo :=
  let c :=
    match skb.protocol with
    | .ip => { c with ip := ipSaddr skb }
    | .ipv6 => { c with ipv6 := ip6Saddr skb }
    | .other => c
  { c with flow := { c.flow with
      upBytes := c.flow.upBytes + skb.len, upPkts := c.flow.upPkts + 1 } }

/-- `af_client_hook`. -/
def afClientHook (k : OafState env) (skb : Skb) : OafState env :=
  match skb.ct with
  | none => k
  | some _ =>
      if skb.protocol = .ipv6 ∧ k.afWorkMode ≠ afModeGateway then k
      else if !packetDirUp k skb then k
      else
        match findAndAddAfClient k skb.hSource skb.alloc.client with
        | (k, true) => k.updateClient skb.hSource (touchSender skb)
        | (k, false) => k

/-- The record `af_client_hook2` looks up for a packet. -/
def receiver (k : OafState env) (skb : Skb) : Option (Mac × AfClientInfo) :=
  match skb.protocol with
  | .ip => findAfClientByIp k (ipDaddr skb)
  | .ipv6 => findAfClientByIpv6 k (ip6Daddr skb)
  | .other => none

/-- `af_client_hook2`. -/
def afClientHook2 (k : OafState env) (skb : Skb) : OafState env :=
  match skb.ct with
  | none => k
  | some _ =>
      if packetDirUp k skb then k
      else
        match receiver k skb with
        | some (mac, _) =>
            k.updateClient mac (fun c => { c with flow := { c.flow with
              downBytes := c.flow.downBytes + skb.len, downPkts := c.flow.downPkts + 1 } })
        | none => k

/-! ## The sender's record after `af_client_hook` -/

theorem findAndAddAfClient_snd (k : OafState env) (mac : Mac) (alloc : Bool) :
    (findAndAddAfClient k mac alloc).2 = ((k.clients.find? mac).isSome || alloc) := by
  unfold findAndAddAfClient
  split
  · rename_i c hfind
    simp [hfind]
  · rename_i hfind
    cases alloc <;> simp [hfind]

/-- The packet is one `af_client_hook` keeps a record for. -/
def fromClient (k : OafState env) (skb : Skb) : Bool :=
  skb.ct.isSome && !(decide (skb.protocol = .ipv6) && decide (k.afWorkMode ≠ afModeGateway)) &&
    packetDirUp k skb

/-- The record of `mac` after `find_and_add_af_client`. -/
theorem findAndAddAfClient_find? (k : OafState env) (mac mac' : Mac) (alloc : Bool) :
    (findAndAddAfClient k mac alloc).1.clients.find? mac' =
      if mac' = mac then
        (k.clients.find? mac).or (if alloc then some (newClient k) else none)
      else k.clients.find? mac' := by
  unfold findAndAddAfClient
  split
  · rename_i c hfind
    by_cases hm : mac' = mac
    · simp [hm, hfind]
    · simp [hm]
  · rename_i hfind
    cases alloc with
    | false =>
        by_cases hm : mac' = mac
        · simp [hm, hfind]
        · simp [hm]
    | true =>
        have hadd := HTable.find?_add k.clients mac mac' (newClient k) hfind
        by_cases hm : mac' = mac
        · simpa [hm, hfind] using hadd
        · simpa [hm] using hadd

/-- `af_client_hook` touches the sender's record, which it makes when there is
none and memory allows, and no other. -/
theorem afClientHook_find? (k : OafState env) (skb : Skb) (mac : Mac) :
    (afClientHook k skb).clients.find? mac =
      if fromClient k skb = true ∧ mac = skb.hSource then
        ((k.clients.find? mac).or
          (if skb.alloc.client then some (newClient k) else none)).map (touchSender skb)
      else k.clients.find? mac := by
  unfold afClientHook fromClient
  cases skb.ct with
  | none => simp
  | some ct =>
      by_cases hmode : skb.protocol = .ipv6 ∧ k.afWorkMode ≠ afModeGateway
      · simp [hmode]
      · by_cases hup : packetDirUp k skb = true
        · have hrun : (true && !(decide (skb.protocol = .ipv6) &&
              decide (k.afWorkMode ≠ afModeGateway)) && packetDirUp k skb) = true := by
            rw [hup, Bool.and_true, Bool.true_and, ← Bool.decide_and, decide_eq_false hmode]
            rfl
          have hfind := findAndAddAfClient_find? k skb.hSource mac skb.alloc.client
          have hsnd := findAndAddAfClient_snd k skb.hSource skb.alloc.client
          simp only [if_neg hmode, hup, Bool.not_true, Bool.false_eq_true, if_false,
            Option.isSome_some] at hrun ⊢
          rw [hrun]
          cases heq : findAndAddAfClient k skb.hSource skb.alloc.client with
          | mk k' ok =>
              rw [heq] at hfind hsnd
              cases ok with
              | true =>
                  show (k'.clients.modify _ _).find? mac = _
                  rw [HTable.find?_modify, hfind]
                  by_cases hm : mac = skb.hSource
                  · simp [hm]
                  · simp [hm]
              | false =>
                  -- no record and no memory: nothing is touched
                  have hno : k.clients.find? skb.hSource = none ∧ skb.alloc.client = false := by
                    simpa using hsnd.symm
                  show k'.clients.find? mac = _
                  rw [hfind, hno.2]
                  by_cases hm : mac = skb.hSource
                  · simp [hm, hno.1]
                  · simp [hm]
        · simp [hmode, hup]

end OpenAppFilter.Kernel
