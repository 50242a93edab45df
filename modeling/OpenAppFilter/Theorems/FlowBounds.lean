import OpenAppFilter.Kernel.Dpi
import OpenAppFilter.Kernel.System

/-!
# The flow descriptor and the packet

`parse_flow_proto` takes the data of a TCP segment to reach from behind its data
offset to the end of the IP payload, and the data of a UDP datagram to be as
long as its own header says. Neither is compared with the payload: a data offset
behind its end gives a negative length, and so does a UDP length below eight; a
UDP length above the payload gives a descriptor that reaches behind it.

The descriptor stays inside iff none of this is the case.
-/

namespace OpenAppFilter.Theorems

open Base Kernel

/-! ## The payload of a packet -/

/-- Where the IP payload starts. -/
def payloadStart (skb : Skb) : Nat :=
  match skb.protocol with
  | .ip => (skb.net 0).toNat % 16 * 4
  | _ => 40

/-- Where it ends, by the length in the IP header. -/
def payloadEnd (skb : Skb) : Nat :=
  match skb.protocol with
  | .ip => ntohs16 skb.net 2
  | _ => 40 + ntohs16 skb.net 4

/-- The protocol the IP header names. -/
def payloadProtocol (skb : Skb) : Nat :=
  match skb.protocol with
  | .ip => (skb.net 9).toNat
  | _ => (skb.net 6).toNat

/-- What the IP layer has checked: the header is not shorter than it can be, and
header and packet lie in the buffer. -/
structure HeaderValid (skb : Skb) : Prop where
  isIp : skb.protocol ≠ .other
  header : skb.protocol = .ip → 5 ≤ (skb.net 0).toNat % 16
  payload : payloadStart skb ≤ payloadEnd skb
  buffer : payloadEnd skb ≤ skb.len

/-- The length is not negative, and the bytes it counts lie in the IP payload. -/
structure FlowInside (skb : Skb) (flow : FlowInfo) : Prop where
  length : 0 ≤ flow.l4Len
  bytes : ∀ i : Nat, (i : Int) < flow.l4Len →
    payloadStart skb ≤ flow.l4Off + i ∧ flow.l4Off + i < payloadEnd skb ∧ flow.l4Off + i < skb.len

/-- The lengths of the inner header agree with the payload: the TCP data offset
does not point behind it, resp. the UDP length counts the header and what is in
the payload behind it at most. -/
def LengthsAgree (skb : Skb) : Prop :=
  if payloadProtocol skb = ipprotoTcp then
    payloadStart skb + (skb.net (payloadStart skb + 12)).toNat / 16 * 4 ≤ payloadEnd skb
  else
    8 ≤ ntohs16 skb.net (payloadStart skb + 4) ∧
      (payloadStart skb + ntohs16 skb.net (payloadStart skb + 4) ≤ payloadEnd skb ∨
        ntohs16 skb.net (payloadStart skb + 4) = 8)

instance (skb : Skb) : Decidable (LengthsAgree skb) := inferInstanceAs (Decidable (ite _ _ _))

/-- The two fields as `parse_flow_proto` computes them. -/
theorem parseFlowProto_data {skb : Skb} {flow : FlowInfo} (h : parseFlowProto skb = some flow) :
    (payloadProtocol skb = ipprotoTcp ∧
        flow.l4Len = (payloadEnd skb : Int) - payloadStart skb -
          ((skb.net (payloadStart skb + 12)).toNat / 16 : Nat) * 4 ∧
        flow.l4Off = payloadStart skb + (skb.net (payloadStart skb + 12)).toNat / 16 * 4) ∨
      (payloadProtocol skb = ipprotoUdp ∧
        flow.l4Len = (ntohs16 skb.net (payloadStart skb + 4) : Int) - 8 ∧
        flow.l4Off = payloadStart skb + 8) := by
  unfold parseFlowProto at h
  unfold payloadProtocol payloadStart payloadEnd
  cases hproto : skb.protocol with
  | other =>
      simp only [hproto] at h
      exact absurd h (by simp)
  | ip =>
      simp only [hproto] at h ⊢
      split at h
      · rename_i htcp
        obtain rfl := Option.some.inj h
        refine Or.inl ⟨htcp, ?_, rfl⟩
        simp
      · split at h
        · rename_i hudp
          obtain rfl := Option.some.inj h
          exact Or.inr ⟨hudp, rfl, rfl⟩
        · exact absurd h (by simp)
  | ipv6 =>
      simp only [hproto] at h ⊢
      split at h
      · rename_i htcp
        obtain rfl := Option.some.inj h
        refine Or.inl ⟨htcp, ?_, rfl⟩
        simp
      · split at h
        · rename_i hudp
          obtain rfl := Option.some.inj h
          exact Or.inr ⟨hudp, rfl, rfl⟩
        · exact absurd h (by simp)

/-- **The descriptor stays inside the packet** iff the lengths of the TCP or UDP
header agree with the IP payload. -/
theorem flow_inside_iff (skb : Skb) (hvalid : HeaderValid skb) (flow : FlowInfo)
    (hparse : parseFlowProto skb = some flow) : FlowInside skb flow ↔ LengthsAgree skb := by
  have hpayload := hvalid.payload
  have hbuffer := hvalid.buffer
  unfold LengthsAgree
  rcases parseFlowProto_data hparse with ⟨htcp, hlen, hoff⟩ | ⟨hudp, hlen, hoff⟩
  · rw [if_pos htcp]
    constructor
    · intro h
      have hnonneg := h.length
      omega
    · intro h
      refine ⟨by omega, fun i hi => ?_⟩
      omega
  · have hnot : payloadProtocol skb ≠ ipprotoTcp := by
      rw [hudp]
      decide
    rw [if_neg hnot]
    constructor
    · intro h
      have hnonneg := h.length
      refine ⟨by omega, ?_⟩
      by_cases hempty : ntohs16 skb.net (payloadStart skb + 4) = 8
      · exact Or.inr hempty
      · -- the last byte is in the payload
        have hlast := h.bytes (ntohs16 skb.net (payloadStart skb + 4) - 9) (by omega)
        exact Or.inl (by omega)
    · rintro ⟨hheader, hfit⟩
      refine ⟨by omega, fun i hi => ?_⟩
      rcases hfit with hfit | hempty
      · omega
      · omega

/-! ## A UDP length from nowhere -/

/-- A UDP header that names a length of its own, with no data behind it. -/
def udpHeader (len : UInt8) : List UInt8 := [0x30, 0x39, 0x01, 0xbb, 0, len, 0, 0]

/-- An IPv4 packet of 28 bytes with that header. -/
def bareUdp (len : UInt8) : Skb :=
  lanSkb phoneMac 7 (ipv4Bytes 17 phoneIp [1, 2, 3, 4] (udpHeader len))

theorem bareUdp_valid (len : UInt8) : HeaderValid (bareUdp len) := by
  have hversion : (bareUdp len).net 0 = 0x45 := rfl
  have hstart : payloadStart (bareUdp len) = 20 := by
    show ((bareUdp len).net 0).toNat % 16 * 4 = 20
    rw [hversion]
    rfl
  have hend : payloadEnd (bareUdp len) = 28 := by
    have hhi : (bareUdp len).net 2 = 0 := rfl
    have hlo : (bareUdp len).net 3 = 28 := rfl
    show 256 * ((bareUdp len).net 2).toNat + ((bareUdp len).net 3).toNat = 28
    rw [hhi, hlo]
    rfl
  refine ⟨nofun, fun _ => ?_, ?_, ?_⟩
  · rw [hversion]
    decide
  · rw [hstart, hend]
    decide
  · rw [hend]
    exact Nat.le_refl 28

def bareFlow (len : UInt8) : FlowInfo := (parseFlowProto (bareUdp len)).getD {}

theorem bareUdp_parsed (len : UInt8) : parseFlowProto (bareUdp len) = some (bareFlow len) := rfl

theorem flow_inside_bare_udp :
    FlowInside (bareUdp 8) (bareFlow 8) :=
  (flow_inside_iff (bareUdp 8) (bareUdp_valid 8) (bareFlow 8) (bareUdp_parsed 8)).mpr (by decide)

/-- 92 bytes of data in a packet that has none. -/
theorem udp_length_beyond_packet :
    HeaderValid (bareUdp 100) ∧ parseFlowProto (bareUdp 100) = some (bareFlow 100) ∧
      (bareFlow 100).l4Len = 92 ∧ (bareFlow 100).l4Off = (bareUdp 100).len ∧
      ¬ FlowInside (bareUdp 100) (bareFlow 100) := by
  refine ⟨bareUdp_valid 100, bareUdp_parsed 100, by decide, by decide, ?_⟩
  intro h
  have hfirst := (h.bytes 0 (by decide)).2.2
  exact absurd hfirst (by decide)

end OpenAppFilter.Theorems
