import OpenAppFilter.Kernel.Scan
import OpenAppFilter.Kernel.System

/-!
# Linearising a packet

`read_skb` allocates the bytes it was asked for and copies block after block,
each as long as `skb_seq_read` says. That function ends a block where the memory
of the packet ends, not where the range that was asked for ends, and the test
against the range comes after the copy.

The blocks are copied one behind the other, so what is written is always the
beginning of the buffer (`readSkbLoopProg_accesses`). It is no more than what was
asked for iff no block that begins in the range goes beyond it
(`packet_copy_bounded_iff`).
-/

namespace OpenAppFilter.Theorems

open Base Kernel Prog

section

variable (skb : Skb) (start len : Nat)

/-- The cells written are the first ones, and no more than what was asked for. -/
def CopiedPrefix : Prop :=
  ∃ n ≤ len, (readSkbProg skb start len).accesses skb.net = (List.range n).map (fun i => .write len i)

/-- Going from block to block, from index `i` of the range on, a block begins at
index `j` of it. -/
inductive BlockAt : Nat → Nat → Prop where
  | here {i : Nat} (hi : i < len) : BlockAt i i
  | next {i j : Nat} (hblock : skb.seqRead (start + i) ≠ [])
      (hj : BlockAt (i + (skb.seqRead (start + i)).length) j) : BlockAt i j

/-- The blocks from index `i` on end in the range. -/
def BlocksInside (i : Nat) : Prop :=
  ∀ j, BlockAt skb start len i j → j + (skb.seqRead (start + j)).length ≤ len

end

variable {skb : Skb} {start len : Nat}

/-! ## Block by block -/

theorem BlockAt.lt {i j : Nat} (h : BlockAt skb start len i j) : i ≤ j ∧ j < len := by
  induction h with
  | here hi => exact ⟨Nat.le_refl _, hi⟩
  | next _ _ ih => exact ⟨Nat.le_of_add_right_le ih.1, ih.2⟩

theorem blocksInside_of_end {i : Nat} (h : skb.seqRead (start + i) = []) :
    BlocksInside skb start len i := by
  intro j hj
  cases hj with
  | here hi => rw [h]; exact Nat.le_of_lt hi
  | next hblock _ => exact absurd h hblock

theorem blocksInside_iff {i : Nat} (hi : i < len) (hblock : skb.seqRead (start + i) ≠ []) :
    BlocksInside skb start len i ↔
      i + (skb.seqRead (start + i)).length ≤ len ∧
        BlocksInside skb start len (i + (skb.seqRead (start + i)).length) := by
  constructor
  · exact fun h => ⟨h i (.here hi), fun j hj => h j (.next hblock hj)⟩
  · rintro ⟨hfirst, hrest⟩ j hj
    cases hj with
    | here _ => exact hfirst
    | next _ hj => exact hrest j hj

/-- The loop writes the cells from `consumed` on, and they end in the range iff
the blocks do. -/
theorem readSkbLoopProg_accesses (m : Mem) : ∀ {fuel consumed : Nat} {buf : Mem},
    consumed < len → len ≤ consumed + fuel →
    ∃ n, (readSkbLoopProg skb start len fuel consumed buf).accesses m =
        (List.range' consumed n).map (fun i => .write len i) ∧
      (consumed + n ≤ len ↔ BlocksInside skb start len consumed) := by
  intro fuel
  induction fuel with
  | zero =>
      intro consumed buf hlt hfuel
      exact absurd hfuel (Nat.not_le.mpr hlt)
  | succ fuel ih =>
      intro consumed buf hlt hfuel
      unfold readSkbLoopProg
      cases hread : skb.seqRead (start + consumed) with
      | nil =>
          exact ⟨0, rfl, fun _ => blocksInside_of_end hread, fun _ => Nat.le_of_lt hlt⟩
      | cons b block =>
          have hne : skb.seqRead (start + consumed) ≠ [] := by rw [hread]; exact List.cons_ne_nil _ _
          have hblocks := blocksInside_iff hlt hne
          rw [hread] at hblocks
          simp only [accesses_bind, memcpyProg_accesses]
          by_cases hend : consumed + (b :: block).length ≥ len
          · -- the last block: nothing begins in the range behind it
            rw [if_pos hend, accesses_pure, List.append_nil]
            refine ⟨(b :: block).length, rfl, ?_⟩
            rw [hblocks]
            exact (and_iff_left (fun j hj => absurd hj.lt (by omega))).symm
          · rw [if_neg hend]
            obtain ⟨n, haccesses, hinside⟩ :=
              @ih (consumed + (b :: block).length) (withBlock buf consumed (b :: block)) (by omega)
                (by rw [List.length_cons]; omega)
            refine ⟨(b :: block).length + n, ?_, ?_⟩
            · rw [haccesses, ← List.map_append, List.range'_append_1]
            · rw [hblocks, ← hinside, ← Nat.add_assoc]
              exact (and_iff_right_of_imp (fun _ => by omega)).symm

/-- **The copy of a packet stays in what was asked for**, and is the beginning of
its buffer, iff no block that begins in the range goes beyond it, or there is no
buffer. -/
theorem packet_copy_bounded_iff (skb : Skb) (start len : Nat) :
    CopiedPrefix skb start len ↔ skb.alloc.buf = false ∨ BlocksInside skb start len 0 := by
  unfold CopiedPrefix readSkbProg
  cases hbuf : skb.alloc.buf with
  | false =>
      simp only [Bool.false_eq_true, if_false, true_or, iff_true]
      exact ⟨0, Nat.zero_le _, rfl⟩
  | true =>
      rw [if_pos rfl, or_iff_right (by decide), accesses_bind, accesses_pure, List.append_nil]
      by_cases hzero : len = 0
      · subst hzero
        exact ⟨fun _ j hj => absurd hj.lt (by omega), fun _ => ⟨0, Nat.le_refl 0, rfl⟩⟩
      · obtain ⟨n, haccesses, hinside⟩ := @readSkbLoopProg_accesses skb start len skb.net len 0
          skb.alloc.staleBuf (Nat.pos_of_ne_zero hzero) (Nat.le_add_left len 0)
        rw [haccesses, ← hinside, Nat.zero_add]
        constructor
        · rintro ⟨n', hn', hsame⟩
          have hlength := congrArg List.length hsame
          simp only [List.length_map, List.length_range', List.length_range] at hlength
          omega
        · exact fun hn => ⟨n, hn, by rw [List.range_eq_range']⟩

/-- A UDP datagram whose length field says four bytes, in a packet that goes on
for eight more: they are all in the first block. -/
def shortUdpSkb : Skb :=
  let bytes := ipv4Bytes 17 phoneIp [1, 2, 3, 4] [0x30, 0x39, 0, 53, 0, 12, 0, 0, 1, 2, 3, 4, 5, 6, 7, 8, 9, 10, 11, 12]
  { lanSkb phoneMac 1 bytes with nonlinear := true, seqRead := fun off => bytes.drop off }

/-- Twelve bytes go to a buffer of four. -/
theorem short_datagram_overrun :
    (parseFlowProto shortUdpSkb).map (fun flow => (flow.l4Off, flow.l4Len)) = some (28, 4) ∧
      ¬ CopiedPrefix shortUdpSkb 28 4 := by
  refine ⟨by decide, ?_⟩
  rintro ⟨n, hn, h⟩
  have hwritten : ((readSkbProg shortUdpSkb 28 4).accesses shortUdpSkb.net).length = 12 := by decide
  rw [h, List.length_map, List.length_range] at hwritten
  omega

end OpenAppFilter.Theorems
