import OpenAppFilter.Kernel.Scan
import OpenAppFilter.Kernel.System

/-!
# The server name of a ClientHello

`dpi_https_proto` looks for three zero bytes and a byte that is not zero, takes
the two bytes at offset seven for a length, and the bytes behind them for a
server name. The scan ends nine bytes in front of the payload's end, and a name
is looked at only when it ends in front of the last byte; so nothing behind the
payload is read, and a name that reaches to its very end is passed over.

A name that reaches to the end leaves no room for another candidate behind it
(`no_name_behind`): its length bytes and its characters cannot be the zeros a
candidate starts with, except at one offset, where two characters of the name
would be the length. So the first name of the payload is the one that is found,
if any is.
-/

namespace OpenAppFilter.Theorems

open Base Kernel Prog

/-! ## The reads -/

theorem checkDomainProg_stays {data : Mem} {len : Nat} : ∀ {n off : Nat}, off + n ≤ len →
    (checkDomainProg off n).Stays data len := by
  intro n
  induction n with
  | zero =>
      intro off _
      exact stays_pure _ _ _
  | succ n ih =>
      intro off h
      unfold checkDomainProg
      rw [stays_bind, stays_cell, run_cell]
      refine ⟨by omega, ?_⟩
      split
      · exact ih (by omega)
      · exact stays_pure _ _ _

theorem markerProg_stays {data : Mem} {len i : Nat} (h : i + 3 < len) :
    (markerProg i).Stays data len := by
  unfold markerProg
  rw [stays_bind, stays_cell, run_cell]
  refine ⟨by omega, ?_⟩
  split
  · rw [stays_bind, stays_cell, run_cell]
    refine ⟨by omega, ?_⟩
    split
    · rw [stays_bind, stays_cell, run_cell]
      refine ⟨by omega, ?_⟩
      split
      · rw [stays_bind, stays_cell]
        exact ⟨h, stays_pure _ _ _⟩
      · exact stays_pure _ _ _
    · exact stays_pure _ _ _
  · exact stays_pure _ _ _

theorem sniProg_stays {data : Mem} {len i : Nat} (h : i + httpsUrlOffset < len) :
    (sniProg len i).Stays data len := by
  unfold httpsUrlOffset at h
  unfold sniProg
  rw [stays_bind, markerProg_run]
  refine ⟨markerProg_stays (by omega), ?_⟩
  split
  · rw [stays_bind, stays_cell, stays_bind, stays_cell]
    unfold httpsLenOffset
    refine ⟨by omega, by omega, ?_⟩
    dsimp only
    split
    · exact stays_pure _ _ _
    · split
      · rename_i hfit
        rw [stays_bind]
        exact ⟨checkDomainProg_stays (Nat.le_of_lt hfit), stays_pure _ _ _⟩
      · exact stays_pure _ _ _
  · exact stays_pure _ _ _

theorem httpsScanProg_stays {flow : FlowInfo} {data : Mem} {len : Nat} : ∀ n i,
    (httpsScanProg flow len n i).Stays data len := by
  intro n
  induction n with
  | zero =>
      intro i
      exact stays_pure _ _ _
  | succ n ih =>
      intro i
      unfold httpsScanProg
      split
      · exact stays_pure _ _ _
      · rename_i hin
        rw [stays_bind]
        refine ⟨sniProg_stays (Nat.lt_of_not_le hin), ?_⟩
        split
        · exact stays_pure _ _ _
        · exact ih (i + 1)

theorem gateProg_stays {data : Mem} {len : Nat} {hello : Bool} (h : 5 < len) :
    (gateProg hello).Stays data len := by
  unfold gateProg
  rw [stays_bind, stays_cell, run_cell]
  refine ⟨by omega, ?_⟩
  split
  · rw [stays_bind, stays_cell, run_cell]
    refine ⟨by omega, ?_⟩
    split
    · rw [stays_bind, stays_cell]
      exact ⟨h, stays_pure _ _ _⟩
    · exact stays_pure _ _ _
  · exact stays_pure _ _ _

theorem dpiHttpsProg_stays (flow : FlowInfo) :
    (dpiHttpsProg flow).Stays flow.l4Data flow.l4Len.toNat := by
  unfold dpiHttpsProg
  split
  · exact stays_pure _ _ _
  · rename_i hlen
    rw [stays_bind]
    refine ⟨gateProg_stays (by omega), ?_⟩
    split
    · exact httpsScanProg_stays _ _
    · exact stays_pure _ _ _

/-! ## Names in the payload -/

/-- A server name of `n` bytes that belongs to offset `i`: three zeros and a byte
that is not zero, the length seven bytes on, the name behind it. -/
structure NameAt (data : Mem) (len i n : Nat) : Prop where
  zero : data i = 0 ∧ data (i + 1) = 0 ∧ data (i + 2) = 0
  nonzero : data (i + 3) ≠ 0
  length : ntohs16 data (i + 7) = n
  bounds : 5 ≤ n ∧ n ≤ 64
  fits : i + 9 + n ≤ len
  chars : ∀ k < n, isDomainByte (data (i + 9 + k)) = true

theorem checkDomain_iff {data : Mem} {off n : Nat} :
    checkDomain data off n = true ↔ ∀ k < n, isDomainByte (data (off + k)) = true := by
  rw [checkDomain_eq, List.all_eq_true]
  simp only [List.mem_range]

/-- The scan takes a name that ends in front of the last byte. -/
theorem sniLenAt_iff {data : Mem} {len i n : Nat} :
    sniLenAt data len i = some n ↔ NameAt data len i n ∧ i + 9 + n < len := by
  unfold sniLenAt httpsLenOffset httpsUrlOffset minHostLen maxHostLen
  constructor
  · intro h
    split at h
    · rename_i hmark
      dsimp only at h
      split at h
      · exact absurd h (by simp)
      · rename_i hlen
        split at h
        · rename_i hfit
          split at h
          · rename_i hchars
            obtain rfl := Option.some.inj h
            refine ⟨⟨⟨hmark.1, hmark.2.1, hmark.2.2.1⟩, hmark.2.2.2, rfl, by omega,
              Nat.le_of_lt hfit, checkDomain_iff.mp hchars⟩, hfit⟩
          · exact absurd h (by simp)
        · exact absurd h (by simp)
    · exact absurd h (by simp)
  · rintro ⟨h, hfit⟩
    obtain ⟨hlo, hhi⟩ := h.bounds
    rw [if_pos ⟨h.zero.1, h.zero.2.1, h.zero.2.2, h.nonzero⟩]
    dsimp only
    rw [h.length, if_neg (by omega), if_pos hfit, if_pos (checkDomain_iff.mpr h.chars)]

/-- The characters of a name are above all the bytes of its length. -/
theorem le_of_isDomainByte {b : UInt8} (h : isDomainByte b = true) : 45 ≤ b.toNat := by
  have hall : ∀ n < 256, isDomainByte (UInt8.ofNat n) = true → 45 ≤ n := by decide +kernel
  exact hall b.toNat b.toNat_lt (by rwa [UInt8.ofNat_toNat])

/-- Behind a name that reaches to the end of the payload no other one is taken. -/
theorem no_name_behind {data : Mem} {len j n i : Nat} (h : NameAt data len j n)
    (hend : j + 9 + n = len) (hji : j < i) : sniLenAt data len i = none := by
  cases hsome : sniLenAt data len i with
  | none => rfl
  | some m =>
      exfalso
      obtain ⟨hi, hfit⟩ := sniLenAt_iff.mp hsome
      obtain ⟨hz0, hz1, hz2⟩ := hi.zero
      obtain ⟨hlo, hhi⟩ := h.bounds
      have hlength := h.length
      unfold ntohs16 at hlength
      have hlen7 : (data (j + 7)).toNat = 0 := by omega
      have hlen8 : (data (j + 7 + 1)).toNat = n := by omega
      have hzero : ∀ k, data k = 0 → (data k).toNat = 0 := fun k hk => by rw [hk]; rfl
      -- from the name on, no byte is zero
      have hname : ¬ j + 9 ≤ i := by
        intro hle
        have hchar := le_of_isDomainByte (h.chars (i - (j + 9)) (by omega))
        rw [show j + 9 + (i - (j + 9)) = i by omega, hzero i hz0] at hchar
        omega
      have hlast : ∀ k ≤ 2, i + k ≠ j + 8 := by
        intro k hk heq
        have h0 : (data (i + k)).toNat = 0 := by
          refine hzero _ ?_
          match k, hk with
          | 0, _ => exact hz0
          | 1, _ => exact hz1
          | 2, _ => exact hz2
        rw [heq, show j + 8 = j + 7 + 1 by omega, hlen8] at h0
        omega
      have hfirst : ∀ k ≤ 2, i + k ≠ j + 3 := by
        intro k hk heq
        refine h.nonzero ?_
        rw [← heq]
        match k, hk with
        | 0, _ => exact hz0
        | 1, _ => exact hz1
        | 2, _ => exact hz2
      have h0 := hlast 0 (by omega)
      have h1 := hlast 1 (by omega)
      have h2 := hlast 2 (by omega)
      have g0 := hfirst 0 (by omega)
      have g1 := hfirst 1 (by omega)
      have g2 := hfirst 2 (by omega)
      have hcases : i = j + 4 ∨ i = j + 5 := by omega
      rcases hcases with rfl | rfl
      · -- the byte that may not be zero is the first of the length
        refine hi.nonzero ?_
        apply UInt8.toNat_inj.mp
        rw [show j + 4 + 3 = j + 7 by omega, hlen7]
        rfl
      · -- two characters of the name are the length
        have hchar := le_of_isDomainByte (h.chars 3 (by omega))
        have hlength' := hi.length
        have hhi' := hi.bounds.2
        unfold ntohs16 at hlength'
        rw [show j + 5 + 7 = j + 9 + 3 by omega] at hlength'
        omega

/-! ## The scan -/

/-- The flow with a name entered. -/
def withName (flow : FlowInfo) (i n : Nat) : FlowInfo :=
  { flow with
    https := { isMatch := true, urlPos := some (i + 9), urlLen := (n : Nat) }
    clientHello := false }

/-- The scan from `i` on stops at the first name it takes. -/
theorem httpsScanProg_first (flow : FlowInfo) (len : Nat) : ∀ n i, len ≤ i + n →
    (∃ j m, i ≤ j ∧ sniLenAt flow.l4Data len j = some m ∧
        (∀ k, i ≤ k → k < j → sniLenAt flow.l4Data len k = none) ∧
        (httpsScanProg flow len n i).run flow.l4Data = (0, withName flow j m)) ∨
      ((∀ k, i ≤ k → sniLenAt flow.l4Data len k = none) ∧
        ((httpsScanProg flow len n i).run flow.l4Data).1 = -1 ∧
        ((httpsScanProg flow len n i).run flow.l4Data).2.https = flow.https) := by
  have hbehind : ∀ k, len ≤ k + 9 → sniLenAt flow.l4Data len k = none := by
    intro k hk
    cases hsome : sniLenAt flow.l4Data len k with
    | none => rfl
    | some m =>
        have hfit := (sniLenAt_iff.mp hsome).2
        omega
  intro n
  induction n with
  | zero =>
      intro i hn
      exact Or.inr ⟨fun k hk => hbehind k (by omega), rfl, rfl⟩
  | succ n ih =>
      intro i hn
      unfold httpsScanProg
      split
      · rename_i hend
        unfold httpsUrlOffset at hend
        exact Or.inr ⟨fun k hk => hbehind k (by omega), rfl, rfl⟩
      · rw [run_bind, sniProg_run]
        cases hsni : sniLenAt flow.l4Data len i with
        | some m => exact Or.inl ⟨i, m, Nat.le_refl i, hsni, fun k hk hki => absurd hk (by omega), rfl⟩
        | none =>
            rcases ih (i + 1) (by omega) with ⟨j, m, hij, hj, hbefore, hrun⟩ | ⟨hnone, hrun⟩
            · refine Or.inl ⟨j, m, by omega, hj, fun k hk hkj => ?_, hrun⟩
              rcases Nat.eq_or_lt_of_le hk with rfl | hk
              · exact hsni
              · exact hbefore k hk hkj
            · refine Or.inr ⟨fun k hk => ?_, hrun⟩
              rcases Nat.eq_or_lt_of_le hk with rfl | hk
              · exact hsni
              · exact hnone k hk

/-- **The server name is read soundly and inside the payload.** No byte behind
the payload is read. Either the call returns 0, has entered the name of the
smallest offset that has one, and has cleared the flag; or it returns -1 and has
left the fields of the name. -/
theorem server_name_sound (flow : FlowInfo) :
    (dpiHttpsProg flow).Stays flow.l4Data flow.l4Len.toNat ∧
    ((dpiHttpsProg flow).run flow.l4Data).2 = dpiHttpsProto flow ∧
    ((∃ i n, NameAt flow.l4Data flow.l4Len.toNat i n ∧
        (∀ j < i, ∀ m, ¬ NameAt flow.l4Data flow.l4Len.toNat j m) ∧
        (dpiHttpsProg flow).run flow.l4Data = (0, withName flow i n)) ∨
      (((dpiHttpsProg flow).run flow.l4Data).1 = -1 ∧
        ((dpiHttpsProg flow).run flow.l4Data).2.https = flow.https)) := by
  refine ⟨dpiHttpsProg_stays flow, dpiHttpsProg_run flow, ?_⟩
  unfold dpiHttpsProg
  split
  · exact Or.inr ⟨rfl, rfl⟩
  · rw [run_bind, gateProg_run]
    cases clientHelloGate flow with
    | false => exact Or.inr ⟨rfl, rfl⟩
    | true =>
        rcases httpsScanProg_first flow flow.l4Len.toNat flow.l4Len.toNat 0 (by omega) with
          ⟨i, n, -, hi, hbefore, hrun⟩ | ⟨-, hrun⟩
        · obtain ⟨hname, -⟩ := sniLenAt_iff.mp hi
          refine Or.inl ⟨i, n, hname, fun j hj m hm => ?_, hrun⟩
          -- a smaller offset would have been taken, or leaves none behind it
          rcases Nat.eq_or_lt_of_le hm.fits with hend | hfit
          · rw [no_name_behind hm hend hj] at hi
            exact absurd hi (by simp)
          · have htaken := sniLenAt_iff.mpr ⟨hm, hfit⟩
            rw [hbefore j (Nat.zero_le j) hj] at htaken
            exact absurd htaken (by simp)
        · exact Or.inr hrun

/-- The call returns 0 iff some name ends in front of the last byte. -/
theorem returns_zero_iff {flow : FlowInfo} (hlen : 16 ≤ flow.l4Len)
    (hgate : clientHelloGate flow = true) :
    ((dpiHttpsProg flow).run flow.l4Data).1 = 0 ↔
      ∃ j m, NameAt flow.l4Data flow.l4Len.toNat j m ∧ j + 9 + m < flow.l4Len.toNat := by
  unfold dpiHttpsProg
  rw [if_neg (by omega), run_bind, gateProg_run, hgate, if_pos rfl]
  rcases httpsScanProg_first flow flow.l4Len.toNat flow.l4Len.toNat 0 (by omega) with
    ⟨j, m, -, hj, -, hrun⟩ | ⟨hnone, hrun, -⟩
  · rw [hrun]
    exact ⟨fun _ => ⟨j, m, sniLenAt_iff.mp hj⟩, fun _ => rfl⟩
  · rw [hrun]
    constructor
    · intro h
      exact absurd h (by decide)
    · rintro ⟨j, m, hj⟩
      have htaken := sniLenAt_iff.mpr hj
      rw [hnone j (Nat.zero_le j)] at htaken
      exact absurd htaken (by simp)

/-- **A name in the segment is found** iff one of the names in it ends in front
of the last byte. -/
theorem server_name_found_iff (flow : FlowInfo) (hlen : 16 ≤ flow.l4Len)
    (hgate : clientHelloGate flow = true) :
    (∀ i n, NameAt flow.l4Data flow.l4Len.toNat i n →
        ((dpiHttpsProg flow).run flow.l4Data).1 = 0) ↔
      ∀ i n, NameAt flow.l4Data flow.l4Len.toNat i n →
        ∃ j m, NameAt flow.l4Data flow.l4Len.toNat j m ∧ j + 9 + m < flow.l4Len.toNat := by
  rw [returns_zero_iff hlen hgate]

/-! ## A name that ends with the segment -/

/-- A ClientHello cut to its record header and the server name `a.com`, and what
follows in the segment. -/
def helloSegment (rest : List UInt8) : FlowInfo where
  l4Protocol := ipprotoTcp
  l4Len := ([0x16, 3, 1, 0, 14, 1, 0, 0, 0, 10, 0, 8, 0, 0, 5, 0x61, 0x2e, 0x63, 0x6f, 0x6d] ++
    rest).length
  l4Data := memOf ([0x16, 3, 1, 0, 14, 1, 0, 0, 0, 10, 0, 8, 0, 0, 5, 0x61, 0x2e, 0x63, 0x6f, 0x6d] ++
    rest)

theorem helloSegment_name : NameAt (helloSegment []).l4Data (helloSegment []).l4Len.toNat 6 5 where
  zero := by decide
  nonzero := by decide
  length := by decide
  bounds := by decide
  fits := by decide
  chars := by decide +kernel

theorem server_name_found_before_end :
    ((dpiHttpsProg (helloSegment [0])).run (helloSegment [0]).l4Data).1 = 0 := by
  have hname : NameAt (helloSegment [0]).l4Data (helloSegment [0]).l4Len.toNat 6 5 := by
    refine ⟨by decide, by decide, by decide, by decide, by decide, by decide +kernel⟩
  exact (server_name_found_iff (helloSegment [0]) (by decide) (by decide)).mpr
    (fun _ _ _ => ⟨6, 5, hname, by decide⟩) 6 5 hname

/-- The name is there to its last byte and is not reported. -/
theorem name_at_end_missed :
    16 ≤ (helloSegment []).l4Len ∧ clientHelloGate (helloSegment []) = true ∧
      NameAt (helloSegment []).l4Data (helloSegment []).l4Len.toNat 6 5 ∧
      ((dpiHttpsProg (helloSegment [])).run (helloSegment []).l4Data).1 = -1 :=
  ⟨by decide, by decide, helloSegment_name, by decide +kernel⟩

end OpenAppFilter.Theorems
