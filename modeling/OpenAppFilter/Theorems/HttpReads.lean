import OpenAppFilter.Kernel.Scan
import OpenAppFilter.Theorems.UrlCopy

/-!
# What the HTTP scanner reads

The loop of `dpi_http_proto` runs over the indices of the payload and looks
further: at the byte behind a CR, at the two bytes behind a CR LF, and at the
five bytes from the start of the line that the CR LF ends. None of these is
compared with the length of the payload.

The header lines of a payload are those of `UrlCopy`. The scanner stays in the
payload iff each of them leaves it enough room, and a CR in the last byte is not
reached.
-/

namespace OpenAppFilter.Theorems

open Base Kernel Prog

/-! ## The reads of one index -/

theorem crlfProg_stays {data : Mem} {len i : Nat} :
    (crlfProg i).Stays data len ↔ i < len ∧ (data i = 0x0d → i + 1 < len) := by
  unfold crlfProg
  rw [stays_bind, stays_cell, run_cell]
  by_cases h : data i = 0x0d
  · simp [h]
  · simp [h]

/-- The first comparison is the longest. -/
theorem httpLineProg_stays {data : Mem} {len start i : Nat} {http : HttpProto} :
    (httpLineProg start i http).Stays data len ↔ start + 5 ≤ len := by
  have hpost : (memcmpProg start "POST ".toList).Stays data len ↔ start + 5 ≤ len :=
    memcmpProg_stays (by decide)
  have hget : (memcmpProg start "GET ".toList).Stays data len ↔ start + 4 ≤ len :=
    memcmpProg_stays (by decide)
  have hhost : (memcmpProg start "Host:".toList).Stays data len ↔ start + 5 ≤ len :=
    memcmpProg_stays (by decide)
  unfold httpLineProg
  rw [stays_bind, hpost]
  refine and_iff_left_of_imp (fun hroom => ?_)
  split
  · exact stays_pure _ _ _
  · rw [stays_bind, hget]
    refine ⟨by omega, ?_⟩
    split
    · exact stays_pure _ _ _
    · rw [stays_bind, hhost]
      exact ⟨hroom, stays_pure _ _ _⟩

/-! ## The lines have room -/

/-- The payload leaves the line `[l.1, l.2)` the bytes the scanner looks at when
it meets its end. -/
def LineRoom (data : Mem) (len : Nat) (l : Nat × Nat) : Prop :=
  l.1 + 5 ≤ len ∧ l.2 + 2 < len ∧ (data (l.2 + 2) = 0x0d → l.2 + 3 < len)

/-- The header lines of the payload have room, and a CR in its last byte comes
behind the end of the header. -/
def HeaderRoom (data : Mem) (len : Nat) : Prop :=
  (∀ l ∈ headerLines data len, LineRoom data len l) ∧
    (data (len - 1) = 0x0d → ∃ e ∈ lineEnds data 0 len, headerEnd data e = true)

instance (data : Mem) (len : Nat) (l : Nat × Nat) : Decidable (LineRoom data len l) :=
  inferInstanceAs (Decidable (_ ∧ _))

instance (data : Mem) (len : Nat) : Decidable (HeaderRoom data len) :=
  inferInstanceAs (Decidable (_ ∧ _))

/-- The scan from `i` on, with the current line start `start`. -/
theorem httpScanProg_stays {data : Mem} {len : Nat} : ∀ {n i start : Nat} {http : HttpProto},
    i + n = len →
    ((httpScanProg len n i start http).Stays data len ↔
      (∀ l ∈ linesFrom start (lineEnds data i n), LineRoom data len l) ∧
        (0 < n → data (len - 1) = 0x0d → ∃ e ∈ lineEnds data i n, headerEnd data e = true)) := by
  intro n
  induction n with
  | zero =>
      intro i start http _
      simp [httpScanProg, lineEnds, linesFrom]
  | succ n ih =>
      intro i start http hlen
      have hilen : i < len := by omega
      unfold httpScanProg
      rw [stays_bind, crlfProg_stays, crlfProg_run, lineEnds_succ]
      by_cases hc : data i = 0x0d ∧ data (i + 1) = 0x0a
      · have hc' : crlfAt data i = true := by simpa [crlfAt] using hc
        rw [if_pos (decide_eq_true hc), if_pos hc', stays_bind, stays_bind, httpLineProg_stays,
          crlfProg_stays, crlfProg_run]
        by_cases hh : data (i + 2) = 0x0d ∧ data (i + 3) = 0x0a
        · -- the end of the header: the scan stops
          have hh' : headerEnd data i = true := by simpa [headerEnd, crlfAt] using hh
          rw [if_pos (decide_eq_true hh), if_pos hh', linesFrom_cons]
          simp only [stays_pure, and_true, linesFrom, List.map_nil, List.zip_nil_right,
            List.mem_singleton, forall_eq, exists_eq_left, hh', implies_true, LineRoom]
          constructor
          · rintro ⟨-, hline, htwo, hthree⟩
            exact ⟨hline, htwo, hthree⟩
          · rintro ⟨hline, htwo, hthree⟩
            exact ⟨⟨hilen, fun _ => by omega⟩, hline, htwo, hthree⟩
        · have hh' : ¬ headerEnd data i = true := by simpa [headerEnd, crlfAt] using hh
          rw [if_neg (by simpa using hh), if_neg hh', linesFrom_cons,
            @ih (i + 1) (i + 2) _ (by omega)]
          simp only [List.mem_cons, forall_eq_or_imp, exists_eq_or_imp, hh',
            Bool.false_eq_true, false_or, LineRoom]
          constructor
          · rintro ⟨-, hline, ⟨htwo, hthree⟩, hrest, hlast⟩
            refine ⟨⟨⟨hline, htwo, hthree⟩, hrest⟩, fun _ hcr => hlast (by omega) hcr⟩
          · rintro ⟨⟨⟨hline, htwo, hthree⟩, hrest⟩, hlast⟩
            exact ⟨⟨hilen, fun _ => by omega⟩, hline, ⟨htwo, hthree⟩, hrest,
              fun _ hcr => hlast (by omega) hcr⟩
      · have hc' : ¬ crlfAt data i = true := by simpa [crlfAt] using hc
        rw [if_neg (by simpa using hc), if_neg hc', ih (i := i + 1) (by omega)]
        cases n with
        | zero =>
            -- the last byte: nothing may follow a CR
            have hi : len - 1 = i := by omega
            rw [hi]
            simp only [lineEnds, linesFrom, List.range'_zero, List.filter_nil, List.takeWhile_nil,
              List.find?_nil, Option.toList_none, List.append_nil, List.map_nil, List.zip_nil_right,
              List.not_mem_nil, IsEmpty.forall_iff, implies_true, false_and, exists_false, true_and,
              and_true, Nat.lt_irrefl, Nat.zero_add, Nat.lt_one_iff, forall_const]
            constructor
            · rintro ⟨-, hcr⟩ h
              have hnext := hcr h
              omega
            · intro hcr
              exact ⟨hilen, fun h => absurd h hcr⟩
        | succ n =>
            constructor
            · rintro ⟨-, hrest, hlast⟩
              exact ⟨hrest, fun _ => hlast (by omega)⟩
            · rintro ⟨hrest, hlast⟩
              exact ⟨⟨hilen, fun _ => by omega⟩, hrest, fun _ => hlast (by omega)⟩

/-- **The HTTP scanner reads only the payload** of a TCP segment of sixteen bytes
or more iff its header lines have room. -/
theorem http_reads_inside_iff (flow : FlowInfo) (htcp : flow.l4Protocol = ipprotoTcp)
    (hlen : minHttpDataLen ≤ flow.l4Len) :
    (dpiHttpProg flow).Stays flow.l4Data flow.l4Len.toNat ↔
      HeaderRoom flow.l4Data flow.l4Len.toNat := by
  unfold minHttpDataLen at hlen
  have hscan : (dpiHttpProg flow).Stays flow.l4Data flow.l4Len.toNat ↔
      (httpScanProg flow.l4Len.toNat flow.l4Len.toNat 0 0 flow.http).Stays flow.l4Data
        flow.l4Len.toNat := by
    unfold dpiHttpProg
    rw [if_neg (not_not.mpr htcp), if_neg (by unfold minHttpDataLen; omega), stays_bind]
    exact and_iff_left (stays_pure _ _ _)
  rw [hscan, httpScanProg_stays (Nat.zero_add _)]
  unfold HeaderRoom headerLines
  have hpos : 0 < flow.l4Len.toNat := by omega
  exact and_congr_right (fun _ => ⟨fun h => h hpos, fun h _ => h⟩)

/-! ## A CR at the end -/

/-- A TCP segment with the text as its payload, and zeros behind it. -/
def textSegment (text : CStr) : FlowInfo where
  l4Protocol := ipprotoTcp
  l4Len := text.length
  l4Data := memOf (text.map (fun c => UInt8.ofNat c.toNat))

def shortRequest : CStr := "GET / HTTP/1.0\r\nHost: a.cn\r\n\r\n".toList

theorem http_reads_inside_request :
    (dpiHttpProg (textSegment shortRequest)).Stays (textSegment shortRequest).l4Data
      shortRequest.length :=
  (http_reads_inside_iff (textSegment shortRequest) rfl (by decide)).mpr (by decide +kernel)

/-- The same request in two segments, the first one cut behind the CR. -/
def cutRequest : CStr := "GET /x HTTP/1.0\r".toList

theorem cr_at_end_read_past :
    cutRequest.length = 16 ∧
      .read 16 ∈ (dpiHttpProg (textSegment cutRequest)).accesses (textSegment cutRequest).l4Data ∧
      ¬ (dpiHttpProg (textSegment cutRequest)).Stays (textSegment cutRequest).l4Data
        cutRequest.length := by
  have hread : .read 16 ∈
      (dpiHttpProg (textSegment cutRequest)).accesses (textSegment cutRequest).l4Data := by
    decide +kernel
  refine ⟨rfl, hread, ?_⟩
  intro h
  exact absurd (h _ hread) (by unfold Access.Inside; decide)

end OpenAppFilter.Theorems
