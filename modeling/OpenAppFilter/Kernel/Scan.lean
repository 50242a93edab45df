import OpenAppFilter.Base.Access
import OpenAppFilter.Kernel.Dpi

/-!
# The payload scanners, byte by byte (`app_filter.c`)

`dpi_http_proto`, `dpi_https_proto` and `af_match_by_pos` as programs whose reads
of the payload are steps of their own, in the order and under the conditions of
the source: `&&` looks at its right side only when the left one holds, and
`memcmp` may look at all the bytes it is given. They compute what `dpiHttpProto`,
`dpiHttpsProto` and `afMatchByPos` compute (`dpiHttpProg_run`,
`dpiHttpsProg_run`, `afMatchByPosProg_run`). `read_skb` is a program whose steps
are the bytes it writes (`readSkbProg_run`).
-/

namespace OpenAppFilter.Kernel

open Base Prog

/-! ## HTTP -/

/-- `memcmp(&data[off], s, strlen(s)) == 0`. -/
def memcmpProg (off : Nat) : CStr → Prog UInt8 Bool
  | [] => pure true
  | c :: s => do
      let b ← cell off
      let rest ← memcmpProg (off + 1) s
      pure (decide (b.toNat = c.toNat) && rest)

/-- `data[i] == 0x0d && data[i + 1] == 0x0a`. -/
def crlfProg (i : Nat) : Prog UInt8 Bool := do
  let b ← cell i
  if b = 0x0d then do
    let b ← cell (i + 1)
    pure (decide (b = 0x0a))
  else pure false

/-- The comparisons of one line. -/
def httpLineProg (start i : Nat) (http : HttpProto) : Prog UInt8 HttpProto := do
  let isPost ← memcmpProg start "POST ".toList
  if isPost then
    pure { http with isMatch := true, method := some .post, urlPos := some (start + 5),
                     urlLen := (i : Int) - start - 5 }
  else do
    let isGet ← memcmpProg start "GET ".toList
    if isGet then
      pure { http with isMatch := true, method := some .get, urlPos := some (start + 4),
                       urlLen := (i : Int) - start - 4 }
    else do
      let isHost ← memcmpProg start "Host:".toList
      pure (if isHost then
        { http with hostPos := some (start + 6), hostLen := (i : Int) - start - 6 } else http)

/-- The loop of `dpi_http_proto` at index `i`, with `n` indices left. -/
def httpScanProg (dataLen : Nat) : Nat → Nat → Nat → HttpProto → Prog UInt8 HttpProto
  | 0, _, _, http => pure http
  | n + 1, i, start, http => do
      let lineEnd ← crlfProg i
      if lineEnd then do
        let http ← httpLineProg start i http
        let headerEnd ← crlfProg (i + 2)
        if headerEnd then
          pure { http with dataPos := some (i + 4), dataLen := (dataLen : Int) - i - 4 }
        else httpScanProg dataLen n (i + 1) (i + 2) http
      else httpScanProg dataLen n (i + 1) start http

/-- `dpi_http_proto`. -/
def dpiHttpProg (flow : FlowInfo) : Prog UInt8 FlowInfo :=
  if flow.l4Protocol ≠ ipprotoTcp then pure flow
  else if flow.l4Len < minHttpDataLen then pure flow
  else do
    let http ← httpScanProg flow.l4Len.toNat flow.l4Len.toNat 0 0 flow.http
    pure { flow with http := http }

@[simp] theorem memcmpProg_run (data : Mem) (off : Nat) (s : CStr) :
    (memcmpProg off s).run data = memEq data off s := by
  induction s generalizing off with
  | nil => rfl
  | cons c s ih =>
      unfold memcmpProg memEq
      rw [run_bind, run_bind, run_cell, ih]
      rfl

@[simp] theorem crlfProg_run (data : Mem) (i : Nat) :
    (crlfProg i).run data = decide (data i = 0x0d ∧ data (i + 1) = 0x0a) := by
  unfold crlfProg
  rw [run_bind, run_cell]
  by_cases h : data i = 0x0d
  · rw [if_pos h, run_bind, run_cell, run_pure, decide_eq_decide]
    exact (and_iff_right h).symm
  · rw [if_neg h, run_pure]
    simp [h]

@[simp] theorem httpLineProg_run (data : Mem) (start i : Nat) (http : HttpProto) :
    (httpLineProg start i http).run data = httpLine data start i http := by
  unfold httpLineProg httpLine
  simp only [run_bind, memcmpProg_run]
  split
  · rfl
  · simp only [run_bind, memcmpProg_run]
    split
    · rfl
    · simp only [run_bind, memcmpProg_run, run_pure]

theorem httpScanProg_run (data : Mem) (dataLen : Nat) : ∀ (n i start : Nat) (http : HttpProto),
    (httpScanProg dataLen n i start http).run data = dpiHttpScan data dataLen n i start http := by
  intro n
  induction n with
  | zero =>
      intro i start http
      rfl
  | succ n ih =>
      intro i start http
      unfold httpScanProg dpiHttpScan
      simp only [run_bind, crlfProg_run, decide_eq_true_eq]
      split
      · simp only [run_bind, crlfProg_run, httpLineProg_run, decide_eq_true_eq]
        split
        · rfl
        · exact ih (i + 1) (i + 2) _
      · exact ih (i + 1) start http

theorem dpiHttpProg_run (flow : FlowInfo) : (dpiHttpProg flow).run flow.l4Data = dpiHttpProto flow := by
  unfold dpiHttpProg dpiHttpProto
  split
  · rfl
  · split
    · rfl
    · simp only [run_bind, run_pure, httpScanProg_run]

/-! ## HTTPS -/

/-- The bytes `check_domain` lets pass. -/
def isDomainByte (b : UInt8) : Bool :=
  let c := Char.ofNat b.toNat
  ('a' ≤ c && c ≤ 'z') || ('A' ≤ c && c ≤ 'Z') || ('0' ≤ c && c ≤ '9') ||
    c = '.' || c = '-' || c = ':'

/-- `check_domain`, with `n` bytes left. -/
def checkDomainProg : Nat → Nat → Prog UInt8 Bool
  | _, 0 => pure true
  | off, n + 1 => do
      let b ← cell off
      if isDomainByte b then checkDomainProg (off + 1) n else pure false

/-- `p[i] == 0 && p[i + 1] == 0 && p[i + 2] == 0 && p[i + 3] != 0`. -/
def markerProg (i : Nat) : Prog UInt8 Bool := do
  let b ← cell i
  if b = 0 then do
    let b ← cell (i + 1)
    if b = 0 then do
      let b ← cell (i + 2)
      if b = 0 then do
        let b ← cell (i + 3)
        pure (b != 0)
      else pure false
    else pure false
  else pure false

/-- The body of the loop at offset `i`: the length of the server name there. -/
def sniProg (dataLen i : Nat) : Prog UInt8 (Option Nat) := do
  let marked ← markerProg i
  if marked then do
    -- memcpy(&url_len, p + i + HTTPS_LEN_OFFSET, 2)
    let hi ← cell (i + httpsLenOffset)
    let lo ← cell (i + httpsLenOffset + 1)
    let urlLen := 256 * hi.toNat + lo.toNat
    if urlLen ≤ minHostLen ∨ urlLen > dataLen ∨ urlLen > maxHostLen then pure none
    else if i + httpsUrlOffset + urlLen < dataLen then do
      let valid ← checkDomainProg (i + httpsUrlOffset) urlLen
      pure (if valid then some urlLen else none)
    else pure none
  else pure none

/-- The loop of `dpi_https_proto` at offset `i`, with `n` offsets left: the
return value and the flow. -/
def httpsScanProg (flow : FlowInfo) (dataLen : Nat) : Nat → Nat → Prog UInt8 (Int × FlowInfo)
  | 0, _ => pure (-1, flow)
  | n + 1, i =>
      if i + httpsUrlOffset ≥ dataLen then pure (-1, { flow with clientHello := true })
      else do
        let name ← sniProg dataLen i
        match name with
        | some urlLen =>
            pure (0, { flow with
              https := { isMatch := true, urlPos := some (i + httpsUrlOffset), urlLen := urlLen }
              clientHello := false })
        | none => httpsScanProg flow dataLen n (i + 1)

/-- `(p[0] == 0x16 && p[1] == 0x03 && p[5] == 0x01) || flow->client_hello`. -/
def gateProg (clientHello : Bool) : Prog UInt8 Bool := do
  let b ← cell 0
  if b = 0x16 then do
    let b ← cell 1
    if b = 0x03 then do
      let b ← cell 5
      pure (b == 0x01 || clientHello)
    else pure clientHello
  else pure clientHello

/-- `dpi_https_proto`: the return value and the flow. -/
def dpiHttpsProg (flow : FlowInfo) : Prog UInt8 (Int × FlowInfo) :=
  if flow.l4Len < 16 then pure (-1, flow)
  else do
    let hello ← gateProg flow.clientHello
    if hello then httpsScanProg flow flow.l4Len.toNat flow.l4Len.toNat 0 else pure (-1, flow)

theorem checkDomain_eq (data : Mem) (off n : Nat) :
    checkDomain data off n = (List.range n).all (fun i => isDomainByte (data (off + i))) := rfl

@[simp] theorem checkDomainProg_run (data : Mem) (off n : Nat) :
    (checkDomainProg off n).run data = checkDomain data off n := by
  induction n generalizing off with
  | zero => rfl
  | succ n ih =>
      rw [checkDomain_eq, List.range_succ_eq_map, List.all_cons, List.all_map]
      unfold checkDomainProg
      rw [run_bind, run_cell, Nat.add_zero]
      cases hb : isDomainByte (data off) with
      | false => simp
      | true =>
          simp only [if_true, ih, checkDomain_eq, Bool.true_and]
          refine List.all_congr rfl (fun i => ?_)
          rw [Function.comp_apply, Nat.add_right_comm, Nat.add_assoc]

@[simp] theorem markerProg_run (data : Mem) (i : Nat) :
    (markerProg i).run data =
      decide (data i = 0 ∧ data (i + 1) = 0 ∧ data (i + 2) = 0 ∧ data (i + 3) ≠ 0) := by
  rw [Bool.eq_iff_iff, decide_eq_true_eq]
  unfold markerProg
  by_cases h0 : data i = 0
  · by_cases h1 : data (i + 1) = 0
    · by_cases h2 : data (i + 2) = 0
      · simp [h0, h1, h2]
      · simp [h0, h1, h2]
    · simp [h0, h1]
  · simp [h0]

@[simp] theorem sniProg_run (data : Mem) (dataLen i : Nat) :
    (sniProg dataLen i).run data = sniLenAt data dataLen i := by
  unfold sniProg sniLenAt ntohs16
  simp only [run_bind, markerProg_run, decide_eq_true_eq]
  split
  · rw [run_bind, run_cell, run_bind, run_cell]
    split
    · rfl
    · split
      · rw [run_bind, checkDomainProg_run, run_pure]
      · rfl
  · rfl

theorem gateProg_run (flow : FlowInfo) :
    (gateProg flow.clientHello).run flow.l4Data = clientHelloGate flow := by
  rw [Bool.eq_iff_iff]
  unfold gateProg clientHelloGate
  by_cases h0 : flow.l4Data 0 = 0x16
  · by_cases h1 : flow.l4Data 1 = 0x03
    · simp [h0, h1]
    · simp [h0, h1]
  · simp [h0]

theorem httpsScanProg_run (flow : FlowInfo) (dataLen : Nat) : ∀ n i,
    ((httpsScanProg flow dataLen n i).run flow.l4Data).2 = dpiHttpsScan flow dataLen n i := by
  intro n
  induction n with
  | zero =>
      intro i
      rfl
  | succ n ih =>
      intro i
      unfold httpsScanProg dpiHttpsScan
      split
      · rfl
      · rw [run_bind, sniProg_run]
        cases sniLenAt flow.l4Data dataLen i with
        | some urlLen => rfl
        | none => exact ih (i + 1)

theorem dpiHttpsProg_run (flow : FlowInfo) :
    ((dpiHttpsProg flow).run flow.l4Data).2 = dpiHttpsProto flow := by
  unfold dpiHttpsProg dpiHttpsProto
  split
  · rfl
  · rw [run_bind, gateProg_run]
    cases clientHelloGate flow with
    | true => exact httpsScanProg_run flow _ _ 0
    | false => rfl

/-! ## Positions and search strings -/

/-- The loop of `k_memstr` from offset `off` on, with `n` offsets left. -/
def memstrProg (str : CStr) : Nat → Nat → Prog UInt8 Bool
  | _, 0 => pure false
  | off, n + 1 => do
      let same ← memcmpProg off str
      if same then pure true else memstrProg str (off + 1) n

/-- `k_memstr`: no offset at all where the string is longer than the data. -/
def kMemstrProg (str : CStr) (size : Int) : Prog UInt8 Bool :=
  memstrProg str 0 (size - str.length + 1).toNat

/-- `pos` of an entry, an `unsigned int`: a negative one counts from the end of
the data. -/
def entryPos (l4Len pos : Int) : Int := (if pos < 0 then l4Len + pos else pos) % 2 ^ 32

/-- The loop over the entries. -/
def entriesProg (l4Len : Int) : List AfPosInfo → Prog UInt8 Bool
  | [] => pure true
  | p :: ps =>
      if entryPos l4Len p.pos ≥ l4Len % 2 ^ 32 then pure false
      else do
        let b ← cell (entryPos l4Len p.pos).toNat
        if b = p.value then entriesProg l4Len ps else pure false

/-- `af_match_by_pos`. -/
def afMatchByPosProg (flow : FlowInfo) (node : AfFeatureNode) : Prog UInt8 Bool :=
  if node.posInfo.isEmpty then pure false
  else do
    let hit ← entriesProg flow.l4Len (node.posInfo.take maxPosInfoPerFeature)
    if hit then
      if node.searchStr ≠ [] then kMemstrProg node.searchStr flow.l4Len else pure true
    else pure false

theorem memstrProg_run (data : Mem) (str : CStr) : ∀ n off,
    (memstrProg str off n).run data = (List.range' off n).any (fun i => memEq data i str) := by
  intro n
  induction n with
  | zero => exact fun _ => rfl
  | succ n ih =>
      intro off
      rw [memstrProg, run_bind, memcmpProg_run, List.range'_succ, List.any_cons]
      cases memEq data off str with
      | true => rfl
      | false =>
          rw [if_neg Bool.false_ne_true, Bool.false_or]
          exact ih (off + 1)

theorem kMemstrProg_run (data : Mem) (str : CStr) (size : Int) :
    (kMemstrProg str size).run data = kMemstr data str size := by
  unfold kMemstrProg kMemstr
  rw [memstrProg_run, List.range_eq_range']

/-- The entry holds in the data. -/
def entryHit (flow : FlowInfo) (p : AfPosInfo) : Bool :=
  decide (entryPos flow.l4Len p.pos < flow.l4Len % 2 ^ 32) &&
    decide (flow.l4Data (entryPos flow.l4Len p.pos).toNat = p.value)

theorem entriesProg_run (flow : FlowInfo) (ps : List AfPosInfo) :
    (entriesProg flow.l4Len ps).run flow.l4Data = ps.all (entryHit flow) := by
  induction ps with
  | nil => rfl
  | cons p ps ih =>
      rw [entriesProg, List.all_cons]
      unfold entryHit
      by_cases hlt : entryPos flow.l4Len p.pos < flow.l4Len % 2 ^ 32
      · rw [if_neg (Int.not_le.mpr hlt), run_bind, run_cell, decide_eq_true hlt, Bool.true_and]
        by_cases hvalue : flow.l4Data (entryPos flow.l4Len p.pos).toNat = p.value
        · rw [if_pos hvalue, ih, decide_eq_true hvalue, Bool.true_and]
          rfl
        · rw [if_neg hvalue, decide_eq_false hvalue, Bool.false_and, run_pure]
      · rw [if_pos (Int.not_lt.mp hlt), decide_eq_false hlt, Bool.false_and, Bool.false_and, run_pure]

theorem afMatchByPos_eq (flow : FlowInfo) (node : AfFeatureNode) :
    afMatchByPos flow node =
      if node.posInfo.isEmpty then false
      else if (node.posInfo.take maxPosInfoPerFeature).all (entryHit flow) then
        if node.searchStr ≠ [] then kMemstr flow.l4Data node.searchStr flow.l4Len else true
      else false := rfl

theorem afMatchByPosProg_run (flow : FlowInfo) (node : AfFeatureNode) :
    (afMatchByPosProg flow node).run flow.l4Data = afMatchByPos flow node := by
  rw [afMatchByPos_eq]
  unfold afMatchByPosProg
  split
  · rfl
  · rw [run_bind, entriesProg_run]
    split
    · split
      · exact kMemstrProg_run _ _ _
      · rfl
    · rfl

/-! ## The copy of a packet -/

/-- `memcpy` of `n` bytes to index `off` of a buffer of the given size. -/
def memcpyProg (size : Nat) : Nat → Nat → Prog UInt8 Unit
  | _, 0 => pure ()
  | off, n + 1 => do
      put size off
      memcpyProg size (off + 1) n

/-- The buffer with the block at index `off`. -/
def withBlock (buf : Mem) (off : Nat) (block : List UInt8) : Mem := fun i =>
  if off ≤ i ∧ i < off + block.length then block.getD (i - off) 0 else buf i

/-- The loop of `read_skb`, as `readSkbLoop` runs it. -/
def readSkbLoopProg (skb : Skb) (start len : Nat) : Nat → Nat → Mem → Prog UInt8 Mem
  | 0, _, buf => pure buf
  | fuel + 1, consumed, buf =>
      match skb.seqRead (start + consumed) with
      | [] => pure buf
      | block => do
          memcpyProg len consumed block.length
          if consumed + block.length ≥ len then pure (withBlock buf consumed block)
          else readSkbLoopProg skb start len fuel (consumed + block.length) (withBlock buf consumed block)

/-- `read_skb`. -/
def readSkbProg (skb : Skb) (start len : Nat) : Prog UInt8 (Option Mem) :=
  if skb.alloc.buf then do
    let buf ← readSkbLoopProg skb start len len 0 skb.alloc.staleBuf
    pure (some buf)
  else pure none

theorem readSkbLoopProg_run (m : Mem) (skb : Skb) (start len : Nat) : ∀ fuel consumed buf,
    (readSkbLoopProg skb start len fuel consumed buf).run m = readSkbLoop skb start len fuel consumed buf := by
  intro fuel
  induction fuel with
  | zero => exact fun _ _ => rfl
  | succ fuel ih =>
      intro consumed buf
      unfold readSkbLoopProg readSkbLoop
      cases skb.seqRead (start + consumed) with
      | nil => rfl
      | cons b block =>
          simp only [run_bind]
          split
          · rfl
          · exact ih _ _

theorem readSkbProg_run (m : Mem) (skb : Skb) (start len : Nat) :
    (readSkbProg skb start len).run m = readSkb skb start len := by
  unfold readSkbProg readSkb
  split
  · rw [run_bind, readSkbLoopProg_run, run_pure]
  · rfl

theorem memcpyProg_accesses (m : Mem) (size : Nat) : ∀ n off,
    (memcpyProg size off n).accesses m = (List.range' off n).map (fun i => .write size i) := by
  intro n
  induction n with
  | zero => exact fun _ => rfl
  | succ n ih =>
      intro off
      rw [memcpyProg, accesses_bind, accesses_put, ih, List.range'_succ, List.map_cons]
      rfl

/-! ## Where the comparisons stay -/

theorem memcmpProg_stays {data : Mem} {len : Nat} : ∀ {s : CStr} {off : Nat}, s ≠ [] →
    ((memcmpProg off s).Stays data len ↔ off + s.length ≤ len) := by
  intro s
  induction s with
  | nil =>
      intro off h
      exact absurd rfl h
  | cons c s ih =>
      intro off _
      unfold memcmpProg
      simp only [stays_bind, stays_cell, stays_pure, and_true, List.length_cons]
      cases s with
      | nil =>
          simp only [memcmpProg, stays_pure, and_true, List.length_nil]
          omega
      | cons d s =>
          rw [ih (by simp), List.length_cons]
          omega

end OpenAppFilter.Kernel
