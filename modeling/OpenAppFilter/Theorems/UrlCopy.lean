import OpenAppFilter.Kernel.Dpi
import OpenAppFilter.Kernel.System
import Mathlib.Data.List.Basic

/-!
# Lengths the URL matcher copies

`dpi_http_proto` measures the request line and the `Host` line of a payload by
the distance between line start and line end; `af_match_by_url` hands the
measured length to `strncpy`. A request line is at least as long as the method
it starts with, so its length is never negative. A `Host` line is measured from
the character after the blank that follows the colon, and a line that ends
right after the colon is one short of that: its length is -1.

The lines of a payload are described independently of the scanner
(`headerLines`): the texts between successive CR LF pairs, up to the first empty
line.
-/

namespace OpenAppFilter.Theorems

open Base Kernel

/-! ## The lines of a payload -/

/-- A CR LF pair starts at `i`. -/
def crlfAt (data : Mem) (i : Nat) : Bool := decide (data i = 0x0d) && decide (data (i + 1) = 0x0a)

/-- The CR LF pair at `i` is followed by another one: the header ends here. -/
def headerEnd (data : Mem) (i : Nat) : Bool := crlfAt data (i + 2)

/-- Where the header lines that end in `[i, i + n)` end: every CR LF pair up to
the one that is followed by another. -/
def lineEnds (data : Mem) (i n : Nat) : List Nat :=
  let ends := (List.range' i n).filter (crlfAt data)
  ends.takeWhile (fun e => !headerEnd data e) ++ (ends.find? (headerEnd data)).toList

/-- The lines with these ends, as start and end; a line starts after the CR LF
of the one before. -/
def linesFrom (start : Nat) (ends : List Nat) : List (Nat × Nat) :=
  (start :: ends.map (· + 2)).zip ends

/-- The header lines of a payload. -/
def headerLines (data : Mem) (len : Nat) : List (Nat × Nat) := linesFrom 0 (lineEnds data 0 len)

/-- The line starts with `POST ` or `GET `. -/
def isRequestLine (data : Mem) (l : Nat × Nat) : Bool :=
  memEq data l.1 "POST ".toList || memEq data l.1 "GET ".toList

/-- The line starts with `Host:`. -/
def isHostLine (data : Mem) (l : Nat × Nat) : Bool := memEq data l.1 "Host:".toList

theorem linesFrom_cons (start e : Nat) (es : List Nat) :
    linesFrom start (e :: es) = (start, e) :: linesFrom (e + 2) es := rfl

/-- The line ends from `i` on, one index at a time. -/
theorem lineEnds_succ (data : Mem) (i n : Nat) :
    lineEnds data i (n + 1) =
      if crlfAt data i = true then
        if headerEnd data i = true then [i] else i :: lineEnds data (i + 1) n
      else lineEnds data (i + 1) n := by
  unfold lineEnds
  rw [List.range'_succ]
  by_cases hc : crlfAt data i = true
  · rw [if_pos hc, List.filter_cons_of_pos hc]
    by_cases hh : headerEnd data i = true
    · simp [hh]
    · simp [hh]
  · rw [if_neg hc, List.filter_cons_of_neg hc]

/-- A line starts where it ends or before, and a CR stands at its end. The scan
at `i` has its current line start at `i` or before, or right behind the LF at
`i`. -/
theorem linesFrom_bounds {data : Mem} {n : Nat} : ∀ {i start : Nat},
    (start ≤ i ∨ (start = i + 1 ∧ data i ≠ 0x0d)) →
    ∀ l ∈ linesFrom start (lineEnds data i n), l.1 ≤ l.2 ∧ data l.2 = 0x0d := by
  induction n with
  | zero =>
      intro i start _ l hl
      simp [lineEnds, linesFrom] at hl
  | succ n ih =>
      intro i start hstart l hl
      rw [lineEnds_succ] at hl
      by_cases hc : crlfAt data i = true
      · have hcr : data i = 0x0d ∧ data (i + 1) = 0x0a := by simpa [crlfAt] using hc
        have hle : start ≤ i := by
          rcases hstart with h | ⟨-, hne⟩
          · exact h
          · exact absurd hcr.1 hne
        rw [if_pos hc] at hl
        by_cases hh : headerEnd data i = true
        · rw [if_pos hh, linesFrom_cons] at hl
          obtain rfl : l = (start, i) := by simpa [linesFrom] using hl
          exact ⟨hle, hcr.1⟩
        · rw [if_neg hh, linesFrom_cons] at hl
          rcases List.mem_cons.mp hl with rfl | hl
          · exact ⟨hle, hcr.1⟩
          · refine ih (Or.inr ⟨rfl, ?_⟩) l hl
            rw [hcr.2]
            decide
      · rw [if_neg hc] at hl
        refine ih (Or.inl ?_) l hl
        rcases hstart with h | ⟨h, -⟩
        · omega
        · omega

/-! ## The HTTP scanner reads exactly these lines -/

/-- The scanner folds `httpLine` over the header lines; it also notes where the
body starts. -/
theorem dpiHttpScan_eq_foldl (data : Mem) (dataLen : Nat) : ∀ (n i start : Nat)
    (http : HttpProto), ∃ pos len, dpiHttpScan data dataLen n i start http =
      { (linesFrom start (lineEnds data i n)).foldl
          (fun h l => httpLine data l.1 l.2 h) http with dataPos := pos, dataLen := len } := by
  intro n
  induction n with
  | zero =>
      intro i start http
      exact ⟨http.dataPos, http.dataLen, rfl⟩
  | succ n ih =>
      intro i start http
      rw [lineEnds_succ]
      unfold dpiHttpScan
      by_cases hc : data i = 0x0d ∧ data (i + 1) = 0x0a
      · have hc' : crlfAt data i = true := by simpa [crlfAt] using hc
        rw [if_pos hc, if_pos hc']
        by_cases hh : data (i + 2) = 0x0d ∧ data (i + 3) = 0x0a
        · have hh' : headerEnd data i = true := by simpa [headerEnd, crlfAt] using hh
          rw [if_pos hh, if_pos hh']
          exact ⟨_, _, rfl⟩
        · have hh' : ¬ headerEnd data i = true := by simpa [headerEnd, crlfAt] using hh
          rw [if_neg hh, if_neg hh', linesFrom_cons, List.foldl_cons]
          exact ih (i + 1) (i + 2) _
      · have hc' : ¬ crlfAt data i = true := by simpa [crlfAt] using hc
        rw [if_neg hc, if_neg hc']
        exact ih (i + 1) start http

/-- What the fold of `httpLine` leaves in the two fields of the `Host` line. -/
def hostField (http : HttpProto) : Option Nat × Int := (http.hostPos, http.hostLen)

/-- The two fields a `Host` line sets. -/
def hostOf (l : Nat × Nat) : Option Nat × Int := (some (l.1 + 6), (l.2 : Int) - l.1 - 6)

theorem memEq_head {data : Mem} {off : Nat} {c : Char} {s : CStr}
    (h : memEq data off (c :: s) = true) : (data off).toNat = c.toNat := by
  unfold memEq at h
  simp only [Bool.and_eq_true, decide_eq_true_eq] at h
  exact h.1

/-- A line is not both a request line and a `Host` line. -/
theorem isHostLine_of_request {data : Mem} {l : Nat × Nat} (h : isRequestLine data l = true) :
    isHostLine data l = false := by
  cases hhost : isHostLine data l with
  | false => rfl
  | true =>
      have hH : (data l.1).toNat = 'H'.toNat := memEq_head hhost
      rcases Bool.or_eq_true_iff.mp h with hpost | hget
      · have hP : (data l.1).toNat = 'P'.toNat := memEq_head hpost
        exact absurd (hH.symm.trans hP) (by decide)
      · have hG : (data l.1).toNat = 'G'.toNat := memEq_head hget
        exact absurd (hH.symm.trans hG) (by decide)

/-- One line sets the match flag iff it is a request line. -/
theorem httpLine_isMatch (data : Mem) (l : Nat × Nat) (http : HttpProto) :
    (httpLine data l.1 l.2 http).isMatch = (http.isMatch || isRequestLine data l) := by
  unfold httpLine isRequestLine
  generalize memEq data l.1 "POST ".toList = post
  generalize memEq data l.1 "GET ".toList = get
  generalize memEq data l.1 "Host:".toList = host
  cases post <;> cases get <;> cases host <;> simp

/-- One line sets the host fields iff it is a `Host` line. -/
theorem httpLine_hostField (data : Mem) (l : Nat × Nat) (http : HttpProto) :
    hostField (httpLine data l.1 l.2 http) =
      if isHostLine data l = true then hostOf l else hostField http := by
  have hexcl : isRequestLine data l = true → isHostLine data l = false := isHostLine_of_request
  unfold isRequestLine isHostLine at hexcl
  unfold httpLine isHostLine
  generalize memEq data l.1 "POST ".toList = post at hexcl ⊢
  generalize memEq data l.1 "GET ".toList = get at hexcl ⊢
  generalize memEq data l.1 "Host:".toList = host at hexcl ⊢
  cases post <;> cases get <;> cases host <;> simp_all [hostField, hostOf]

/-- A text without CR in front of a CR fits between line start and line end. -/
theorem memEq_fits {data : Mem} {s : CStr} (hs : ∀ c ∈ s, c ≠ '\r') {off stop : Nat}
    (h : memEq data off s = true) (hle : off ≤ stop) (hstop : data stop = 0x0d) :
    off + s.length ≤ stop := by
  induction s generalizing off with
  | nil => simpa using hle
  | cons c s ih =>
      have hne : off ≠ stop := by
        rintro rfl
        have hc : c = '\r' := by
          have hhead := memEq_head h
          rw [hstop] at hhead
          exact Char.ext (UInt32.toNat_inj.mp hhead.symm)
        exact hs c List.mem_cons_self hc
      have htail : memEq data (off + 1) s = true := by
        unfold memEq at h
        exact (Bool.and_eq_true_iff.mp h).2
      have hfit := ih (fun d hd => hs d (List.mem_cons_of_mem _ hd)) htail (by omega)
      simp only [List.length_cons]
      omega

/-- A request line is not shorter than its method, so the measured URL length
is never negative. -/
theorem httpLine_url {data : Mem} {l : Nat × Nat} {http : HttpProto} (hle : l.1 ≤ l.2)
    (hcr : data l.2 = 0x0d) (h : http.urlPos.isSome = true → 0 ≤ http.urlLen) :
    (httpLine data l.1 l.2 http).urlPos.isSome = true →
      0 ≤ (httpLine data l.1 l.2 http).urlLen := by
  unfold httpLine
  split
  · rename_i hpost
    have hfit := memEq_fits (by simp) hpost hle hcr
    have hlen : "POST ".toList.length = 5 := rfl
    rw [hlen] at hfit
    intro _
    show (0 : Int) ≤ (l.2 : Int) - l.1 - 5
    omega
  · split
    · rename_i hget
      have hfit := memEq_fits (by simp) hget hle hcr
      have hlen : "GET ".toList.length = 4 := rfl
      rw [hlen] at hfit
      intro _
      show (0 : Int) ≤ (l.2 : Int) - l.1 - 4
      omega
    · split
      · exact h
      · exact h

/-! ## The fields after all lines -/

/-- What the scanner has noted after the lines `ls`. -/
theorem foldl_httpLine {data : Mem} {ls : List (Nat × Nat)}
    (hls : ∀ l ∈ ls, l.1 ≤ l.2 ∧ data l.2 = 0x0d) : ∀ http : HttpProto,
    let out := ls.foldl (fun h l => httpLine data l.1 l.2 h) http
    out.isMatch = (http.isMatch || ls.any (isRequestLine data)) ∧
      hostField out = ((ls.filter (isHostLine data)).getLast?.map hostOf).getD (hostField http) ∧
      ((http.urlPos.isSome = true → 0 ≤ http.urlLen) →
        out.urlPos.isSome = true → 0 ≤ out.urlLen) := by
  induction ls with
  | nil =>
      intro http
      simp
  | cons l ls ih =>
      intro http
      have hl := hls l List.mem_cons_self
      obtain ⟨hmatch, hhost, hurl⟩ := ih (fun l' h' => hls l' (List.mem_cons_of_mem _ h'))
        (httpLine data l.1 l.2 http)
      refine ⟨?_, ?_, ?_⟩
      · rw [List.foldl_cons, hmatch, httpLine_isMatch, List.any_cons, Bool.or_assoc]
      · rw [List.foldl_cons, hhost, httpLine_hostField]
        by_cases hl' : isHostLine data l = true
        · rw [List.filter_cons_of_pos hl', if_pos hl']
          cases hlast : (ls.filter (isHostLine data)).getLast? with
          | none =>
              have hnil : ls.filter (isHostLine data) = [] := List.getLast?_eq_none_iff.mp hlast
              rw [hnil]
              rfl
          | some last => simp [List.getLast?_cons, hlast]
        · rw [List.filter_cons_of_neg hl', if_neg hl']
      · intro h
        exact hurl (httpLine_url hl.1 hl.2 h)

/-! ## The server name of a ClientHello -/

/-- The payload passes the gate of `dpi_https_proto` and holds a server name
within reach of its scan. -/
def SniFound (data : Mem) (len : Int) (clientHello : Bool) : Prop :=
  ((data 0 = 0x16 ∧ data 1 = 0x03 ∧ data 5 = 0x01) ∨ clientHello = true) ∧
    ∃ j, j + httpsUrlOffset < len.toNat ∧ (sniLenAt data len.toNat j).isSome = true

theorem sniLenAt_bounds {data : Mem} {dataLen i n : Nat} (h : sniLenAt data dataLen i = some n) :
    4 < n ∧ n ≤ 64 := by
  unfold sniLenAt at h
  split at h
  · dsimp only at h
    split at h
    · exact absurd h (by simp)
    · rename_i hlen
      split at h
      · split at h
        · obtain rfl := Option.some.inj h
          unfold minHostLen maxHostLen at hlen
          omega
        · exact absurd h (by simp)
      · exact absurd h (by simp)
  · exact absurd h (by simp)

/-- The scan from `i` on enters the first server name it finds, and otherwise
changes nothing but the flag. -/
theorem dpiHttpsScan_spec (flow : FlowInfo) (dataLen : Nat) : ∀ n i, dataLen ≤ i + n →
    ((∃ j, i ≤ j ∧ j + httpsUrlOffset < dataLen ∧
        (sniLenAt flow.l4Data dataLen j).isSome = true) ∧
      ∃ pos m, (4 < m ∧ m ≤ 64) ∧ dpiHttpsScan flow dataLen n i =
        { flow with
          https := { isMatch := true, urlPos := some pos, urlLen := (m : Nat) }
          clientHello := false }) ∨
    ((¬ ∃ j, i ≤ j ∧ j + httpsUrlOffset < dataLen ∧
        (sniLenAt flow.l4Data dataLen j).isSome = true) ∧
      ∃ hello, dpiHttpsScan flow dataLen n i = { flow with clientHello := hello }) := by
  intro n
  induction n with
  | zero =>
      intro i hn
      refine Or.inr ⟨?_, flow.clientHello, rfl⟩
      rintro ⟨j, hj, hlt, -⟩
      omega
  | succ n ih =>
      intro i hn
      unfold dpiHttpsScan
      by_cases hend : i + httpsUrlOffset ≥ dataLen
      · rw [if_pos hend]
        refine Or.inr ⟨?_, true, rfl⟩
        rintro ⟨j, hj, hlt, -⟩
        omega
      · rw [if_neg hend]
        cases hsni : sniLenAt flow.l4Data dataLen i with
        | some m =>
            refine Or.inl ⟨⟨i, le_refl i, by omega, by rw [hsni]; rfl⟩, ?_⟩
            exact ⟨_, m, sniLenAt_bounds hsni, rfl⟩
        | none =>
            rcases ih (i + 1) (by omega) with ⟨⟨j, hj, hlt, hs⟩, hout⟩ | ⟨hno, hout⟩
            · exact Or.inl ⟨⟨j, by omega, hlt, hs⟩, hout⟩
            · refine Or.inr ⟨?_, hout⟩
              rintro ⟨j, hj, hlt, hs⟩
              -- nothing at `i` itself, so the name would lie further on
              rcases Nat.eq_or_lt_of_le hj with rfl | hj'
              · rw [hsni] at hs
                exact Bool.false_ne_true hs
              · exact hno ⟨j, hj', hlt, hs⟩

/-! ## The copied lengths -/

/-- A freshly parsed TCP flow with the given payload; `base` is the rest of the
descriptor. -/
def payloadFlow (base : FlowInfo) (data : Mem) (len : Int) (clientHello : Bool) : FlowInfo :=
  { base with
    l4Protocol := ipprotoTcp
    l4Data := data
    l4Len := len
    clientHello := clientHello
    http := {}
    https := {} }

/-- The payload has a request line, its last `Host` line ends right after the
colon, and it holds no server name that the matcher would prefer. -/
def BareHost (data : Mem) (len : Int) (clientHello : Bool) : Prop :=
  minHttpDataLen ≤ len ∧ ¬ SniFound data len clientHello ∧
    (∃ l ∈ headerLines data len.toNat, isRequestLine data l = true) ∧
    ∃ start, ((headerLines data len.toNat).filter (isHostLine data)).getLast? =
      some (start, start + 5)

/-- The HTTP fields of a payload, by its header lines. -/
theorem dpiHttpProto_fields (base : FlowInfo) (data : Mem) (len : Int) (clientHello : Bool)
    (hlen : minHttpDataLen ≤ len) :
    ∃ http, dpiHttpProto (payloadFlow base data len clientHello) =
        { payloadFlow base data len clientHello with http := http } ∧
      http.isMatch = (headerLines data len.toNat).any (isRequestLine data) ∧
      hostField http = (((headerLines data len.toNat).filter
        (isHostLine data)).getLast?.map hostOf).getD (none, 0) ∧
      (http.urlPos.isSome = true → 0 ≤ http.urlLen) := by
  have hbounds : ∀ l ∈ headerLines data len.toNat, l.1 ≤ l.2 ∧ data l.2 = 0x0d :=
    linesFrom_bounds (Or.inl (le_refl 0))
  obtain ⟨hmatch, hhost, hurl⟩ := foldl_httpLine hbounds {}
  obtain ⟨pos, blen, hscan⟩ := dpiHttpScan_eq_foldl data len.toNat len.toNat 0 0 {}
  refine ⟨dpiHttpScan data len.toNat len.toNat 0 0 {}, ?_, ?_, ?_, ?_⟩
  · unfold dpiHttpProto
    rw [if_neg (by exact not_not.mpr rfl), if_neg (by exact not_lt.mpr hlen)]
    rfl
  · rw [hscan]
    exact hmatch
  · rw [hscan]
    exact hhost
  · rw [hscan]
    exact hurl (fun h => absurd h (by simp))

/-- A field is copied with a length in 0..63 iff its measured length is not
negative. -/
theorem urlCopyLen_ok_iff (len : Int) : (0 ≤ urlCopyLen len ∧ urlCopyLen len ≤ 63) ↔ 0 ≤ len := by
  unfold urlCopyLen maxUrlMatchLen
  split <;> omega

/-- The lengths the matcher copies are all in range iff the host it looks at has
a non-negative length, when the request has one. -/
theorem afMatchByUrl_ok_iff (env : Env) (flow : FlowInfo) (node : AfFeatureNode)
    (hreq : ∀ p ∈ urlRequest flow, 0 ≤ p.2) :
    (∀ n ∈ (afMatchByUrl env flow node).2, 0 ≤ n ∧ n ≤ 63) ↔ ∀ p ∈ urlHost flow, 0 ≤ p.2 := by
  have hfield : ∀ (field : Option (Nat × Int)) (reg : CStr),
      (∀ n ∈ (matchField env flow.l4Data field reg).2, 0 ≤ n ∧ n ≤ 63) ↔
        ∀ p ∈ field, 0 ≤ p.2 := by
    intro field reg
    cases field with
    | none => simp [matchField]
    | some p =>
        obtain ⟨pos, len⟩ := p
        simp [matchField, urlCopyLen_ok_iff]
  have hhost := hfield (urlHost flow) node.hostUrl
  have hreq' := (hfield (urlRequest flow) node.requestUrl).mpr hreq
  unfold afMatchByUrl
  dsimp only
  split
  · exact hhost
  · constructor
    · intro h
      exact hhost.mp (fun n hn => h n (List.mem_append_left _ hn))
    · intro h n hn
      rcases List.mem_append.mp hn with hn | hn
      · exact hhost.mpr h n hn
      · exact hreq' n hn

/-- What `dpi_https_proto` does to a flow with a payload of 16 bytes or more. -/
theorem dpiHttpsProto_cases (flow : FlowInfo) {hello : Bool} {len : Int}
    (hh : flow.clientHello = hello) (hl : flow.l4Len = len) (hlen : minHttpDataLen ≤ len) :
    (SniFound flow.l4Data len hello ∧ ∃ pos m, (4 < m ∧ m ≤ 64) ∧ dpiHttpsProto flow =
      { flow with
        https := { isMatch := true, urlPos := some pos, urlLen := (m : Nat) }
        clientHello := false }) ∨
    (¬ SniFound flow.l4Data len hello ∧
      ∃ hello', dpiHttpsProto flow = { flow with clientHello := hello' }) := by
  have hlong : ¬ flow.l4Len < 16 := by
    unfold minHttpDataLen at hlen
    omega
  have hgate : clientHelloGate flow = true ↔
      (flow.l4Data 0 = 0x16 ∧ flow.l4Data 1 = 0x03 ∧ flow.l4Data 5 = 0x01) ∨ hello = true := by
    simp [clientHelloGate, hh, and_assoc]
  unfold dpiHttpsProto
  rw [if_neg hlong]
  by_cases hg : clientHelloGate flow = true
  · rw [if_neg (by simp [hg])]
    rcases dpiHttpsScan_spec flow flow.l4Len.toNat flow.l4Len.toNat 0 (by omega) with
      ⟨⟨j, -, hlt, hs⟩, hout⟩ | ⟨hno, hout⟩
    · rw [hl] at hlt hs hout
      refine Or.inl ⟨⟨hgate.mp hg, j, hlt, hs⟩, ?_⟩
      rw [hl]
      exact hout
    · refine Or.inr ⟨?_, hout⟩
      rintro ⟨-, j, hlt, hs⟩
      rw [hl] at hno
      exact hno ⟨j, Nat.zero_le j, hlt, hs⟩
  · rw [if_pos (by simp [hg])]
    refine Or.inr ⟨fun h => hg (hgate.mpr h.1), flow.clientHello, rfl⟩

/-- The length of the last `Host` line, when there is a request line. -/
theorem hostLen_nonneg_iff {data : Mem} {len : Int} {clientHello : Bool} {http : HttpProto}
    (hlen : minHttpDataLen ≤ len) (hsni : ¬ SniFound data len clientHello)
    (hmatch : http.isMatch = (headerLines data len.toNat).any (isRequestLine data))
    (hhost : hostField http = (((headerLines data len.toNat).filter
      (isHostLine data)).getLast?.map hostOf).getD (none, 0)) :
    (∀ p ∈ (if http.isMatch = true then http.hostPos.map (fun pos => (pos, http.hostLen))
      else none), 0 ≤ p.2) ↔ ¬ BareHost data len clientHello := by
  have hbounds : ∀ l ∈ headerLines data len.toNat, l.1 ≤ l.2 ∧ data l.2 = 0x0d :=
    linesFrom_bounds (Or.inl (le_refl 0))
  rw [hmatch]
  unfold BareHost
  by_cases hany : (headerLines data len.toNat).any (isRequestLine data) = true
  · rw [if_pos hany]
    cases hlast : ((headerLines data len.toNat).filter (isHostLine data)).getLast? with
    | none =>
        rw [hlast] at hhost
        have hnone : http.hostPos = none := (Prod.mk.inj hhost).1
        simp [hnone]
    | some l =>
        rw [hlast] at hhost
        have hpos : http.hostPos = some (l.1 + 6) := (Prod.mk.inj hhost).1
        have hhl : http.hostLen = (l.2 : Int) - l.1 - 6 := (Prod.mk.inj hhost).2
        obtain ⟨hmem, hline⟩ := List.mem_filter.mp (List.mem_of_getLast? hlast)
        obtain ⟨hle, hcr⟩ := hbounds l hmem
        have hfit : l.1 + 5 ≤ l.2 := memEq_fits (by simp) hline hle hcr
        have hex := List.any_eq_true.mp hany
        rw [hpos, hhl]
        constructor
        · rintro hok ⟨-, -, -, start, hstart⟩
          have heq := Option.some.inj hstart
          have h0 := hok (l.1 + 6, (l.2 : Int) - l.1 - 6) rfl
          rw [heq] at h0
          dsimp only at h0
          omega
        · intro hno p hp
          obtain rfl := Option.mem_some.mp hp
          have hne : l.2 ≠ l.1 + 5 := by
            intro heq
            exact hno ⟨hlen, hsni, hex, l.1, by rw [← heq]⟩
          dsimp only
          omega
  · rw [if_neg hany]
    refine ⟨?_, fun _ p hp => absurd hp (by simp)⟩
    rintro - ⟨-, -, hex, -⟩
    exact hany (List.any_eq_true.mpr hex)

/-- Neither scanner looks at a payload that is too short. -/
theorem dpiMain_short (base : FlowInfo) (data : Mem) {len : Int} (clientHello : Bool)
    (hlen : ¬ minHttpDataLen ≤ len) :
    dpiMain (payloadFlow base data len clientHello) = payloadFlow base data len clientHello := by
  have hlt : len < 16 := by
    unfold minHttpDataLen at hlen
    omega
  have hhttp : dpiHttpProto (payloadFlow base data len clientHello) =
      payloadFlow base data len clientHello := by
    unfold dpiHttpProto
    rw [if_neg (by exact not_not.mpr rfl), if_pos (by exact hlt)]
  unfold dpiMain dpiHttpsProto
  rw [hhttp, if_pos (by exact hlt)]

/-- For every TCP payload, every flag and every signature: each length passed to
`strncpy` is between 0 and 63 iff the payload is not one with a request line, no
server name and a bare `Host:` line at the end of its `Host` lines. -/
theorem url_copy_lengths_iff (env : Env) (base : FlowInfo) (data : Mem) (len : Int)
    (clientHello : Bool) (node : AfFeatureNode) :
    (∀ n ∈ (afMatchByUrl env (dpiMain (payloadFlow base data len clientHello)) node).2,
      0 ≤ n ∧ n ≤ 63) ↔ ¬ BareHost data len clientHello := by
  by_cases hlen : minHttpDataLen ≤ len
  · obtain ⟨http, hflow, hmatch, hhost, hurl⟩ :=
      dpiHttpProto_fields base data len clientHello hlen
    unfold dpiMain
    rw [hflow]
    have hreq : ∀ hello' https, ∀ p ∈ urlRequest
        { payloadFlow base data len clientHello with
          http := http, https := https, clientHello := hello' }, 0 ≤ p.2 := by
      intro hello' https p hp
      unfold urlRequest at hp
      dsimp only at hp
      split at hp
      · rename_i pos hm hpos
        obtain rfl := Option.mem_some.mp hp
        exact hurl (by rw [hpos]; rfl)
      · exact absurd hp (by simp)
    rcases dpiHttpsProto_cases { payloadFlow base data len clientHello with http := http }
        rfl rfl hlen with
      ⟨hsni, pos, m, hm, hout⟩ | ⟨hsni, hello', hout⟩
    · -- the server name is copied, and it is short
      rw [hout, afMatchByUrl_ok_iff env _ node (hreq _ _)]
      refine ⟨fun _ hbare => hbare.2.1 hsni, ?_⟩
      intro _ p hp
      obtain rfl := Option.mem_some.mp hp
      exact Int.natCast_nonneg m
    · -- the last Host line is copied, when there is a request line
      rw [hout, afMatchByUrl_ok_iff env _ node (hreq _ _)]
      have hhostOf : urlHost { payloadFlow base data len clientHello with
          http := http, clientHello := hello' } =
          if http.isMatch = true then http.hostPos.map (fun pos => (pos, http.hostLen))
          else none := by
        unfold urlHost
        cases http.isMatch <;> cases http.hostPos <;> rfl
      rw [hhostOf]
      exact hostLen_nonneg_iff hlen hsni hmatch hhost
  · rw [dpiMain_short base data clientHello hlen]
    refine ⟨fun _ hbare => hlen hbare.1, fun _ n hn => ?_⟩
    exact absurd hn (by simp [afMatchByUrl, matchField, urlHost, urlRequest, payloadFlow])

/-- A request whose only header is a bare `Host:`. -/
def bareHostRequest : List UInt8 :=
  ("GET / HTTP/1.1\r\nHost:\r\n\r\n".toList).map (fun c => UInt8.ofNat c.toNat)

/-- The matcher asks `strncpy` for -1 bytes. -/
theorem bare_host_copies_negative_length :
    -1 ∈ (afMatchByUrl routerEnv
      (dpiMain (payloadFlow {} (memOf bareHostRequest) bareHostRequest.length false))
      { appId := 1001#32, proto := 6, hostUrl := "example".toList }).2 := by
  decide +kernel

end OpenAppFilter.Theorems
