import OpenAppFilter.Kernel.Client

/-!
# Flow descriptor and signature matching (`app_filter.c`)

From the packet to the flow descriptor (`parseFlowProto`, `readSkb`), the two
payload scanners (`dpiHttpProto`, `dpiHttpsProto`) and the matching of a flow
against the feature list (`matchFeature`).

`afMatchByUrl` also returns the lengths it hands to `strncpy`, in order: the
destination is the 64-byte `reg_url_buf`, and a negative `int` becomes a huge
`size_t` there. Such a copy is given the empty text.
-/

namespace OpenAppFilter.Kernel

open Base

variable {env : Env}

/-! ## From the packet to the flow -/

/-- `parse_flow_proto`; `none` for a negative result. -/
def parseFlowProto (skb : Skb) : Option FlowInfo :=
  let l4 (flow : FlowInfo) (ipp : Nat) (ippLen : Int) : Option FlowInfo :=
    if flow.l4Protocol = ipprotoTcp then
      let doff := (skb.net (ipp + 12)).toNat / 16
      some { flow with
        l4Len := ippLen - doff * 4
        l4Off := ipp + doff * 4
        l4Data := fun i => skb.net (ipp + doff * 4 + i)
        dport := ntohs16 skb.net (ipp + 2)
        sport := ntohs16 skb.net ipp }
    else if flow.l4Protocol = ipprotoUdp then
      some { flow with
        l4Len := (ntohs16 skb.net (ipp + 4) : Int) - 8
        l4Off := ipp + 8
        l4Data := fun i => skb.net (ipp + 8 + i)
        dport := ntohs16 skb.net (ipp + 2)
        sport := ntohs16 skb.net ipp }
    else none
  match skb.protocol with
  | .ip =>
      let ihl := (skb.net 0).toNat % 16
      l4 { src := ipSaddr skb, dst := ipDaddr skb, l4Protocol := (skb.net 9).toNat }
        (ihl * 4) ((ntohs16 skb.net 2 : Int) - ihl * 4)
  | .ipv6 =>
      l4 { src6 := some (ip6Saddr skb), dst6 := some (ip6Daddr skb),
           l4Protocol := (skb.net 6).toNat }
        40 (ntohs16 skb.net 4)
  | .other => none

/-- The loop of `read_skb`: `consumed` bytes are in the buffer. `fuel` is the
number of bytes still asked for, and every block is non-empty. -/
def readSkbLoop (skb : Skb) (start len : Nat) : Nat → Nat → Mem → Mem
  | 0, _, buf => buf
  | fuel + 1, consumed, buf =>
      match skb.seqRead (start + consumed) with
      | [] => buf
      | block =>
          let buf' : Mem := fun i =>
            if consumed ≤ i ∧ i < consumed + block.length then block.getD (i - consumed) 0
            else buf i
          if consumed + block.length ≥ len then buf'
          else readSkbLoop skb start len fuel (consumed + block.length) buf'

/-- `read_skb`: `none` when the buffer cannot be allocated. -/
def readSkb (skb : Skb) (start len : Nat) : Option Mem :=
  if skb.alloc.buf then some (readSkbLoop skb start len len 0 skb.alloc.staleBuf) else none

/-! ## HTTP -/

/-- `memcmp(&m[off], s, strlen(s)) == 0`. -/
def memEq (m : Mem) (off : Nat) : CStr → Bool
  | [] => true
  | c :: s => decide ((m off).toNat = c.toNat) && memEq m (off + 1) s

/-- What `dpi_http_proto` does with one line `[start, i)` that a CR LF ends. -/
def httpLine (data : Mem) (start i : Nat) (http : HttpProto) : HttpProto :=
  if memEq data start "POST ".toList then
    { http with isMatch := true, method := some .post, urlPos := some (start + 5),
                urlLen := (i : Int) - start - 5 }
  else if memEq data start "GET ".toList then
    { http with isMatch := true, method := some .get, urlPos := some (start + 4),
                urlLen := (i : Int) - start - 4 }
  else if memEq data start "Host:".toList then
    { http with hostPos := some (start + 6), hostLen := (i : Int) - start - 6 }
  else http

/-- The loop of `dpi_http_proto` at index `i`, with `n` indices left. -/
def dpiHttpScan (data : Mem) (dataLen : Nat) : Nat → Nat → Nat → HttpProto → HttpProto
  | 0, _, _, http => http
  | n + 1, i, start, http =>
      if data i = 0x0d ∧ data (i + 1) = 0x0a then
        let http := httpLine data start i http
        if data (i + 2) = 0x0d ∧ data (i + 3) = 0x0a then
          { http with dataPos := some (i + 4), dataLen := (dataLen : Int) - i - 4 }
        else dpiHttpScan data dataLen n (i + 1) (i + 2) http
      else dpiHttpScan data dataLen n (i + 1) start http

/-- `dpi_http_proto`. -/
def dpiHttpProto (flow : FlowInfo) : FlowInfo :=
  if flow.l4Protocol ≠ ipprotoTcp then flow
  else if flow.l4Len < minHttpDataLen then flow
  else { flow with
    http := dpiHttpScan flow.l4Data flow.l4Len.toNat flow.l4Len.toNat 0 0 flow.http }

/-! ## HTTPS -/

/-- `check_domain`. -/
def checkDomain (m : Mem) (off len : Nat) : Bool :=
  (List.range len).all (fun i =>
    let c := Char.ofNat (m (off + i)).toNat
    ('a' ≤ c && c ≤ 'z') || ('A' ≤ c && c ≤ 'Z') || ('0' ≤ c && c ≤ '9') ||
      c = '.' || c = '-' || c = ':')

/-- The server name length `dpi_https_proto` accepts at offset `i`. -/
def sniLenAt (data : Mem) (dataLen i : Nat) : Option Nat :=
  if data i = 0 ∧ data (i + 1) = 0 ∧ data (i + 2) = 0 ∧ data (i + 3) ≠ 0 then
    let urlLen := ntohs16 data (i + httpsLenOffset)
    if urlLen ≤ minHostLen ∨ urlLen > dataLen ∨ urlLen > maxHostLen then none
    else if i + httpsUrlOffset + urlLen < dataLen then
      if checkDomain data (i + httpsUrlOffset) urlLen then some urlLen else none
    else none
  else none

/-- The loop of `dpi_https_proto` at offset `i`, with `n` offsets left. -/
def dpiHttpsScan (flow : FlowInfo) (dataLen : Nat) : Nat → Nat → FlowInfo
  | 0, _ => flow
  | n + 1, i =>
      if i + httpsUrlOffset ≥ dataLen then { flow with clientHello := true }
      else
        match sniLenAt flow.l4Data dataLen i with
        | some urlLen =>
            { flow with
              https := { isMatch := true, urlPos := some (i + httpsUrlOffset), urlLen := urlLen }
              clientHello := false }
        | none => dpiHttpsScan flow dataLen n (i + 1)

/-- The gate of `dpi_https_proto`: a TLS ClientHello record, or the segment
after one. -/
def clientHelloGate (flow : FlowInfo) : Bool :=
  (flow.l4Data 0 = 0x16 && flow.l4Data 1 = 0x03 && flow.l4Data 5 = 0x01) || flow.clientHello

/-- `dpi_https_proto`. -/
def dpiHttpsProto (flow : FlowInfo) : FlowInfo :=
  if flow.l4Len < 16 then flow
  else if !clientHelloGate flow then flow
  else dpiHttpsScan flow flow.l4Len.toNat flow.l4Len.toNat 0

/-- `dpi_main`. -/
def dpiMain (flow : FlowInfo) : FlowInfo := dpiHttpsProto (dpiHttpProto flow)

/-! ## Signature matching -/

/-- `af_match_port`. -/
def afMatchPort (info : List RangeValue) (port : Int) : Bool :=
  let inRange (r : RangeValue) : Bool := port ≥ r.start && port ≤ r.stop
  if info.isEmpty then true
  else if info.any (·.isNot) then !info.any (fun r => r.isNot && inRange r)
  else info.any inRange

/-- `k_memstr`. -/
def kMemstr (data : Mem) (str : CStr) (size : Int) : Bool :=
  (List.range (size - str.length + 1).toNat).any (fun off => memEq data off str)

/-- `af_match_by_pos`; positions are compared as `unsigned int`. -/
def afMatchByPos (flow : FlowInfo) (node : AfFeatureNode) : Bool :=
  if node.posInfo.isEmpty then false
  else
    let hit (p : AfPosInfo) : Bool :=
      let pos := (if p.pos < 0 then flow.l4Len + p.pos else p.pos) % 2 ^ 32
      pos < flow.l4Len % 2 ^ 32 && flow.l4Data pos.toNat = p.value
    if (node.posInfo.take maxPosInfoPerFeature).all hit then
      if node.searchStr ≠ [] then kMemstr flow.l4Data node.searchStr flow.l4Len else true
    else false

/-- The text `strncpy(reg_url_buf, pos, n)` leaves in the cleared buffer. -/
def copyText (data : Mem) (pos : Nat) (n : Int) : CStr :=
  (((List.range n.toNat).map (fun i => data (pos + i))).takeWhile (· ≠ 0)).map
    (fun b => Char.ofNat b.toNat)

/-- The length `af_match_by_url` passes to `strncpy` for a field of length
`len`. -/
def urlCopyLen (len : Int) : Int := if len ≥ maxUrlMatchLen then maxUrlMatchLen - 1 else len

/-- The position and length of the host `af_match_by_url` looks at: the TLS
server name, else the `Host` line of a request. -/
def urlHost (flow : FlowInfo) : Option (Nat × Int) :=
  match flow.https.isMatch, flow.https.urlPos with
  | true, some pos => some (pos, flow.https.urlLen)
  | _, _ =>
      match flow.http.isMatch, flow.http.hostPos with
      | true, some pos => some (pos, flow.http.hostLen)
      | _, _ => none

/-- The position and length of the request line `af_match_by_url` looks at. -/
def urlRequest (flow : FlowInfo) : Option (Nat × Int) :=
  match flow.http.isMatch, flow.http.urlPos with
  | true, some pos => some (pos, flow.http.urlLen)
  | _, _ => none

/-- Copy a field into `reg_url_buf` and try the pattern `reg` on it: the
result and the copied length. -/
def matchField (env : Env) (data : Mem) (field : Option (Nat × Int)) (reg : CStr) :
    Bool × List Int :=
  match field with
  | none => (false, [])
  | some (pos, len) =>
      let text := copyText data pos (urlCopyLen len)
      (text ≠ [] && reg ≠ [] && env.regexpMatch reg text ≠ 0, [urlCopyLen len])

/-- `af_match_by_url`: the result, and the lengths passed to `strncpy`. -/
def afMatchByUrl (env : Env) (flow : FlowInfo) (node : AfFeatureNode) : Bool × List Int :=
  let host := matchField env flow.l4Data (urlHost flow) node.hostUrl
  if host.1 then (true, host.2)
  else
    let req := matchField env flow.l4Data (urlRequest flow) node.requestUrl
    (req.1, host.2 ++ req.2)

/-- `af_match_one`. -/
def afMatchOne (env : Env) (flow : FlowInfo) (node : AfFeatureNode) : Bool :=
  if node.proto > 0 ∧ flow.l4Protocol ≠ node.proto then false
  else if flow.l4Len = 0 then false
  else if node.sport ≠ 0 ∧ flow.sport ≠ node.sport then false
  else if !afMatchPort node.dportInfo flow.dport then false
  else if node.requestUrl ≠ [] ∨ node.hostUrl ≠ [] then (afMatchByUrl env flow node).1
  else if !node.posInfo.isEmpty then afMatchByPos flow node
  else true

/-- `af_match_quic`. -/
def afMatchQuic (flow : FlowInfo) : Bool :=
  if flow.l4Protocol ≠ ipprotoUdp then false
  else if flow.l4Len < 8 then false
  else if (flow.l4Data 0).toNat < 0x80 then false
  else
    let version := ntohs16 flow.l4Data 1 * 65536 + ntohs16 flow.l4Data 3
    version = 0x00000001 || version = 0x00000000 || version = 0x6b3343cf ||
      0xff000000 ≤ version || flow.dport = 443

/-- `match_feature`: the first matching signature is entered into the flow. -/
def matchFeature (k : OafState env) (flow : FlowInfo) : FlowInfo × Bool :=
  match k.afFeatureHead.find? (afMatchOne env flow) with
  | some node => ({ flow with appId := node.appId, feature := some node }, true)
  | none => (flow, false)

end OpenAppFilter.Kernel
