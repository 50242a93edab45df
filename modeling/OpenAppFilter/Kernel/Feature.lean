import OpenAppFilter.Base.Copy
import OpenAppFilter.Base.Cut
import OpenAppFilter.Kernel.Netlink
import OpenAppFilter.Kernel.State
import OpenAppFilter.Kernel.Utils

/-!
# Feature lines (`app_filter.c`)

A line `id name:[feature,feature,…]` of the signature base: `af_init_feature`
cuts it into features, `add_app_feature` cuts a feature into its fields, and
`__add_app_feature` fills the node and decodes the dictionary of payload bytes.

Conventions.

* Every function notes what it copies, and goes on as if there were room. What
  the code does with a text that does not fit is not modelled, only that it does
  not fit.
* `strncpy(pos, begin, -1)` asks for more than there is memory; nothing behind
  it is modelled.
* `kmalloc` and `kzalloc` are parameters, and so is what `app_id` holds before
  it is scanned.
-/

namespace OpenAppFilter.Kernel

open Base Copying

/-! ## Buffers -/

/-- The destinations of the copies: the local buffers, the arrays of the node,
and the tables that are filled by index. -/
inductive Buf where
  | featureBuf
  | feature
  | protoStr
  | srcPortStr
  | dstPortStr
  | hostUrl
  | requestUrl
  | dict
  | searchStr
  | tmpBuf
  | onePortBuf
  | pureRange
  | rangeList
  | pos
  | nodeAppName
  | nodeHostUrl
  | nodeRequestUrl
  | nodeSearchStr
  | nodeFeature
  | nodePosInfo
  deriving DecidableEq, Repr

def maxFeatureStrLen : Nat := 128
def minFeatureStrLen : Nat := 8

/-- Their sizes: `MAX_APP_NAME_LEN`, `MAX_HOST_URL_LEN` and so on for the
node. -/
def Buf.size : Buf → Nat
  | .featureBuf => maxFeatureLineLen
  | .feature => maxFeatureStrLen
  | .protoStr => 16
  | .srcPortStr => 16
  | .dstPortStr => 16
  | .hostUrl => 32
  | .requestUrl => 128
  | .dict => 128
  | .searchStr => 128
  | .tmpBuf => 128
  | .onePortBuf => 128
  | .pureRange => 128
  | .rangeList => 5
  | .pos => 64
  | .nodeAppName => 64
  | .nodeHostUrl => 128
  | .nodeRequestUrl => 128
  | .nodeSearchStr => 32
  | .nodeFeature => maxFeatureStrLen
  | .nodePosInfo => maxPosInfoPerFeature

/-- `strncpy(dst, begin, p - begin)` of a piece that ends at a separator. -/
def copyPiece (dst : Buf) (piece : CStr) : Copying Buf Unit := strncpy dst piece.length

/-- `strncpy(dst, begin, p - begin)` of the last piece, with `p` one behind the
NUL: the NUL is copied as well. -/
def copyLast (dst : Buf) (last : CStr) : Copying Buf Unit := copy dst (last.length + 1) last.length

/-- The element `i` of a table is filled. -/
def fill (dst : Buf) (i : Nat) : Copying Buf Unit := copy dst (i + 1) i

/-! ## Port lists -/

/-- `validate_range_value`. -/
def validateRangeValue (s : CStr) : Bool :=
  s.all (fun c => c == ' ' || c == '!' || c == '-' || c.isDigit)

/-- The numbers of `pure_range`. -/
def rangeOf (isNot : Bool) (pureRange : CStr) : Option RangeValue :=
  if strstr pureRange ['-'] then
    match sscanf [.int, .lit '-', .int] pureRange with
    | [start, stop] => some ⟨isNot, start.toInt, stop.toInt⟩
    | _ => none
  else
    match sscanf [.int] pureRange with
    | [start] => some ⟨isNot, start.toInt, start.toInt⟩
    | _ => none

/-- `parse_range_value` into the element `num`, which is written unless the text
holds a character it must not. -/
def parseRangeValue (num : Nat) (s : CStr) : Copying Buf (Option RangeValue) :=
  if !validateRangeValue s then pure none
  else do
    let s := kTrim s
    let isNot := s.head? == some '!'
    let text := if isNot then s.tail else s
    fill .rangeList num
    strcpy .pureRange text
    pure (rangeOf isNot (kTrim text))

/-- One piece: the range is kept when it could be read. -/
def addRange (ranges : List RangeValue) (piece : CStr) : Copying Buf (List RangeValue) := do
  let range ← parseRangeValue ranges.length piece
  pure (ranges ++ range.toList)

/-- The loop over the pieces that end at a `|`. -/
def portLoop : List RangeValue → List CStr → Copying Buf (List RangeValue)
  | ranges, [] => pure ranges
  | ranges, piece :: ps => do
      copyPiece .onePortBuf piece
      let ranges ← addRange ranges piece
      portLoop ranges ps

/-- `parse_port_info` into a zeroed `port_info_t`: its `num` ranges. -/
def parsePortInfo (portStr : CStr) : Copying Buf (List RangeValue) :=
  let s := kTrim portStr
  if s = [] then pure []
  else do
    let ranges ← portLoop [] (cut '|' s).1
    copyLast .onePortBuf (cut '|' s).2
    addRange ranges (cut '|' s).2

/-! ## The dictionary -/

/-- `index`, `value` and the entries stored. -/
structure PosScan where
  index : Int32 := 0
  value : Int32 := 0
  infos : List AfPosInfo := []

/-- `k_sscanf(pos, "%d:%x", &index, &value)`. -/
def PosScan.read (st : PosScan) (pos : CStr) : PosScan × Nat :=
  match kSscanf [.int, .lit ':', .hex] pos with
  | [] => (st, 0)
  | [index] => ({ st with index := index }, 1)
  | index :: value :: _ => ({ st with index := index, value := value }, 2)

/-- The entry is stored and counted. -/
def PosScan.store (st : PosScan) : PosScan :=
  { st with infos := st.infos ++ [⟨st.index.toInt, UInt8.ofInt st.value.toInt⟩] }

/-- The loop over the entries that end at a `|`, and whether it was left by its
`break`. -/
def dictLoop : PosScan → List CStr → Copying Buf (PosScan × Bool)
  | st, [] => pure (st, false)
  | st, piece :: ps => do
      copyPiece .pos piece
      fill .nodePosInfo st.infos.length
      let st := (st.read piece).1.store
      if maxPosInfoPerFeature - 1 ≤ st.infos.length then pure (st, true)
      else dictLoop st ps

/-- `if (begin != dict) strncpy(pos, begin, p - begin); else strcpy(pos, dict);`
-/
def copyEntry (dict : CStr) : Copying Buf Unit :=
  if (cut '|' dict).1 = [] then strcpy .pos dict else copyLast .pos (cut '|' dict).2

/-- What is behind the loop: the last entry, stored when both numbers are there.
After the `break`, `begin` is in front of `p` by one. -/
def dictLast (dict : CStr) (st : PosScan) (broken : Bool) : Copying Buf PosScan :=
  if broken then do
    copy .pos (-1) 0
    pure st
  else do
    copyEntry dict
    let r := st.read (cut '|' dict).2
    if r.2 = 2 then do
      fill .nodePosInfo st.infos.length
      pure r.1.store
    else pure r.1

/-- The entries that `__add_app_feature` stores. -/
def decodeDict (dict : CStr) : Copying Buf (List AfPosInfo) := do
  let r ← dictLoop {} (cut '|' dict).1
  let st ← dictLast dict r.1 r.2
  pure st.infos

/-! ## The node -/

/-- `af_feature_node_t` with its `ignore` as the `int` it is. -/
structure FeatureNode extends AfFeatureNode where
  ignoreValue : Int32

/-- `__add_app_feature`, with what `kzalloc` has to say: the node it puts in
front of the list. -/
def addAppFeatureNode (memory : Bool) (feature : CStr) (appid : Int32) (name : CStr) (proto : Nat)
    (srcPort : Int32) (dportInfo : List RangeValue) (hostUrl requestUrl dict searchStr : CStr)
    (ignore : Int32) : Copying Buf (Option FeatureNode) :=
  if !memory then pure none
  else do
    strcpy .nodeAppName name
    strcpy .nodeHostUrl hostUrl
    strcpy .nodeRequestUrl requestUrl
    strcpy .nodeSearchStr searchStr
    strcpy .nodeFeature feature
    let posInfo ← decodeDict dict
    pure (some
      { appId := appid.toBitVec
        appName := name
        feature := feature
        proto := proto
        sport := srcPort.toBitVec.toNat
        dportInfo := dportInfo
        hostUrl := hostUrl
        requestUrl := requestUrl
        searchStr := searchStr
        posInfo := posInfo
        ignore := ignore != 0
        ignoreValue := ignore })

/-! ## The fields of a feature -/

/-- The buffers of `add_app_feature`, all empty at first. -/
structure Params where
  protoStr : CStr := []
  srcPortStr : CStr := []
  dstPortStr : CStr := []
  hostUrl : CStr := []
  requestUrl : CStr := []
  dict : CStr := []
  searchStr : CStr := []
  ignore : Int32 := 0
  deriving DecidableEq

/-- The buffer of the field `i`, an `AF_FEATURE_PARAM_INDEX`. -/
def paramBuf : Nat → Option Buf
  | 0 => some .protoStr
  | 1 => some .srcPortStr
  | 2 => some .dstPortStr
  | 3 => some .hostUrl
  | 4 => some .requestUrl
  | 5 => some .dict
  | 6 => some .searchStr
  | 7 => some .tmpBuf
  | _ => none

/-- The field `i` is the piece. -/
def Params.set (ps : Params) (i : Nat) (piece : CStr) : Params :=
  match i with
  | 0 => { ps with protoStr := piece }
  | 1 => { ps with srcPortStr := piece }
  | 2 => { ps with dstPortStr := piece }
  | 3 => { ps with hostUrl := piece }
  | 4 => { ps with requestUrl := piece }
  | 5 => { ps with dict := piece }
  | 6 => { ps with searchStr := piece }
  | 7 => { ps with ignore := kAtoi piece }
  | _ => ps

/-- `strncpy` into the buffer of the field. -/
def copyParam (i : Nat) (piece : CStr) : Copying Buf Unit :=
  match paramBuf i with
  | some buf => copyPiece buf piece
  | none => pure ()

/-- The loop over the fields that end at a `;`, from `param_num` on. -/
def paramLoop : Nat → Params → List CStr → Copying Buf Params
  | _, ps, [] => pure ps
  | paramNum, ps, piece :: pieces => do
      copyParam paramNum piece
      paramLoop (paramNum + 1) (ps.set paramNum piece) pieces

/-- The last field is looked at when it is the dictionary ("old version") or
`ignore` ("new version"). -/
def lastParam (paramNum : Nat) (ps : Params) (last : CStr) : Copying Buf Params :=
  if paramNum = 5 then do
    copyLast .dict last
    pure (ps.set 5 last)
  else if paramNum = 7 then do
    copyLast .tmpBuf last
    pure (ps.set 7 last)
  else pure ps

/-- `tcp` and `udp`. -/
def protoOf (protoStr : CStr) : Option Nat :=
  if protoStr = "tcp".toList then some ipprotoTcp
  else if protoStr = "udp".toList then some ipprotoUdp
  else none

/-- `sscanf(src_port_str, "%d", &src_port)`. -/
def srcPortOf (srcPortStr : CStr) : Int32 := (sscanf [.int] srcPortStr).headD 0

/-- `add_app_feature`. -/
def addAppFeature (memory : Bool) (appid : Int32) (name feature : CStr) :
    Copying Buf (Option FeatureNode) :=
  if feature.length < minFeatureStrLen then pure none
  else do
    let pieces := cut ';' feature
    let ps ← paramLoop 0 {} pieces.1
    let ps ← lastParam pieces.1.length ps pieces.2
    match protoOf ps.protoStr with
    | none => pure none
    | some proto => do
        let dportInfo ← parsePortInfo ps.dstPortStr
        addAppFeatureNode memory feature appid name proto (srcPortOf ps.srcPortStr) dportInfo ps.hostUrl
          ps.requestUrl ps.dict ps.searchStr ps.ignore

/-! ## The features of a line -/

/-- The bracket finder behind the first character of the line: `pos` is the text
behind the last `[`, `off` is `p - pos`, and `len` is `off` at the last `]`. -/
def bracketLoop : Option CStr → Nat → Nat → CStr → Option CStr × Nat
  | pos, _, len, [] => (pos, len)
  | pos, off, len, c :: s =>
      if c = '[' then bracketLoop (some s) 0 len s
      else if c = ']' ∧ pos.isSome then bracketLoop pos (off + 1) off s
      else bracketLoop pos (off + 1) len s

/-- `pos` and `len`. -/
def findBrackets (line : CStr) : Option CStr × Nat := bracketLoop none 0 0 line.tail

/-- What `feature_buf` holds. -/
def featureText (line : CStr) : CStr :=
  match findBrackets line with
  | (some pos, len) => pos.take len
  | (none, _) => []

/-- `if (pos && len) strncpy(feature_buf, pos, len)`: the rest of the `len` bytes
is filled with zeros. -/
def copyFeatureBuf (line : CStr) : Copying Buf Unit :=
  match findBrackets line with
  | (some pos, len) => if len = 0 then pure () else copy .featureBuf len (min len pos.length)
  | (none, _) => pure ()

/-- A call of `add_app_feature`, and the node it adds. -/
structure FeatureCall where
  appid : Int32
  name : CStr
  feature : CStr
  node : Option FeatureNode

/-- The call number `i`; `memory` tells of each whether `kzalloc` finds room. -/
def callFeature (memory : Nat → Bool) (i : Nat) (appid : Int32) (name feature : CStr) :
    Copying Buf FeatureCall := do
  let node ← addAppFeature (memory i) appid name feature
  pure ⟨appid, name, feature, node⟩

/-- What is behind the loop: the last piece, with its NUL, and a NUL behind
it. -/
def lastFeature (memory : Nat → Bool) (i : Nat) (appid : Int32) (name last : CStr) :
    Copying Buf (List FeatureCall) :=
  if maxFeatureStrLen < last.length + 1 then pure []
  else do
    copy .feature (last.length + 1) (last.length + 1)
    let call ← callFeature memory i appid name last
    pure [call]

/-- The comma splitter: a piece that is too long ends it, and the length of the
last piece is then the one of that piece. -/
def featureLoop (memory : Nat → Bool) (appid : Int32) (name last : CStr) :
    Nat → List CStr → Copying Buf (List FeatureCall)
  | i, [] => lastFeature memory i appid name last
  | i, piece :: ps =>
      if maxFeatureStrLen < piece.length then pure []
      else do
        copyPiece .feature piece
        let call ← callFeature memory i appid name piece
        let calls ← featureLoop memory appid name last (i + 1) ps
        pure (call :: calls)

/-- `k_sscanf(feature_str, "%d%[^:]", &app_id, app_name)`: `app_name` stays as it
is. -/
def appIdOf (stale : Int32) (line : CStr) : Int32 := (kSscanf [.int, .set] line).headD stale

/-- `af_init_feature`: the calls it makes. -/
def afInitFeature (buffer : Bool) (memory : Nat → Bool) (stale : Int32) (line : CStr) :
    Copying Buf (List FeatureCall) :=
  if !buffer then pure []
  else if strstr line ['#'] then pure []
  else do
    copyFeatureBuf line
    let pieces := cut ',' (featureText line)
    featureLoop memory (appIdOf stale line) [] pieces.2 0 pieces.1

end OpenAppFilter.Kernel
