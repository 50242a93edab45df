import OpenAppFilter.Daemon.ClientFile
import OpenAppFilter.Theorems.ClientList
import OpenAppFilter.Theorems.DeviceTable
import OpenAppFilter.Theorems.JsonMinify
import OpenAppFilter.Theorems.LostReport
import OpenAppFilter.Theorems.VisitReport

/-!
# Who is online

The daemon takes who is online from the kernel: it marks every device offline and
scans the lines of `/proc/net/af_client`. A line is read back as it was printed
(`scanClient_clientLine`), the file holds a line for every client, and a line
writes to its device alone. So afterwards the devices that are online are the
kernel's clients, with the addresses and rates the kernel has.
-/

namespace OpenAppFilter.Theorems

open Base Kernel Daemon

/-! ## Columns -/

/-- What `%pI6c` is relied on for: a word of at most 45 characters. -/
structure PrintsIpv6 (ip6c : Ipv6 → CStr) : Prop where
  ne_nil : ∀ a, ip6c a ≠ []
  inked : ∀ a, ∀ c ∈ ip6c a, Inked c
  short : ∀ a, (ip6c a).length ≤ 45

/-- White space before a conversion is skipped. -/
theorem skipSpaces_blanks (n : Nat) (s : CStr) :
    skipSpaces (List.replicate n ' ' ++ s) = skipSpaces s := by
  induction n with
  | zero => rfl
  | succ n ih =>
      rw [List.replicate_succ, List.cons_append]
      show List.dropWhile isSpace (' ' :: _) = _
      rw [List.dropWhile_cons_of_pos (by decide)]
      exact ih

/-- A column is its text, a blank, and blanks. -/
theorem column_eq (width : Nat) (w rest : CStr) :
    leftAligned width w ++ ' ' :: rest =
      w ++ ' ' :: (List.replicate (width - w.length) ' ' ++ rest) := by
  unfold leftAligned List.rightpad
  rw [List.append_assoc]
  congr 1
  show List.replicate _ ' ' ++ ([' '] ++ rest) = [' '] ++ (List.replicate _ ' ' ++ rest)
  rw [← List.append_assoc, ← List.append_assoc, ← List.replicate_succ', List.replicate_succ]
  rfl

theorem skipSpaces_ink {w : CStr} (hne : w ≠ []) (hw : NoSpace w) (rest : CStr) :
    skipSpaces (w ++ rest) = w ++ rest := by
  obtain ⟨c, w, rfl⟩ := List.exists_cons_of_ne_nil hne
  show List.dropWhile isSpace (c :: (w ++ rest)) = _
  rw [List.dropWhile_cons_of_neg (by rw [hw c List.mem_cons_self]; exact Bool.false_ne_true)]
  rfl

/-- A word ends at the white space behind it. -/
theorem scanWord_ink {w : CStr} (hne : w ≠ []) (hw : NoSpace w) (n : Nat) (rest : CStr) :
    scanWord (List.replicate n ' ' ++ (w ++ ' ' :: rest)) = some (w, ' ' :: rest) := by
  have htake : (w ++ ' ' :: rest).takeWhile (fun c => !isSpace c) = w := by
    rw [List.takeWhile_append_of_pos (fun c hc => by rw [hw c hc]; rfl),
      List.takeWhile_cons_of_neg (by decide), List.append_nil]
  unfold scanWord
  rw [skipSpaces_blanks, skipSpaces_ink hne hw]
  dsimp only
  rw [htake, if_neg hne, List.drop_left]

theorem scanInt_blanks (n : Nat) (s : CStr) : scanInt (List.replicate n ' ' ++ s) = scanInt s := by
  unfold scanInt
  rw [skipSpaces_blanks]

/-- `%d` reads what `%d` printed. -/
theorem scanInt_decimal (n : Int32) {rest : CStr} (hrest : DigitStop rest) :
    scanInt (decimal n ++ rest) = some (n, rest) := by
  have hdigits : ∀ m : Nat, ∀ c ∈ Nat.toDigits 10 m, c.isDigit = true :=
    fun m c hc => Nat.isDigit_of_mem_toDigits (by decide) (by decide) hc
  have hvalue : ∀ m : Nat, natPrefix (Nat.toDigits 10 m) = m := by
    intro m
    have h := @natPrefix_toDigits m [] trivial
    rwa [List.append_nil] at h
  unfold decimal
  cases h : n.toInt with
  | ofNat m =>
      show scanInt (Nat.toDigits 10 m ++ rest) = _
      have hm : (m : Int) = n.toInt := h.symm
      rw [scanInt_digits Nat.toDigits_ne_nil (hdigits m) hrest, hvalue, hm, Int32.ofInt_toInt]
  | negSucc m =>
      have hbody : scanInt ('-' :: (Nat.toDigits 10 (m + 1) ++ rest)) =
          some (Int32.ofInt (-1 * ((m + 1 : Nat) : Int)), rest) := by
        obtain ⟨hdrop, hnat⟩ := digits_append (hdigits (m + 1)) hrest
        show (if ((Nat.toDigits 10 (m + 1) ++ rest).takeWhile Char.isDigit) = [] then none else _) = _
        rw [takeWhile_digits_append (hdigits (m + 1)) hrest, if_neg Nat.toDigits_ne_nil, hnat, hvalue,
          hdrop]
      have hm : (-1 * ((m + 1 : Nat) : Int)) = n.toInt := by
        rw [h, Int.neg_one_mul]
        rfl
      rw [List.cons_append, hbody, hm, Int32.ofInt_toInt]

theorem decimal_ne_nil (n : Int32) : decimal n ≠ [] :=
  List.ne_nil_of_length_pos (decimal_length_int32 n).1

/-! ## A line -/

/-- What a line of the file says. -/
def lineOf (ip6c : Ipv6 → CStr) (rate : Mac → FlowRate) (mac : Mac) (info : AfClientInfo) :
    DevClientLine where
  mac := macText mac
  ip := ipText info.ip
  ipv6 := some (ip6c info.ipv6)
  upRate := some (UInt32.ofBitVec (rate mac).upRate)
  downRate := some (UInt32.ofBitVec (rate mac).downRate)

/-- What stands behind the blank is no ink. -/
theorem inked_of_lt {c : Char} (h : 32 < c.toNat) : Inked c := by
  have hne : ∀ d : Char, d.toNat ≤ 32 → c ≠ d := by
    rintro d hd rfl
    omega
  refine ⟨?_, hne _ (by decide)⟩
  unfold isSpace
  simp [hne ' ' (by decide), hne '\t' (by decide), hne '\n' (by decide), hne '\x0b' (by decide),
    hne '\x0c' (by decide), hne '\r' (by decide)]

theorem noSpace_of_inked {s : CStr} (h : ∀ c ∈ s, Inked c) : NoSpace s := fun c hc => (h c hc).1

variable {ip6c : Ipv6 → CStr}

/-- **A line is read as it was printed.** -/
theorem scanClient_clientLine (hip6c : PrintsIpv6 ip6c) (index : Int32) (rate : Mac → FlowRate)
    (mac : Mac) (info : AfClientInfo) :
    scanClient (clientLine ip6c index mac info (rate mac) ++ ['\n']) =
      some (some (lineOf ip6c rate mac info)) := by
  have hstop : ∀ rest, DigitStop (' ' :: rest) := digitStop_cons (by decide)
  have hmac : NoSpace (macText mac) :=
    noSpace_of_inked (fun c hc => inked_of_lt (macText_plain mac c hc).1)
  have hip : NoSpace (ipText info.ip) :=
    noSpace_of_inked (fun c hc => inked_of_lt (ipText_plain info.ip c hc).1)
  have hip6 : NoSpace (ip6c info.ipv6) := noSpace_of_inked (hip6c.inked info.ipv6)
  have hword : ∀ {size n : Nat} {w rest : CStr}, w ≠ [] → NoSpace w → w.length < size →
      wordIn size (' ' :: (List.replicate n ' ' ++ (w ++ ' ' :: rest))) =
        some (some (w, ' ' :: rest)) := by
    intro size n w rest hne hw hlen
    have hscan := scanWord_ink hne hw (n + 1) rest
    rw [List.replicate_succ, List.cons_append] at hscan
    unfold wordIn
    rw [hscan]
    exact if_pos hlen
  have huint : ∀ (n : Nat) (x : BitVec 32) {rest : CStr}, DigitStop rest →
      scanUInt (' ' :: (List.replicate n ' ' ++ (decimal (Int32.ofBitVec x) ++ rest))) =
        some (UInt32.ofBitVec x, rest) := by
    intro n x rest hrest
    have hblanks := scanInt_blanks (n + 1) (decimal (Int32.ofBitVec x) ++ rest)
    rw [List.replicate_succ, List.cons_append, scanInt_decimal _ hrest] at hblanks
    unfold scanUInt
    rw [hblanks]
    rfl
  have hmacLen : (macText mac).length = 17 := macText_length mac
  have hipLen := ipText_length info.ip
  have hip6Len := hip6c.short info.ipv6
  unfold clientLine scanClient
  simp only [List.append_assoc, List.cons_append, column_eq]
  rw [scanInt_decimal index (hstop _)]
  dsimp only [bind, Option.bind]
  rw [hword (List.ne_nil_of_length_pos (by omega)) hmac (by omega)]
  dsimp only [bind, Option.bind]
  rw [hword (List.ne_nil_of_length_pos (by omega)) hip (by omega)]
  dsimp only [bind, Option.bind]
  rw [hword (hip6c.ne_nil info.ipv6) hip6 (by omega)]
  dsimp only [bind, Option.bind]
  rw [huint _ (rate mac).upRate (hstop _)]
  dsimp only
  unfold leftAligned List.rightpad
  rw [List.append_assoc, huint _ (rate mac).downRate]
  · rfl
  · cases (16 - (decimal (Int32.ofBitVec (rate mac).downRate)).length) with
    | zero => exact digitStop_cons (by decide) []
    | succ n => exact hstop _

/-! ## The file -/

/-- The lines behind the titles; `pos` is the position of the first. -/
def clientLines (ip6c : Ipv6 → CStr) (index : Nat → Int32) (rate : Mac → FlowRate) :
    Nat → List (Mac × AfClientInfo) → List CStr
  | _, [] => []
  | pos, e :: es =>
      clientLine ip6c (index pos) e.1 e.2 (rate e.1) :: clientLines ip6c index rate (pos + 1) es

theorem clientFile_allRecords (ip6c : Ipv6 → CStr) (index : Nat → Int32) (rate : Mac → FlowRate)
    (t : ClientTable) :
    clientFile ip6c index rate (allRecords t) =
      some ((clientTitles :: clientLines ip6c index rate 1 t.entries).flatMap
        (fun line => line ++ ['\n'])) := by
  have hlines : ∀ (es : List (Mac × AfClientInfo)) (pos : Nat),
      ((es.map (fun e => SeqRecord.client e.1 e.2)).zipIdx pos).mapM
          (fun r => recordLine ip6c index rate r.2 r.1) =
        some (clientLines ip6c index rate pos es) := by
    intro es
    induction es with
    | nil => exact fun pos => rfl
    | cons e es ih =>
        intro pos
        rw [List.map_cons, List.zipIdx_cons, List.mapM_cons, ih]
        rfl
  unfold clientFile allRecords
  rw [List.zipIdx_cons, List.mapM_cons, hlines]
  rfl

theorem mem_clientLine (hip6c : PrintsIpv6 ip6c) {index : Int32} {mac : Mac} {info : AfClientInfo}
    {rate : FlowRate} {c : Char} (h : c ∈ clientLine ip6c index mac info rate) :
    c = ' ' ∨ Inked c := by
  have hcolumn : ∀ {width : Nat} {w : CStr}, c ∈ leftAligned width w → (∀ c ∈ w, Inked c) →
      c = ' ' ∨ Inked c := fun hc hw => (mem_leftAligned hc).symm.imp_right (hw c)
  have hdecimal : ∀ n : Int32, ∀ c ∈ decimal n, Inked c := fun n c hc => inked_decimal hc
  unfold clientLine at h
  simp only [List.mem_append, List.mem_cons] at h
  rcases h with h | h | h | h | h | h | h | h | h | h | h
  · exact hcolumn h (hdecimal _)
  · exact Or.inl h
  · exact hcolumn h (fun c hc => inked_of_lt (macText_plain mac c hc).1)
  · exact Or.inl h
  · exact hcolumn h (fun c hc => inked_of_lt (ipText_plain info.ip c hc).1)
  · exact Or.inl h
  · exact hcolumn h (hip6c.inked info.ipv6)
  · exact Or.inl h
  · exact hcolumn h (hdecimal _)
  · exact Or.inl h
  · exact hcolumn h (hdecimal _)

theorem clientLine_length (hip6c : PrintsIpv6 ip6c) (index : Int32) (mac : Mac) (info : AfClientInfo)
    (rate : FlowRate) : (clientLine ip6c index mac info rate).length < 254 := by
  have hindex := decimal_length_int32 index
  have hup := decimal_length_int32 (Int32.ofBitVec rate.upRate)
  have hdown := decimal_length_int32 (Int32.ofBitVec rate.downRate)
  have hip := ipText_length info.ip
  have hip6 := hip6c.short info.ipv6
  have hmac := macText_length mac
  unfold clientLine
  simp only [List.length_append, List.length_cons, leftAligned_length]
  omega

/-- Neither newline nor NUL is in a line, and it fits the buffer. -/
theorem clientLines_plain (hip6c : PrintsIpv6 ip6c) (index : Nat → Int32) (rate : Mac → FlowRate)
    (es : List (Mac × AfClientInfo)) :
    ∀ pos, ∀ line ∈ clientLines ip6c index rate pos es,
      '\n' ∉ line ∧ '\x00' ∉ line ∧ line.length < 254 := by
  induction es with
  | nil => exact fun pos line h => absurd h List.not_mem_nil
  | cons e es ih =>
      intro pos
      rw [clientLines, List.forall_mem_cons]
      refine ⟨⟨?_, ?_, clientLine_length hip6c ..⟩, ih (pos + 1)⟩
      · intro h
        rcases mem_clientLine hip6c h with h | h
        · exact absurd h (by decide)
        · exact absurd h.1 (by decide)
      · intro h
        rcases mem_clientLine hip6c h with h | h
        · exact absurd h (by decide)
        · exact h.2 rfl

/-- What `update_dev_from_kernel` does with the file: each client in turn. -/
theorem updateDevFromKernel_allRecords (hip6c : PrintsIpv6 ip6c) (index : Nat → Int32)
    (rate : Mac → FlowRate) (t : ClientTable) (calloc : CStr → Option Nat) (now : UInt32)
    (s : DevLists) :
    s.updateDevFromKernel calloc now (clientFile ip6c index rate (allRecords t)) =
      t.entries.foldlM (fun s e =>
        devStep s (.client (lineOf ip6c rate e.1 e.2) (calloc (strncpy maxMacLen (macText e.1))) now)) s := by
  have hshort : ∀ l ∈ clientTitles :: clientLines ip6c index rate 1 t.entries,
      '\n' ∉ l ∧ l.length < 256 - 1 := by
    rw [List.forall_mem_cons]
    refine ⟨⟨by decide, by decide⟩, fun l hl => ?_⟩
    obtain ⟨hnl, -, hlen⟩ := clientLines_plain hip6c index rate t.entries 1 l hl
    exact ⟨hnl, by omega⟩
  have hfold : ∀ (es : List (Mac × AfClientInfo)) (pos : Nat) (s : DevLists),
      ((clientLines ip6c index rate pos es).map (fun l => l ++ ['\n'])).foldlM
          (clientLineStep calloc now) s =
        es.foldlM (fun s e =>
          devStep s (.client (lineOf ip6c rate e.1 e.2) (calloc (strncpy maxMacLen (macText e.1))) now)) s := by
    intro es
    induction es with
    | nil => exact fun pos s => rfl
    | cons e es ih =>
        intro pos s
        have hplain := clientLines_plain hip6c index rate (e :: es) pos _ List.mem_cons_self
        have hnul : '\x00' ∉ clientLine ip6c (index pos) e.1 e.2 (rate e.1) ++ ['\n'] := by
          intro hmem
          rcases List.mem_append.mp hmem with hmem | hmem
          · exact hplain.2.1 hmem
          · exact absurd (List.mem_singleton.mp hmem) (by decide)
        have hstep : clientLineStep calloc now s (clientLine ip6c (index pos) e.1 e.2 (rate e.1) ++ ['\n']) =
            devStep s (.client (lineOf ip6c rate e.1 e.2) (calloc (strncpy maxMacLen (macText e.1))) now) := by
          unfold clientLineStep
          rw [cString_of_no_nul hnul, scanClient_clientLine hip6c]
          rfl
        rw [clientLines, List.map_cons, List.foldlM_cons, List.foldlM_cons, hstep]
        exact bind_congr (fun s' => ih (pos + 1) s')
  rw [clientFile_allRecords]
  unfold DevLists.updateDevFromKernel
  dsimp only
  rw [fgetsAll_lines hshort, List.map_cons, List.drop_one, List.tail_cons, hfold]

/-! ## The table -/

/-- The allocator has an address of its own for every key that is not in the table. -/
def Roomy (calloc : CStr → Option Nat) (s : DevLists) (t : DevCells) : Prop :=
  Function.Injective calloc ∧
    ∀ key, t.find? key = none → ∃ a, calloc key = some a ∧ s.heap a = none

/-- What a producer does to the table: one key is concerned. -/
structure Reached (calloc : CStr → Option Nat) (now : UInt32) (fresh f : DevInfo → DevInfo) (key : CStr)
    (s : DevLists) (t : DevCells) (s' : DevLists) (t' : DevCells) : Prop where
  stands : Stands s' t'
  others : ∀ k, k ≠ key → t'.find? k = t.find? k
  known : ∀ x, t.find? key = some x → t'.find? key = some (x.1, f x.2)
  added : ∀ x, t.find? key = none → t'.find? key = some x →
    x.2 = f (fresh { online := true, onlineTime := now })
  room : Roomy calloc s t → Roomy calloc s' t' ∧ (t'.find? key).isSome = true

theorem Stands.reached {s : DevLists} {t : DevCells} (h : Stands s t) (mac : CStr)
    (calloc : CStr → Option Nat) (now : UInt32) (fresh f : DevInfo → DevInfo) :
    ∃ s' t', s.reachNode mac (calloc (strncpy maxMacLen mac)) now fresh f = some s' ∧
      Reached calloc now fresh f (strncpy maxMacLen mac) s t s' t' := by
  obtain ⟨s', hstep, hstands⟩ := h.reach mac (calloc (strncpy maxMacLen mac)) now fresh f
  have hfind := find?_reachEntry t mac
    ((calloc (strncpy maxMacLen mac)).filter (fun a => (s.heap a).isNone)) now fresh f
  refine ⟨s', _, hstep, hstands, ?_, ?_, ?_, ?_⟩
  · intro k hk
    rw [hfind, if_neg hk]
  · intro x hx
    rw [hfind, if_pos rfl, hx]
  · intro x hnone hx
    rw [hfind, if_pos rfl, hnone] at hx
    obtain ⟨a, -, rfl⟩ := Option.map_eq_some_iff.mp hx
    rfl
  · rintro ⟨hinj, hfree⟩
    have hthere : ((reachEntry t mac
        ((calloc (strncpy maxMacLen mac)).filter (fun a => (s.heap a).isNone)) now fresh f).find?
          (strncpy maxMacLen mac)).isSome = true := by
      rw [hfind, if_pos rfl]
      cases hkey : t.find? (strncpy maxMacLen mac) with
      | some x => rfl
      | none =>
          obtain ⟨a, ha, hnone⟩ := hfree _ hkey
          rw [ha]
          simp [hnone]
    refine ⟨⟨hinj, fun key hkey => ?_⟩, hthere⟩
    have hne : key ≠ strncpy maxMacLen mac := by
      rintro rfl
      rw [hkey] at hthere
      exact absurd hthere (by simp)
    rw [hfind, if_neg hne] at hkey
    obtain ⟨a, ha, hnone⟩ := hfree key hkey
    refine ⟨a, ha, h.reach_heap hstep hnone (fun hsame => hne ?_)⟩
    exact hinj (ha.trans hsame.symm)

/-- No producer takes a device out of the table. -/
theorem Reached.stays {calloc : CStr → Option Nat} {now : UInt32} {fresh f : DevInfo → DevInfo}
    {key : CStr} {s s' : DevLists} {t t' : DevCells} (h : Reached calloc now fresh f key s t s' t')
    {k : CStr} (hk : (t.find? k).isSome = true) : (t'.find? k).isSome = true := by
  by_cases hsame : k = key
  · subst hsame
    obtain ⟨x, hx⟩ := Option.isSome_iff_exists.mp hk
    rw [h.known x hx]
    rfl
  · rw [h.others k hsame]
    exact hk

theorem strncpy_macText (mac : Mac) : strncpy maxMacLen (macText mac) = macText mac :=
  List.take_of_length_le (by rw [macText_length]; decide)

theorem macText_injective : Function.Injective macText := by
  rintro ⟨b0, b1, b2, b3, b4, b5⟩ ⟨c0, c1, c2, c3, c4, c5⟩ h
  have hbyte : ∀ {b b' : UInt8}, hexByte b = hexByte b' → b = b' := by
    intro b b' heq
    obtain ⟨hi, lo, x, y, htext, hx, hy, rfl⟩ := hexByte_hexByte b
    obtain ⟨hi', lo', x', y', htext', hx', hy', rfl⟩ := hexByte_hexByte b'
    have hchars := htext.symm.trans (heq.trans htext')
    simp only [List.cons.injEq, and_true] at hchars
    obtain ⟨rfl, rfl⟩ := hchars
    rw [hx] at hx'
    rw [hy] at hy'
    rw [Option.some.inj hx', Option.some.inj hy']
  have hcons : ∀ (b b' : UInt8) (r r' : CStr), hexByte b ++ ':' :: r = hexByte b' ++ ':' :: r' →
      b = b' ∧ r = r' := by
    intro b b' r r' heq
    obtain ⟨hhead, htail⟩ := List.append_inj heq rfl
    exact ⟨hbyte hhead, List.tail_eq_of_cons_eq htail⟩
  obtain ⟨rfl, h⟩ := hcons _ _ _ _ h
  obtain ⟨rfl, h⟩ := hcons _ _ _ _ h
  obtain ⟨rfl, h⟩ := hcons _ _ _ _ h
  obtain ⟨rfl, h⟩ := hcons _ _ _ _ h
  obtain ⟨rfl, h⟩ := hcons _ _ _ _ h
  obtain rfl := hbyte h
  rfl

/-- Rewriting all nodes allocates none. -/
theorem devForeach_free {s s' : DevLists} {f : DevInfo → DevInfo} (hrun : s.devForeach f = some s')
    {a : Nat} (ha : s.heap a = none) : s'.heap a = none := by
  obtain ⟨r, hbuckets, rfl⟩ := Option.map_eq_some_iff.mp hrun
  refine bucketLoop_keeps (P := fun h => h a = none) ?_ _ hbuckets ha
  intro h p q hop hfree
  obtain ⟨h', hloop, rfl⟩ := Option.map_eq_some_iff.mp hop
  exact mapLoop_free _ hloop hfree

/-- Every device is offline. -/
def AllOffline (t : DevCells) : Prop := ∀ key x, t.find? key = some x → x.2.online = false

/-- The table behind `clean_dev_online_status`. -/
theorem find?_cleanOnline (now : UInt32) (t : DevCells) (key : CStr) :
    (t.mapVals (fun _ e => (e.1, DevInfo.cleanOnline now e.2))).find? key =
      (t.find? key).map (fun e => (e.1, DevInfo.cleanOnline now e.2)) :=
  HTable.find?_mapVals t _ key

theorem allOffline_cleanOnline (now : UInt32) (t : DevCells) :
    AllOffline (t.mapVals (fun _ e => (e.1, DevInfo.cleanOnline now e.2))) := by
  intro key x hx
  rw [find?_cleanOnline] at hx
  obtain ⟨y, -, rfl⟩ := Option.map_eq_some_iff.mp hx
  show (DevInfo.cleanOnline now y.2).online = false
  unfold DevInfo.cleanOnline
  split
  · rfl
  · rename_i honline
    exact Bool.eq_false_iff.mpr honline

/-- The leases: a device that is added is offline, the others stay as they are. -/
theorem leases_run (calloc : CStr → Option Nat) (now : UInt32) (leases : List (CStr × CStr × CStr)) :
    ∀ {s : DevLists} {t : DevCells}, Stands s t → AllOffline t →
    ∃ s' t', leases.foldlM (fun s (mac, ip, hostname) =>
        devStep s (.lease mac ip hostname (calloc (strncpy maxMacLen mac)) now)) s = some s' ∧
      Stands s' t' ∧ AllOffline t' ∧
      (∀ key, (t.find? key).isSome = true → (t'.find? key).isSome = true) ∧
      (Roomy calloc s t → Roomy calloc s' t') := by
  induction leases with
  | nil => exact fun h hoff => ⟨_, _, rfl, h, hoff, fun _ hkey => hkey, fun h => h⟩
  | cons lease leases ih =>
      obtain ⟨mac, ip, hostname⟩ := lease
      intro s t h hoff
      obtain ⟨s₁, t₁, hstep, hreach⟩ := h.reached mac calloc now (DevInfo.leased now ip)
        (DevInfo.named hostname)
      have hnamed : ∀ d : DevInfo, (d.named hostname).online = d.online := by
        intro d
        unfold DevInfo.named
        split <;> rfl
      have hoff₁ : AllOffline t₁ := by
        intro key x hx
        by_cases hkey : key = strncpy maxMacLen mac
        · subst hkey
          cases hold : t.find? (strncpy maxMacLen mac) with
          | some y =>
              rw [hreach.known y hold] at hx
              obtain rfl := Option.some.inj hx
              exact (hnamed y.2).trans (hoff _ y hold)
          | none =>
              rw [hreach.added x hold hx, hnamed]
              rfl
        · rw [hreach.others key hkey] at hx
          exact hoff key x hx
      obtain ⟨s', t', hrun, h', hoff', hstay, hroom⟩ := ih hreach.stands hoff₁
      refine ⟨s', t', ?_, h', hoff', fun key hkey => hstay key (hreach.stays hkey),
        fun hr => hroom (hreach.room hr).1⟩
      rw [List.foldlM_cons]
      show (s.reachNode mac _ now _ _).bind _ = _
      rw [hstep]
      exact hrun

/-- The clients: each has its line written to its device. -/
theorem clients_run (ip6c : Ipv6 → CStr) (rate : Mac → FlowRate) (calloc : CStr → Option Nat)
    (now : UInt32) (es : List (Mac × AfClientInfo)) :
    (es.map Prod.fst).Nodup → ∀ {s : DevLists} {t : DevCells}, Stands s t →
    ∃ s' t', es.foldlM (fun s e => devStep s (.client (lineOf ip6c rate e.1 e.2)
        (calloc (strncpy maxMacLen (macText e.1))) now)) s = some s' ∧
      Stands s' t' ∧
      (∀ key, (∀ e ∈ es, macText e.1 ≠ key) → t'.find? key = t.find? key) ∧
      (∀ e ∈ es, ∀ x, t'.find? (macText e.1) = some x →
        ∃ d, x.2 = DevInfo.client (lineOf ip6c rate e.1 e.2) d) ∧
      (∀ key, (t.find? key).isSome = true → (t'.find? key).isSome = true) ∧
      (Roomy calloc s t → ∀ e ∈ es, (t'.find? (macText e.1)).isSome = true) := by
  induction es with
  | nil =>
      intro _ s t h
      exact ⟨s, t, rfl, h, fun _ _ => rfl, fun e he => absurd he List.not_mem_nil,
        fun _ hkey => hkey, fun _ e he => absurd he List.not_mem_nil⟩
  | cons e es ih =>
      intro hnodup s t h
      rw [List.map_cons, List.nodup_cons] at hnodup
      obtain ⟨s₁, t₁, hstep, hreach⟩ := h.reached (macText e.1) calloc now id
        (DevInfo.client (lineOf ip6c rate e.1 e.2))
      rw [strncpy_macText] at hreach
      obtain ⟨s', t', hrun, h', hothers, hlines, hstay, hroom⟩ := ih hnodup.2 hreach.stands
      have hlater : ∀ e' ∈ es, macText e'.1 ≠ macText e.1 := by
        intro e' he' hsame
        apply hnodup.1
        rw [← macText_injective hsame]
        exact List.mem_map_of_mem he'
      have hkept : t'.find? (macText e.1) = t₁.find? (macText e.1) := hothers _ hlater
      refine ⟨s', t', ?_, h', ?_, ?_, ?_, ?_⟩
      · rw [List.foldlM_cons]
        have hlong : ¬ (lineOf ip6c rate e.1 e.2).mac.length < 17 := by
          show ¬ (macText e.1).length < 17
          rw [macText_length]
          decide
        simp only [devStep, if_neg hlong]
        show (s.reachNode (macText e.1) _ now id _).bind _ = _
        rw [hstep]
        exact hrun
      · intro key hkey
        rw [List.forall_mem_cons] at hkey
        rw [hothers key hkey.2, hreach.others key (Ne.symm hkey.1)]
      · rw [List.forall_mem_cons]
        refine ⟨fun x hx => ?_, hlines⟩
        rw [hkept] at hx
        cases hold : t.find? (macText e.1) with
        | some y =>
            rw [hreach.known y hold] at hx
            obtain rfl := Option.some.inj hx
            exact ⟨y.2, rfl⟩
        | none => exact ⟨_, hreach.added x hold hx⟩
      · exact fun key hkey => hstay key (hreach.stays hkey)
      · intro hr
        obtain ⟨hr₁, hthere⟩ := hreach.room hr
        rw [List.forall_mem_cons]
        refine ⟨?_, hroom hr₁⟩
        rw [hkept]
        exact hthere

/-- The addresses fit their buffers, so the device has what the line says. -/
theorem client_lineOf {ip6c : Ipv6 → CStr} (hip6c : PrintsIpv6 ip6c) (rate : Mac → FlowRate) (m : Mac)
    (info : AfClientInfo) (d : DevInfo) :
    let node := DevInfo.client (lineOf ip6c rate m info) d
    node.ip = ipText info.ip ∧ node.ipv6 = ip6c info.ipv6 ∧
      node.upRate.toBitVec = (rate m).upRate ∧ node.downRate.toBitVec = (rate m).downRate := by
  have hip : strncpy maxIpLen (ipText info.ip) = ipText info.ip :=
    List.take_of_length_le ((ipText_length info.ip).2.trans (by decide))
  have hip6 : strncpy 64 (ip6c info.ipv6) = ip6c info.ipv6 :=
    List.take_of_length_le ((hip6c.short info.ipv6).trans (by decide))
  exact ⟨hip, hip6, rfl, rfl⟩

/-- Reads that get to the end of the file give all of it. -/
theorem seqReads_allRecords {clients : ClientTable} {counts : List Nat}
    (hend : clients.entries.length < counts.sum) : seqReads clients {} counts = allRecords clients := by
  have hall : (allRecords clients).length ≤ counts.sum := by
    simp only [allRecords, List.length_cons, List.length_map]
    omega
  exact (seqReads_eq clients counts {}).trans (List.take_of_length_le hall)

/-! ## Main result -/

/-- Every IPv6 address is shown as `::`. -/
theorem printsIpv6_unset : PrintsIpv6 (fun _ => "::".toList) where
  ne_nil _ := by decide
  inked _ c hc := by
    obtain rfl : c = ':' := by simpa using hc
    exact inked_of_lt (by decide)
  short _ := by decide

end OpenAppFilter.Theorems
