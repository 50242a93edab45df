import OpenAppFilter.Daemon.Visiting
import OpenAppFilter.Kernel.Hook
import OpenAppFilter.Kernel.Report
import OpenAppFilter.Theorems.UrlCopy

/-!
# The visiting report between kernel and daemon

The kernel keeps URLs of up to 63 characters and prints them in a column of
`/proc/net/af_visit`; the daemon scans the column with `%s` into a buffer of 32
bytes. A line is read back as it was printed iff the URL is short enough for that
buffer, holds no white space, and is not empty (or the buffer was): a longer URL
is written past the buffer, one with white space is cut at it, and an empty one
leaves the URL of an earlier line.
-/

namespace OpenAppFilter.Theorems

open Base Kernel Daemon

/-! ## The record -/

/-- The two functions that write what a client visits. -/
inductive VisitAct where
  | url (now : Nat) (flow : FlowInfo)
  | app (now : Nat) (appId : BitVec 32) (drop : Bool)

def visitStep (c : AfClientInfo) : VisitAct → AfClientInfo
  | .url now flow => updateUrlVisitingInfo now flow c
  | .app now appId drop => afUpdateClientAppInfo now appId drop c

/-- The URL of a record: shorter than `MAX_REPORT_URL_LEN`, and a C string. -/
def UrlStored (c : AfClientInfo) : Prop :=
  c.visiting.visitingUrl.length < maxReportUrlLen ∧ '\x00' ∉ c.visiting.visitingUrl

theorem copyText_length_le (data : Mem) (pos n : Nat) : (copyText data pos n).length ≤ n := by
  unfold copyText
  rw [List.length_map]
  refine le_trans (List.takeWhile_prefix _).length_le ?_
  simp

theorem nul_not_mem_copyText (data : Mem) (pos n : Nat) : '\x00' ∉ copyText data pos n := by
  intro h
  unfold copyText at h
  obtain ⟨b, hb, hchar⟩ := List.mem_map.mp h
  have hne : b ≠ 0 := by simpa using List.mem_takeWhile_imp hb
  have hzero : (Char.ofNat b.toNat).toNat = 0 := by
    rw [hchar]
    rfl
  rw [toNat_ofNat_byte b.toNat_lt] at hzero
  exact hne (UInt8.toNat_inj.mp hzero)

theorem urlStored_step {c : AfClientInfo} (h : UrlStored c) (a : VisitAct) :
    UrlStored (visitStep c a) := by
  cases a with
  | url now flow =>
      show UrlStored (updateUrlVisitingInfo now flow c)
      unfold updateUrlVisitingInfo
      split
      · exact h
      · dsimp only
        split
        · exact h
        · rename_i hlen
          refine ⟨?_, nul_not_mem_copyText _ _ _⟩
          refine lt_of_le_of_lt (copyText_length_le _ _ _) ?_
          exact Nat.lt_of_not_ge (fun hge => hlen (Or.inr hge))
  | app now appId drop =>
      show UrlStored (afUpdateClientAppInfo now appId drop c)
      unfold afUpdateClientAppInfo UrlStored
      dsimp only
      split
      · exact h
      · exact h

/-- A new record has no URL yet. -/
theorem urlStored_run (c : AfClientInfo) (acts : List VisitAct) :
    UrlStored (run visitStep { c with visiting := {} } acts) := by
  have hnew : UrlStored { c with visiting := {} } :=
    ⟨show 0 < maxReportUrlLen by decide, List.not_mem_nil⟩
  exact run_invariant (I := UrlStored) (C := fun _ _ => True)
    (fun _ a h _ => urlStored_step h a) hnew (fun _ _ _ _ => trivial)

/-- What is printed in the third column. -/
theorem shownUrl_stored {c : AfClientInfo} (h : UrlStored c) (now : Nat) :
    (shownUrl now c.visiting).length < maxReportUrlLen ∧ '\x00' ∉ shownUrl now c.visiting := by
  unfold shownUrl
  split
  · exact h
  · exact ⟨by decide, by decide⟩

/-! ## The first two columns -/

/-- Neither white space nor NUL. -/
def Inked (c : Char) : Prop := isSpace c = false ∧ c ≠ '\x00'

theorem inked_of_isHex {c : Char} (h : isHex c = true) : Inked c := by
  have hne : ∀ d, isHex d = false → c ≠ d := fun d hd => ne_of_isHex h hd
  refine ⟨?_, hne _ (by decide)⟩
  unfold isSpace
  simp [hne ' ' (by decide), hne '\t' (by decide), hne '\n' (by decide),
    hne '\x0b' (by decide), hne '\x0c' (by decide), hne '\r' (by decide)]

theorem inked_of_isDigit {c : Char} (h : c.isDigit = true) : Inked c := by
  refine ⟨(isSpace_of_isDigit h).1, ?_⟩
  rintro rfl
  exact absurd h (by decide)

theorem inked_macText {mac : Mac} {c : Char} (h : c ∈ macText mac) : Inked c := by
  rcases mem_macText h with h | rfl
  · exact inked_of_isHex h
  · exact ⟨by decide, by decide⟩

theorem inked_decimal {n : Int32} {c : Char} (h : c ∈ decimal n) : Inked c := by
  rcases mem_decimal h with h | rfl
  · exact inked_of_isDigit h
  · exact ⟨by decide, by decide⟩

theorem newline_of_noSpace {s : CStr} (h : NoSpace s) : '\n' ∉ s := by
  intro hmem
  exact absurd (h _ hmem) (by decide)

/-- The text in front of the URL column. -/
def visitHead (mac : Mac) (app : Int32) : CStr :=
  leftAligned 20 (macText mac) ++ ' ' :: (leftAligned 12 (decimal app) ++ [' '])

theorem visitHead_length (mac : Mac) (app : Int32) : (visitHead mac app).length = 34 := by
  have happ := decimal_length_int32 app
  unfold visitHead
  simp only [List.length_append, List.length_cons, List.length_nil, leftAligned_length,
    macText_length]
  omega

theorem mem_visitHead {mac : Mac} {app : Int32} {c : Char} (h : c ∈ visitHead mac app) :
    c = ' ' ∨ Inked c := by
  unfold visitHead at h
  simp only [List.mem_append, List.mem_cons, List.not_mem_nil, or_false] at h
  rcases h with h | h | h | h
  · exact (mem_leftAligned h).symm.imp_right inked_macText
  · exact Or.inl h
  · exact (mem_leftAligned h).symm.imp_right inked_decimal
  · exact Or.inl h

theorem nul_not_mem_visitHead (mac : Mac) (app : Int32) : '\x00' ∉ visitHead mac app := by
  intro h
  rcases mem_visitHead h with h | h
  · exact absurd h (by decide)
  · exact h.2 rfl

/-- The words of a line whose third column starts with `t`. -/
theorem words_visitHead (mac : Mac) (app : Int32) (t : CStr) :
    words (visitHead mac app ++ t) = macText mac :: decimal app :: words t := by
  have hmac : words (macText mac) = [macText mac] := by
    rw [words_noSpace (fun _ h => (inked_macText h).1), if_neg (List.ne_nil_of_length_pos (by
      rw [macText_length]
      omega))]
  have happ : words (decimal app) = [decimal app] := by
    rw [words_noSpace (fun _ h => (inked_decimal h).1), if_neg (List.ne_nil_of_length_pos
      (decimal_length_int32 app).1)]
  unfold visitHead
  rw [List.append_assoc, List.cons_append, List.append_assoc, List.singleton_append, words_column,
    words_column, hmac, happ]
  rfl

theorem afVisitingSeqShow_eq (appNow urlNow : Nat) (mac : Mac) (c : AfClientInfo) :
    afVisitingSeqShow appNow urlNow mac c =
      visitHead mac (Int32.ofBitVec (shownApp appNow c.visiting)) ++
        (leftAligned 32 (shownUrl urlNow c.visiting) ++ ['\n']) := by
  simp [afVisitingSeqShow, visitColumns, visitHead]

/-! ## One line -/

/-- What the loop body does on the first line of a record: it finds the two words
of the head, and the first word of the rest. -/
theorem visitLine_head (mac : Mac) (app : Int32) {t : CStr} (hnul : '\x00' ∉ t) (b : VisitBufs)
    (devs : DevVisitTable) :
    (visitLine (b, devs) (visitHead mac app ++ t ++ ['\n'])).map Prod.snd =
      if ((words t).headD []).length < visitBufLen then
        some (devs.modify (macText mac)
          (DevVisitNode.visit (visitedUrl ((words t).headD b.url)) app))
      else none := by
  have htext : cString (visitHead mac app ++ t ++ ['\n']) = visitHead mac app ++ t ++ ['\n'] := by
    refine cString_of_no_nul ?_
    simp [hnul, nul_not_mem_visitHead]
  have hwords : words (visitHead mac app ++ t ++ ['\n']) =
      macText mac :: decimal app :: words t := by
    rw [words_append_spaces _ (by simp [isSpace]), words_visitHead]
  have hfit : (∀ w ∈ (macText mac :: decimal app :: words t).take 3, w.length < visitBufLen) ↔
      ((words t).headD []).length < visitBufLen := by
    have hmac : (macText mac).length < visitBufLen := by
      rw [macText_length]
      decide
    have happ : (decimal app).length < visitBufLen :=
      lt_of_le_of_lt (decimal_length_int32 app).2 (by decide)
    cases words t with
    | nil => simp [hmac, happ, show 0 < visitBufLen by decide]
    | cons w ws => simp [hmac, happ]
  have hthird : ∀ line, words line = macText mac :: decimal app :: words t →
      thirdWord line b = (words t).headD b.url := by
    intro line h
    unfold thirdWord
    rw [h]
    cases words t <;> rfl
  unfold visitLine scanVisit
  dsimp only
  rw [htext]
  by_cases hlen : ((words t).headD []).length < visitBufLen
  · rw [if_pos (by rw [hwords]; exact hfit.mpr hlen), if_pos hlen]
    simp only [Option.map_some, hwords, hthird _ hwords, List.getD_cons_zero, List.getD_cons_succ,
      atoi_decimal]
  · rw [if_neg (by rw [hwords]; exact fun h => hlen (hfit.mp h)), if_neg hlen]
    rfl

/-- The device has a URL without white space. -/
def UrlWord (mac : CStr) (s : VisitBufs × DevVisitTable) : Prop :=
  ∃ node, s.2.find? mac = some node ∧ NoSpace node.visitingUrl

theorem noSpace_visitedUrl {w : CStr} (h : NoSpace w) : NoSpace (visitedUrl w) := by
  unfold visitedUrl
  split
  · exact noSpace_nil
  · exact h

/-- Every line writes words. -/
theorem urlWord_visitLine (mac : CStr) (s : VisitBufs × DevVisitTable) (buf : List Char)
    (s' : VisitBufs × DevVisitTable) (h : visitLine s buf = some s') (hword : UrlWord mac s) :
    UrlWord mac s' := by
  obtain ⟨b, -, rfl⟩ := Option.map_eq_some_iff.mp h
  obtain ⟨node, hfind, hurl⟩ := hword
  unfold UrlWord
  dsimp only
  rw [HTable.find?_modify, hfind]
  split
  · exact ⟨_, rfl, noSpace_visitedUrl b.url_noSpace⟩
  · exact ⟨node, rfl, hurl⟩

/-- The first line of a record writes to its device. -/
theorem urlWord_visitHead {mac : Mac} {app : Int32} {t : CStr} (hnul : '\x00' ∉ t) {b : VisitBufs}
    {devs : DevVisitTable} {node : DevVisitNode} (hfind : devs.find? (macText mac) = some node)
    {s : VisitBufs × DevVisitTable}
    (h : visitLine (b, devs) (visitHead mac app ++ t ++ ['\n']) = some s) :
    UrlWord (macText mac) s := by
  have hline := visitLine_head mac app hnul b devs
  rw [h, Option.map_some] at hline
  have hword : NoSpace ((words t).headD b.url) := by
    cases hw : words t with
    | nil => exact b.url_noSpace
    | cons w ws =>
        refine noSpace_of_mem_words (s := t) ?_
        rw [hw]
        exact List.mem_cons_self
  split at hline
  · refine ⟨DevVisitNode.visit (visitedUrl ((words t).headD b.url)) app node, ?_,
      noSpace_visitedUrl hword⟩
    rw [Option.some.inj hline, HTable.find?_modify, if_pos rfl, hfind]
    rfl
  · exact absurd hline (by simp)

/-! ## The record's text -/

/-- The lines of `text`, read from the loop state with buffers `b`, set app and
URL of the device `mac` in every table, and nothing else; no word is written
past its buffer. -/
def Decoded (text : CStr) (b : VisitBufs) (mac : CStr) (app : Int32) (url : CStr) : Prop :=
  ∀ devs : DevVisitTable, ((fgetsAll 256 text).foldlM visitLine (b, devs)).map Prod.snd =
    some (devs.modify mac (DevVisitNode.visit url app))

/-- The first line `fgets` reads of a record ends with its first newline. -/
theorem fgetsAll_visitHead (mac : Mac) (app : Int32) {t : CStr} (hnl : '\n' ∉ t)
    (hlen : t.length < maxReportUrlLen) (rest : CStr) :
    fgetsAll 256 (visitHead mac app ++ (t ++ '\n' :: rest)) =
      (visitHead mac app ++ t ++ ['\n']) :: fgetsAll 256 rest := by
  have hhead : '\n' ∉ visitHead mac app := by
    intro h
    rcases mem_visitHead h with h | h
    · exact absurd h (by decide)
    · exact absurd h.1 (by decide)
  have hroom : ([] ++ (visitHead mac app ++ t)).length < 256 - 1 := by
    rw [List.nil_append, List.length_append, visitHead_length]
    unfold maxReportUrlLen at hlen
    omega
  have hline := @fgetsFrom_line 256 (visitHead mac app ++ t) (by simp [hhead, hnl]) rest [] hroom
  unfold fgetsAll
  rw [← List.append_assoc, hline, List.nil_append]

/-- A record whose URL has no white space is one line. -/
theorem fgetsAll_visit_noSpace (mac : Mac) (app : Int32) {url : CStr} (hspace : NoSpace url)
    (hlen : url.length < maxReportUrlLen) (rest : CStr) :
    fgetsAll 256 (visitHead mac app ++ (leftAligned 32 url ++ '\n' :: rest)) =
      (visitHead mac app ++ leftAligned 32 url ++ ['\n']) :: fgetsAll 256 rest := by
  have hnl : '\n' ∉ leftAligned 32 url := by
    intro h
    rcases mem_leftAligned h with h | h
    · exact newline_of_noSpace hspace h
    · exact absurd h (by decide)
  have hlen' : (leftAligned 32 url).length < maxReportUrlLen := by
    rw [leftAligned_length]
    exact max_lt (by decide) hlen
  exact fgetsAll_visitHead mac app hnl hlen' rest

/-- What the loop body does on this line. -/
theorem visitLine_noSpace (mac : Mac) (app : Int32) {url : CStr} (hspace : NoSpace url)
    (hnul : '\x00' ∉ url) (b : VisitBufs) (devs : DevVisitTable) :
    (visitLine (b, devs) (visitHead mac app ++ leftAligned 32 url ++ ['\n'])).map Prod.snd =
      if url.length < visitBufLen then
        some (devs.modify (macText mac)
          (DevVisitNode.visit (visitedUrl (if url = [] then b.url else url)) app))
      else none := by
  have hnul' : '\x00' ∉ leftAligned 32 url := by
    intro h
    rcases mem_leftAligned h with h | h
    · exact hnul h
    · exact absurd h (by decide)
  rw [visitLine_head mac app hnul', words_leftAligned, words_noSpace hspace]
  by_cases hne : url = []
  · simp [hne]
  · simp [hne]

theorem foldlM_visit_noSpace (mac : Mac) (app : Int32) {url : CStr} (hspace : NoSpace url)
    (hlen : url.length < maxReportUrlLen) (hnul : '\x00' ∉ url) (b : VisitBufs)
    (devs : DevVisitTable) :
    ((fgetsAll 256 (visitHead mac app ++ (leftAligned 32 url ++ ['\n']))).foldlM visitLine
        (b, devs)).map Prod.snd =
      if url.length < visitBufLen then
        some (devs.modify (macText mac)
          (DevVisitNode.visit (visitedUrl (if url = [] then b.url else url)) app))
      else none := by
  rw [fgetsAll_visit_noSpace mac app hspace hlen []]
  show ((visitLine (b, devs) _).bind some).map Prod.snd = _
  rw [Option.bind_fun_some, visitLine_noSpace mac app hspace hnul]

/-- The first line of the printed column: the URL may hold a newline itself. -/
theorem firstLine_leftAligned {url : CStr} (hlen : url.length < maxReportUrlLen)
    (hnul : '\x00' ∉ url) :
    ∃ t rest, leftAligned 32 url ++ ['\n'] = t ++ '\n' :: rest ∧ '\n' ∉ t ∧ '\x00' ∉ t ∧
      t.length < maxReportUrlLen := by
  obtain ⟨t, rest, hsplit, hnl⟩ :=
    List.eq_append_cons_of_mem (show '\n' ∈ leftAligned 32 url ++ ['\n'] by simp)
  refine ⟨t, rest, hsplit, hnl, ?_, ?_⟩
  · intro hc
    have hmem : '\x00' ∈ leftAligned 32 url ++ ['\n'] := by
      rw [hsplit]
      exact List.mem_append_left _ hc
    rcases List.mem_append.mp hmem with hmem | hmem
    · rcases mem_leftAligned hmem with hmem | hmem
      · exact hnul hmem
      · exact absurd hmem (by decide)
    · exact absurd (List.mem_singleton.mp hmem) (by decide)
  · have htotal := congrArg List.length hsplit
    simp only [List.length_append, List.length_cons, List.length_nil, leftAligned_length] at htotal
    unfold maxReportUrlLen at hlen ⊢
    omega

/-- A record whose URL has white space is not read back: what is written to a
device has none. -/
theorem noSpace_of_decoded {mac : Mac} {app : Int32} {url : CStr} {b : VisitBufs}
    (hlen : url.length < maxReportUrlLen) (hnul : '\x00' ∉ url)
    (h : Decoded (visitHead mac app ++ (leftAligned 32 url ++ ['\n'])) b (macText mac) app
      (visitedUrl url)) : NoSpace url := by
  obtain ⟨t, rest, hsplit, hnl, htnul, htlen⟩ := firstLine_leftAligned hlen hnul
  -- a table with the device
  let devs : DevVisitTable := HTable.empty.addNew (macText mac) {}
  have hdev : ∃ node, devs.find? (macText mac) = some node := by
    rw [HTable.find?_addNew, if_pos rfl]
    exact ⟨_, rfl⟩
  obtain ⟨node, hnode⟩ := hdev
  have hread := h devs
  rw [hsplit, fgetsAll_visitHead mac app hnl htlen, List.foldlM_cons] at hread
  obtain ⟨s', hfold, hdevs⟩ := Option.map_eq_some_iff.mp hread
  obtain ⟨s₁, hfirst, hrest⟩ := Option.bind_eq_some_iff.mp hfold
  obtain ⟨node', hnode', hurl⟩ :=
    foldlM_invariant (urlWord_visitLine (macText mac)) _ hrest (urlWord_visitHead htnul hnode hfirst)
  rw [hdevs, HTable.find?_modify, if_pos rfl, hnode] at hnode'
  obtain rfl := Option.some.inj hnode'
  have hvisited : NoSpace (visitedUrl url) := hurl
  unfold visitedUrl at hvisited
  split at hvisited
  · rename_i hnone
    rw [hnone]
    simp [NoSpace, isSpace]
  · exact hvisited

/-- When the text printed for a URL is read back. -/
theorem decoded_iff (mac : Mac) (app : Int32) {url : CStr} (hlen : url.length < maxReportUrlLen)
    (hnul : '\x00' ∉ url) (b : VisitBufs) :
    Decoded (visitHead mac app ++ (leftAligned 32 url ++ ['\n'])) b (macText mac) app
        (visitedUrl url) ↔
      url.length < visitBufLen ∧ NoSpace url ∧
        (url = [] → b.url = [] ∨ b.url = "none".toList) := by
  constructor
  · intro h
    have hspace := noSpace_of_decoded hlen hnul h
    have hread := h (HTable.empty.addNew (macText mac) {})
    rw [foldlM_visit_noSpace mac app hspace hlen hnul] at hread
    split at hread
    · rename_i hshort
      refine ⟨hshort, hspace, ?_⟩
      rintro rfl
      have hnode := congrArg (fun devs : DevVisitTable =>
        (devs.find? (macText mac)).map DevVisitNode.visitingUrl) (Option.some.inj hread)
      simp only [HTable.find?_modify, HTable.find?_addNew, if_true, Option.map_some,
        Option.some.injEq] at hnode
      have hempty : visitedUrl b.url = [] := hnode
      unfold visitedUrl at hempty
      split at hempty
      · exact Or.inr ‹_›
      · exact Or.inl hempty
    · exact absurd hread (by simp)
  · rintro ⟨hshort, hspace, hempty⟩ devs
    rw [foldlM_visit_noSpace mac app hspace hlen hnul, if_pos hshort]
    by_cases hne : url = []
    · rw [if_pos hne, hne]
      rcases hempty hne with h | h
      · rw [h]
      · rw [h]
        rfl
    · rw [if_neg hne]

/-- **The visiting report, encoded and decoded.** For every record the two
writers can leave, every clock reading and every state of the daemon's buffers:
the text printed for the record sets the app and the URL of the device with its
MAC to the printed ones, and no word is written past its buffer, iff the URL is
too old to be printed, or it is shorter than the buffer, has no white space, and
is not empty where the buffer holds another URL. -/
theorem visit_report_decoded_iff (c₀ : AfClientInfo) (acts : List VisitAct) (mac : Mac)
    (appNow urlNow : Nat) (b : VisitBufs) :
    let c := run visitStep { c₀ with visiting := {} } acts
    Decoded (afVisitingSeqShow appNow urlNow mac c) b (macText mac)
        (Int32.ofBitVec (shownApp appNow c.visiting)) (visitedUrl (shownUrl urlNow c.visiting)) ↔
      (recent urlNow c.visiting.urlTime = true →
        c.visiting.visitingUrl.length < visitBufLen ∧ NoSpace c.visiting.visitingUrl ∧
          (c.visiting.visitingUrl = [] → b.url = [] ∨ b.url = "none".toList)) := by
  intro c
  have hstored : UrlStored c := urlStored_run c₀ acts
  obtain ⟨hlen, hnul⟩ := shownUrl_stored hstored urlNow
  rw [afVisitingSeqShow_eq, decoded_iff mac _ hlen hnul b]
  unfold shownUrl
  cases hrecent : recent urlNow c.visiting.urlTime with
  | true => simp
  | false => simp [NoSpace, isSpace, visitBufLen]

/-! ## The whole file -/

/-- A URL that is printed and read back whatever the buffer holds. -/
def PlainUrl (url : CStr) : Prop := url ≠ [] ∧ url.length < visitBufLen ∧ NoSpace url

/-- What a row is to leave in the table. -/
def setVisit (devs : DevVisitTable) (r : VisitRow) : DevVisitTable :=
  devs.modify (macText r.mac)
    (DevVisitNode.visit (visitedUrl (shownUrl r.urlNow r.client.visiting))
      (Int32.ofBitVec (shownApp r.appNow r.client.visiting)))

theorem foldlM_visit_rows (rows : List VisitRow)
    (hrows : ∀ r ∈ rows, UrlStored r.client ∧ PlainUrl (shownUrl r.urlNow r.client.visiting)) :
    ∀ (b : VisitBufs) (devs : DevVisitTable),
      ((fgetsAll 256 (rows.flatMap (fun r =>
          afVisitingSeqShow r.appNow r.urlNow r.mac r.client))).foldlM visitLine
          (b, devs)).map Prod.snd = some (rows.foldl setVisit devs) := by
  induction rows with
  | nil =>
      intro b devs
      rfl
  | cons r rows ih =>
      intro b devs
      obtain ⟨hstored, hne, hshort, hspace⟩ := hrows r List.mem_cons_self
      obtain ⟨hlen, hnul⟩ := shownUrl_stored hstored r.urlNow
      have hline := visitLine_noSpace r.mac (Int32.ofBitVec (shownApp r.appNow r.client.visiting))
        hspace hnul b devs
      rw [if_pos hshort, if_neg hne, Option.map_eq_some_iff] at hline
      obtain ⟨⟨b', devs'⟩, hstep, hdevs⟩ := hline
      rw [List.flatMap_cons, afVisitingSeqShow_eq, List.append_assoc, List.append_assoc,
        List.singleton_append, fgetsAll_visit_noSpace _ _ hspace hlen, List.foldlM_cons, hstep]
      show ((fgetsAll 256 _).foldlM visitLine (b', devs')).map Prod.snd = _
      rw [ih (fun r' hr' => hrows r' (List.mem_cons_of_mem _ hr')) b' devs', List.foldl_cons]
      exact congrArg (fun devs => some (rows.foldl setVisit devs)) hdevs

/-- A file whose URLs are all plain is read as it was printed, row by row. -/
theorem updateDevVisitingInfo_file (rows : List VisitRow)
    (hrows : ∀ r ∈ rows, UrlStored r.client ∧ PlainUrl (shownUrl r.urlNow r.client.visiting))
    (devs : DevVisitTable) :
    updateDevVisitingInfo (some (afVisitFile rows)) devs = some (rows.foldl setVisit devs) := by
  have htitle : ∀ rest, fgetsAll 256 (visitingTitle ++ rest) =
      visitingTitle :: fgetsAll 256 rest := by
    intro rest
    have hline := @fgetsFrom_line 256 visitingTitle.dropLast (by decide) rest [] (by decide)
    exact hline
  unfold updateDevVisitingInfo afVisitFile
  dsimp only
  rw [htitle, List.drop_one, List.tail_cons]
  exact foldlM_visit_rows rows hrows {} devs

/-! ## Hosts that do not come back -/

/-- A request for a host of 39 characters. -/
def longHostRequest : List UInt8 :=
  ("GET / HTTP/1.1\r\nHost: cdn-0123456789.static.video.example.com\r\n\r\n".toList).map
    (fun c => UInt8.ofNat c.toNat)

/-- The flow of this request, as `dpi_main` leaves it. -/
def longHostFlow : FlowInfo :=
  dpiMain (payloadFlow {} (memOf longHostRequest) longHostRequest.length false)

/-- The host does not fit `url_buf`. -/
theorem long_host_not_decoded :
    ¬ ∀ (acts : List VisitAct) (mac : Mac) (appNow urlNow : Nat) (b : VisitBufs),
      let c := run visitStep {} acts
      Decoded (afVisitingSeqShow appNow urlNow mac c) b (macText mac)
        (Int32.ofBitVec (shownApp appNow c.visiting))
        (visitedUrl (shownUrl urlNow c.visiting)) := by
  intro h
  have hread := h [.url 1000 longHostFlow] phoneMac 1000 1000 {} HTable.empty
  have hnone : ((fgetsAll 256 (afVisitingSeqShow 1000 1000 phoneMac
      (run visitStep {} [.url 1000 longHostFlow]))).foldlM visitLine
        (({} : VisitBufs), (HTable.empty : DevVisitTable))).isSome = false := by
    decide +kernel
  rw [Option.map_eq_some_iff] at hread
  obtain ⟨s, hs, -⟩ := hread
  rw [hs] at hnone
  exact absurd hnone (by simp)

end OpenAppFilter.Theorems
