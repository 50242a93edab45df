import OpenAppFilter.Traffic.Script

/-!
# Device names in the traffic database

`sq` quotes for a shell: a quote inside becomes `'\''`. The shell reads the whole
SQL text back from that, whatever is in it. The strings of the devices are quoted
the same way for SQLite, to which a backslash means nothing, so a quote in a name
ends the literal there and the rest of the statement is something else.
-/

namespace OpenAppFilter.Theorems

open Base Traffic

/-! ## What a run should do -/

/-- The command runs `sqlite3` on a text that SQLite reads as the statements that
were built, and these leave `after`. -/
def RunLeaves (now : Nat) (db : TrafficDb) (c : Collection) (after : TrafficDb) : Prop :=
  ∃ cmd sql, collectCommand now db c = some cmd ∧
    readWords 3 cmd = some (["printf".toList, "%s".toList, sql], "| sqlite3 ".toList ++ Traffic.sq dbPath) ∧
    ReadAs (scriptPieces now db c) sql ∧
    after = (sqlScript db c).foldl SqlStatement.exec db

/-- The daily row and the snapshot row of a MAC are from the same device of the
run. -/
def UpdatedTogether (c : Collection) (after : TrafficDb) (mac : CStr) : Prop :=
  ∃ s ∈ c.samples, s.mac = mac ∧
    rowOf (.mac mac) after.lastCapture = some s.flow ∧
    ∃ flow, rowOf (c.today, mac) after.ipDaily = some ⟨ipListText s.ips, s.hostname, flow⟩

/-- A run with a device list writes what was meant, both rows of every device. -/
def NamesKept (now : Nat) (db : TrafficDb) (c : Collection) : Prop :=
  c.devices ≠ [] →
    ∃ after, RunLeaves now db c after ∧ after = collectTraffic db c ∧
      ∀ s ∈ c.samples, UpdatedTogether c after s.mac

/-- No string of the device that goes into the text has a quote. -/
def NoQuote (s : Sample) : Prop :=
  '\'' ∉ s.mac ∧ '\'' ∉ s.hostname ∧ ∀ ip ∈ s.ips, '\'' ∉ ip

/-! ## The command -/

theorem sq_eq_shellQuote : Traffic.sq = shellQuote := by
  funext str
  unfold Traffic.sq
  split
  · rfl
  · rename_i hempty
    rw [not_not.mp hempty]
    rfl

/-- The shell hands `printf` the text as it is. -/
theorem readWords_collectCommand (sql rest : CStr) :
    readWords 3 ("printf '%s' ".toList ++ (Traffic.sq sql ++ (" ".toList ++ rest))) =
      some (["printf".toList, "%s".toList, sql], rest) := by
  have hprintf : readWord false
      ("printf '%s' ".toList ++ (Traffic.sq sql ++ (" ".toList ++ rest))) =
      some ("printf".toList, ' ' :: ("'%s' ".toList ++ (Traffic.sq sql ++ (" ".toList ++ rest)))) := rfl
  have hformat : readWord false ("'%s' ".toList ++ (Traffic.sq sql ++ (" ".toList ++ rest))) =
      some ("%s".toList, ' ' :: (Traffic.sq sql ++ (" ".toList ++ rest))) := rfl
  have hsql : readWord false (Traffic.sq sql ++ (" ".toList ++ rest)) = some (sql, ' ' :: rest) := by
    rw [sq_eq_shellQuote]
    exact readWord_shellQuote sql (show endsWord ' ' = true by decide)
  rw [readWords_succ hprintf, readWords_succ hformat, readWords_succ hsql]
  rfl

/-! ## The statements -/

theorem separated_pieces (now : Nat) (statement : SqlStatement) :
    SqlSeparated (statement.pieces now) := by
  cases statement with
  | begin => exact trivial
  | addTotal table key delta => exact trivial
  | addMinute date time delta => exact trivial
  | addIpDaily date mac ipList hostname delta =>
      have hcomma : ',' ≠ '\'' := by decide
      have hend : ';' ≠ '\'' := by decide
      exact ⟨hcomma, hcomma, hcomma, hcomma, hend, trivial⟩
  | replaceCapture key flow =>
      cases key with
      | global => exact trivial
      | mac mac => exact ⟨show ',' ≠ '\'' by decide, trivial⟩
  | commit => exact trivial

theorem mem_ipListText {ips : List CStr} : '\'' ∈ ipListText ips ↔ ∃ ip ∈ ips, '\'' ∈ ip := by
  unfold ipListText
  induction ips with
  | nil => simp
  | cons ip ips ih =>
      cases ips with
      | nil => simp
      | cons ip' ips =>
          rw [List.intersperse_cons_cons, List.flatten_cons, List.flatten_cons, List.mem_append,
            List.mem_append, ih]
          simp

/-- The values in the two statements of a device. -/
theorem literal_mem_daily {now : Nat} {db : TrafficDb} {today : CStr} {s : Sample} {value : CStr} :
    SqlPiece.literal value ∈ (dailyStatement db today s).pieces now ↔
      value = s.mac ∨ value = ipListText s.ips ∨ value = s.hostname := by
  unfold dailyStatement SqlStatement.pieces
  simp only [List.mem_cons, SqlPiece.literal.injEq, List.not_mem_nil, or_false, reduceCtorEq,
    false_or]
  tauto

theorem literal_mem_capture {now : Nat} {s : Sample} {value : CStr} :
    SqlPiece.literal value ∈ (captureStatement s).pieces now ↔ value = "mac:".toList ++ s.mac := by
  unfold captureStatement SqlStatement.pieces
  simp only [List.mem_cons, SqlPiece.literal.injEq, List.not_mem_nil, or_false, reduceCtorEq,
    false_or]

/-- The values of the text are those of its devices. -/
theorem literal_mem_script {now : Nat} {db : TrafficDb} {c : Collection} {value : CStr} :
    SqlPiece.literal value ∈ scriptPieces now db c ↔
      ∃ s ∈ c.samples, SqlPiece.literal value ∈ (dailyStatement db c.today s).pieces now ∨
        SqlPiece.literal value ∈ (captureStatement s).pieces now := by
  have htext : ∀ t : CStr, SqlPiece.literal value ∉ [SqlPiece.text t] := by simp
  unfold scriptPieces sqlScript
  simp only [List.flatMap_append, List.flatMap_cons, List.flatMap_nil, List.mem_append,
    List.flatMap_map, List.mem_flatMap, List.append_nil]
  constructor
  · rintro (htotals | ⟨s, hs, h⟩ | hglobal | ⟨s, hs, h⟩ | hcommit)
    · -- the rows of the whole network have no values
      rcases htotals with h | h | h | h | h <;> exact absurd h (htext _)
    · exact ⟨s, hs, Or.inl h⟩
    · exact absurd hglobal (htext _)
    · exact ⟨s, hs, Or.inr h⟩
    · exact absurd hcommit (htext _)
  · rintro ⟨s, hs, h | h⟩
    · exact Or.inr (Or.inl ⟨s, hs, h⟩)
    · exact Or.inr (Or.inr (Or.inr (Or.inl ⟨s, hs, h⟩)))

theorem literals_noQuote_iff (now : Nat) (db : TrafficDb) (c : Collection) :
    (∀ value, SqlPiece.literal value ∈ scriptPieces now db c → '\'' ∉ value) ↔
      ∀ s ∈ c.samples, NoQuote s := by
  constructor
  · intro h s hs
    have hdaily : ∀ value, (value = s.mac ∨ value = ipListText s.ips ∨ value = s.hostname) →
        '\'' ∉ value :=
      fun value hvalue => h value (literal_mem_script.mpr ⟨s, hs, Or.inl (literal_mem_daily.mpr hvalue)⟩)
    refine ⟨hdaily _ (Or.inl rfl), hdaily _ (Or.inr (Or.inr rfl)), fun ip hip hquote => ?_⟩
    exact hdaily _ (Or.inr (Or.inl rfl)) (mem_ipListText.mpr ⟨ip, hip, hquote⟩)
  · intro h value hmem
    obtain ⟨s, hs, hvalue | hvalue⟩ := literal_mem_script.mp hmem
    · obtain ⟨hmac, hhost, hips⟩ := h s hs
      rcases literal_mem_daily.mp hvalue with rfl | rfl | rfl
      · exact hmac
      · intro hquote
        obtain ⟨ip, hip, hin⟩ := mem_ipListText.mp hquote
        exact hips ip hip hin
      · exact hhost
    · rw [literal_mem_capture.mp hvalue, List.mem_append]
      exact not_or.mpr ⟨by decide, (h s hs).1⟩

/-- SQLite reads the text as it was meant iff no device has a quote in a string. -/
theorem readAs_script_iff (now : Nat) (db : TrafficDb) (c : Collection) :
    ReadAs (scriptPieces now db c) (renderSql Traffic.sq (scriptPieces now db c)) ↔
      ∀ s ∈ c.samples, NoQuote s := by
  have hseparated : SqlSeparated (scriptPieces now db c) :=
    separated_flatMap (fun statement _ => separated_pieces now statement)
  rw [sq_eq_shellQuote, readAs_shellQuote_iff _ hseparated, literals_noQuote_iff]

/-! ## The tables -/

theorem exec_dailyStatements (db : TrafficDb) (today : CStr) (samples : List Sample) :
    ∀ d : TrafficDb, (samples.map (dailyStatement db today)).foldl SqlStatement.exec d =
      { d with ipDaily := samples.foldl (addDeviceRow db today) d.ipDaily } := by
  induction samples with
  | nil => exact fun _ => rfl
  | cons s samples ih =>
      intro d
      rw [List.map_cons, List.foldl_cons, ih]
      rfl

theorem exec_captureStatements (samples : List Sample) :
    ∀ d : TrafficDb, (samples.map captureStatement).foldl SqlStatement.exec d =
      { d with
        lastCapture := samples.foldl (fun rows s => upsert (.mac s.mac) s.flow (fun _ => s.flow) rows)
          d.lastCapture } := by
  induction samples with
  | nil => exact fun _ => rfl
  | cons s samples ih =>
      intro d
      rw [List.map_cons, List.foldl_cons, ih]
      rfl

/-- The statements together are the run. -/
theorem exec_sqlScript {db : TrafficDb} {c : Collection} (h : c.devices ≠ []) :
    (sqlScript db c).foldl SqlStatement.exec db = collectTraffic db c := by
  unfold sqlScript collectTraffic
  rw [if_neg h, List.foldl_append, List.foldl_append, exec_dailyStatements, List.foldl_cons,
    List.foldl_append, exec_captureStatements]
  rfl

/-- The last device with a MAC writes both of its rows. -/
theorem rows_of_samples (db : TrafficDb) (today : CStr) (captures : List (CaptureKey × Flow))
    (rows : List ((CStr × CStr) × IpRow)) (samples : List Sample) {mac : CStr}
    (h : ∃ s ∈ samples, s.mac = mac) :
    ∃ s ∈ samples, s.mac = mac ∧
      rowOf (.mac mac) (samples.foldl
        (fun rows s => upsert (.mac s.mac) s.flow (fun _ => s.flow) rows) captures) = some s.flow ∧
      ∃ flow, rowOf (today, mac) (samples.foldl (addDeviceRow db today) rows) =
        some ⟨ipListText s.ips, s.hostname, flow⟩ := by
  induction samples using List.reverseRecOn with
  | nil =>
      obtain ⟨s, hs, -⟩ := h
      exact absurd hs List.not_mem_nil
  | append_singleton samples last ih =>
      rw [List.foldl_append, List.foldl_append, List.foldl_cons, List.foldl_nil, List.foldl_cons,
        List.foldl_nil]
      unfold addDeviceRow
      dsimp only
      rw [rowOf_upsert, rowOf_upsert]
      by_cases hmac : last.mac = mac
      · subst hmac
        refine ⟨last, by simp, rfl, ?_, ?_⟩
        · rw [if_pos rfl]
          cases rowOf (CaptureKey.mac last.mac) _ <;> rfl
        · rw [if_pos rfl]
          cases rowOf (today, last.mac) _ with
          | none => exact ⟨_, rfl⟩
          | some row => exact ⟨_, rfl⟩
      · have hbefore : ∃ s ∈ samples, s.mac = mac := by
          obtain ⟨s, hs, hsmac⟩ := h
          rcases List.mem_append.mp hs with hs | hs
          · exact ⟨s, hs, hsmac⟩
          · rw [List.mem_singleton.mp hs] at hsmac
            exact absurd hsmac hmac
        obtain ⟨s, hs, hsmac, hcapture, hrow⟩ := ih hbefore
        refine ⟨s, List.mem_append_left _ hs, hsmac, ?_, ?_⟩
        · rw [if_neg (fun heq => hmac (CaptureKey.mac.inj heq).symm)]
          exact hcapture
        · rw [if_neg (fun heq => hmac (Prod.mk.inj heq).2.symm)]
          exact hrow

theorem updatedTogether_collect (db : TrafficDb) {c : Collection} (h : c.devices ≠ []) {s : Sample}
    (hs : s ∈ c.samples) : UpdatedTogether c (collectTraffic db c) s.mac := by
  unfold UpdatedTogether collectTraffic
  rw [if_neg h]
  exact rows_of_samples db c.today _ db.ipDaily c.samples ⟨s, hs, rfl⟩

/-! ## Main result -/

/-- The text the shell hands over is the one that was built. -/
theorem readAs_built {now : Nat} {db : TrafficDb} {c : Collection} {cmd sql : CStr}
    (hcmd : collectCommand now db c = some cmd)
    (hread : readWords 3 cmd =
      some (["printf".toList, "%s".toList, sql], "| sqlite3 ".toList ++ Traffic.sq dbPath))
    (hsql : ReadAs (scriptPieces now db c) sql) :
    ReadAs (scriptPieces now db c) (renderSql Traffic.sq (scriptPieces now db c)) := by
  unfold collectCommand at hcmd
  split at hcmd
  · exact absurd hcmd (by simp)
  · obtain rfl := Option.some.inj hcmd
    have hwords := readWords_collectCommand (renderSql Traffic.sq (scriptPieces now db c))
      ("| sqlite3 ".toList ++ Traffic.sq dbPath)
    have hsame := hread.symm.trans hwords
    simp only [Option.some.injEq, Prod.mk.injEq, List.cons.injEq, and_true, true_and] at hsame
    rw [← hsame]
    exact hsql

/-- A run that writes what was meant has met no quote. -/
theorem NamesKept.noQuote {now : Nat} {db : TrafficDb} {c : Collection} (h : NamesKept now db c)
    (hne : c.devices ≠ []) : ∀ s ∈ c.samples, NoQuote s := by
  obtain ⟨after, ⟨cmd, sql, hcmd, hread, hsql, -⟩, -⟩ := h hne
  exact (readAs_script_iff now db c).mp (readAs_built hcmd hread hsql)

/-- **Device names.** A run writes what was meant, the daily row and the snapshot
row of every device, iff no device that counts has a quote in its MAC, its name or
an address. -/
theorem names_kept_iff (now : Nat) (db : TrafficDb) (c : Collection) :
    NamesKept now db c ↔ ∀ s ∈ c.samples, NoQuote s := by
  by_cases hempty : c.devices = []
  · have hnone : c.samples = [] := by
      unfold Collection.samples
      rw [hempty]
      rfl
    rw [hnone]
    exact ⟨fun _ _ hs => absurd hs List.not_mem_nil, fun _ h => absurd hempty h⟩
  · refine ⟨fun h => h.noQuote hempty, fun hquote _ => ?_⟩
    have hsql := (readAs_script_iff now db c).mpr hquote
    have hwords := readWords_collectCommand (renderSql Traffic.sq (scriptPieces now db c))
      ("| sqlite3 ".toList ++ Traffic.sq dbPath)
    refine ⟨collectTraffic db c, ⟨_, _, if_neg hempty, hwords, hsql, (exec_sqlScript hempty).symm⟩,
      rfl, ?_⟩
    exact fun s hs => updatedTogether_collect db hempty hs

/-- A phone that somebody has called Bob's. -/
def bobsPhone : Device where
  ip := "192.168.1.20".toList
  mac := "02:00:00:00:00:11".toList
  hostname := "Bob's".toList
  online := 1

def bobsHome : Collection where
  today := "2026-01-05".toList
  month := "2026-01".toList
  year := "2026".toList
  time := "08:00".toList
  devices := [bobsPhone]

/-- SQLite reads the name as Bob; the shell reads all of it. -/
theorem bobs_phone_misread :
    (¬ ∀ (now : Nat) (db : TrafficDb) (c : Collection), NamesKept now db c) ∧
      (readLiteral (Traffic.sq "Bob's".toList ++ ", 1".toList)).map Prod.fst = some "Bob".toList ∧
      (readWord false (Traffic.sq "Bob's".toList)).map Prod.fst = some "Bob's".toList := by
  refine ⟨fun h => ?_, by decide, by decide⟩
  have hquote := (h 0 {} bobsHome).noQuote (List.cons_ne_nil bobsPhone [])
  have hphone : (⟨["192.168.1.20".toList], "02:00:00:00:00:11".toList, "Bob's".toList, {}⟩ : Sample) ∈
      bobsHome.samples := by
    show _ ∈ [bobsPhone].filterMap sampleOf
    exact List.mem_cons_self
  exact absurd (hquote _ hphone).2.1 (by decide)

end OpenAppFilter.Theorems
