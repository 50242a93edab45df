import OpenAppFilter.Base.Quote
import OpenAppFilter.Traffic.Collect

/-!
# The SQL text of the traffic collector (`traffic.uc`)

`collect_traffic` writes all its changes as one SQL text and has a shell print it
into `sqlite3`. The strings of a device come into the text through `sq`, and so
does the whole text into the shell command.

Conventions.

* A statement keeps the values that differ from run to run, with the text
  `sprintf` builds from them (`pieces`) and what it does to the tables (`exec`).
  The dates are digits and separators.
* The command reaches the shell, and the transaction the file.
-/

namespace OpenAppFilter.Traffic

open Base

/-- `sq` -/
def sq (str : CStr) : CStr :=
  if str ≠ [] then '\'' :: (replaceChar '\'' "'\\''".toList str ++ ['\'']) else "''".toList

def dbPath : CStr := "/tmp/oaf/traffic.db".toList

/-! ## Statements -/

/-- The tables of the whole network with one key column. -/
inductive TotalTable where
  | daily
  | monthly
  | yearly

def TotalTable.name : TotalTable → CStr
  | .daily => "traffic_daily".toList
  | .monthly => "traffic_monthly".toList
  | .yearly => "traffic_yearly".toList

def TotalTable.column : TotalTable → CStr
  | .daily => "date".toList
  | .monthly => "month".toList
  | .yearly => "year".toList

inductive SqlStatement where
  | begin
  | addTotal (table : TotalTable) (key : CStr) (delta : Flow)
  | addMinute (date time : CStr) (delta : Flow)
  | addIpDaily (date mac ipList hostname : CStr) (delta : Flow)
  | replaceCapture (key : CaptureKey) (flow : Flow)
  | commit

/-- `%d` -/
def number (n : Nat) : CStr := Nat.toDigits 10 n

/-- The text of a statement; `now` is the time of the run. -/
def SqlStatement.pieces (now : Nat) : SqlStatement → List SqlPiece
  | .begin => [.text "BEGIN;\n".toList]
  | .addTotal table key delta =>
      [.text ("INSERT INTO ".toList ++ (table.name ++ (" (".toList ++ (table.column ++
        (", upload, download, updated_at) VALUES ('".toList ++ (key ++ ("', ".toList ++
        (number delta.up ++ (", ".toList ++ (number delta.down ++ (", ".toList ++ (number now ++
        (") ON CONFLICT(".toList ++ (table.column ++ (") DO UPDATE SET upload=upload+".toList ++
        (number delta.up ++ (", download=download+".toList ++ (number delta.down ++
        (", updated_at=".toList ++ (number now ++ ";\n".toList))))))))))))))))))))]
  | .addMinute date time delta =>
      [.text ("INSERT INTO traffic_minute (date, time, upload, download) VALUES ('".toList ++
        (date ++ ("', '".toList ++ (time ++ ("', ".toList ++ (number delta.up ++ (", ".toList ++
        (number delta.down ++ (") ON CONFLICT(date, time) DO UPDATE SET upload=upload+".toList ++
        (number delta.up ++ (", download=download+".toList ++
        (number delta.down ++ ";\n".toList))))))))))))]
  | .addIpDaily date mac ipList hostname delta =>
      [.text ("INSERT INTO traffic_ip_daily (date, mac, ip_list, hostname, upload, download) VALUES ('".toList ++
        (date ++ "', ".toList)),
       .literal mac,
       .text ", ".toList,
       .literal ipList,
       .text ", ".toList,
       .literal hostname,
       .text (", ".toList ++ (number delta.up ++ (", ".toList ++ (number delta.down ++
        (") ON CONFLICT(date, mac) DO UPDATE SET upload=upload+".toList ++ (number delta.up ++
        (", download=download+".toList ++ (number delta.down ++ ", ip_list=".toList)))))))),
       .literal ipList,
       .text ", hostname=".toList,
       .literal hostname,
       .text ";\n".toList]
  | .replaceCapture key flow =>
      let values : CStr := ", ".toList ++ (number flow.up ++ (", ".toList ++ (number flow.down ++
        (", ".toList ++ (number now ++ ");\n".toList)))))
      let insert : CStr :=
        "INSERT OR REPLACE INTO traffic_last_capture (key, upload, download, last_seen) VALUES (".toList
      match key with
      | .global => [.text (insert ++ ("'global'".toList ++ values))]
      | .mac mac => [.text insert, .literal ("mac:".toList ++ mac), .text values]
  | .commit => [.text "COMMIT;\n".toList]

/-- What a statement does to the tables. -/
def SqlStatement.exec (db : TrafficDb) : SqlStatement → TrafficDb
  | .begin => db
  | .addTotal .daily key delta => { db with daily := upsert key delta (·.add delta) db.daily }
  | .addTotal .monthly key delta => { db with monthly := upsert key delta (·.add delta) db.monthly }
  | .addTotal .yearly key delta => { db with yearly := upsert key delta (·.add delta) db.yearly }
  | .addMinute date time delta =>
      { db with minute := upsert (date, time) delta (·.add delta) db.minute }
  | .addIpDaily date mac ipList hostname delta =>
      { db with
        ipDaily := upsert (date, mac) ⟨ipList, hostname, delta⟩
          (fun row => ⟨ipList, hostname, row.flow.add delta⟩) db.ipDaily }
  | .replaceCapture key flow =>
      { db with lastCapture := upsert key flow (fun _ => flow) db.lastCapture }
  | .commit => db

/-! ## The script -/

/-- The statement for the daily row of a device. -/
def dailyStatement (db : TrafficDb) (today : CStr) (s : Sample) : SqlStatement :=
  .addIpDaily today s.mac (ipListText s.ips) s.hostname (s.flow.delta (db.captured (.mac s.mac)))

/-- The statement for the snapshot row of a device. -/
def captureStatement (s : Sample) : SqlStatement := .replaceCapture (.mac s.mac) s.flow

/-- The devices that count in a run. -/
def Collection.samples (c : Collection) : List Sample := c.devices.filterMap sampleOf

/-- Step 5 of `collect_traffic`. -/
def sqlScript (db : TrafficDb) (c : Collection) : List SqlStatement :=
  let total := Flow.sum (c.samples.map (·.flow))
  let delta := total.delta (db.captured .global)
  [.begin, .addTotal .daily c.today delta, .addTotal .monthly c.month delta,
    .addTotal .yearly c.year delta, .addMinute c.today c.time delta] ++
  (c.samples.map (dailyStatement db c.today) ++
  (.replaceCapture .global total :: (c.samples.map captureStatement ++ [.commit])))

/-- The pieces of the whole text. -/
def scriptPieces (now : Nat) (db : TrafficDb) (c : Collection) : List SqlPiece :=
  (sqlScript db c).flatMap (SqlStatement.pieces now)

/-- Step 6 of `collect_traffic`: the command that is handed to the shell, when
there is a device at all. -/
def collectCommand (now : Nat) (db : TrafficDb) (c : Collection) : Option CStr :=
  if c.devices = [] then none
  else some ("printf '%s' ".toList ++
    (sq (renderSql sq (scriptPieces now db c)) ++ (" | sqlite3 ".toList ++ sq dbPath)))

end OpenAppFilter.Traffic
