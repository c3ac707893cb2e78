import LbRpc.Base.RoundRobin
import LbRpc.Proto
import Mathlib.Data.Fin.Basic
import Mathlib.Data.Nat.Notation
import Mathlib.Logic.Function.Basic

/-!
# The reporter

`reporter/src/reporter_service.cpp`, `store_thread.cpp` and `store_report.cpp`:
`get_report_status` deals the reports out to the queues of the store threads. A thread takes
its whole queue (`thread_report`) and writes each result of each report to the table
`ServerCallStatus` with a statement of its own (`StoreReport::store`). The threads run side
by side, each on its own database connection.

* `store`: the statements for one report.
* `Reporter.step`: a report arrives, or one of the threads goes on.
-/

namespace LbRpc

/-- The primary key of `ServerCallStatus`. -/
structure CallStatusKey where
  modid : Int32
  cmdid : Int32
  ip : UInt32
  port : UInt32
  caller : UInt32
  deriving DecidableEq, Repr

/-- The other columns of `ServerCallStatus`. -/
structure CallStatus where
  succCnt : UInt32
  errCnt : UInt32
  ts : UInt32
  overload : Int32
  deriving DecidableEq, Repr

abbrev CallStatusTable := CallStatusKey → Option CallStatus

/-- `INSERT INTO ServerCallStatus … ON DUPLICATE KEY UPDATE …`: the key, and the columns that
it inserts or updates. -/
abbrev Upsert := CallStatusKey × CallStatus

/-- `mysql_real_query`, where it succeeds. -/
def Upsert.query (u : Upsert) (table : CallStatusTable) : CallStatusTable :=
  Function.update table u.1 (some u.2)

/-- The statement for one result. -/
def callStatusUpsert (req : Lbrss.ReportStatusRequest) (result : Lbrss.HostCallResult) : Upsert :=
  (⟨req.modid, req.cmdid, result.ip.toUInt32, result.port.toUInt32, req.caller.toUInt32⟩,
    ⟨result.succ, result.err, req.ts, if result.overload then 1 else 0⟩)

/-- `StoreReport::store`. -/
def store (req : Lbrss.ReportStatusRequest) : List Upsert := req.results.map (callStatusUpsert req)

/-- A store thread with its queue. -/
structure StoreThread where
  /-- `ThreadQueue::_queue` -/
  queue : List Lbrss.ReportStatusRequest
  /-- `report_msgs` of `thread_report` -/
  reportMsgs : List Lbrss.ReportStatusRequest
  /-- what the call of `store` that is under way has still to run -/
  statements : List Upsert
  deriving DecidableEq

/-- The `StoreThreadPool` with its `n` threads, and the database. -/
structure Reporter (n : ℕ) where
  /-- `index_` -/
  index : Fin n
  threads : Fin n → StoreThread
  table : CallStatusTable
  /-- the statements that succeeded so far, each with its thread -/
  log : List (Fin n × Upsert)

namespace Reporter

variable {n : ℕ}

/-- The service has started, on this table. -/
def boot (h : 0 < n) (table : CallStatusTable) : Reporter n where
  index := ⟨0, h⟩
  threads := fun _ => ⟨[], [], []⟩
  table := table
  log := []

inductive Event (n : ℕ)
  /-- `get_report_status` -/
  | report (req : Lbrss.ReportStatusRequest)
  /-- a store thread takes its next step; `ok` says whether a statement succeeds -/
  | go (t : Fin n) (ok : Bool)
  deriving DecidableEq

def modifyThread (t : Fin n) (f : StoreThread → StoreThread) (s : Reporter n) : Reporter n :=
  { s with threads := Function.update s.threads t (f (s.threads t)) }

/-- `get_report_status`: `get_thread` gives the thread at `index_` and goes on to the next, and
the thread is sent the report. -/
def report (req : Lbrss.ReportStatusRequest) (s : Reporter n) : Reporter n :=
  { s.modifyThread s.index fun k => { k with queue := k.queue ++ [req] } with
    index := RoundRobin.next s.index }

/-- The next step of a thread: a statement, the next report, or `recv`. -/
def go (t : Fin n) (ok : Bool) (s : Reporter n) : Reporter n :=
  match (s.threads t).statements, (s.threads t).reportMsgs with
  | u :: rest, _ =>
    let next := s.modifyThread t fun k => { k with statements := rest }
    if ok then { next with table := u.query s.table, log := s.log ++ [(t, u)] } else next
  | [], msg :: msgs => s.modifyThread t fun k => { k with reportMsgs := msgs, statements := store msg }
  | [], [] => s.modifyThread t fun k => { k with queue := [], reportMsgs := k.queue }

def step (s : Reporter n) : Event n → Reporter n
  | .report req => s.report req
  | .go t ok => s.go t ok

/-- The reporter after these events. -/
def run (h : 0 < n) (table : CallStatusTable) (es : List (Event n)) : Reporter n :=
  es.foldl step (boot h table)

/-- The thread has nothing left to do. -/
def Idle (s : Reporter n) (t : Fin n) : Prop := s.threads t = ⟨[], [], []⟩

instance (s : Reporter n) (t : Fin n) : Decidable (s.Idle t) := inferInstanceAs (Decidable (_ = _))

/-- The reports that arrive in the course of these events. -/
def requests (es : List (Event n)) : List Lbrss.ReportStatusRequest :=
  es.filterMap fun
    | .report req => some req
    | .go _ _ => none

end Reporter

end LbRpc
