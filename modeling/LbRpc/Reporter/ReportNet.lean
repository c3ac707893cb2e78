import LbRpc.Agent.DnsClient
import LbRpc.Base.Runs
import LbRpc.Reporter.StoreThread

/-!
# From the agent's reports to the reporter's table

Each report makes its load balancer commit a status report. These go through `report_queue` to
the thread of the report client (`lb_agent/src/reporter_client.cpp`), over its connection to
`get_report_status` (`reporter/src/reporter_service.cpp`), and through the store threads into
`ServerCallStatus`.

* `ReportNet.step`: any of the threads goes on, in any order.

A connection is lost between two messages, and a read ends with one: bytes of a message that was
written or read in part are not followed.
-/

namespace LbRpc

open Lbrss

structure ReportNet (n : ℕ) where
  lbs : RouteLBs
  /-- `report_queue` -/
  queue : List ReportStatusRequest
  /-- `msgs` of `new_report_request` -/
  msgs : List ReportStatusRequest
  /-- `connected` of the client -/
  connected : Bool
  /-- taken by `send_message`, and not dispatched by the service yet -/
  wire : List ReportStatusRequest
  reporter : Reporter n
  /-- everything that `commit` has put on `report_queue` -/
  committed : List ReportStatusRequest
  /-- what `get_report_status` was called for -/
  arrived : List ReportStatusRequest
  /-- refused by `send_message`, or gone down with a connection -/
  lost : List ReportStatusRequest

namespace ReportNet

variable {n : ℕ}

inductive Event (n : ℕ)
  /-- a call on `r_lb[i]`, by the server or by the client of the DNS service -/
  | call (i : Fin 3) (op : RouteLB.Op)
  /-- `new_report_request` takes what is on the queue -/
  | takeQueue
  /-- it comes to the next message -/
  | send (room : Bool)
  | connect
  /-- the connection is lost, when so many messages have been written -/
  | close (written : ℕ)
  /-- the service dispatches the next message: `get_report_status` -/
  | receive
  /-- a store thread takes its next step; `ok` says whether a statement succeeds -/
  | go (t : Fin n) (ok : Bool)

/-- Nothing has happened; the reporter has started on this table. -/
def start (h : 0 < n) (table : CallStatusTable) (connected : Bool) : ReportNet n :=
  ⟨fun _ => .new, [], [], connected, [], Reporter.boot h table, [], [], []⟩

variable (E : Env)

/-- What a call puts on `report_queue`. -/
def sentBy (rl : RouteLB) : RouteLB.Op → Option ReportStatusRequest
  | .reportHost req currentTime ts commitTime =>
    match rl.reportHost E req currentTime ts commitTime with
    | .error _ => none
    | .ok (_, sent) => sent
  | _ => none

def call (i : Fin 3) (op : RouteLB.Op) (s : ReportNet n) : Except Fault (ReportNet n) :=
  match (s.lbs i).step E op with
  | .error f => .error f
  | .ok rl =>
    .ok { s with
      lbs := Function.update s.lbs i rl
      queue := s.queue ++ (sentBy E (s.lbs i) op).toList
      committed := s.committed ++ (sentBy E (s.lbs i) op).toList }

/-- The loop of `new_report_request`. -/
def send (room : Bool) (s : ReportNet n) : ReportNet n :=
  match s.msgs with
  | [] => s
  | req :: msgs =>
    if s.connected && room then { s with msgs := msgs, wire := s.wire ++ [req] }
    else { s with msgs := msgs, lost := s.lost ++ [req] }

def receive (s : ReportNet n) : ReportNet n :=
  match s.wire with
  | [] => s
  | req :: wire => { s with wire := wire, reporter := s.reporter.report req, arrived := s.arrived ++ [req] }

/-- One step. An event that cannot occur changes nothing. -/
def step (s : ReportNet n) : Event n → Except Fault (ReportNet n)
  | .call i op => s.call E i op
  | .takeQueue => if s.msgs = [] then .ok { s with msgs := s.queue, queue := [] } else .ok s
  | .send room => .ok (s.send room)
  | .connect => .ok { s with connected := true }
  | .close written =>
    if s.msgs = [] ∧ s.connected then
      .ok { s with connected := false, wire := s.wire.drop written, lost := s.lost ++ s.wire.take written }
    else .ok s
  | .receive => if s.connected then .ok s.receive else .ok s
  | .go t ok => .ok { s with reporter := s.reporter.go t ok }

end ReportNet

end LbRpc
