import Unhardcoded.Effects.Machine
import Unhardcoded.Python.JsonCompact
import Unhardcoded.Python.Ndjson
import Unhardcoded.Source.Adapters.Common

/-!
# The Codex broker and its client

Source: the `/v1/stream` handler of codex_broker.py, and `RemoteCodexClient.stream`,
`_replay_signals` and `_http_error` of remote_codex.py. What `stream_codex` does with its
account is a parameter: the deltas that it emits, and the dictionary that it returns or
the exception that it raises. Deltas and results are JSON values; latencies and the texts
of the client's own errors are left out. `aiter_lines` yields a line once a boundary ends
it, and what is left when the body ends.
-/

namespace Unhardcoded.Source.CodexBroker

open Python
open Adapters (ErrorKind)

section Broker

/-- `err(kind, status, latency_ms, message)`. -/
def errDict (kind : String) (status latencyMs : Int) (message : String) : List (String × Json) :=
  [("ok", .bool false), ("error_kind", .str kind), ("http_status", .int status), ("latency_ms", .int latencyMs),
    ("error_message", .str message)]

/-- What the call of one request comes to. -/
inductive Work where
  /-- `select_account()` raises, outside the `try` of `run`. -/
  | failed
  /-- `select_account()` is `None`. -/
  | noAccount
  | returned (sent : List Json) (result : List (String × Json))
  | raised (sent : List Json) (error text : String)

def Work.sent : Work → List Json
  | .failed | .noAccount => []
  | .returned sent _ | .raised sent _ _ => sent

/-- The result that `run` puts last, if it does not raise before. -/
def Work.result : Work → Option (List (String × Json))
  | .failed => none
  | .noAccount => some (errDict "auth_error" 0 0 "no Codex account is configured")
  | .returned _ result => some result
  | .raised _ error text => some (errDict "server_error" 0 0 ("Codex broker stream failed: " ++ error ++ ": " ++ text))

/-- What `observe` is called with: the status, the quota headers and the time of a response. -/
structure Signal where
  status : Int
  headers : List (String × String)
  ts : Int
  deriving DecidableEq, Repr

def Signal.json (s : Signal) : Json :=
  .obj [("status", .int s.status), ("headers", .obj (s.headers.map fun h => (h.1, .str h.2))), ("ts", .int s.ts)]

/-- An item of the queue. -/
inductive Event where
  | delta (delta : Json)
  | result (result : List (String × Json)) (signals : List Signal)

def Event.json : Event → Json
  | .delta d => .obj [("event", .str "delta"), ("delta", d)]
  | .result r signals => .obj [("event", .str "result"), ("result", .obj r), ("signals", .arr (signals.map Signal.json))]

def Event.isResult : Event → Bool
  | .result _ _ => true
  | .delta _ => false

/-- What `run` puts on the queue, in order. -/
def events (work : Work) (signals : List Signal) : List Event :=
  work.sent.map .delta ++ work.result.toList.map (.result · signals)

/-- `asyncio.Queue(maxsize=128)`. -/
def queueMax : Nat := 128

/-- A request: what `run` has still to put, the queue, the text on the wire and how much of
it has arrived. -/
structure Relay where
  pending : List Event
  queue : List Event
  wire : List Char
  arrived : Nat
  finished : Bool

def Relay.start (work : Work) (signals : List Signal) : Relay := ⟨events work signals, [], [], 0, false⟩

inductive Step where
  /-- `run` puts its next item, once the queue has room. -/
  | put
  /-- The generator yields the line of an item, and stops behind the result. -/
  | yield
  /-- More characters arrive. -/
  | deliver (count : Nat)
  deriving DecidableEq

def step (s : Relay) : Step → Option Relay
  | .put =>
    match s.pending with
    | [] => none
    | event :: pending =>
      if s.queue.length < queueMax then some { s with pending := pending, queue := s.queue ++ [event] } else none
  | .yield =>
    if s.finished then none
    else match s.queue with
      | [] => none
      | event :: queue =>
        some { s with queue := queue, wire := s.wire ++ (event.json.compact.toList ++ ['\n']), finished := event.isResult }
  | .deliver count =>
    if s.arrived + count ≤ s.wire.length then some { s with arrived := s.arrived + count } else none

end Broker

section Client

/-- What the client knows of Python: `json.loads` of a float, `int` and `str` of a value, the clock. -/
structure Setting where
  float : String → Json
  int : Json → Except Raised Int
  str : Json → String
  time : Int

/-- `str(k)[:n]`. -/
def clip (n : Nat) (text : String) : String := String.ofList (text.toList.take n)

/-- One round of `_replay_signals`. -/
def replaySignal (env : Setting) (raw : Json) : Except Raised Signal := do
  let status ← env.int ((raw.field "status").orElse (.int 0))
  let headers := match raw.field "headers" with
    | .obj entries => entries.foldl (fun d e => insert (clip 100 e.1) (clip 1000 (env.str e.2)) d) []
    | _ => []
  let ts ← env.int ((raw.field "ts").orElse (.int env.time))
  pure ⟨status, headers, ts⟩

/-- `_replay_signals`, with what `observe` is called with. -/
def replaySignals (env : Setting) (payload : Json) : Except Raised (List Signal) :=
  match payload with
  | .arr signals => ((signals.take 16).filter Json.isObj).mapM (replaySignal env)
  | _ => pure []

inductive Reply where
  /-- The dictionary of the broker, as it came. -/
  | relayed (result : List (String × Json)) (observed : List Signal)
  | err (kind : ErrorKind) (status : Nat)

/-- What became of a call: what was emitted, and how it ended. -/
structure Outcome where
  sent : List String
  reply : Except Raised Reply

/-- `"stream_interrupted" if emitted else kind`. -/
def cutKind (sent : List String) (kind : ErrorKind) : ErrorKind := if sent.isEmpty then kind else .streamInterrupted

/-- The loop over the lines, as far as it returns. -/
def readLines (env : Setting) (sent : List String) : List String → List String × Option (Except Raised Reply)
  | [] => (sent, none)
  | line :: lines =>
    if line = "" then readLines env sent lines
    else match loads env.float line with
      | none => (sent, some (.ok (.err (cutKind sent .badResponse) 200)))
      | some event =>
        if (event.field "event").isText "delta" then
          match event.field "delta" with
          | .str text => if text = "" then readLines env sent lines else readLines env (sent ++ [text]) lines
          | _ => readLines env sent lines
        else if (event.field "event").isText "result" then
          match event.field "result" with
          | .obj result => (sent, some ((replaySignals env (event.field "signals")).map (.relayed result)))
          | _ => (sent, some (.ok (.err .badResponse 200)))
        else readLines env sent lines

/-- What ends the body. -/
inductive Ending where
  | closed
  | timedOut
  | broken
  deriving DecidableEq

/-- The lines that `aiter_lines` yields of a text before it ends so. -/
def linesOf (ending : Ending) (text : List Char) : List String :=
  let lines := (splitFrom [] false text).map String.ofList
  match ending, text.getLast? with
  | .closed, _ => lines
  | _, some c => if isBreak c && c ≠ '\r' then lines else lines.dropLast
  | _, none => lines

/-- `_http_error`. -/
def httpError (status : Nat) : Reply :=
  if status = 401 ∨ status = 403 then .err .authError status
  else if status = 429 then .err .rateLimit status
  else .err .serverError status

/-- What is returned behind the loop, or where it raised. -/
def unanswered (sent : List String) : Ending → Reply
  | .timedOut => .err (cutKind sent .timeout) 0
  | .broken => .err (cutKind sent .networkError) 0
  | .closed => .err (cutKind sent .badResponse) 200

/-- How opening the stream goes. -/
inductive Opening where
  | timedOut
  | broken
  | status (code : Nat)

/-- `RemoteCodexClient.stream`. -/
def stream (env : Setting) (opening : Opening) (text : List Char) (ending : Ending) : Outcome :=
  match opening with
  | .timedOut => ⟨[], .ok (.err .timeout 0)⟩
  | .broken => ⟨[], .ok (.err .networkError 0)⟩
  | .status code =>
    if code ≠ 200 then ⟨[], .ok (httpError code)⟩
    else match readLines env [] (linesOf ending text) with
      | (sent, some reply) => ⟨sent, reply⟩
      | (sent, none) => ⟨sent, .ok (unanswered sent ending)⟩

end Client

end Unhardcoded.Source.CodexBroker
