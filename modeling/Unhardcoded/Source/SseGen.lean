import Unhardcoded.Effects.Machine
import Unhardcoded.Python.Json

/-!
# The SSE generator

Source: `_sse_gen` and `_await_delta_or_beat` of shim.py, and the `emit` that
`_handle_stream` gives the backend task. A frame stands for the event its encoder
writes. A getter task takes the head of the queue in one go or, once it is cancelled,
not at all; `asyncio.wait` may return when the getter or the task is done or the
heartbeat time is over. The task emits only while it runs.
-/

namespace Unhardcoded.Source

open Effects Python

namespace SseGen

/-- The result of the backend task, as `_sse_gen` and `_final_chunk_parts` read it. -/
structure RunResult where
  ok : Bool
  text : String
  rawModel : String
  finishReason : Option String
  toolCalls : Json
  usage : Json
  xRouter : Json
  error : String

/-- What the generator yields. -/
inductive Frame where
  | role (model : String)
  | text (model delta : String)
  | heartbeat
  | final (model : String) (finishReason : Option String) (toolCalls usage xRouter : Json)
  | error (message type : String)
  | done

/-- How the task ends. -/
inductive TaskEnd where
  | result (r : RunResult)
  /-- An exception or a cancellation, which `task.result()` raises. -/
  | raised

/-- Where the generator stands. -/
inductive Phase where
  /-- Not iterated yet. -/
  | created
  /-- At the `yield` of the role chunk, of a delta or of a heartbeat. -/
  | looping
  /-- In `asyncio.wait`; the getter's result when it is done. -/
  | waiting (getter : Option String)
  /-- At a `yield` of the drain. -/
  | draining
  /-- At a `yield` after the loop, with these frames to come. -/
  | closing (rest : List Frame)
  /-- `task.result()` raised. -/
  | failed
  /-- The client went away. -/
  | closed

structure GenState where
  /-- `req.model or ""`. -/
  model : String
  queue : List String
  task : Option TaskEnd
  phase : Phase
  streamedAny : Bool
  /-- What was yielded. -/
  frames : List Frame
  /-- What the task emitted. -/
  emitted : List String

inductive GenAct where
  /-- The task emits a delta. -/
  | emit (delta : String)
  /-- The task ends. -/
  | finish (ending : TaskEnd)
  /-- The getter runs and takes a delta. -/
  | take
  /-- `asyncio.wait` returns. -/
  | wake
  /-- The consumer asks for the next frame. -/
  | next
  /-- The consumer closes the generator. -/
  | close

namespace GenState

def start (model : String) : GenState := ⟨model, [], none, .created, false, [], []⟩

def yieldFrame (s : GenState) (frame : Frame) (phase : Phase) : GenState :=
  { s with frames := s.frames ++ [frame], phase := phase }

def sendText (s : GenState) (delta : String) (phase : Phase) : GenState :=
  { s with streamedAny := true }.yieldFrame (.text s.model delta) phase

/-- The chunk with the full text, where no delta was sent. -/
def owedText (model : String) (streamedAny : Bool) (r : RunResult) : List Frame :=
  if r.ok ∧ streamedAny = false ∧ r.text ≠ "" then
    [.text (if r.rawModel = "" then model else r.rawModel) r.text]
  else []

/-- The final chunk and what follows it. -/
def ending (model : String) (r : RunResult) : List Frame :=
  if r.ok then
    [.final (if r.rawModel = "" then model else r.rawModel) r.finishReason r.toolCalls r.usage r.xRouter, .done]
  else
    let err := if r.error = "" then "stream failed" else r.error
    [.final model (some "error") .null r.usage r.xRouter, .error err err, .done]

/-- `_sse_gen` after its loop, up to its next `yield`. -/
def finishLoop (s : GenState) (outcome : TaskEnd) : GenState :=
  match outcome with
  | .raised => { s with phase := .failed }
  | .result r =>
    match owedText s.model s.streamedAny r ++ ending s.model r with
    | [] => s
    | frame :: rest => s.yieldFrame frame (.closing rest)

/-- `while not queue.empty()` of the drain, up to its next `yield`. -/
def drain (s : GenState) (outcome : TaskEnd) : GenState :=
  match s.queue with
  | delta :: rest => { s with queue := rest }.sendText delta .draining
  | [] => s.finishLoop outcome

/-- `_await_delta_or_beat` after its wait, and the loop up to its next `yield`. -/
def awake (s : GenState) (getter : Option String) : GenState :=
  match getter, s.task with
  | some delta, _ => s.sendText delta .looping
  | none, some outcome => s.drain outcome
  | none, none => s.yieldFrame .heartbeat .looping

def next (s : GenState) : Option GenState :=
  match s.phase with
  | .created => some (s.yieldFrame (.role s.model) .looping)
  | .looping => some { s with phase := .waiting none }
  | .draining => s.task.map s.drain
  | .closing (frame :: rest) => some (s.yieldFrame frame (.closing rest))
  | _ => none

def step (s : GenState) : GenAct → Option GenState
  | .emit delta =>
    match s.task with
    | none => some { s with queue := s.queue ++ [delta], emitted := s.emitted ++ [delta] }
    | some _ => none
  | .finish outcome =>
    match s.task with
    | none => some { s with task := some outcome }
    | some _ => none
  | .take =>
    match s.phase, s.queue with
    | .waiting none, delta :: rest => some { s with queue := rest, phase := .waiting (some delta) }
    | _, _ => none
  | .wake =>
    match s.phase with
    | .waiting getter => some (s.awake getter)
    | _ => none
  | .next => s.next
  | .close => some { s with phase := .closed }

end GenState

/-- Emits, heartbeats, the end of the task and the consumer, in any order. -/
abbrev runGen (model : String) (acts : List GenAct) : Option GenState :=
  Machine.run GenState.step (.start model) acts

end SseGen

end Unhardcoded.Source
