import Unhardcoded.Python.Body

/-!
# What the provider adapters share

Source: provider_adapters/common.py. A call is given by what the adapter reads from
upstream: how the connection opens, the lines of the event stream, how the stream
ends. Left out are the request that is sent, latencies, the texts of errors and
`tokens_total`. `emit` queues its delta and never fails; what it was called with is
kept in `sent`.
-/

namespace Unhardcoded.Source

open Python

namespace Adapters

inductive ErrorKind where
  | authError
  | rateLimit
  | paymentRequired
  | timeout
  | modelUnavailable
  | contextOverflow
  | badRequest
  | serverError
  | unknown
  | networkError
  | badResponse
  | contentFilter
  | streamInterrupted
  | unsupportedApiKind
  /-- A kind that a provider's `error_map` names. -/
  | mapped (kind : String)
  deriving DecidableEq, Repr

structure ToolCall where
  id : Json
  name : Json
  arguments : Json

structure Response where
  text : String
  /-- Empty for `None`. -/
  toolCalls : List ToolCall
  finishReason : Json
  tokensIn : Json
  tokensOut : Json
  tokensCached : Json
  rawModel : Json

/-- A complete-response dict, or `err(kind, status, ...)`. -/
inductive Result where
  | ok (response : Response)
  | err (kind : ErrorKind) (status : Nat)

/-- Prompt-cache reads across the shapes of usage objects. -/
def cachedTokens (usage : Json) : Json :=
  match (usage.field "prompt_tokens_details").field "cached_tokens",
    (usage.field "input_tokens_details").field "cached_tokens" with
  | .null, .null => usage.field "cache_read_input_tokens"
  | .null, cached => cached
  | cached, _ => cached

/-- `_OVERFLOW_400_SIGNATURES`. -/
def overflow400Signatures : List String :=
  ["context length", "context window", "context_length_exceeded", "reduce the length of the messages"]

def classifyStatus (status : Nat) (errMsg : String) : ErrorKind :=
  if status = 401 ∨ status = 403 then .authError
  else if status = 429 then .rateLimit
  else if status = 402 then .paymentRequired
  else if status = 408 ∨ status = 504 then .timeout
  else if status = 404 then .modelUnavailable
  else if status = 400 then
    if overflow400Signatures.any (contains · (lower errMsg)) then .contextOverflow else .badRequest
  else if 500 ≤ status ∧ status < 600 then .serverError
  else .unknown

/-- `200 <= status < 300`. -/
def isSuccess (status : Nat) : Bool := 200 ≤ status && status < 300

/-- What the rest of a line is, after `data:`, if it has one. -/
inductive Payload where
  | absent
  | done
  | undecodable
  | event (value : Json)

/-- A line of an event stream. An indented one begins with `data:` only once stripped. -/
structure Line where
  indented : Bool
  payload : Payload

/-- How opening the stream goes. -/
inductive Opening where
  | timedOut
  | raised (error : Raised)
  | status (code : Nat) (body : String)

/-- What ends the reads of a stream: its end, a `TimeoutError` (the first-token
deadline, or the transport's own), another exception. -/
inductive Ending where
  | closed
  | timedOut
  | raised (error : Raised)

/-- A call, as the adapter sees it. -/
structure HttpCall where
  /-- `env_get(auth_env)`. -/
  token : Option String
  /-- Whether the request sets `first_token_timeout_ms`. -/
  firstTokenTimeout : Bool
  opening : Opening
  lines : List Line
  ending : Ending

def authToken {σ : Type} (call : HttpCall) : Body σ Result Unit :=
  if call.token.getD "" = "" then Body.ret (.err .authError 0) else pure ()

/-- Without a deadline its message cannot be written, which raises. -/
def firstTokenTimeoutErr {σ α : Type} (firstTokenTimeout : Bool) : Body σ Result α :=
  if firstTokenTimeout then Body.ret (.err .timeout 0) else Body.raise .typeError

/-- `tool_calls` is the adapter's own. -/
structure StreamAcc (τ : Type) where
  status : Nat
  textParts : List Json
  toolCalls : τ
  finishReason : Json
  usage : Json
  rawModel : Json
  sawOutput : Bool
  emitted : Bool
  sent : List Json

def StreamAcc.new {τ : Type} (toolCalls : τ) : StreamAcc τ :=
  ⟨0, [], toolCalls, .null, .obj [], .null, false, false, []⟩

section Drive

variable {σ : Type} (sawOutput : σ → Bool) (firstTokenTimeout : Bool) (ending : Ending)

/-- The read that finds the end of the stream. -/
def lastRead : Body σ Result Unit :=
  match ending with
  | .closed => pure ()
  | .timedOut => do
    let acc ← get
    if sawOutput acc then Body.raise .timeoutError else firstTokenTimeoutErr firstTokenTimeout
  | .raised error => Body.raise error

/-- The loop over the lines of an event stream, up to `[DONE]`. -/
def readLines (onEvent : Json → Body σ Result Unit) : List Line → Body σ Result Unit
  | [] => lastRead sawOutput firstTokenTimeout ending
  | ⟨false, .event ev⟩ :: lines => do
    onEvent ev
    readLines onEvent lines
  | ⟨false, .done⟩ :: _ => pure ()
  | _ :: lines => readLines onEvent lines

end Drive

/-- `except Exception` of the drive. -/
def driveExcept {τ : Type} : Body (StreamAcc τ) Result Unit := do
  let acc ← get
  if acc.emitted then
    -- the partial text of the message
    let _ ← join acc.textParts
    Body.ret (.err .streamInterrupted 0)
  else Body.ret (.err .networkError 0)

def driveHttpSse {τ : Type} (call : HttpCall) (onEvent : Json → Body (StreamAcc τ) Result Unit) :
    Body (StreamAcc τ) Result Unit :=
  Body.tryExcept
    (match call.opening with
      | .timedOut => firstTokenTimeoutErr call.firstTokenTimeout
      | .raised error => Body.raise error
      | .status code body => do
        modify fun acc => { acc with status := code }
        if isSuccess code then readLines (·.sawOutput) call.firstTokenTimeout call.ending onEvent call.lines
        else Body.ret (.err (classifyStatus code body) code))
    fun _ => driveExcept

/-- A call of a streaming backend: what it passed to `emit`, and what it returned or
raised. -/
structure Run where
  sent : List Json
  outcome : Except Raised Result

/-- Run the body of a streaming backend. -/
def stream {σ : Type} (sent : σ → List Json) (start : σ) (body : Body σ Result Result) : Run :=
  match body.exec start with
  | (.ok result, s) => ⟨sent s, .ok result⟩
  | (.error (.returned result), s) => ⟨sent s, .ok result⟩
  | (.error (.raised error), s) => ⟨sent s, .error error⟩

end Adapters

end Unhardcoded.Source
