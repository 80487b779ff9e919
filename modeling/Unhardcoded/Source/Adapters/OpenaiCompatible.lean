import Unhardcoded.Source.Adapters.Common

/-!
# The OpenAI-compatible streaming backend

Source: `_stream_openai_compatible_impl`, `_has_reasoning_content` and
`_classify_from_map` of provider_adapters/openai_compatible.py, and
`ProviderTiming.observe_chunk` of diagnostics.py. Left out are timings, costs and the
provider's own usage and metadata.
-/

namespace Unhardcoded.Source

open Python

namespace Adapters.OpenaiCompatible

/-- `nonblank` of `_has_reasoning_content`. -/
def nonblank : Json → Bool
  | .str text => !blank text
  | _ => false

def hasReasoningDetail (part : Json) : Bool :=
  part.isObj && ["text", "summary", "data", "encrypted_content"].any fun key => nonblank (part.field key)

def hasReasoningContent (message : Json) : Bool :=
  ["reasoning", "reasoning_content"].any (fun key => nonblank (message.field key)) ||
    match message.field "reasoning_details" with
    | .arr details => details.any hasReasoningDetail
    | _ => false

/-- The first needle of a provider's `error_map` that the message contains. -/
def classifyFromMap (errMsg : String) (errorMap : List (String × String)) : Option ErrorKind :=
  (errorMap.find? fun entry => contains (lower entry.1) (lower errMsg)).map fun entry => .mapped entry.2

structure Call where
  /-- The error of `_prepare_openai_call`. -/
  unprepared : Option (ErrorKind × Nat)
  /-- The error of the peer's capacity gate. -/
  gateError : Option ErrorKind
  errorMap : List (String × String)
  firstTokenTimeout : Bool
  opening : Opening
  lines : List Line
  ending : Ending

structure Acc where
  emitted : Bool
  textParts : List Json
  /-- `reasoning_parts` by its two keys. -/
  reasoning : List Json
  reasoningContent : List Json
  reasoningDetails : List Json
  toolCalls : List (Key × ToolCall)
  finishReason : Json
  usage : Json
  rawModel : Json
  sawOutput : Bool
  sent : List Json

def Acc.new : Acc := ⟨false, [], [], [], [], [], .null, .obj [], .null, false, []⟩

/-- Nothing of it is kept here, but it reads every choice before a delta is passed on. -/
def observeChunk (chunk : Json) : Except Raised Unit := do
  let choices ← (← chunk.get "choices").iterOr
  choices.forM fun choice => do
    let delta := (← choice.get "delta").orDict
    let _ ← delta.get "reasoning"

/-- `acc["function"]["arguments"] += piece`. -/
def addArguments (arguments piece : Json) : Except Raised Json :=
  match arguments, piece with
  | .str text, .str piece => .ok (.str (text ++ piece))
  | _, _ => .error .typeError

def onToolCall (tc : Json) : Body Acc Result Unit := do
  modify fun acc => { acc with sawOutput := true }
  let key ← (← tc.getD "index" (.int 0)).key
  let acc ← get
  let call := (acc.toolCalls.lookup key).getD ⟨.null, .str "", .str ""⟩
  set { acc with toolCalls := insert key call acc.toolCalls }
  let id ← tc.get "id"
  let fn := (← tc.get "function").orDict
  let name ← fn.get "name"
  let piece ← fn.get "arguments"
  let arguments ← if piece.truthy then addArguments call.arguments piece else pure call.arguments
  modify fun acc =>
    { acc with toolCalls := insert key ⟨id.orElse call.id, name.orElse call.name, arguments⟩ acc.toolCalls }

/-- A delta that is a string goes to the parts of its key. -/
def strings (v : Json) : List Json := if v.isStr then [v] else []

def elements : Json → List Json
  | .arr items => items
  | _ => []

def onChoice (choice : Json) : Body Acc Result Unit := do
  let delta := (← choice.get "delta").orDict
  let finishReason ← choice.get "finish_reason"
  let reasoning ← delta.get "reasoning"
  modify fun acc => { acc with
    finishReason := finishReason.orElse acc.finishReason
    reasoning := acc.reasoning ++ strings reasoning
    reasoningContent := acc.reasoningContent ++ strings (delta.field "reasoning_content")
    reasoningDetails := acc.reasoningDetails ++ elements (delta.field "reasoning_details")
    sawOutput := acc.sawOutput || hasReasoningContent delta }
  let content ← delta.get "content"
  if content.truthy then
    modify fun acc => { acc with
      sawOutput := true, textParts := acc.textParts ++ [content]
      sent := acc.sent ++ [content], emitted := true }
  let toolCalls ← (← delta.get "tool_calls").iterOr
  toolCalls.forM onToolCall

def onChunk (chunk : Json) : Body Acc Result Unit := do
  observeChunk chunk
  let model ← chunk.get "model"
  let usage ← chunk.get "usage"
  modify fun acc => { acc with
    rawModel := match acc.rawModel with
      | .null => model
      | rawModel => rawModel
    usage := usage.orElse acc.usage }
  let choices ← (← chunk.get "choices").iterOr
  choices.forM onChoice

section Stream

variable (call : Call)

/-- `ResponseTooLarge`, which the bounded reads of a tenant's gateway raise. -/
def isTooLarge : Raised → Bool
  | .other name _ => name = "ResponseTooLarge"
  | _ => false

def read : Body Acc Result Unit :=
  Body.tryExcept
    (match call.opening with
      | .timedOut => firstTokenTimeoutErr call.firstTokenTimeout
      | .raised error => Body.raise error
      | .status code body =>
        if isSuccess code then readLines (·.sawOutput) call.firstTokenTimeout call.ending onChunk call.lines
        else Body.ret (.err ((classifyFromMap body call.errorMap).getD (classifyStatus code body)) code))
    fun error => do
      let acc ← get
      if isTooLarge error then
        Body.ret (.err (if acc.emitted then .streamInterrupted else .badResponse) 200)
      let _ ← join acc.textParts
      Body.ret (.err (if acc.emitted then .streamInterrupted else .networkError) 0)

/-- `{key: "".join(parts)}` where the key has parts. -/
def joined (key : String) (parts : List Json) : Except Raised (List (String × Json)) := do
  let text ← join parts
  pure (if parts.isEmpty then [] else [(key, .str text)])

def finish : Body Acc Result Result := do
  let acc ← get
  let toolCalls ← inKeyOrder acc.toolCalls
  let text ← join acc.textParts
  let reasoning ← joined "reasoning" acc.reasoning
  let reasoningContent ← joined "reasoning_content" acc.reasoningContent
  let details := if acc.reasoningDetails.isEmpty then [] else [("reasoning_details", .arr acc.reasoningDetails)]
  let providerMessage := Json.obj (reasoning ++ reasoningContent ++ details)
  if blank text && toolCalls.isEmpty && !hasReasoningContent providerMessage then
    return .err .badResponse 200
  return .ok {
    text := text
    toolCalls := toolCalls
    finishReason := acc.finishReason
    tokensIn := ← acc.usage.get "prompt_tokens"
    tokensOut := ← acc.usage.get "completion_tokens"
    tokensCached := cachedTokens acc.usage
    rawModel := acc.rawModel }

def streamOpenaiCompatible : Run :=
  stream (·.sent) Acc.new do
    if let some (kind, status) := call.unprepared then Body.ret (.err kind status)
    if let some kind := call.gateError then Body.ret (.err kind 0)
    read call
    finish

end Stream

end Adapters.OpenaiCompatible

end Unhardcoded.Source
