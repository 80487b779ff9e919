import Unhardcoded.Source.Adapters.Common

/-!
# The Bedrock adapter

Source: `_parse_bedrock_response`, `_classify_bedrock_error` and `stream_bedrock` of
provider_adapters/bedrock.py. The events are the dictionaries the SDK decodes.
-/

namespace Unhardcoded.Source

open Python

namespace Adapters.Bedrock

/-- A block of a complete response. -/
def readBlock (acc : List Json × List ToolCall) (block : Json) : Except Raised (List Json × List ToolCall) := do
  let text ← block.get "text"
  let textParts := if text.truthy then acc.1 ++ [text] else acc.1
  let tool ← block.get "toolUse"
  if tool.isObj then
    let call : ToolCall :=
      ⟨tool.field "toolUseId", (tool.field "name").orElse (.str ""), .str (tool.field "input").orDict.dumps⟩
    pure (textParts, acc.2 ++ [call])
  else pure (textParts, acc.2)

def parseBedrockResponse (data : Json) : Except Raised Result := do
  let output := (← data.get "output").orDict
  let message := (← output.get "message").orDict
  let blocks ← (← message.get "content").iterOr
  let (textParts, toolCalls) ← blocks.foldlM readBlock ([], [])
  let text ← join textParts
  if blank text && toolCalls.isEmpty then return .err .badResponse 200
  let usage := (← data.get "usage").orDict
  return .ok {
    text := text
    toolCalls := toolCalls
    finishReason := ← data.get "stopReason"
    tokensIn := ← usage.get "inputTokens"
    tokensOut := ← usage.get "outputTokens"
    tokensCached := ← usage.get "cacheReadInputTokens"
    rawModel := ← data.get "modelId" }

def authCodes : List String :=
  ["AccessDeniedException", "ExpiredTokenException", "InvalidSignatureException",
    "UnrecognizedClientException", "UnauthorizedException", "ValidationException:Credentials"]

def rateCodes : List String := ["ServiceQuotaExceededException", "ThrottlingException", "TooManyRequestsException"]

def unavailableCodes : List String := ["ModelNotReadyException", "ResourceNotFoundException"]

def serverCodes : List String := ["InternalServerException", "ServiceUnavailableException"]

/-- A service error goes by its code, any other exception by its class. -/
def errorCode : Raised → String
  | .attributeError => "AttributeError"
  | .typeError => "TypeError"
  | .valueError => "ValueError"
  | .timeoutError => "TimeoutError"
  | .other name _ => name

def classifyBedrockError (error : Raised) : ErrorKind :=
  let code := errorCode error
  if code ∈ authCodes then .authError
  else if code ∈ rateCodes then .rateLimit
  else if code ∈ unavailableCodes then .modelUnavailable
  else if code ∈ serverCodes then .serverError
  else if code = "ValidationException" then
    let msg := lower (match error with
      | .other _ message => message
      | _ => "")
    if contains "isn’t supported" msg || contains "isn't supported" msg || contains "inference profile" msg then
      .modelUnavailable
    else if contains "context" msg && (contains "length" msg || contains "window" msg) then .contextOverflow
    else .badRequest
  else if contains "timeout" (lower code) then .timeout
  else .unknown

abbrev Event := List (String × Json)

inductive ConverseOpening where
  | timedOut
  | raised (error : Raised)
  | opened

structure ConverseCall where
  apiKind : Json
  modelId : Json
  firstTokenTimeout : Bool
  opening : ConverseOpening
  events : List Event
  ending : Ending

structure Acc where
  sawOutput : Bool
  emitted : Bool
  textParts : List Json
  toolCalls : List (Key × ToolCall)
  finishReason : Json
  usage : Json
  sent : List Json

def Acc.new : Acc := ⟨false, false, [], [], .null, .obj [], []⟩

/-- `_tool_call(idx)`: the call of an index, opened where it is new. -/
def toolCallAt (idx : Key) (toolCalls : List (Key × ToolCall)) : ToolCall :=
  (toolCalls.lookup idx).getD ⟨.null, .str "", .str ""⟩

/-- What a `toolUse` delta adds to the arguments. -/
def inputPiece : Json → String
  | .null => ""
  | .str text => text
  | input => input.dumps

def addPiece (arguments : Json) (piece : String) : Json :=
  match arguments with
  | .str text => .str (text ++ piece)
  | other => other

def onBlockStart (payload : Json) : Body Acc Result Unit := do
  let idx ← payload.getD "contentBlockIndex" (.int 0)
  let start := (← payload.get "start").orDict
  let tool ← start.get "toolUse"
  if tool.isObj then
    modify fun acc => { acc with sawOutput := true }
    let key ← idx.key
    modify fun acc =>
      let call := toolCallAt key acc.toolCalls
      { acc with toolCalls := insert key { call with
          id := (tool.field "toolUseId").orElse call.id
          name := (tool.field "name").orElse call.name } acc.toolCalls }

def onBlockDelta (payload : Json) : Body Acc Result Unit := do
  let idx ← payload.getD "contentBlockIndex" (.int 0)
  let delta := (← payload.get "delta").orDict
  let text ← delta.get "text"
  if text.truthy then
    modify fun acc => { acc with
      sawOutput := true, emitted := true
      textParts := acc.textParts ++ [text], sent := acc.sent ++ [text] }
  let tool ← delta.get "toolUse"
  if tool.isObj then
    modify fun acc => { acc with sawOutput := true }
    let key ← idx.key
    modify fun acc =>
      let call := toolCallAt key acc.toolCalls
      { acc with toolCalls := insert key {
          id := (tool.field "toolUseId").orElse call.id
          name := (tool.field "name").orElse call.name
          arguments := addPiece call.arguments (inputPiece (tool.field "input")) } acc.toolCalls }
  let reasoningContent ← delta.get "reasoningContent"
  if reasoningContent.truthy then modify fun acc => { acc with sawOutput := true }

def onEvent (event : Event) : Body Acc Result Unit :=
  if let some payload := event.lookup "messageStop" then do
    let stopReason ← payload.orDict.get "stopReason"
    modify fun acc => { acc with finishReason := stopReason.orElse acc.finishReason }
  else if let some payload := event.lookup "metadata" then do
    let usage ← payload.orDict.get "usage"
    modify fun acc => { acc with usage := usage.orElse acc.usage }
  else if let some payload := event.lookup "contentBlockStart" then onBlockStart payload.orDict
  else if let some payload := event.lookup "contentBlockDelta" then onBlockDelta payload.orDict
  else if event.any fun entry => entry.1.endsWith "Exception" then Body.ret (.err .serverError 0)
  else pure ()

section Stream

variable (call : ConverseCall)

/-- The loop over the events. -/
def readEvents : List Event → Body Acc Result Unit
  | [] => lastRead (·.sawOutput) call.firstTokenTimeout call.ending
  | event :: events => do
    onEvent event
    readEvents events

def converse : Body Acc Result Unit :=
  Body.tryExcept
    (match call.opening with
      | .timedOut => firstTokenTimeoutErr call.firstTokenTimeout
      | .raised error => Body.raise error
      | .opened => readEvents call call.events)
    fun error => do
      let acc ← get
      if acc.emitted then
        let _ ← join acc.textParts
        Body.ret (.err .streamInterrupted 0)
      else Body.ret (.err (classifyBedrockError error) 0)

def finish : Body Acc Result Result := do
  let acc ← get
  let toolCalls ← inKeyOrder acc.toolCalls
  let text ← join acc.textParts
  if blank text && toolCalls.isEmpty then return .err .badResponse 200
  return .ok {
    text := text
    toolCalls := toolCalls
    finishReason := acc.finishReason
    tokensIn := ← acc.usage.get "inputTokens"
    tokensOut := ← acc.usage.get "outputTokens"
    tokensCached := ← acc.usage.get "cacheReadInputTokens"
    rawModel := call.modelId }

def streamBedrock : Run :=
  stream (·.sent) Acc.new do
    if !call.apiKind.isText "bedrock" then Body.ret (.err .unsupportedApiKind 0)
    converse call
    finish call

end Stream

end Adapters.Bedrock

end Unhardcoded.Source
