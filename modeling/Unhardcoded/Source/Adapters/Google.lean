import Unhardcoded.Source.Adapters.Common

/-!
# The Gemini adapter

Source: `_parse_gemini_response` and `stream_google` of provider_adapters/google.py.
-/

namespace Unhardcoded.Source

open Python

namespace Adapters.Google

/-- The tool call of a `functionCall` part. -/
def toolCall (fc : Json) : Except Raised ToolCall := do
  let id ← fc.get "id"
  let name ← fc.get "name"
  let args ← fc.get "args"
  pure ⟨id.orElse name, name.orElse (.str ""), .str args.orDict.dumps⟩

/-- A part of a complete response. -/
def readPart (acc : List Json × List ToolCall) (part : Json) : Except Raised (List Json × List ToolCall) := do
  let text ← part.get "text"
  let textParts := if text.truthy then acc.1 ++ [text] else acc.1
  let functionCall ← part.get "functionCall"
  if functionCall.truthy then
    let call ← toolCall functionCall
    pure (textParts, acc.2 ++ [call])
  else pure (textParts, acc.2)

def parseGeminiResponse (data : Json) (status : Nat) : Except Raised Result := do
  let candidates := (← data.get "candidates").orElse (.arr [])
  if !candidates.truthy then
    let feedback ← data.get "promptFeedback"
    return .err (if feedback.truthy then .contentFilter else .badResponse) status
  let cand ← candidates.first
  let finish ← cand.get "finishReason"
  if finish.isText "SAFETY" then return .err .contentFilter status
  let content := (← cand.get "content").orDict
  let parts ← (← content.get "parts").iterOr
  let (textParts, toolCalls) ← parts.foldlM readPart ([], [])
  let text ← join textParts
  if blank text && toolCalls.isEmpty then return .err .badResponse status
  let usage := (← data.get "usageMetadata").orDict
  return .ok {
    text := text
    toolCalls := toolCalls
    finishReason := finish
    tokensIn := ← usage.get "promptTokenCount"
    tokensOut := ← usage.get "candidatesTokenCount"
    tokensCached := ← usage.get "cachedContentTokenCount"
    rawModel := ← data.get "modelVersion" }

/-- Tool calls in the order they come. -/
abbrev Acc := StreamAcc (List ToolCall)

def onPart (part : Json) : Body Acc Result Unit := do
  let text ← part.get "text"
  if text.truthy then
    modify fun acc => { acc with
      sawOutput := true, emitted := true
      textParts := acc.textParts ++ [text], sent := acc.sent ++ [text] }
  let functionCall ← part.get "functionCall"
  if functionCall.truthy then
    modify fun acc => { acc with sawOutput := true }
    let call ← toolCall functionCall
    modify fun acc => { acc with toolCalls := acc.toolCalls ++ [call] }

def onCandidate (cand : Json) : Body Acc Result Unit := do
  let finishReason ← cand.get "finishReason"
  modify fun acc => { acc with finishReason := finishReason.orElse acc.finishReason }
  let content := (← cand.get "content").orDict
  let parts ← (← content.get "parts").iterOr
  parts.forM onPart

def onEvent (chunk : Json) : Body Acc Result Unit := do
  let model ← chunk.get "modelVersion"
  let usage ← chunk.get "usageMetadata"
  modify fun acc => { acc with rawModel := model.orElse acc.rawModel, usage := usage.orElse acc.usage }
  let candidates ← (← chunk.get "candidates").iterOr
  candidates.forM onCandidate

def finish : Body Acc Result Result := do
  let acc ← get
  let text ← join acc.textParts
  if blank text && acc.toolCalls.isEmpty then return .err .badResponse 200
  return .ok {
    text := text
    toolCalls := acc.toolCalls
    finishReason := acc.finishReason
    tokensIn := ← acc.usage.get "promptTokenCount"
    tokensOut := ← acc.usage.get "candidatesTokenCount"
    tokensCached := ← acc.usage.get "cachedContentTokenCount"
    rawModel := acc.rawModel }

def streamGoogle (call : HttpCall) : Run :=
  stream (·.sent) (StreamAcc.new []) do
    authToken call
    driveHttpSse call onEvent
    finish

end Adapters.Google

end Unhardcoded.Source
