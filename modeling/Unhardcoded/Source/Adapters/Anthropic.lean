import Unhardcoded.Source.Adapters.Common

/-!
# The Anthropic adapter

Source: `_parse_anthropic_response` and `stream_anthropic` of
provider_adapters/anthropic.py.
-/

namespace Unhardcoded.Source

open Python

namespace Adapters.Anthropic

/-- A block of a complete response. -/
def readBlock (acc : List Json × List ToolCall) (block : Json) : Except Raised (List Json × List ToolCall) := do
  let type ← block.get "type"
  match type with
  | .str "text" =>
    let text ← block.get "text"
    pure (if text.truthy then (acc.1 ++ [text], acc.2) else acc)
  | .str "tool_use" =>
    let id ← block.get "id"
    let name ← block.get "name"
    let input ← block.get "input"
    pure (acc.1, acc.2 ++ [⟨id, name.orElse (.str ""), .str input.orDict.dumps⟩])
  | _ => pure acc

def parseAnthropicResponse (data : Json) (status : Nat) : Except Raised Result := do
  let content ← data.get "content"
  let blocks ← content.iterOr
  let (textParts, toolCalls) ← blocks.foldlM readBlock ([], [])
  let text ← join textParts
  if blank text && toolCalls.isEmpty then return .err .badResponse status
  let usage := (← data.get "usage").orDict
  return .ok {
    text := text
    toolCalls := toolCalls
    finishReason := ← data.get "stop_reason"
    tokensIn := ← usage.get "input_tokens"
    tokensOut := ← usage.get "output_tokens"
    tokensCached := ← usage.get "cache_read_input_tokens"
    rawModel := ← data.get "model" }

/-- Tool calls by content index. -/
abbrev Acc := StreamAcc (List (Key × ToolCall))

/-- `tc["function"]["arguments"] += piece` on the call of an index, which a first
delta opens. -/
def appendArguments (idx : Key) (piece : String) (toolCalls : List (Key × ToolCall)) : List (Key × ToolCall) :=
  let call := (toolCalls.lookup idx).getD ⟨.null, .str "", .str ""⟩
  insert idx { call with arguments := match call.arguments with
    | .str text => .str (text ++ piece)
    | other => other } toolCalls

def onEvent (ev : Json) : Body Acc Result Unit := do
  let etype ← ev.get "type"
  match etype with
  | .str "message_start" =>
    let msg := (← ev.get "message").orDict
    let model ← msg.get "model"
    let usage := (← msg.get "usage").orDict
    let acc ← get
    set { acc with rawModel := model.orElse acc.rawModel, usage := ← acc.usage.update usage }
  | .str "content_block_start" =>
    let idx ← ev.getD "index" (.int 0)
    let block := (← ev.get "content_block").orDict
    let type ← block.get "type"
    match type with
    | .str "tool_use" =>
      modify fun acc => { acc with sawOutput := true }
      let id ← block.get "id"
      let name ← block.get "name"
      let input ← block.get "input"
      let arguments := if input.truthy then input.dumps else ""
      let key ← idx.key
      modify fun acc =>
        { acc with toolCalls := insert key ⟨id, name.orElse (.str ""), .str arguments⟩ acc.toolCalls }
    | _ => pure ()
  | .str "content_block_delta" =>
    let idx ← ev.getD "index" (.int 0)
    let delta := (← ev.get "delta").orDict
    let type ← delta.get "type"
    let text ← delta.get "text"
    match type with
    | .str "text_delta" =>
      if text.truthy then
        modify fun acc => { acc with
          sawOutput := true, emitted := true
          textParts := acc.textParts ++ [text], sent := acc.sent ++ [text] }
      else modify fun acc => { acc with sawOutput := true }
    | .str "input_json_delta" =>
      modify fun acc => { acc with sawOutput := true }
      let key ← idx.key
      modify fun acc => { acc with toolCalls := appendArguments key "" acc.toolCalls }
      let partialJson ← delta.get "partial_json"
      if partialJson.truthy then
        let piece ← partialJson.text
        modify fun acc => { acc with toolCalls := appendArguments key piece acc.toolCalls }
    | .str other => if other.endsWith "_delta" then modify fun acc => { acc with sawOutput := true }
    | _ => pure ()
  | .str "message_delta" =>
    let delta := (← ev.get "delta").orDict
    let stopReason ← delta.get "stop_reason"
    let usage := (← ev.get "usage").orDict
    let acc ← get
    set { acc with finishReason := stopReason.orElse acc.finishReason, usage := ← acc.usage.update usage }
  | .str "error" =>
    let e := (← ev.get "error").orDict
    let message ← e.get "message"
    -- a falsy message is replaced by the text of the event
    if message.truthy && !message.sliceable then Body.raise .typeError
    let acc ← get
    Body.ret (.err (classifyStatus acc.status (message.text.toOption.getD "")) acc.status)
  | _ => pure ()

def finish : Body Acc Result Result := do
  let acc ← get
  let toolCalls ← inKeyOrder acc.toolCalls
  let text ← join acc.textParts
  if blank text && toolCalls.isEmpty then return .err .badResponse 200
  return .ok {
    text := text
    toolCalls := toolCalls
    finishReason := acc.finishReason
    tokensIn := ← acc.usage.get "input_tokens"
    tokensOut := ← acc.usage.get "output_tokens"
    tokensCached := ← acc.usage.get "cache_read_input_tokens"
    rawModel := acc.rawModel }

def streamAnthropic (call : HttpCall) : Run :=
  stream (·.sent) (StreamAcc.new []) do
    authToken call
    driveHttpSse call onEvent
    finish

end Adapters.Anthropic

end Unhardcoded.Source
