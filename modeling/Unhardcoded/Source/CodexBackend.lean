import Unhardcoded.Source.Adapters.Common

/-!
# The fold over a Responses stream

Source: `aggregate_codex_sse` of codex_backend.py. The error of a failed stream is
`server_error` with status 0; its text and the latency are left out.
-/

namespace Unhardcoded.Source

open Python

namespace CodexBackend

open Adapters (Line ToolCall cachedTokens)

/-- An entry of `fcalls`. -/
structure FunctionCall where
  callId : Json
  name : Json
  args : List Json
  done : Json

/-- An entry of `summaries`, with the `item_id` of its key as it came. -/
structure Summary where
  itemId : Json
  parts : List Json

structure Aggregate where
  textParts : List Json
  finishReason : String
  usage : Json
  failed : Bool
  fcalls : List (Key × FunctionCall)
  fcorder : List Key
  reasoningItems : List (Key × Json)
  summaries : List ((Key × Key) × Summary)

def Aggregate.new : Aggregate := ⟨[], "stop", .obj [], false, [], [], [], []⟩

/-- `reasoning_items[item.get("id", "reasoning")] = item` of an item with the type. -/
def keepReasoning (items : List (Key × Json)) (item : Json) : Except Raised (List (Key × Json)) := do
  let type ← item.get "type"
  if type.isText "reasoning" then
    let key ← (← item.getD "id" (.str "reasoning")).key
    pure (insert key item items)
  else pure items

/-- `summaries.setdefault(key, []).append(delta)`. -/
def addSummary (key : Key × Key) (itemId delta : Json) (summaries : List ((Key × Key) × Summary)) :
    List ((Key × Key) × Summary) :=
  match summaries.lookup key with
  | some summary => insert key { summary with parts := summary.parts ++ [delta] } summaries
  | none => summaries ++ [(key, ⟨itemId, [delta]⟩)]

/-- One event of the stream. -/
def aggregateEvent (acc : Aggregate) (ev : Json) : Except Raised Aggregate := do
  let etype ← ev.get "type"
  match etype with
  | .str "response.output_text.delta" =>
    let delta := ev.field "delta"
    pure (if delta.truthy then { acc with textParts := acc.textParts ++ [delta] } else acc)
  | .str "response.reasoning_summary_text.delta" =>
    let itemId ← ev.getD "item_id" (.str "reasoning")
    let key ← itemId.key
    let index ← (← ev.getD "summary_index" (.int 0)).key
    pure { acc with
      summaries := addSummary (key, index) itemId ((ev.field "delta").orElse (.str "")) acc.summaries }
  | .str "response.output_item.done" =>
    let items ← keepReasoning acc.reasoningItems (ev.field "item").orDict
    pure { acc with reasoningItems := items }
  | .str "response.output_item.added" =>
    let item := (ev.field "item").orDict
    let type ← item.get "type"
    if type.isText "function_call" then
      let iid ← item.get "id"
      let key ← iid.key
      pure { acc with
        fcalls := insert key ⟨(item.field "call_id").orElse iid, item.field "name", [], .null⟩ acc.fcalls
        fcorder := acc.fcorder ++ [key] }
    else pure acc
  | .str "response.function_call_arguments.delta" =>
    let key ← (ev.field "item_id").key
    let delta := ev.field "delta"
    match acc.fcalls.lookup key with
    | some call =>
      pure (if delta.truthy then { acc with fcalls := insert key { call with args := call.args ++ [delta] } acc.fcalls }
        else acc)
    | none => pure acc
  | .str "response.function_call_arguments.done" =>
    let key ← (ev.field "item_id").key
    match acc.fcalls.lookup key, ev.field "arguments" with
    | some _, .null => pure acc
    | some call, arguments => pure { acc with fcalls := insert key { call with done := arguments } acc.fcalls }
    | none, _ => pure acc
  | .str "response.completed" | .str "response.incomplete" =>
    let resp := (ev.field "response").orDict
    let usage ← resp.get "usage"
    let output ← (resp.field "output").iterOr
    let items ← output.foldlM keepReasoning acc.reasoningItems
    pure { acc with
      usage := usage.orElse acc.usage
      reasoningItems := items
      finishReason := if (resp.field "status").isText "incomplete" then "length" else acc.finishReason }
  | .str "response.failed" | .str "error" =>
    let _ ← ((ev.field "response").orElse ev).get "error"
    pure { acc with failed := true }
  | _ => pure acc

/-- The loop of the aggregate, which strips its lines. -/
def aggregateLines (acc : Aggregate) : List Line → Except Raised Aggregate
  | [] => pure acc
  | ⟨_, .event ev⟩ :: lines => do
    let next ← aggregateEvent acc ev
    aggregateLines next lines
  | ⟨_, .done⟩ :: _ => pure acc
  | _ :: lines => aggregateLines acc lines

section Summaries

/-- `any(p.get("text") == "".join(parts) for p in summary)`. -/
def anyText (parts : List Json) : List Json → Except Raised Bool
  | [] => pure false
  | p :: summary => do
    let text ← p.get "text"
    let joined ← join parts
    if text.isText joined then pure true else anyText parts summary

/-- What the deltas of a summary add to the reasoning items. -/
def mergeSummary (items : List (Key × Json)) (entry : (Key × Key) × Summary) : Except Raised (List (Key × Json)) := do
  let iid := entry.1.1
  let fresh := Json.obj [("id", entry.2.itemId), ("type", .str "reasoning"), ("summary", .arr [])]
  let items := if (items.lookup iid).isSome then items else insert iid fresh items
  let item := (items.lookup iid).getD .null
  let summary ← (← item.getD "summary" (.arr [])).iter
  if ← anyText entry.2.parts summary then pure items
  else if !(item.field "summary").truthy || (item.field "partial").truthy then
    let part := Json.obj [("type", .str "summary_text"), ("text", .str (← join entry.2.parts))]
    match item, item.field? "summary" with
    | .obj fields, none =>
      pure (insert iid (.obj (insert "partial" (.bool true) (insert "summary" (.arr [part]) fields))) items)
    | .obj fields, some (.arr parts) =>
      pure (insert iid (.obj (insert "partial" (.bool true) (insert "summary" (.arr (parts ++ [part])) fields))) items)
    | _, _ => .error .attributeError
  else pure items

/-- The texts of an item's summary, for `provider_message`. -/
def summaryTexts (item : Json) : Except Raised (List Json) := do
  let summary ← (← item.getD "summary" (.arr [])).iter
  summary.mapM fun part => part.getD "text" (.str "")

end Summaries

/-- The tool call of a `function_call` item. -/
def toolCall (call : FunctionCall) : Except Raised ToolCall := do
  let args ← match call.done with
    | .null => (join call.args).map Json.str
    | done => pure done
  pure ⟨call.callId, call.name, args.orElse (.str "\x7b\x7d")⟩

/-- The `response` of the result. -/
structure Response where
  text : String
  /-- `[]` for `None`. -/
  toolCalls : List ToolCall
  finishReason : String
  tokensIn : Json
  tokensOut : Json
  tokensTotal : Json
  tokensCached : Json
  costReported : Json
  reasoningItems : List Json
  /-- The summaries of `provider_message`. -/
  reasoningDetails : List Json
  tokensReasoning : Json

/-- `none` for the error of a stream that failed. -/
def aggregateCodexSse (lines : List Line) : Except Raised (Option Response) := do
  let acc ← aggregateLines .new lines
  if acc.failed then return none
  let items ← acc.summaries.foldlM mergeSummary acc.reasoningItems
  let toolCalls ← (acc.fcorder.filterMap fun iid => acc.fcalls.lookup iid).mapM toolCall
  let text ← join acc.textParts
  let details ← items.mapM fun entry => summaryTexts entry.2
  return some {
    text := text
    toolCalls := toolCalls
    finishReason := if toolCalls.isEmpty then acc.finishReason else "tool_calls"
    tokensIn := ← acc.usage.get "input_tokens"
    tokensOut := ← acc.usage.get "output_tokens"
    tokensTotal := ← acc.usage.get "total_tokens"
    tokensCached := cachedTokens acc.usage
    costReported := ← acc.usage.get "cost"
    reasoningItems := items.map (·.2)
    reasoningDetails := details.flatten
    tokensReasoning := ← (acc.usage.field "output_tokens_details").orDict.get "reasoning_tokens" }

end CodexBackend

end Unhardcoded.Source
