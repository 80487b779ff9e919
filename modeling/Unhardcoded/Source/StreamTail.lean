import Unhardcoded.Python.JsonText
import Unhardcoded.Python.Lines
import Unhardcoded.Python.Utf8

/-!
# The tail of a metered stream

Source: the chunk encoders of streaming.py, `_trim_sse_tail`, `_parse_stream_tail` and the
loop of `_pump` over the raw chunks, in auth_proxy.py. What the encoders write is ASCII, so
its bytes are its characters. `created` is the clock of a chunk.
-/

namespace Unhardcoded.Source.StreamTail

open Unhardcoded.Python

section Encoders

def doneEvent : String := "data: [DONE]\n\n"

def heartbeat : String := ": keepalive\n\n"

/-- `d.update(e)` of the fields of two dictionaries. -/
def updated (d e : List (String × Json)) : List (String × Json) := e.foldl (fun d entry => insert entry.1 entry.2 d) d

/-- The payload of `_chunk`. -/
def payload (streamId : String) (created : Int) (model : String) (choice extra : List (String × Json)) : Json :=
  .obj (updated [("id", .str streamId), ("object", .str "chat.completion.chunk"), ("created", .int created),
    ("model", .str model), ("choices", .arr [.obj (insert "index" (.int 0) choice)])] extra)

/-- `_chunk`. -/
def chunk (streamId : String) (created : Int) (model : String) (choice extra : List (String × Json)) : String :=
  "data: " ++ (payload streamId created model choice extra).dumps ++ "\n\n"

def encodeRoleChunk (streamId : String) (created : Int) (model : String) : String :=
  chunk streamId created model [("delta", .obj [("role", .str "assistant")]), ("finish_reason", .null)] []

def encodeTextChunk (streamId : String) (created : Int) (model text : String) : String :=
  chunk streamId created model [("delta", .obj [("content", .str text)]), ("finish_reason", .null)] []

/-- The choice of the final chunk. -/
def finalChoice (finishReason : Option String) (toolCalls : Json) : List (String × Json) :=
  [("delta", .obj (if toolCalls.truthy then [("tool_calls", toolCalls)] else [])),
    ("finish_reason", .str (if finishReason.getD "" = "" then "stop" else finishReason.getD ""))]

/-- The usage and the routing record of the final chunk. -/
def finalExtra (usage xRouter : Json) : List (String × Json) :=
  (if usage.truthy then [("usage", usage)] else []) ++ if xRouter.truthy then [("x_router", xRouter)] else []

def encodeFinalChunk (streamId : String) (created : Int) (model : String) (finishReason : Option String)
    (toolCalls usage xRouter : Json) : String :=
  chunk streamId created model (finalChoice finishReason toolCalls) (finalExtra usage xRouter)

/-- What comes before the final chunk. -/
inductive Early (streamId : String) : String → Prop where
  | role (created : Int) (model : String) : Early streamId (encodeRoleChunk streamId created model)
  | text (created : Int) (model text : String) : Early streamId (encodeTextChunk streamId created model text)
  | keepalive : Early streamId heartbeat

/-- `text.encode()` of what an encoder writes. -/
def bytesOf (text : String) : List UInt8 := ascii text.toList

end Encoders

section Trim

def LF : UInt8 := 10

def sseTailHardCap : Nat := 4 * 1024 * 1024

/-- `tail.rfind(b"\n\n", 0, idx)`. -/
def rfindBlank (tail : List UInt8) (idx : Nat) : Option Nat :=
  (List.range (idx - 1)).reverse.find? fun j => tail[j]? = some LF && tail[j + 1]? = some LF

/-- Where the search stands once it has found three boundaries. -/
def thirdBoundary (tail : List UInt8) : Option Nat := do
  let first ← rfindBlank tail tail.length
  let second ← rfindBlank tail first
  rfindBlank tail second

/-- `del tail[:len(tail) - _SSE_TAIL_HARD_CAP]`, where the tail is longer. -/
def capped (tail : List UInt8) : List UInt8 :=
  if sseTailHardCap < tail.length then tail.drop (tail.length - sseTailHardCap) else tail

/-- `_trim_sse_tail`. -/
def trimSseTail (tail : List UInt8) : List UInt8 :=
  match thirdBoundary tail with
  | some idx => capped (tail.drop (idx + 2))
  | none => capped tail

/-- The tail that the loop over the chunks leaves. -/
def pumpTail (chunks : List (List UInt8)) : List UInt8 :=
  chunks.foldl (fun tail chunk => trimSseTail (tail ++ chunk)) []

end Trim

section Parse

structure Parsed where
  usage : Option Json
  xRouter : Option Json
  error : Option Json

/-- `out[key] = value`, for the first dictionary. -/
def keep (found : Option Json) (value : Json) : Option Json :=
  match found with
  | some v => some v
  | none => if value.isObj then some value else none

variable (float : String → Json)

/-- The payload of a line, where it has one that is a dictionary. -/
def payloadOf (line : String) : Option Json :=
  let line := (strip line).toList
  if "data:".toList.isPrefixOf line then
    let data := strip (String.ofList (line.drop 5))
    if data = "" ∨ data = "[DONE]" then none else (loads float data).filter Json.isObj
  else none

/-- The loop over the lines, the newest first. -/
def parseLines : List String → Parsed → Parsed
  | [], out => out
  | line :: lines, out =>
    match payloadOf float line with
    | none => parseLines lines out
    | some payload =>
      let out := ⟨keep out.usage (payload.field "usage"), keep out.xRouter (payload.field "x_router"),
        keep out.error (payload.field "error")⟩
      if out.usage.isSome && out.xRouter.isSome then out else parseLines lines out

/-- `_parse_stream_tail`. -/
def parseStreamTail (tail : List UInt8) : Parsed :=
  parseLines float (splitlines (decode tail)).reverse ⟨none, none, none⟩

end Parse

end Unhardcoded.Source.StreamTail
