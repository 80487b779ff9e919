import Unhardcoded.Source.CodexBackend

/-!
# The Codex streaming backend

Source: `stream_codex` of streaming.py. The quota feed is left out.
-/

namespace Unhardcoded.Source

open Python

namespace Adapters.Codex

/-- The aggregate of the lines, as the router reads it. -/
def aggregate (lines : List Line) : Except Raised Result := do
  match ← CodexBackend.aggregateCodexSse lines with
  | none => return .err .serverError 0
  | some response =>
    return .ok {
      text := response.text
      toolCalls := response.toolCalls
      finishReason := .str response.finishReason
      tokensIn := response.tokensIn
      tokensOut := response.tokensOut
      tokensCached := response.tokensCached
      rawModel := .null }

structure Acc where
  emitted : Bool
  lines : List Line
  sent : List Json

def onEvent (ev : Json) : Body Acc Result Unit := do
  let type ← ev.get "type"
  let delta ← ev.get "delta"
  if type.isText "response.output_text.delta" && delta.truthy then
    modify fun acc => { acc with sent := acc.sent ++ [delta], emitted := true }

section Stream

variable (call : HttpCall)

/-- The loop over the lines, which goes on after `[DONE]`. -/
def readAll : List Line → Body Acc Result Unit
  | [] => lastRead (·.emitted) call.firstTokenTimeout call.ending
  | line :: lines => do
    modify fun acc => { acc with lines := acc.lines ++ [line] }
    match line with
    | ⟨false, .event ev⟩ => onEvent ev
    | _ => pure ()
    readAll lines

def read : Body Acc Result Unit :=
  Body.tryExcept
    (match call.opening with
      | .timedOut => firstTokenTimeoutErr call.firstTokenTimeout
      | .raised error => Body.raise error
      | .status code _ =>
        if code = 401 then Body.ret (.err .authError 401)
        else if code = 429 then Body.ret (.err .rateLimit 429)
        else if 400 ≤ code then Body.ret (.err .serverError code)
        else readAll call call.lines)
    fun _ => do
      let acc ← get
      if acc.emitted then
        -- the partial text of the message
        let _ ← aggregate acc.lines
        Body.ret (.err .streamInterrupted 0)
      else Body.ret (.err .networkError 0)

def streamCodex : Run :=
  stream (·.sent) ⟨false, [], []⟩ do
    authToken call
    read call
    let acc ← get
    aggregate acc.lines

end Stream

end Adapters.Codex

end Unhardcoded.Source
