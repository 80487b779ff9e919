import Unhardcoded.Guarantees.CodexCommit

/-!
# The commit point of every backend

The five streaming backends, each with the exact condition under which an error after a
text delta is `stream_interrupted`: no error event is reported after a delta, and what is
streamed in order is more than blank text. `stream_codex` passes its deltas on before the
aggregate of the whole stream says whether it failed.
-/

namespace Unhardcoded.Guarantees.StreamReader
open Python Python.Body Source Source.Adapters

section Readers

def anthropicReader : Reader Anthropic.Acc Json where
  ledger := AnthropicEvents.ledger
  sawOutput acc := acc.sawOutput
  onEvent := Anthropic.onEvent
  finish := Anthropic.finish
  handler _ := driveExcept
  readable := AnthropicEvents.readable
  reports := AnthropicEvents.reports
  deltas := AnthropicEvents.deltas
  kept := AnthropicEvents.kept
  reads _ := AnthropicEvents.reads
  returns _ := AnthropicEvents.returns
  fails _ := AnthropicEvents.fails
  unreadable _ := AnthropicEvents.unreadable
  saw _ sound committed := (sound.1.2 (ne_nil_of_committed committed)).2
  finishes _ := AnthropicEvents.finishes
  shields _ _ sound := shields_drive sound.1

/-- No event of these makes the reader return an error. -/
def googleReader : Reader Google.Acc Json where
  ledger := GoogleEvents.ledger
  sawOutput acc := acc.sawOutput
  onEvent := Google.onEvent
  finish := Google.finish
  handler _ := driveExcept
  readable := GoogleEvents.readable
  reports _ := false
  deltas := GoogleEvents.deltas
  kept := GoogleEvents.kept
  reads _ := GoogleEvents.reads
  returns _ reported := nomatch reported
  fails _ unread _ := GoogleEvents.fails unread
  unreadable _ reported := nomatch reported
  saw _ sound committed := (sound.1.2 (ne_nil_of_committed committed)).2
  finishes _ := GoogleEvents.finishes
  shields _ _ sound := shields_drive sound.1

def openaiReader : Reader OpenaiCompatible.Acc Json where
  ledger := OpenaiEvents.ledger
  sawOutput acc := acc.sawOutput
  onEvent := OpenaiCompatible.onChunk
  finish := OpenaiCompatible.finish
  handler := OpenaiEvents.handler
  readable := OpenaiEvents.readable
  reports _ := false
  deltas := OpenaiEvents.deltas
  kept := OpenaiEvents.kept
  reads _ := OpenaiEvents.reads
  returns _ reported := nomatch reported
  fails _ unread _ := OpenaiEvents.fails unread
  unreadable _ reported := nomatch reported
  saw _ sound committed := (sound.2.1 (ne_nil_of_committed committed)).2
  finishes _ := OpenaiEvents.finishes
  shields e _ := OpenaiEvents.shields e

/-- The handler of exceptions of `stream_bedrock`. -/
def bedrockHandler (error : Raised) : Body Bedrock.Acc Result Unit := do
  let acc ← get
  if acc.emitted then
    let _ ← join acc.textParts
    Body.ret (.err .streamInterrupted 0)
  else Body.ret (.err (Bedrock.classifyBedrockError error) 0)

theorem shields_bedrock (e : Raised) {s : Bedrock.Acc} (sound : BedrockEvents.ledger.sound s) :
    ∃ x t, (bedrockHandler e).exec s = (.error x, t) ∧ t.sent = s.sent ∧
      (Committed s.sent → ∀ kind status, x = .returned (.err kind status) → kind = .streamInterrupted) := by
  have emitted : Committed s.sent → s.emitted = true := fun committed => (sound.2 (ne_nil_of_committed committed)).1
  cases told : s.emitted with
  | false =>
    refine ⟨.returned (.err (Bedrock.classifyBedrockError e) 0), s, by simp [bedrockHandler, exec_bind, told], rfl, ?_⟩
    intro committed
    rw [emitted committed] at told
    cases told
  | true =>
    cases joined : join s.textParts with
    | ok text =>
      refine ⟨.returned (.err .streamInterrupted 0), s, by simp [bedrockHandler, exec_bind, told, joined], rfl, ?_⟩
      intro _ kind status same
      cases same
      rfl
    | error e' =>
      refine ⟨.raised e', s, by simp [bedrockHandler, exec_bind, told, joined], rfl, ?_⟩
      intro _ kind status same
      cases same

def bedrockReader (call : Bedrock.ConverseCall) : Reader Bedrock.Acc Bedrock.Event where
  ledger := BedrockEvents.ledger
  sawOutput acc := acc.sawOutput
  onEvent := Bedrock.onEvent
  finish := Bedrock.finish call
  handler := bedrockHandler
  readable := BedrockEvents.readable
  reports := BedrockEvents.reports
  deltas := BedrockEvents.deltas
  kept := BedrockEvents.kept
  reads _ := BedrockEvents.reads
  returns _ := BedrockEvents.returns
  fails _ := BedrockEvents.fails
  unreadable _ := BedrockEvents.unreadable
  saw _ sound committed := (sound.2 (ne_nil_of_committed committed)).2
  finishes _ := BedrockEvents.finishes call
  shields e _ := shields_bedrock e

end Readers

section Http

variable {τ : Type} (R : Reader (StreamAcc τ) Json) (call : HttpCall)

/-- The call gets to the events: there is a token, and the answer is a success. -/
def served : Bool :=
  call.token.getD "" ≠ "" && match call.opening with
    | .status code _ => isSuccess code
    | _ => false

/-- A call that does not get to the events passes nothing on. -/
theorem unserved {onEvent : Json → Body (StreamAcc τ) Result Unit} {finish : Body (StreamAcc τ) Result Result}
    {toolCalls : τ} (h : served call = false) :
    (stream (·.sent) (StreamAcc.new toolCalls) do
      authToken call
      driveHttpSse call onEvent
      finish).sent = [] := by
  unfold stream authToken
  by_cases token : call.token.getD "" = ""
  · simp [token, StreamAcc.new]
  · cases opening : call.opening with
    | timedOut =>
      cases deadline : call.firstTokenTimeout with
      | true => simp [token, driveHttpSse, opening, exec_bind, exec_tryExcept, firstTokenTimeoutErr, deadline, StreamAcc.new]
      | false =>
        simp [token, driveHttpSse, opening, exec_bind, exec_tryExcept, firstTokenTimeoutErr, deadline, driveExcept, StreamAcc.new]
    | raised e => simp [token, driveHttpSse, opening, exec_bind, exec_tryExcept, driveExcept, StreamAcc.new]
    | status code body =>
      have refused : isSuccess code = false := by simpa [served, token, opening] using h
      simp [token, driveHttpSse, opening, exec_bind, exec_tryExcept, refused, StreamAcc.new]

/-- Once served, the backend is its reader on the events of the lines. -/
theorem served_eq {toolCalls : τ} {code : Nat} {body : String} (token : call.token.getD "" ≠ "")
    (opening : call.opening = .status code body) (success : isSuccess code = true)
    (saw : R.sawOutput = fun acc => acc.sawOutput) (handles : R.handler = fun _ => driveExcept) :
    stream (·.sent) (StreamAcc.new toolCalls) (do
      authToken call
      driveHttpSse call R.onEvent
      R.finish) =
    stream (·.sent) { StreamAcc.new toolCalls with status := code }
      (R.body call.firstTokenTimeout (endOf call.ending call.lines) (eventsOf call.lines)) := by
  have ran : exec (do
      authToken call
      driveHttpSse call R.onEvent
      R.finish) (StreamAcc.new toolCalls) =
      exec (R.body call.firstTokenTimeout (endOf call.ending call.lines) (eventsOf call.lines))
        { StreamAcc.new toolCalls with status := code } := by
    unfold Reader.body Reader.loop authToken driveHttpSse
    simp only [token, if_false, opening, success, if_true, readLines_eq, saw, handles, exec_bind, exec_tryExcept, exec_pure,
      exec_modify]
  unfold stream
  rw [ran]

theorem http_iff {toolCalls : τ} (saw : R.sawOutput = fun acc => acc.sawOutput) (handles : R.handler = fun _ => driveExcept)
    (sent : R.ledger.sent = fun acc => acc.sent)
    (start : ∀ code, R.ledger.sound { StreamAcc.new toolCalls with status := code } ∧
      R.ledger.kept { StreamAcc.new toolCalls with status := code } = false) :
    CommitPoint (stream (·.sent) (StreamAcc.new toolCalls) do
      authToken call
      driveHttpSse call R.onEvent
      R.finish) ↔
      (served call = true →
        Quiet R.readable R.reports R.deltas R.kept (eventsOf call.lines) (endOf call.ending call.lines)) := by
  cases reaches : served call with
  | false => exact iff_of_true (commitPoint_of_unsent (unserved call reaches)) fun no => nomatch no
  | true =>
    rw [served, Bool.and_eq_true, decide_eq_true_eq] at reaches
    obtain ⟨token, success⟩ := reaches
    cases opening : call.opening with
    | timedOut =>
      rw [opening] at success
      cases success
    | raised e =>
      rw [opening] at success
      cases success
    | status code body =>
      rw [opening] at success
      rw [served_eq R call token opening success saw handles, ← sent]
      obtain ⟨sound, bare⟩ := start code
      rw [commitPoint_iff sound (by rw [sent]; rfl) bare]
      exact ⟨fun quiet _ => quiet, fun quiet => quiet rfl⟩

end Http

section Openai

variable (call : OpenaiCompatible.Call)

/-- The call is prepared, has a slot, and the answer is a success. -/
def servedOpenai : Bool :=
  call.unprepared.isNone && call.gateError.isNone && match call.opening with
    | .status code _ => isSuccess code
    | _ => false

theorem read_eq : OpenaiCompatible.read call = tryExcept (match call.opening with
      | .timedOut => firstTokenTimeoutErr call.firstTokenTimeout
      | .raised error => Body.raise error
      | .status code body =>
        if isSuccess code then readLines (·.sawOutput) call.firstTokenTimeout call.ending OpenaiCompatible.onChunk call.lines
        else Body.ret (.err ((OpenaiCompatible.classifyFromMap body call.errorMap).getD (classifyStatus code body)) code))
    OpenaiEvents.handler := rfl

theorem handler_unsent (e : Raised) : ∃ x, exec (OpenaiEvents.handler e) OpenaiCompatible.Acc.new =
    (.error x, OpenaiCompatible.Acc.new) := by
  cases large : OpenaiCompatible.isTooLarge e with
  | true => exact ⟨_, by simp [OpenaiEvents.handler, exec_bind, large]; rfl⟩
  | false => exact ⟨_, by simp [OpenaiEvents.handler, exec_bind, large, OpenaiCompatible.Acc.new]; rfl⟩

theorem unserved_openai (h : servedOpenai call = false) : (OpenaiCompatible.streamOpenaiCompatible call).sent = [] := by
  have stops : ∀ x, exec (OpenaiCompatible.read call) OpenaiCompatible.Acc.new = (.error x, OpenaiCompatible.Acc.new) →
      call.unprepared = none → call.gateError = none → (OpenaiCompatible.streamOpenaiCompatible call).sent = [] := by
    intro x ran prepared gate
    unfold OpenaiCompatible.streamOpenaiCompatible stream
    simp only [prepared, gate, exec_bind, ran]
    cases x <;> rfl
  unfold servedOpenai at h
  cases prepared : call.unprepared with
  | some error => simp [OpenaiCompatible.streamOpenaiCompatible, stream, prepared, OpenaiCompatible.Acc.new]
  | none =>
    cases gate : call.gateError with
    | some kind => simp [OpenaiCompatible.streamOpenaiCompatible, stream, prepared, gate, OpenaiCompatible.Acc.new]
    | none =>
      have handled : ∀ e, exec (match call.opening with
          | .timedOut => firstTokenTimeoutErr call.firstTokenTimeout
          | .raised error => Body.raise error
          | .status code body =>
            if isSuccess code then readLines (·.sawOutput) call.firstTokenTimeout call.ending OpenaiCompatible.onChunk call.lines
            else Body.ret (.err ((OpenaiCompatible.classifyFromMap body call.errorMap).getD (classifyStatus code body)) code))
          OpenaiCompatible.Acc.new = (.error (.raised e), OpenaiCompatible.Acc.new) →
          (OpenaiCompatible.streamOpenaiCompatible call).sent = [] := by
        intro e raised
        obtain ⟨x, ran⟩ := handler_unsent e
        refine stops x ?_ prepared gate
        rw [read_eq, exec_tryExcept, raised]
        exact ran
      cases opening : call.opening with
      | timedOut =>
        cases deadline : call.firstTokenTimeout with
        | true => exact stops _ (by rw [read_eq, opening, exec_tryExcept, deadline]; rfl) prepared gate
        | false => exact handled .typeError (by rw [opening, deadline]; rfl)
      | raised e => exact handled e (by rw [opening]; rfl)
      | status code body =>
        have refused : isSuccess code = false := by simpa [prepared, gate, opening] using h
        exact stops _ (by simp only [read_eq, opening, exec_tryExcept, refused]; rfl) prepared gate

theorem openai_iff : CommitPoint (OpenaiCompatible.streamOpenaiCompatible call) ↔ (servedOpenai call = true →
    Quiet OpenaiEvents.readable (fun _ => false) OpenaiEvents.deltas OpenaiEvents.kept (eventsOf call.lines)
      (endOf call.ending call.lines)) := by
  cases reaches : servedOpenai call with
  | false => exact iff_of_true (commitPoint_of_unsent (unserved_openai call reaches)) fun no => nomatch no
  | true =>
    have start : openaiReader.ledger.sound OpenaiCompatible.Acc.new := by simp [openaiReader, OpenaiEvents.ledger, OpenaiCompatible.Acc.new]
    have same : OpenaiCompatible.streamOpenaiCompatible call = stream openaiReader.ledger.sent OpenaiCompatible.Acc.new
        (openaiReader.body call.firstTokenTimeout (endOf call.ending call.lines) (eventsOf call.lines)) := by
      unfold servedOpenai at reaches
      simp only [Bool.and_eq_true, Option.isNone_iff_eq_none] at reaches
      obtain ⟨⟨prepared, gate⟩, success⟩ := reaches
      cases opening : call.opening with
      | timedOut =>
        rw [opening] at success
        cases success
      | raised e =>
        rw [opening] at success
        cases success
      | status code body =>
        rw [opening] at success
        unfold OpenaiCompatible.streamOpenaiCompatible
        simp only [prepared, gate, read_eq, opening, success, if_true, readLines_eq]
        rfl
    rw [same, commitPoint_iff start rfl rfl]
    exact ⟨fun quiet _ => quiet, fun quiet => quiet rfl⟩

end Openai

section Bedrock

variable (call : Bedrock.ConverseCall)

def servedBedrock : Bool :=
  call.apiKind.isText "bedrock" && match call.opening with
    | .opened => true
    | _ => false

theorem readEvents_eq (events : List Bedrock.Event) : Bedrock.readEvents call events = (do
    events.forM Bedrock.onEvent
    lastRead (·.sawOutput) call.firstTokenTimeout call.ending) := by
  induction events with
  | nil => rfl
  | cons event events ih =>
    rw [Bedrock.readEvents, ih, loop_cons, bind_assoc]

theorem unserved_bedrock (h : servedBedrock call = false) : (Bedrock.streamBedrock call).sent = [] := by
  unfold servedBedrock at h
  unfold Bedrock.streamBedrock stream
  cases native : call.apiKind.isText "bedrock" with
  | false => simp [Bedrock.Acc.new]
  | true =>
    cases opening : call.opening with
    | opened => simp [native, opening] at h
    | raised e => simp [Bedrock.converse, opening, exec_bind, exec_tryExcept, Bedrock.Acc.new]
    | timedOut =>
      cases deadline : call.firstTokenTimeout with
      | true => simp [Bedrock.converse, opening, exec_bind, exec_tryExcept, firstTokenTimeoutErr, deadline, Bedrock.Acc.new]
      | false =>
        simp [Bedrock.converse, opening, exec_bind, exec_tryExcept, firstTokenTimeoutErr, deadline, Bedrock.Acc.new]

/-- Once served, the backend is its reader on the events. -/
theorem served_bedrock_eq (reaches : servedBedrock call = true) :
    Bedrock.streamBedrock call = stream (bedrockReader call).ledger.sent Bedrock.Acc.new
      ((bedrockReader call).body call.firstTokenTimeout call.ending call.events) := by
  unfold servedBedrock at reaches
  rw [Bool.and_eq_true] at reaches
  obtain ⟨native, opened⟩ := reaches
  cases opening : call.opening with
  | timedOut =>
    rw [opening] at opened
    cases opened
  | raised e =>
    rw [opening] at opened
    cases opened
  | opened =>
    unfold Bedrock.streamBedrock Bedrock.converse
    simp only [native, Bool.not_true, Bool.false_eq_true, if_false, opening, readEvents_eq]
    rfl

theorem bedrock_iff : CommitPoint (Bedrock.streamBedrock call) ↔ (servedBedrock call = true →
    Quiet BedrockEvents.readable BedrockEvents.reports BedrockEvents.deltas BedrockEvents.kept call.events call.ending) := by
  cases reaches : servedBedrock call with
  | false => exact iff_of_true (commitPoint_of_unsent (unserved_bedrock call reaches)) fun no => nomatch no
  | true =>
    have start : (bedrockReader call).ledger.sound Bedrock.Acc.new := by simp [bedrockReader, BedrockEvents.ledger, Bedrock.Acc.new]
    rw [served_bedrock_eq call reaches, commitPoint_iff start rfl rfl]
    exact ⟨fun quiet _ => quiet, fun quiet => quiet rfl⟩

end Bedrock

section AnthropicGoogle

variable (call : HttpCall)

theorem anthropic_iff : CommitPoint (Anthropic.streamAnthropic call) ↔ (served call = true →
    Quiet AnthropicEvents.readable AnthropicEvents.reports AnthropicEvents.deltas AnthropicEvents.kept
      (eventsOf call.lines) (endOf call.ending call.lines)) := by
  apply http_iff anthropicReader call rfl rfl rfl
  intro code
  exact ⟨⟨⟨rfl, fun some => absurd rfl some⟩, rfl⟩, rfl⟩

theorem google_iff : CommitPoint (Google.streamGoogle call) ↔ (served call = true →
    Quiet GoogleEvents.readable (fun _ => false) GoogleEvents.deltas GoogleEvents.kept
      (eventsOf call.lines) (endOf call.ending call.lines)) := by
  apply http_iff googleReader call rfl rfl rfl
  intro code
  exact ⟨⟨⟨rfl, fun some => absurd rfl some⟩, trivial⟩, rfl⟩

end AnthropicGoogle

section Backends

/-- A call of one of the streaming backends, with what it reads from upstream. -/
inductive StreamCall where
  | openaiCompatible (call : OpenaiCompatible.Call)
  | anthropic (call : HttpCall)
  | google (call : HttpCall)
  | bedrock (call : Bedrock.ConverseCall)
  | codex (call : HttpCall)

def StreamCall.run : StreamCall → Run
  | .openaiCompatible call => OpenaiCompatible.streamOpenaiCompatible call
  | .anthropic call => Anthropic.streamAnthropic call
  | .google call => Google.streamGoogle call
  | .bedrock call => Bedrock.streamBedrock call
  | .codex call => Codex.streamCodex call

/-- What the events have to be: no event reports an error after a text delta, and a
stream that ends in order after one neither carries blank text only nor failed. -/
def StreamCall.Undisturbed : StreamCall → Prop
  | .openaiCompatible call => servedOpenai call = true →
      Quiet OpenaiEvents.readable (fun _ => false) OpenaiEvents.deltas OpenaiEvents.kept (eventsOf call.lines)
        (endOf call.ending call.lines)
  | .anthropic call => served call = true →
      Quiet AnthropicEvents.readable AnthropicEvents.reports AnthropicEvents.deltas AnthropicEvents.kept
        (eventsOf call.lines) (endOf call.ending call.lines)
  | .google call => served call = true →
      Quiet GoogleEvents.readable (fun _ => false) GoogleEvents.deltas GoogleEvents.kept
        (eventsOf call.lines) (endOf call.ending call.lines)
  | .bedrock call => servedBedrock call = true →
      Quiet BedrockEvents.readable BedrockEvents.reports BedrockEvents.deltas BedrockEvents.kept call.events call.ending
  | .codex call => CodexEvents.served call = true → CodexEvents.Quiet call

/-- Every backend keeps to the commit point exactly where its events let it. -/
theorem commitPoint_iff_undisturbed (call : StreamCall) : CommitPoint call.run ↔ call.Undisturbed := by
  cases call with
  | openaiCompatible call => exact openai_iff call
  | anthropic call => exact anthropic_iff call
  | google call => exact google_iff call
  | bedrock call => exact bedrock_iff call
  | codex call => exact CodexEvents.codex_iff call

/-- A text delta of an Anthropic stream, and the error event that an overloaded upstream
sends behind it. -/
def interrupted : HttpCall where
  token := some "key"
  firstTokenTimeout := false
  opening := .status 200 ""
  lines := [
    ⟨false, .event (.obj [("type", .str "content_block_delta"), ("index", .int 0),
      ("delta", .obj [("type", .str "text_delta"), ("text", .str "Hi")])])⟩,
    ⟨false, .event (.obj [("type", .str "error"),
      ("error", .obj [("type", .str "overloaded_error"), ("message", .str "Overloaded")])])⟩]
  ending := .closed

/-- The error after the delta is of kind `unknown`. -/
theorem interrupted_falls_over : ¬ ∀ call : StreamCall, CommitPoint call.run := by
  intro all
  have sent : (StreamCall.anthropic interrupted).run.sent = [.str "Hi"] := rfl
  have committed : Committed (StreamCall.anthropic interrupted).run.sent :=
    ⟨"Hi", by decide, by rw [sent]; exact List.mem_singleton_self _⟩
  cases all (.anthropic interrupted) committed .unknown 200 rfl

end Backends

end Unhardcoded.Guarantees.StreamReader
