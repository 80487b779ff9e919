import Unhardcoded.Guarantees.CommitPoint
import Unhardcoded.Guarantees.StreamedReply

/-!
# Streams of the native adapters against their unary parsers

For Anthropic, Bedrock and Google: how a whole reply holds its blocks (`Holds`), and
which events cut it (`Cuts`). Both ways of each adapter are followed to their answer.
They agree exactly where each call is spelled as it is written, and where Google sets
nothing aside (`agrees_iff_faithful`). A call without arguments, a filtered reply and
a blocked prompt are where they part (`refresh_differs`).
-/

namespace Unhardcoded.Guarantees.StreamedReply
open Python Python.Body Source Source.Adapters StreamReader

/-- The stream and the unary parser answer the same. -/
def Agree (run : Run) (unary : Except Raised Result) : Prop := run.outcome.map answer = unary.map answer

/-- Calls are spelled as they are written, and the stop reason is settled unless nothing is said. -/
def Faithful (parts : List Part) (stop : Json) : Prop :=
  (∀ part ∈ parts, part.Spelled) ∧ (Silent parts ∨ Settled stop)

section Read

variable {σ α : Type} {R : Reader σ α} {sent : σ → List Json} {start s : σ} {events : List α} {result : Result}

/-- A stream that is read through to its end in order answers what its state makes. -/
theorem outcome_of_events {firstTokenTimeout : Bool} (ran : exec (events.forM R.onEvent) start = (.ok ⟨⟩, s))
    (finished : exec R.finish s = (.ok result, s)) :
    (stream sent start (R.body firstTokenTimeout .closed events)).outcome.map answer = .ok (answer result) := by
  have looped : exec (R.loop firstTokenTimeout .closed events) start = (.ok (), s) := by
    rw [Reader.loop, exec_bind_ok ran]
    rfl
  rw [stream_ok ((exec_of_read looped).trans finished)]
  rfl

end Read

section Http

variable {τ : Type} (R : Reader (StreamAcc τ) Json) {call : HttpCall} {toolCalls : τ} {reply : Except ErrorKind Reply}

theorem answer_of_read (reaches : served call = true) (closed : endOf call.ending call.lines = .closed)
    (saw : R.sawOutput = fun acc => acc.sawOutput) (handles : R.handler = fun _ => driveExcept)
    (read : ∀ code, ∃ s result,
      exec ((eventsOf call.lines).forM R.onEvent) { StreamAcc.new toolCalls with status := code } = (.ok ⟨⟩, s) ∧
        exec R.finish s = (.ok result, s) ∧ answer result = reply) :
    (stream (·.sent) (StreamAcc.new toolCalls) do
      authToken call
      driveHttpSse call R.onEvent
      R.finish).outcome.map answer = .ok reply := by
  rw [served, Bool.and_eq_true, decide_eq_true_eq] at reaches
  obtain ⟨token, success⟩ := reaches
  cases opening : call.opening with
  | timedOut =>
    rw [opening] at success
    cases success
  | raised e =>
    rw [opening] at success
    cases success
  | status code body =>
    rw [opening] at success
    obtain ⟨s, result, ran, finished, answered⟩ := read code
    rw [served_eq R call token opening success saw handles, closed, outcome_of_events ran finished, answered]

end Http

namespace AnthropicReply
open AnthropicEvents

/-- The block that an element of `content` is. -/
def held (block : Json) : Option (List Block) :=
  if block.isObj then
    if (block.field "type").isText "text" then
      match block.field "text" with
      | .str text => some [.text text]
      | _ => none
    else if (block.field "type").isText "tool_use" then
      match block.field "name" with
      | .str name => some [.toolUse name (block.field "input")]
      | _ => none
    else none
  else none

/-- Of a call that opens with arguments they are the first piece. -/
def toldStart (ev : Json) : Option (List Delta) :=
  if ((ev.field "content_block").field "type").isText "tool_use" then
    match index ev, (ev.field "content_block").field "name" with
    | .int (.ofNat index), .str name =>
      some (.opened index name :: if ((ev.field "content_block").field "input").truthy then
        [.arguments index ((ev.field "content_block").field "input").dumps] else [])
    | _, _ => none
  else if ((ev.field "content_block").field "text").truthy then none
  else some []

def toldDelta (ev : Json) : Option (List Delta) :=
  if ((ev.field "delta").field "type").isText "text_delta" then
    match (ev.field "delta").field "text" with
    | .str piece => some [.text piece]
    | _ => none
  else if ((ev.field "delta").field "type").isText "input_json_delta" then
    match index ev, (ev.field "delta").field "partial_json" with
    | .int (.ofNat index), .str piece => some [.arguments index piece]
    | _, _ => none
  else some []

/-- What an event adds. -/
def told (ev : Json) : Option (List Delta) :=
  if readable ev then
    if (ev.field "type").isText "content_block_start" then toldStart ev
    else if (ev.field "type").isText "content_block_delta" then toldDelta ev
    else if (ev.field "type").isText "message_delta" then some (stops ((ev.field "delta").field "stop_reason"))
    else some []
  else none

/-- The whole reply. -/
def Holds (data : Json) (parts : List Part) (stop : Json) : Prop :=
  data.isObj = true ∧ (data.field "usage").dictish = true ∧ data.field "stop_reason" = stop ∧
    ∃ items, data.field "content" = .arr items ∧ ∃ found, items.mapM held = some found ∧
      found.flatten = parts.map Part.block

/-- The events of the lines cut the reply, and the stream ends behind them. -/
def Cuts (call : HttpCall) (parts : List Part) (stop : Json) : Prop :=
  served call = true ∧ endOf call.ending call.lines = .closed ∧
    ∃ found, (eventsOf call.lines).mapM told = some found ∧ found.flatten = cut parts stop

theorem held_cases {block : Json} {more : List Block} (h : held block = some more) : block.isObj = true ∧
    ((∃ text, block.field "type" = .str "text" ∧ block.field "text" = .str text ∧ more = [.text text]) ∨
      ∃ name, block.field "type" = .str "tool_use" ∧ block.field "name" = .str name ∧
        more = [.toolUse name (block.field "input")]) := by
  unfold held at h
  split at h
  swap
  · cases h
  rename_i obj
  refine ⟨obj, ?_⟩
  split at h
  · rename_i type
    rw [Json.isText_iff] at type
    split at h
    · rename_i text isText
      exact .inl ⟨text, type, isText, (Option.some.inj h).symm⟩
    · cases h
  · split at h
    · rename_i type
      rw [Json.isText_iff] at type
      split at h
      · rename_i name isName
        exact .inr ⟨name, type, isName, (Option.some.inj h).symm⟩
      · cases h
    · cases h

theorem kept_block (kept : List Json × List ToolCall) (blocks : List Block) (block : Json) (more : List Block)
    (h : held block = some more) (here : Kept kept.1 kept.2 blocks) :
    ∃ kept', Anthropic.readBlock kept block = .ok kept' ∧ Kept kept'.1 kept'.2 (blocks ++ more) := by
  unfold Anthropic.readBlock
  obtain ⟨obj, ⟨text, type, isText, rfl⟩ | ⟨name, type, isName, rfl⟩⟩ := held_cases h
  · simp only [Json.get_of_isObj obj, bind, Except.bind, pure, Except.pure, type, isText]
    by_cases none : text = ""
    · subst none
      exact ⟨kept, rfl, kept_silent here⟩
    · rw [if_pos (Json.truthy_str none)]
      exact ⟨_, rfl, kept_text here text⟩
  · simp only [Json.get_of_isObj obj, bind, Except.bind, pure, Except.pure, type, isName, Json.orElse_str]
    exact ⟨_, rfl, kept_call here _ name _⟩

theorem parse_answer {data : Json} {parts : List Part} {stop : Json} (h : Holds data parts stop) (status : Nat) :
    (Anthropic.parseAnthropicResponse data status).map answer = .ok (whole parts stop).answer := by
  obtain ⟨obj, usage, isStop, items, content, found, blocks, same⟩ := h
  obtain ⟨⟨textParts, toolCalls⟩, ran, kept⟩ := kept_foldlM kept_block blocks ([], []) [] kept_nil
  rw [List.nil_append, same] at kept
  unfold Anthropic.parseAnthropicResponse
  simp only [Json.get_of_isObj obj, content, Json.iterOr_arr, Json.get_orDict usage, isStop, bind, Except.bind, ran,
    kept.text]
  have made := answer_made kept.calls (textOf (parts.map Part.block)) status stop
    ((data.field "usage").field "input_tokens") ((data.field "usage").field "output_tokens")
    ((data.field "usage").field "cache_read_input_tokens") (data.field "model")
  unfold whole
  rw [← made]
  split
  · rfl
  · rfl

theorem key_index {ev : Json} {number : Nat} (h : index ev = .int (.ofNat number)) :
    ((ev.field? "index").getD (.int 0)).key = .ok (.num number) := by
  rw [index] at h
  rw [h]
  simp [Json.key]

/-- The first of the two appends of a piece changes nothing: the call is open. -/
theorem tracks_append {textParts : List Json} {toolCalls : List (Key × ToolCall)} {finishReason : Json} {a b : Assembly}
    {number : Nat} {piece : String} (tracks : Tracks textParts toolCalls finishReason a)
    (added : a.add (.arguments number piece) = some b) :
    Anthropic.appendArguments (.num number) "" toolCalls = toolCalls ∧
      Tracks textParts (Anthropic.appendArguments (.num number) piece toolCalls) finishReason b := by
  obtain ⟨call, text, found, isText, kept⟩ := tracks_arguments tracks added
  unfold Anthropic.appendArguments
  rw [found, Option.getD_some]
  dsimp only
  rw [isText]
  refine ⟨?_, kept call.id⟩
  dsimp only
  rw [String.append_empty, ← isText]
  exact insert_of_lookup (nodup_of_tracks tracks) found

/-- The accumulator follows the reply, and its usage stays a dictionary. -/
def Following (acc : Anthropic.Acc) (a : Assembly) : Prop :=
  Tracks acc.textParts acc.toolCalls acc.finishReason a ∧ acc.usage.isObj = true

theorem follows_update {v : Json} (updates : v.updates = true) {f : Anthropic.Acc → Json → Anthropic.Acc}
    {step : Assembly → Option Assembly}
    (h : ∀ acc usage a b, Following acc a → usage.isObj = true → step a = some b → Following (f acc usage) b) :
    Follows Following (do
      let acc ← get
      let usage ← acc.usage.update v.orDict
      set (f acc usage) : Body Anthropic.Acc Result PUnit) step := by
  intro acc a b following stepped
  obtain ⟨fields, updated⟩ := update_of_updates following.2 updates
  exact ⟨f acc (.obj fields), by simp [exec_bind, updated], h acc _ a b following rfl stepped⟩

theorem toldStart_cases {ev : Json} {ds : List Delta} (h : toldStart ev = some ds) :
    (∃ number name, (ev.field "content_block").field "type" = .str "tool_use" ∧ index ev = .int (.ofNat number) ∧
      (ev.field "content_block").field "name" = .str name ∧
      ds = .opened number name :: if ((ev.field "content_block").field "input").truthy then
        [.arguments number ((ev.field "content_block").field "input").dumps] else []) ∨
    (ev.field "content_block").field "type" ≠ .str "tool_use" ∧ ds = [] := by
  unfold toldStart at h
  split at h
  · rename_i tool
    split at h
    · rename_i number name isIndex isName
      exact .inl ⟨number, name, (Json.isText_iff _).mp tool, isIndex, isName, (Option.some.inj h).symm⟩
    · cases h
  · rename_i other
    split at h
    · cases h
    · exact .inr ⟨fun same => other ((Json.isText_iff _).mpr same), (Option.some.inj h).symm⟩

theorem toldDelta_cases {ev : Json} {ds : List Delta} (h : toldDelta ev = some ds) :
    (∃ piece, (ev.field "delta").field "type" = .str "text_delta" ∧ (ev.field "delta").field "text" = .str piece ∧
      ds = [.text piece]) ∨
    (∃ number piece, (ev.field "delta").field "type" = .str "input_json_delta" ∧ index ev = .int (.ofNat number) ∧
      (ev.field "delta").field "partial_json" = .str piece ∧ ds = [.arguments number piece]) ∨
    (ev.field "delta").field "type" ≠ .str "text_delta" ∧ (ev.field "delta").field "type" ≠ .str "input_json_delta" ∧
      ds = [] := by
  unfold toldDelta at h
  split at h
  · rename_i kind
    split at h
    · rename_i piece isPiece
      exact .inl ⟨piece, (Json.isText_iff _).mp kind, isPiece, (Option.some.inj h).symm⟩
    · cases h
  · rename_i not_text
    rw [Json.isText_iff] at not_text
    split at h
    · rename_i kind
      split at h
      · rename_i number piece isIndex isPiece
        exact .inr (.inl ⟨number, piece, (Json.isText_iff _).mp kind, isIndex, isPiece, (Option.some.inj h).symm⟩)
      · cases h
    · rename_i not_json
      rw [Json.isText_iff] at not_json
      exact .inr (.inr ⟨not_text, not_json, (Option.some.inj h).symm⟩)

theorem told_cases {ev : Json} {ds : List Delta} (h : told ev = some ds) : readable ev = true ∧
    (ev.field "type" = .str "content_block_start" ∧ toldStart ev = some ds ∨
      ev.field "type" = .str "content_block_delta" ∧ toldDelta ev = some ds ∨
      ev.field "type" = .str "message_delta" ∧ ds = stops ((ev.field "delta").field "stop_reason") ∨
      ev.field "type" ≠ .str "content_block_start" ∧ ev.field "type" ≠ .str "content_block_delta" ∧
        ev.field "type" ≠ .str "message_delta" ∧ ds = []) := by
  unfold told at h
  split at h
  swap
  · cases h
  rename_i read
  refine ⟨read, ?_⟩
  split at h
  · rename_i start
    exact .inl ⟨(Json.isText_iff _).mp start, h⟩
  rename_i not_start
  split at h
  · rename_i delta
    exact .inr (.inl ⟨(Json.isText_iff _).mp delta, h⟩)
  rename_i not_delta
  rw [Json.isText_iff] at not_start not_delta
  split at h
  · rename_i message
    exact .inr (.inr (.inl ⟨(Json.isText_iff _).mp message, (Option.some.inj h).symm⟩))
  · rename_i not_message
    rw [Json.isText_iff] at not_message
    exact .inr (.inr (.inr ⟨not_start, not_delta, not_message, (Option.some.inj h).symm⟩))

theorem follows {ev : Json} {ds : List Delta} (h : told ev = some ds) :
    Follows Following (Anthropic.onEvent ev) fun a => ds.foldlM Assembly.add a := by
  obtain ⟨read, shape⟩ := told_cases h
  have obj : ev.isObj = true := (Bool.and_eq_true_iff.mp read).1
  unfold Anthropic.onEvent
  simp only [Json.get_of_isObj obj, Json.getD_of_isObj obj, lift_ok, pure_bind]
  rcases shape with ⟨type, start⟩ | ⟨type, delta⟩ | ⟨type, rfl⟩ | ⟨not_start, not_delta, not_message, rfl⟩
  · simp only [readable, obj, type, Bool.true_and, Bool.and_eq_true] at read
    simp only [type, Json.get_orDict read.1, lift_ok, pure_bind]
    rcases toldStart_cases start with ⟨number, name, tool, isIndex, isName, rfl⟩ | ⟨other, rfl⟩
    · have hashed := key_index isIndex
      simp only [tool, hashed, isName, Json.orElse_str, lift_ok, pure_bind]
      rintro acc a b ⟨tracks, usage⟩ stepped
      obtain ⟨mid, opened, stepped⟩ := Option.bind_eq_some_iff.mp stepped
      obtain ⟨before, rfl⟩ := add_opened opened
      refine ⟨_, rfl, ?_, usage⟩
      split at stepped
      · rename_i seeded
        obtain ⟨next, added, stepped⟩ := Option.bind_eq_some_iff.mp stepped
        obtain rfl := Option.some.inj stepped
        have last := add_arguments { a with calls := a.calls ++ [⟨number, name, ""⟩] } rfl
          ((ev.field "content_block").field "input").dumps
        obtain rfl := Option.some.inj (last.symm.trans added)
        rw [if_pos seeded, String.empty_append]
        exact tracks_opened tracks before _ name _
      · rename_i bare
        obtain rfl := Option.some.inj stepped
        rw [if_neg bare]
        exact tracks_opened tracks before _ name ""
    · rintro acc a b following stepped
      obtain rfl := Option.some.inj stepped
      refine ⟨acc, ?_, following⟩
      split
      · exact absurd ‹_› other
      · rfl
  · simp only [readable, obj, type, Bool.true_and, Bool.and_eq_true] at read
    simp only [type, Json.get_orDict read.1, lift_ok, pure_bind]
    rcases toldDelta_cases delta with
      ⟨piece, kind, isPiece, rfl⟩ | ⟨number, piece, kind, isIndex, isPiece, rfl⟩ | ⟨not_text, not_json, rfl⟩
    · simp only [kind, isPiece]
      rintro acc a b ⟨tracks, usage⟩ stepped
      obtain rfl := Option.some.inj stepped
      by_cases none : piece = ""
      · subst none
        exact ⟨_, rfl, tracks_silent tracks, usage⟩
      · rw [if_pos (Json.truthy_str none)]
        exact ⟨_, rfl, tracks_text tracks piece, usage⟩
    · have hashed := key_index isIndex
      simp only [kind, hashed, isPiece, lift_ok, pure_bind]
      rintro acc a b ⟨tracks, usage⟩ stepped
      obtain ⟨next, added, stepped⟩ := Option.bind_eq_some_iff.mp stepped
      obtain rfl := Option.some.inj stepped
      have appended := tracks_append tracks added
      by_cases none : piece = ""
      · subst none
        exact ⟨_, rfl, appended.2, usage⟩
      · rw [if_pos (Json.truthy_str none)]
        refine ⟨_, rfl, ?_, usage⟩
        change Tracks _ (Anthropic.appendArguments _ piece (Anthropic.appendArguments _ "" acc.toolCalls)) _ _
        rw [appended.1]
        exact appended.2
    · rintro acc a b ⟨tracks, usage⟩ stepped
      obtain rfl := Option.some.inj stepped
      split
      · exact absurd ‹_› not_text
      · exact absurd ‹_› not_json
      · split
        · exact ⟨_, rfl, tracks, usage⟩
        · exact ⟨_, rfl, tracks, usage⟩
      · exact ⟨_, rfl, tracks, usage⟩
  · simp only [readable, obj, type, Bool.true_and, Bool.and_eq_true] at read
    simp only [type, Json.get_orDict read.1, lift_ok, pure_bind]
    exact follows_update read.2 fun acc usage a b following here stepped => ⟨tracks_stops following.1 stepped, here⟩
  · -- the others add nothing
    split
    · rename_i type
      simp only [readable, obj, type, Bool.true_and, Bool.and_eq_true] at read
      simp only [Json.get_orDict read.1, lift_ok, pure_bind]
      refine follows_update read.2 fun acc usage a b following here stepped => ?_
      obtain rfl := Option.some.inj stepped
      exact ⟨following.1, here⟩
    · exact absurd ‹_› not_start
    · exact absurd ‹_› not_delta
    · exact absurd ‹_› not_message
    · rename_i type
      simp [readable, type] at read
    · rintro acc a b following stepped
      obtain rfl := Option.some.inj stepped
      exact ⟨acc, rfl, following⟩

theorem finishes {acc : Anthropic.Acc} {a : Assembly} (following : Following acc a) :
    ∃ result, exec Anthropic.finish acc = (.ok result, acc) ∧ answer result = a.reply.answer := by
  obtain ⟨tracks, usage⟩ := following
  have made := answer_made (shown_of_tracks tracks) a.text 200 acc.finishReason (acc.usage.field "input_tokens")
    (acc.usage.field "output_tokens") (acc.usage.field "cache_read_input_tokens") acc.rawModel
  refine ⟨_, ?_, by rw [made, tracks.stop, Assembly.reply]⟩
  unfold Anthropic.finish
  simp only [exec_bind, exec_get, inKeyOrder_of_tracks tracks, tracks.text, Json.get_of_isObj usage, lift_ok, exec_pure]
  split
  · rfl
  · rfl

/-- What the stream makes of the events that cut a reply. -/
theorem stream_answer {call : HttpCall} {parts : List Part} {stop : Json} (h : Cuts call parts stop) :
    (Anthropic.streamAnthropic call).outcome.map answer = .ok (streamed parts stop).answer := by
  obtain ⟨reaches, closed, found, events, same⟩ := h
  obtain ⟨a, assembled, reply⟩ := assemble_cut parts stop
  refine answer_of_read anthropicReader reaches closed rfl rfl fun code => ?_
  obtain ⟨acc, ran, following⟩ := follows_forM (R := Following) (fun _ _ => follows) events
    { StreamAcc.new [] with status := code } .empty a ⟨tracks_empty, rfl⟩ (by rw [same]; exact assembled)
  obtain ⟨result, finished, answered⟩ := finishes following
  exact ⟨acc, result, ran, finished, by rw [answered, reply]⟩

theorem agree_iff {data : Json} {call : HttpCall} {parts : List Part} {stop : Json} (holds : Holds data parts stop)
    (cuts : Cuts call parts stop) (status : Nat) :
    Agree (Anthropic.streamAnthropic call) (Anthropic.parseAnthropicResponse data status) ↔ Faithful parts stop := by
  unfold Agree Faithful
  rw [stream_answer cuts, parse_answer holds, Except.ok.injEq, streamed_iff]

end AnthropicReply

namespace BedrockReply
open BedrockEvents

/-- The block that an element of `content` is. -/
def held (block : Json) : Option (List Block) :=
  if block.isObj then
    if (block.field "toolUse").isObj then
      match (block.field "toolUse").field "name" with
      | .str name =>
        if (block.field "text").truthy then none else some [.toolUse name ((block.field "toolUse").field "input")]
      | _ => none
    else match block.field "text" with
      | .str text => some [.text text]
      | _ => none
  else none

def toldStart (payload : Json) : Option (List Delta) :=
  if ((payload.field "start").field "toolUse").isObj then
    match index payload, ((payload.field "start").field "toolUse").field "name" with
    | .int (.ofNat index), .str name => some [.opened index name]
    | _, _ => none
  else some []

def toldDelta (payload : Json) : Option (List Delta) :=
  if ((payload.field "delta").field "toolUse").isObj then
    match index payload with
    | .int (.ofNat index) =>
      if ((payload.field "delta").field "text").truthy ||
        (((payload.field "delta").field "toolUse").field "name").truthy then none
      else some [.arguments index (Bedrock.inputPiece (((payload.field "delta").field "toolUse").field "input"))]
    | _ => none
  else match (payload.field "delta").field "text" with
    | .str piece => some [.text piece]
    | .null => some []
    | _ => none

/-- What an event adds. -/
def told (event : Bedrock.Event) : Option (List Delta) :=
  if readable event then
    if let some payload := event.lookup "messageStop" then some (stops (payload.field "stopReason"))
    else if let some payload := event.lookup "metadata" then
      if (payload.field "usage").dictish then some [] else none
    else if let some payload := event.lookup "contentBlockStart" then toldStart payload
    else if let some payload := event.lookup "contentBlockDelta" then toldDelta payload
    else some []
  else none

/-- The whole reply. -/
def Holds (data : Json) (parts : List Part) (stop : Json) : Prop :=
  data.isObj = true ∧ (data.field "usage").dictish = true ∧ data.field "stopReason" = stop ∧
    (data.field "output").isObj = true ∧ ((data.field "output").field "message").isObj = true ∧
    ∃ items, ((data.field "output").field "message").field "content" = .arr items ∧
      ∃ found, items.mapM held = some found ∧ found.flatten = parts.map Part.block

/-- The events cut the reply, and the stream ends behind them. -/
def Cuts (call : Bedrock.ConverseCall) (parts : List Part) (stop : Json) : Prop :=
  servedBedrock call = true ∧ call.ending = .closed ∧
    ∃ found, call.events.mapM told = some found ∧ found.flatten = cut parts stop

theorem kept_block (kept : List Json × List ToolCall) (blocks : List Block) (block : Json) (more : List Block)
    (h : held block = some more) (here : Kept kept.1 kept.2 blocks) :
    ∃ kept', Bedrock.readBlock kept block = .ok kept' ∧ Kept kept'.1 kept'.2 (blocks ++ more) := by
  unfold held at h
  split at h
  swap
  · cases h
  rename_i obj
  unfold Bedrock.readBlock
  simp only [Json.get_of_isObj obj, bind, Except.bind, pure, Except.pure]
  split at h
  · rename_i tool
    split at h
    swap
    · cases h
    rename_i name isName
    split at h
    · cases h
    rename_i silent
    obtain rfl := Option.some.inj h
    rw [if_pos tool, if_neg silent, isName, Json.orElse_str]
    exact ⟨_, rfl, kept_call here _ name _⟩
  · rename_i plain
    split at h
    swap
    · cases h
    rename_i text isText
    obtain rfl := Option.some.inj h
    rw [if_neg plain, isText]
    exact ⟨_, rfl, kept_said here text⟩

theorem parse_answer {data : Json} {parts : List Part} {stop : Json} (h : Holds data parts stop) :
    (Bedrock.parseBedrockResponse data).map answer = .ok (whole parts stop).answer := by
  obtain ⟨obj, usage, isStop, output, message, items, content, found, blocks, same⟩ := h
  obtain ⟨⟨textParts, toolCalls⟩, ran, kept⟩ := kept_foldlM kept_block blocks ([], []) [] kept_nil
  rw [List.nil_append, same] at kept
  have outputs : (data.field "output").dictish = true := by simp [Json.dictish, output]
  have messages : ((data.field "output").field "message").dictish = true := by simp [Json.dictish, message]
  unfold Bedrock.parseBedrockResponse
  simp only [Json.get_of_isObj obj, Json.get_orDict outputs, Json.get_orDict messages, content, Json.iterOr_arr,
    Json.get_orDict usage, isStop, bind, Except.bind, ran, kept.text]
  have made := answer_made kept.calls (textOf (parts.map Part.block)) 200 stop
    ((data.field "usage").field "inputTokens") ((data.field "usage").field "outputTokens")
    ((data.field "usage").field "cacheReadInputTokens") (data.field "modelId")
  unfold whole
  rw [← made]
  split
  · rfl
  · rfl

/-- The accumulator follows the reply, and its usage stays a dictionary. -/
def Following (acc : Bedrock.Acc) (a : Assembly) : Prop :=
  Tracks acc.textParts acc.toolCalls acc.finishReason a ∧ acc.usage.isObj = true

theorem key_index {payload : Json} {number : Nat} (h : index payload = .int (.ofNat number)) :
    (index payload).key = .ok (.num number) := by
  rw [h]
  simp [Json.key]

theorem follows_start {payload : Json} {ds : List Delta} (read : readableStart payload = true)
    (h : toldStart payload = some ds) :
    Follows Following (Bedrock.onBlockStart payload.orDict) fun a => ds.foldlM Assembly.add a := by
  simp only [readableStart, Bool.and_eq_true] at read
  obtain ⟨⟨dict, start⟩, -⟩ := read
  have obj : payload.orDict.isObj = true := by rw [Json.isObj_orDict, dict]
  unfold Bedrock.onBlockStart
  simp only [Json.getD_of_isObj obj, Json.get_orDict dict, Json.get_orDict start, lift_ok, pure_bind]
  unfold toldStart at h
  split at h
  · rename_i tool
    split at h
    swap
    · cases h
    rename_i number name isIndex isName
    obtain rfl := Option.some.inj h
    have hashed := key_index isIndex
    rw [index] at hashed
    simp only [tool, if_true, hashed, isName, lift_ok, pure_bind]
    rintro acc a b ⟨tracks, usage⟩ stepped
    obtain ⟨next, opened, stepped⟩ := Option.bind_eq_some_iff.mp stepped
    obtain rfl := Option.some.inj stepped
    obtain ⟨before, rfl⟩ := add_opened opened
    refine ⟨_, rfl, ?_, usage⟩
    have fresh : Bedrock.toolCallAt (.num number) acc.toolCalls = ⟨.null, .str "", .str ""⟩ := by
      rw [Bedrock.toolCallAt, absent_of_before (tracks_keys tracks) before]
      rfl
    change Tracks _ (Python.insert _ { Bedrock.toolCallAt (.num number) acc.toolCalls with
      id := _, name := (Json.str name).orElse (Bedrock.toolCallAt (.num number) acc.toolCalls).name } _) _ _
    rw [fresh, Json.orElse_str]
    exact tracks_opened tracks before _ name ""
  · rename_i plain
    obtain rfl := Option.some.inj h
    rintro acc a b following stepped
    obtain rfl := Option.some.inj stepped
    rw [if_neg plain]
    exact ⟨acc, rfl, following⟩

theorem follows_reasoning (delta : Json) : Follows Following (if (delta.field "reasoningContent").truthy then
    modify fun acc => { acc with sawOutput := true } else pure PUnit.unit : Body Bedrock.Acc Result PUnit) some := by
  rintro acc a b following stepped
  obtain rfl := Option.some.inj stepped
  split
  · exact ⟨_, rfl, following⟩
  · exact ⟨_, rfl, following⟩

theorem follows_delta {payload : Json} {ds : List Delta} (read : readableDelta payload = true)
    (h : toldDelta payload = some ds) :
    Follows Following (Bedrock.onBlockDelta payload.orDict) fun a => ds.foldlM Assembly.add a := by
  simp only [readableDelta, Bool.and_eq_true] at read
  rw [onBlockDelta_eq read.1.1 read.1.2]
  unfold afterText
  unfold toldDelta at h
  split at h
  · rename_i tool
    split at h
    swap
    · cases h
    rename_i number isIndex
    split at h
    · cases h
    rename_i bare
    obtain rfl := Option.some.inj h
    simp only [Bool.or_eq_true, not_or] at bare
    have hashed := key_index isIndex
    simp only [if_neg bare.1, tool, if_true, hashed, lift_ok, pure_bind]
    rintro acc a b ⟨tracks, usage⟩ stepped
    obtain ⟨next, added, stepped⟩ := Option.bind_eq_some_iff.mp stepped
    obtain rfl := Option.some.inj stepped
    obtain ⟨call, text, found, isText, kept⟩ := tracks_arguments tracks added
    obtain ⟨t, ran, following⟩ := follows_reasoning (payload.field "delta") _ next next
      (⟨kept ((((payload.field "delta").field "toolUse").field "toolUseId").orElse call.id), usage⟩ : Following
        { acc with sawOutput := true, toolCalls := Python.insert (.num number) ⟨_, call.name, .str _⟩ acc.toolCalls } next) rfl
    refine ⟨t, ?_, following⟩
    have here : Bedrock.toolCallAt (.num number) acc.toolCalls = call := by
      rw [Bedrock.toolCallAt, found, Option.getD_some]
    rw [exec_bind_ok (exec_modify _ _), exec_bind_ok (exec_modify _ _), ← ran]
    simp only [here, isText, Bedrock.addPiece, Json.orElse, if_neg bare.2]
  · rename_i plain
    simp only [if_neg plain]
    split at h
    · rename_i piece isPiece
      obtain rfl := Option.some.inj h
      rintro acc a b ⟨tracks, usage⟩ stepped
      obtain rfl := Option.some.inj stepped
      rw [isPiece]
      by_cases none : piece = ""
      · subst none
        exact follows_reasoning _ acc _ _ ⟨tracks_silent tracks, usage⟩ rfl
      · rw [if_pos (Json.truthy_str none), exec_bind_ok (exec_modify _ _)]
        exact follows_reasoning _ _ _ _ ⟨tracks_text tracks piece, usage⟩ rfl
    · rename_i none
      obtain rfl := Option.some.inj h
      rintro acc a b following stepped
      obtain rfl := Option.some.inj stepped
      rw [none]
      exact follows_reasoning _ acc _ _ following rfl
    · cases h

theorem follows {event : Bedrock.Event} {ds : List Delta} (h : told event = some ds) :
    Follows Following (Bedrock.onEvent event) fun a => ds.foldlM Assembly.add a := by
  unfold told at h
  split at h
  swap
  · cases h
  rename_i read
  unfold readable at read
  unfold Bedrock.onEvent
  cases stop : event.lookup "messageStop" with
  | some payload =>
    simp only [stop] at h read
    obtain rfl := Option.some.inj h
    simp only [Json.get_orDict read, lift_ok, pure_bind]
    rintro acc a b ⟨tracks, usage⟩ stepped
    exact ⟨_, rfl, tracks_stops tracks stepped, usage⟩
  | none =>
    cases metadata : event.lookup "metadata" with
    | some payload =>
      simp only [stop, metadata] at h read
      split at h
      swap
      · cases h
      rename_i dict
      obtain rfl := Option.some.inj h
      simp only [Json.get_orDict read, lift_ok, pure_bind]
      rintro acc a b ⟨tracks, usage⟩ stepped
      obtain rfl := Option.some.inj stepped
      refine ⟨_, rfl, tracks, ?_⟩
      dsimp only
      rw [Json.orElse]
      split
      · rename_i truthy
        simpa [Json.dictish, truthy] using dict
      · exact usage
    | none =>
      cases start : event.lookup "contentBlockStart" with
      | some payload =>
        simp only [stop, metadata, start] at h read
        exact follows_start read h
      | none =>
        cases delta : event.lookup "contentBlockDelta" with
        | some payload =>
          simp only [stop, metadata, start, delta] at h read
          exact follows_delta read h
        | none =>
          simp only [stop, metadata, start, delta, Bool.not_eq_true'] at h read
          obtain rfl := Option.some.inj h
          simp only [read]
          rintro acc a b following stepped
          obtain rfl := Option.some.inj stepped
          exact ⟨acc, rfl, following⟩

theorem finishes (call : Bedrock.ConverseCall) {acc : Bedrock.Acc} {a : Assembly} (following : Following acc a) :
    ∃ result, exec (Bedrock.finish call) acc = (.ok result, acc) ∧ answer result = a.reply.answer := by
  obtain ⟨tracks, usage⟩ := following
  have made := answer_made (shown_of_tracks tracks) a.text 200 acc.finishReason (acc.usage.field "inputTokens")
    (acc.usage.field "outputTokens") (acc.usage.field "cacheReadInputTokens") call.modelId
  refine ⟨_, ?_, by rw [made, tracks.stop, Assembly.reply]⟩
  unfold Bedrock.finish
  simp only [exec_bind, exec_get, inKeyOrder_of_tracks tracks, tracks.text, Json.get_of_isObj usage, lift_ok, exec_pure]
  split
  · rfl
  · rfl

theorem stream_answer {call : Bedrock.ConverseCall} {parts : List Part} {stop : Json} (h : Cuts call parts stop) :
    (Bedrock.streamBedrock call).outcome.map answer = .ok (streamed parts stop).answer := by
  obtain ⟨reaches, closed, found, events, same⟩ := h
  obtain ⟨a, assembled, reply⟩ := assemble_cut parts stop
  obtain ⟨acc, ran, following⟩ := follows_forM (R := Following) (fun _ _ => follows) events Bedrock.Acc.new .empty a
    ⟨tracks_empty, rfl⟩ (by rw [same]; exact assembled)
  obtain ⟨result, finished, answered⟩ := finishes call following
  rw [served_bedrock_eq call reaches, closed, outcome_of_events (R := bedrockReader call) ran finished, answered, reply]

theorem agree_iff {data : Json} {call : Bedrock.ConverseCall} {parts : List Part} {stop : Json}
    (holds : Holds data parts stop) (cuts : Cuts call parts stop) :
    Agree (Bedrock.streamBedrock call) (Bedrock.parseBedrockResponse data) ↔ Faithful parts stop := by
  unfold Agree Faithful
  rw [stream_answer cuts, parse_answer holds, Except.ok.injEq, streamed_iff]

end BedrockReply

namespace GoogleReply
open GoogleEvents

/-- The blocks of a part; a part without text and call has none. -/
def held (part : Json) : Option (List Block) :=
  if part.isObj then
    if (part.field "functionCall").truthy then
      if (part.field "functionCall").isObj && !(part.field "text").truthy then
        match (part.field "functionCall").field "name" with
        | .str name => some [.toolUse name ((part.field "functionCall").field "args")]
        | _ => none
      else none
    else match part.field "text" with
      | .str text => some [.text text]
      | .null => some []
      | _ => none
  else none

def heldBy (cand : Json) : Option (List Block) :=
  if cand.isObj && (cand.field "content").dictish && ((cand.field "content").field "parts").listOf fun _ => true then
    ((parts cand).mapM held).map List.flatten
  else none

/-- What a chunk adds: calls are not cut. -/
inductive Piece where
  | block (block : Block)
  | stopped (reason : Json)

def reasons (reason : Json) : List Piece := if reason.truthy then [.stopped reason] else []

def told (chunk : Json) : Option (List Piece) :=
  if chunk.isObj && (chunk.field "usageMetadata").dictish then
    match chunk.field "candidates" with
    | .arr [cand] => (heldBy cand).map fun blocks => blocks.map .block ++ reasons (cand.field "finishReason")
    | candidates => if candidates.truthy then none else some []
  else none

/-- The whole reply, of the one candidate that is asked for. -/
def Holds (data : Json) (parts : List Part) (stop : Json) : Prop :=
  data.isObj = true ∧ (data.field "usageMetadata").dictish = true ∧
    ∃ cand, data.field "candidates" = .arr [cand] ∧ heldBy cand = some (parts.map Part.block) ∧
      cand.field "finishReason" = stop

/-- The chunks cut the reply, and the stream ends behind them. -/
def Cuts (call : HttpCall) (parts : List Part) (stop : Json) : Prop :=
  served call = true ∧ endOf call.ending call.lines = .closed ∧
    ∃ found, (eventsOf call.lines).mapM told = some found ∧
      found.flatten = (parts.flatMap Part.spoken).map .block ++ reasons stop

/-- The reply that the chunks make. -/
def heard (parts : List Part) (stop : Json) : Reply := { whole parts stop with finishReason := stop.orElse .null }

theorem toolCall_eq {fc : Json} (obj : fc.isObj = true) {name : String} (isName : fc.field "name" = .str name) :
    ∃ id, Google.toolCall fc = .ok ⟨id, .str name, .str (fc.field "args").orDict.dumps⟩ := by
  refine ⟨(fc.field "id").orElse (.str name), ?_⟩
  unfold Google.toolCall
  simp only [Json.get_of_isObj obj, bind, Except.bind, pure, Except.pure, isName, Json.orElse_str]

theorem kept_part (kept : List Json × List ToolCall) (blocks : List Block) (part : Json) (more : List Block)
    (h : held part = some more) (here : Kept kept.1 kept.2 blocks) :
    ∃ kept', Google.readPart kept part = .ok kept' ∧ Kept kept'.1 kept'.2 (blocks ++ more) := by
  unfold held at h
  split at h
  swap
  · cases h
  rename_i obj
  unfold Google.readPart
  simp only [Json.get_of_isObj obj, bind, Except.bind, pure, Except.pure]
  split at h
  · rename_i called
    split at h
    swap
    · cases h
    rename_i shape
    rw [Bool.and_eq_true, Bool.not_eq_true'] at shape
    split at h
    swap
    · cases h
    rename_i name isName
    obtain rfl := Option.some.inj h
    obtain ⟨id, made⟩ := toolCall_eq shape.1 isName
    rw [shape.2, if_pos called, made]
    exact ⟨_, rfl, kept_call here id name _⟩
  · rename_i uncalled
    rw [if_neg uncalled]
    split at h
    · rename_i text isText
      obtain rfl := Option.some.inj h
      rw [isText]
      exact ⟨_, rfl, kept_said here text⟩
    · rename_i isNull
      obtain rfl := Option.some.inj h
      rw [isNull]
      exact ⟨kept, rfl, by simpa using here⟩
    · cases h

theorem parse_answer {data : Json} {parts : List Part} {stop : Json} (h : Holds data parts stop) (status : Nat) :
    (Google.parseGeminiResponse data status).map answer =
      .ok (if stop.isText "SAFETY" then .error .contentFilter else (whole parts stop).answer) := by
  obtain ⟨obj, usage, cand, candidates, holds, isStop⟩ := h
  unfold heldBy at holds
  split at holds
  swap
  · cases holds
  rename_i shape
  simp only [Bool.and_eq_true] at shape
  obtain ⟨⟨isObj, content⟩, items⟩ := shape
  obtain ⟨found, blocks, same⟩ := Option.map_eq_some_iff.mp holds
  obtain ⟨⟨textParts, toolCalls⟩, ran, kept⟩ := kept_foldlM kept_part blocks ([], []) [] kept_nil
  rw [List.nil_append, same] at kept
  unfold Google.parseGeminiResponse
  have one : (Json.arr [cand]).orElse (.arr []) = .arr [cand] := rfl
  have some_candidate : (!(Json.arr [cand]).truthy) = false := rfl
  simp only [Json.get_of_isObj obj, candidates, one, some_candidate, Bool.false_eq_true, if_false, bind, Except.bind,
    Json.first, Json.get_of_isObj isObj, isStop,
    Json.get_orDict content, (Json.iterOr_of_listOf items).1, Json.get_orDict usage]
  cases filtered : stop.isText "SAFETY" with
  | true => rfl
  | false =>
    rw [GoogleEvents.parts] at ran
    simp only [ran, kept.text]
    have made := answer_made kept.calls (textOf (parts.map Part.block)) status stop
      ((data.field "usageMetadata").field "promptTokenCount") ((data.field "usageMetadata").field "candidatesTokenCount")
      ((data.field "usageMetadata").field "cachedContentTokenCount") (data.field "modelVersion")
    unfold whole
    rw [if_neg Bool.false_ne_true, ← made]
    simp only [Bool.false_eq_true, if_false]
    split
    · rfl
    · rfl

/-- The accumulator holds these blocks, and a stop reason; its usage stays a dictionary. -/
def Following (acc : Google.Acc) (v : List Block × Json) : Prop :=
  Kept acc.textParts acc.toolCalls v.1 ∧ acc.finishReason = v.2 ∧ acc.usage.isObj = true

def addBlock (v : List Block × Json) (block : Block) : Option (List Block × Json) := some (v.1 ++ [block], v.2)

def add (v : List Block × Json) : Piece → Option (List Block × Json)
  | .block block => addBlock v block
  | .stopped reason => some (v.1, reason)

theorem add_blocks (blocks : List Block) (v : List Block × Json) :
    blocks.foldlM addBlock v = some (v.1 ++ blocks, v.2) := by
  induction blocks generalizing v with
  | nil => simp
  | cons block blocks ih =>
    rw [List.foldlM_cons, addBlock, Option.bind_eq_bind, Option.bind_some, ih, List.append_assoc, List.singleton_append]

/-- The blocks of a chunk, and its reason. -/
theorem add_chunk (blocks : List Block) (reason : Json) (v : List Block × Json) :
    (blocks.map Piece.block ++ reasons reason).foldlM add v = some (v.1 ++ blocks, reason.orElse v.2) := by
  rw [List.foldlM_append, List.foldlM_map]
  change (blocks.foldlM addBlock v).bind _ = _
  rw [add_blocks, Option.bind_some]
  unfold reasons Json.orElse
  split
  · rfl
  · rfl

theorem follows_part {part : Json} {blocks : List Block} (h : held part = some blocks) :
    Follows Following (Google.onPart part) fun v => blocks.foldlM addBlock v := by
  rintro acc v w ⟨kept, stop, usage⟩ stepped
  beta_reduce at stepped
  rw [add_blocks] at stepped
  obtain rfl := Option.some.inj stepped
  unfold held at h
  split at h
  swap
  · cases h
  rename_i obj
  unfold Google.onPart
  simp only [Json.get_of_isObj obj, lift_ok, pure_bind]
  split at h
  · rename_i called
    split at h
    swap
    · cases h
    rename_i shape
    rw [Bool.and_eq_true, Bool.not_eq_true'] at shape
    split at h
    swap
    · cases h
    rename_i name isName
    obtain rfl := Option.some.inj h
    obtain ⟨id, made⟩ := toolCall_eq shape.1 isName
    simp only [shape.2, called, made, lift_ok, pure_bind, Bool.false_eq_true, if_false, if_true]
    exact ⟨_, rfl, kept_call kept id name _, stop, usage⟩
  · rename_i uncalled
    simp only [if_neg uncalled]
    split at h
    · rename_i text isText
      obtain rfl := Option.some.inj h
      rw [isText]
      by_cases none : text = ""
      · subst none
        exact ⟨_, rfl, kept_silent kept, stop, usage⟩
      · rw [if_pos (Json.truthy_str none)]
        exact ⟨_, rfl, kept_text kept text, stop, usage⟩
    · rename_i isNull
      obtain rfl := Option.some.inj h
      rw [isNull]
      exact ⟨acc, rfl, by simpa using kept, stop, usage⟩
    · cases h

theorem follows_candidate {cand : Json} {blocks : List Block} (h : heldBy cand = some blocks) :
    Follows Following (Google.onCandidate cand) fun v =>
      (blocks.map Piece.block ++ reasons (cand.field "finishReason")).foldlM add v := by
  unfold heldBy at h
  split at h
  swap
  · cases h
  rename_i shape
  simp only [Bool.and_eq_true] at shape
  obtain ⟨⟨obj, content⟩, items⟩ := shape
  obtain ⟨found, each, rfl⟩ := Option.map_eq_some_iff.mp h
  unfold Google.onCandidate
  simp only [Json.get_of_isObj obj, Json.get_orDict content, (Json.iterOr_of_listOf items).1, lift_ok, pure_bind]
  rintro acc v w ⟨kept, stop, usage⟩ stepped
  beta_reduce at stepped
  rw [add_chunk] at stepped
  obtain rfl := Option.some.inj stepped
  have marked : Following { acc with finishReason := (cand.field "finishReason").orElse acc.finishReason }
      (v.1, (cand.field "finishReason").orElse v.2) := ⟨kept, by rw [stop], usage⟩
  obtain ⟨t, ran, following⟩ := follows_forM (fun _ _ => follows_part) each _ _ _ marked (add_blocks _ _)
  exact ⟨t, by rw [exec_bind_ok (exec_modify _ _)]; exact ran, following⟩

theorem follows {chunk : Json} {pieces : List Piece} (h : told chunk = some pieces) :
    Follows Following (Google.onEvent chunk) fun v => pieces.foldlM add v := by
  unfold told at h
  split at h
  swap
  · cases h
  rename_i shape
  rw [Bool.and_eq_true] at shape
  obtain ⟨obj, dict⟩ := shape
  unfold Google.onEvent
  simp only [Json.get_of_isObj obj, lift_ok, pure_bind]
  rintro acc v w ⟨kept, stop, usage⟩ stepped
  have marked : Following { acc with
      rawModel := (chunk.field "modelVersion").orElse acc.rawModel
      usage := (chunk.field "usageMetadata").orElse acc.usage } v := by
    refine ⟨kept, stop, ?_⟩
    dsimp only
    rw [Json.orElse]
    split
    · rename_i truthy
      simpa [Json.dictish, truthy] using dict
    · exact usage
  rw [exec_bind_ok (exec_modify _ _)]
  split at h
  · rename_i cand candidates
    obtain ⟨blocks, holds, rfl⟩ := Option.map_eq_some_iff.mp h
    obtain ⟨t, ran, following⟩ := follows_candidate holds _ _ _ marked stepped
    refine ⟨t, ?_, following⟩
    rw [candidates, Json.iterOr_arr]
    simp only [lift_ok, pure_bind, loop_cons]
    rw [exec_bind_ok ran]
    rfl
  · split at h
    · cases h
    · rename_i none
      obtain rfl := Option.some.inj h
      obtain rfl := Option.some.inj stepped
      rw [Json.iterOr_of_falsy (by simpa using none)]
      exact ⟨_, rfl, marked⟩

theorem finishes {acc : Google.Acc} {v : List Block × Json} (following : Following acc v) :
    ∃ result, exec Google.finish acc = (.ok result, acc) ∧
      answer result = (⟨textOf v.1, callsOf v.1, v.2⟩ : Reply).answer := by
  obtain ⟨kept, stop, usage⟩ := following
  have made := answer_made kept.calls (textOf v.1) 200 acc.finishReason (acc.usage.field "promptTokenCount")
    (acc.usage.field "candidatesTokenCount") (acc.usage.field "cachedContentTokenCount") acc.rawModel
  refine ⟨_, ?_, by rw [made, stop]⟩
  unfold Google.finish
  simp only [exec_bind, exec_get, kept.text, Json.get_of_isObj usage, lift_ok, exec_pure]
  split
  · rfl
  · rfl

theorem said_spoken (parts : List Part) :
    textOf (parts.flatMap Part.spoken) = textOf (parts.map Part.block) ∧
      callsOf (parts.flatMap Part.spoken) = callsOf (parts.map Part.block) := by
  unfold textOf callsOf
  induction parts with
  | nil => exact ⟨rfl, rfl⟩
  | cons part parts ih =>
    rw [List.flatMap_cons, List.map_append, String.join_append, ih.1, List.filterMap_append, ih.2]
    cases part with
    | text pieces =>
      have said : (pieces.map Block.text).map Block.said = pieces := by simp [Block.said, Function.comp_def]
      have uncalled : (pieces.map Block.text).filterMap Block.call? = [] := by simp [Block.call?]
      rw [Part.spoken, said, uncalled, List.map_cons, List.map_cons, String.join_cons]
      exact ⟨rfl, rfl⟩
    | toolUse name input pieces => exact ⟨rfl, rfl⟩

theorem stream_answer {call : HttpCall} {parts : List Part} {stop : Json} (h : Cuts call parts stop) :
    (Google.streamGoogle call).outcome.map answer = .ok (heard parts stop).answer := by
  obtain ⟨reaches, closed, found, events, same⟩ := h
  have assembled : found.flatten.foldlM add ([], .null) = some (parts.flatMap Part.spoken, stop.orElse .null) := by
    rw [same, add_chunk, List.nil_append]
  refine answer_of_read googleReader reaches closed rfl rfl fun code => ?_
  obtain ⟨acc, ran, following⟩ := follows_forM (R := Following) (fun _ _ => follows) events
    { StreamAcc.new [] with status := code } ([], .null) _ ⟨kept_nil, rfl, rfl⟩ assembled
  obtain ⟨result, finished, answered⟩ := finishes following
  obtain ⟨text, calls⟩ := said_spoken parts
  exact ⟨acc, result, ran, finished, by rw [answered, text, calls]; rfl⟩

/-- A reply whose prompt was blocked: no candidate, whole or streamed. -/
def Blocked (data : Json) (call : HttpCall) : Prop :=
  data.isObj = true ∧ (data.field "candidates").truthy = false ∧ Cuts call [] .null

theorem parse_blocked {data : Json} {call : HttpCall} (h : Blocked data call) (status : Nat) :
    (Google.parseGeminiResponse data status).map answer =
      .ok (.error (if (data.field "promptFeedback").truthy then .contentFilter else .badResponse)) := by
  obtain ⟨obj, none, -⟩ := h
  have absent : (!((data.field "candidates").orElse (.arr [])).truthy) = true := by
    rw [Json.orElse, none]
    rfl
  unfold Google.parseGeminiResponse
  simp only [Json.get_of_isObj obj, bind, Except.bind, absent, if_true]
  rfl

/-- Both ways pass on the same blocks; a filtered reply is an error of the unary parser only. -/
theorem heard_iff (parts : List Part) (stop : Json) :
    (heard parts stop).answer = (if stop.isText "SAFETY" then .error .contentFilter else (whole parts stop).answer) ↔
      stop ≠ .str "SAFETY" ∧ (Silent parts ∨ Settled stop) := by
  cases filtered : stop.isText "SAFETY" with
  | true =>
    refine iff_of_false (fun same => ?_) fun unfiltered => unfiltered.1 ((Json.isText_iff _).mp filtered)
    unfold Reply.answer at same
    split at same
    · cases same
    · cases same
  | false =>
    have unfiltered : stop ≠ .str "SAFETY" := fun same => by rw [same] at filtered; cases filtered
    rw [if_neg Bool.false_ne_true, and_iff_right unfiltered]
    unfold heard whole
    rw [answer_eq_iff rfl, ← silent_iff, eq_self_iff_true, true_and, settled_iff]

theorem agree_iff {data : Json} {call : HttpCall} {parts : List Part} {stop : Json} (holds : Holds data parts stop)
    (cuts : Cuts call parts stop) (status : Nat) :
    Agree (Google.streamGoogle call) (Google.parseGeminiResponse data status) ↔
      stop ≠ .str "SAFETY" ∧ (Silent parts ∨ Settled stop) := by
  unfold Agree
  rw [stream_answer cuts, parse_answer holds, Except.ok.injEq, heard_iff]

/-- A prompt that was blocked with a reason is a filtered reply of the unary parser only. -/
theorem agree_iff_unexplained {data : Json} {call : HttpCall} (blocked : Blocked data call) (status : Nat) :
    Agree (Google.streamGoogle call) (Google.parseGeminiResponse data status) ↔
      (data.field "promptFeedback").truthy = false := by
  have silent : (heard [] .null).answer = .error .badResponse := rfl
  unfold Agree
  rw [stream_answer blocked.2.2, parse_blocked blocked, Except.ok.injEq, silent]
  cases (data.field "promptFeedback").truthy with
  | true => exact iff_of_false (fun same => by cases same) fun falsy => by cases falsy
  | false => exact iff_of_true rfl rfl

end GoogleReply

section Replies

/-- A complete reply of a native provider, with what is read of it whole and what is read of its stream. -/
inductive NativeReply where
  | anthropic (parts : List Part) (stop data : Json) (status : Nat) (call : HttpCall)
      (holds : AnthropicReply.Holds data parts stop) (cuts : AnthropicReply.Cuts call parts stop)
  | bedrock (parts : List Part) (stop data : Json) (call : Bedrock.ConverseCall)
      (holds : BedrockReply.Holds data parts stop) (cuts : BedrockReply.Cuts call parts stop)
  | google (parts : List Part) (stop data : Json) (status : Nat) (call : HttpCall)
      (holds : GoogleReply.Holds data parts stop) (cuts : GoogleReply.Cuts call parts stop)
  | blocked (data : Json) (status : Nat) (call : HttpCall) (holds : GoogleReply.Blocked data call)

def NativeReply.Agrees : NativeReply → Prop
  | .anthropic _ _ data status call _ _ =>
    Agree (Anthropic.streamAnthropic call) (Anthropic.parseAnthropicResponse data status)
  | .bedrock _ _ data call _ _ => Agree (Bedrock.streamBedrock call) (Bedrock.parseBedrockResponse data)
  | .google _ _ data status call _ _ => Agree (Google.streamGoogle call) (Google.parseGeminiResponse data status)
  | .blocked data status call _ => Agree (Google.streamGoogle call) (Google.parseGeminiResponse data status)

def NativeReply.Faithful : NativeReply → Prop
  | .anthropic parts stop .. => StreamedReply.Faithful parts stop
  | .bedrock parts stop .. => StreamedReply.Faithful parts stop
  | .google parts stop .. => stop ≠ .str "SAFETY" ∧ (Silent parts ∨ Settled stop)
  | .blocked data .. => (data.field "promptFeedback").truthy = false

/-- The two ways of each adapter agree exactly on the replies whose stream is faithful. -/
theorem agrees_iff_faithful (reply : NativeReply) : reply.Agrees ↔ reply.Faithful := by
  cases reply with
  | anthropic parts stop data status call holds cuts => exact AnthropicReply.agree_iff holds cuts status
  | bedrock parts stop data call holds cuts => exact BedrockReply.agree_iff holds cuts
  | google parts stop data status call holds cuts => exact GoogleReply.agree_iff holds cuts status
  | blocked data status call holds => exact GoogleReply.agree_iff_unexplained holds status

/-- A text and a call without arguments. -/
def refreshParts : List Part := [.text ["On ", "it."], .toolUse "refresh" (.obj []) [""]]

def refreshMessage : Json := .obj [
  ("content", .arr [
    .obj [("type", .str "text"), ("text", .str "On it.")],
    .obj [("type", .str "tool_use"), ("id", .str "toolu_1"), ("name", .str "refresh"), ("input", .obj [])]]),
  ("stop_reason", .str "tool_use"),
  ("usage", .obj [("input_tokens", .int 10), ("output_tokens", .int 5)])]

/-- How the Messages API streams it: the call opens with `{}`, and its one piece is empty. -/
def refreshCall : HttpCall where
  token := some "key"
  firstTokenTimeout := false
  opening := .status 200 ""
  lines := [
    ⟨false, .event (.obj [("type", .str "message_start"),
      ("message", .obj [("usage", .obj [("input_tokens", .int 10)])])])⟩,
    ⟨false, .event (.obj [("type", .str "content_block_start"), ("index", .int 0),
      ("content_block", .obj [("type", .str "text"), ("text", .str "")])])⟩,
    ⟨false, .event (.obj [("type", .str "content_block_delta"), ("index", .int 0),
      ("delta", .obj [("type", .str "text_delta"), ("text", .str "On ")])])⟩,
    ⟨false, .event (.obj [("type", .str "content_block_delta"), ("index", .int 0),
      ("delta", .obj [("type", .str "text_delta"), ("text", .str "it.")])])⟩,
    ⟨false, .event (.obj [("type", .str "content_block_stop"), ("index", .int 0)])⟩,
    ⟨false, .event (.obj [("type", .str "content_block_start"), ("index", .int 1),
      ("content_block", .obj [("type", .str "tool_use"), ("id", .str "toolu_1"), ("name", .str "refresh"),
        ("input", .obj [])])])⟩,
    ⟨false, .event (.obj [("type", .str "content_block_delta"), ("index", .int 1),
      ("delta", .obj [("type", .str "input_json_delta"), ("partial_json", .str "")])])⟩,
    ⟨false, .event (.obj [("type", .str "content_block_stop"), ("index", .int 1)])⟩,
    ⟨false, .event (.obj [("type", .str "message_delta"), ("delta", .obj [("stop_reason", .str "tool_use")]),
      ("usage", .obj [("output_tokens", .int 5)])])⟩,
    ⟨false, .event (.obj [("type", .str "message_stop")])⟩]
  ending := .closed

theorem refresh_holds : AnthropicReply.Holds refreshMessage refreshParts (.str "tool_use") :=
  ⟨rfl, rfl, rfl, _, rfl, _, rfl, rfl⟩

theorem refresh_cuts : AnthropicReply.Cuts refreshCall refreshParts (.str "tool_use") := ⟨rfl, rfl, _, rfl, rfl⟩

def refreshReply : NativeReply :=
  .anthropic refreshParts (.str "tool_use") refreshMessage 200 refreshCall refresh_holds refresh_cuts

/-- A Gemini reply that was cut off by the safety filter; a stream of it is one chunk. -/
def filteredMessage : Json := .obj [
  ("candidates", .arr [.obj [("content", .obj [("parts", .arr [.obj [("text", .str "First, ")]])]),
    ("finishReason", .str "SAFETY")]]),
  ("usageMetadata", .obj [("promptTokenCount", .int 10)])]

def filteredReply : NativeReply := .google [.text ["First, "]] (.str "SAFETY") filteredMessage 200
  ⟨some "key", false, .status 200 "", [⟨false, .event filteredMessage⟩], .closed⟩
  ⟨rfl, rfl, _, rfl, rfl, rfl⟩ ⟨rfl, rfl, _, rfl, rfl⟩

def blockedMessage : Json := .obj [("promptFeedback", .obj [("blockReason", .str "SAFETY")])]

def blockedReply : NativeReply := .blocked blockedMessage 200
  ⟨some "key", false, .status 200 "", [⟨false, .event blockedMessage⟩], .closed⟩
  ⟨rfl, rfl, rfl, rfl, _, rfl, rfl⟩

/-- The call without arguments has `""` from the stream and `{}` from the unary parser; what Gemini filtered
is text of the stream, or an empty answer, and `content_filter` of the unary parser. -/
theorem refresh_differs : ¬ refreshReply.Agrees ∧ ¬ filteredReply.Agrees ∧ ¬ blockedReply.Agrees := by
  refine ⟨fun agree => ?_, fun agree => ?_, fun agree => ?_⟩
  · have spelled := ((AnthropicReply.agree_iff refresh_holds refresh_cuts 200).mp agree).1
      (.toolUse "refresh" (.obj []) [""]) (by simp [refreshParts])
    exact absurd (show "" = "\x7b\x7d" from spelled) (by decide)
  · cases agree
  · cases agree

/-- A Bedrock reply with one call, its input in two pieces. -/
def weatherMessage : Json := .obj [
  ("output", .obj [("message", .obj [("content", .arr [
    .obj [("toolUse", .obj [("toolUseId", .str "t1"), ("name", .str "weather"),
      ("input", .obj [("days", .int 3)])])]])])]),
  ("stopReason", .str "tool_use")]

def weatherParts : List Part := [.toolUse "weather" (.obj [("days", .int 3)]) ["\x7b\"days\"", ": 3\x7d"]]

def weatherCall : Bedrock.ConverseCall where
  apiKind := .str "bedrock"
  modelId := .str "model"
  firstTokenTimeout := false
  opening := .opened
  events := [
    [("contentBlockStart", .obj [("contentBlockIndex", .int 0),
      ("start", .obj [("toolUse", .obj [("toolUseId", .str "t1"), ("name", .str "weather")])])])],
    [("contentBlockDelta", .obj [("contentBlockIndex", .int 0),
      ("delta", .obj [("toolUse", .obj [("input", .str "\x7b\"days\"")])])])],
    [("contentBlockDelta", .obj [("contentBlockIndex", .int 0),
      ("delta", .obj [("toolUse", .obj [("input", .str ": 3\x7d")])])])],
    [("messageStop", .obj [("stopReason", .str "tool_use")])]]
  ending := .closed

def weatherReply : NativeReply := .bedrock weatherParts (.str "tool_use") weatherMessage weatherCall
  ⟨rfl, rfl, rfl, rfl, rfl, _, rfl, _, rfl, rfl⟩ ⟨rfl, rfl, _, rfl, rfl⟩

theorem weather_agrees : weatherReply.Agrees := by
  refine (agrees_iff_faithful weatherReply).mpr
    (⟨fun part mem => ?_, .inr (.inl rfl)⟩ : StreamedReply.Faithful weatherParts _)
  obtain rfl := List.mem_singleton.mp mem
  exact (by decide : String.join ["\x7b\"days\"", ": 3\x7d"] = (Json.obj [("days", .int 3)]).orDict.dumps)

end Replies

end Unhardcoded.Guarantees.StreamedReply
