import Unhardcoded.Guarantees.StreamReader
import Unhardcoded.Source.Adapters.Anthropic
import Unhardcoded.Source.Adapters.Bedrock
import Unhardcoded.Source.Adapters.Google
import Unhardcoded.Source.Adapters.OpenaiCompatible

/-!
# What the events of each provider say

For each adapter with an event loop of its own: which events it reads through, which
make it return an error, which text deltas they pass on and which keep something
beside text. Each adapter is a reader of its events.
-/

namespace Unhardcoded.Guarantees.StreamReader
open Python Python.Body Source Source.Adapters

section Lines

/-- The decoded events of the lines, up to `[DONE]`. -/
def eventsOf : List Line → List Json
  | [] => []
  | ⟨false, .event ev⟩ :: lines => ev :: eventsOf lines
  | ⟨false, .done⟩ :: _ => []
  | _ :: lines => eventsOf lines

/-- `[DONE]` ends a stream in order, whatever would have ended it later. -/
def endOf (ending : Ending) : List Line → Ending
  | [] => ending
  | ⟨false, .done⟩ :: _ => .closed
  | _ :: lines => endOf ending lines

variable {σ : Type} (sawOutput : σ → Bool) (firstTokenTimeout : Bool) (ending : Ending)
variable (onEvent : Json → Body σ Result Unit)

/-- The loop over the lines is the loop over their events. -/
theorem readLines_eq (lines : List Line) :
    readLines sawOutput firstTokenTimeout ending onEvent lines = (do
      (eventsOf lines).forM onEvent
      lastRead sawOutput firstTokenTimeout (endOf ending lines)) := by
  induction lines with
  | nil => rfl
  | cons line lines ih =>
    obtain ⟨indented, payload⟩ := line
    cases indented with
    | true => exact ih
    | false =>
      cases payload with
      | absent => exact ih
      | done => rfl
      | undecodable => exact ih
      | event ev =>
        rw [readLines, ih, eventsOf, loop_cons, bind_assoc]
        rfl

end Lines

section Told

variable {τ : Type}

/-- What was passed to `emit` is the text so far, and the accumulator knows it. -/
def Told (acc : StreamAcc τ) : Prop :=
  acc.textParts = acc.sent ∧ (acc.sent ≠ [] → acc.emitted = true ∧ acc.sawOutput = true)

theorem ne_nil_of_committed {sent : List Json} (h : Committed sent) : sent ≠ [] := by
  rintro rfl
  exact not_committed_nil h

/-- The handler of the drive remembers a delta. -/
theorem shields_drive {acc : StreamAcc τ} (told : Told acc) : ∃ x t, driveExcept.exec acc = (.error x, t) ∧
    t.sent = acc.sent ∧
    (Committed acc.sent → ∀ kind status, x = .returned (.err kind status) → kind = .streamInterrupted) := by
  cases emitted : acc.emitted with
  | false =>
    refine ⟨.returned (.err .networkError 0), acc, ?_, rfl, ?_⟩
    · simp [driveExcept, exec_bind, emitted]
    · intro committed
      have := (told.2 (ne_nil_of_committed committed)).1
      rw [emitted] at this
      cases this
  | true =>
    cases joined : join acc.textParts with
    | ok text =>
      refine ⟨.returned (.err .streamInterrupted 0), acc, ?_, rfl, ?_⟩
      · simp [driveExcept, exec_bind, emitted, joined]
      · intro _ kind status same
        cases same
        rfl
    | error e =>
      refine ⟨.raised e, acc, ?_, rfl, ?_⟩
      · simp [driveExcept, exec_bind, emitted, joined]
      · intro _ kind status same
        cases same

/-- Blank deltas are blank once joined. -/
theorem blank_iff {parts : List Json} {text : String} (joined : join parts = .ok text) :
    Blank parts ↔ blank text = true := by
  rcases join_cases parts with ⟨texts, rfl⟩ | ⟨-, e, raised⟩
  · rw [join_str] at joined
    obtain rfl := Except.ok.inj joined
    rw [blank_join, List.all_eq_true]
    simp [Blank]
  · rw [joined] at raised
    cases raised

theorem not_blank_of_unjoined {parts : List Json} {e : Raised} (raised : join parts = .error e) : ¬ Blank parts := by
  intro blank
  rcases join_cases parts with ⟨texts, rfl⟩ | ⟨⟨part, mem, odd⟩, -⟩
  · rw [join_str] at raised
    cases raised
  · obtain ⟨text, rfl, -⟩ := blank part mem
    cases odd

end Told

section Sse

variable {α : Type} {usable : Json → Prop}

/-- The ledger of an accumulator, whose usage stays usable. -/
def sseLedger (α : Type) (usable : Json → Prop) : Ledger (StreamAcc (List α)) Json where
  sent acc := acc.sent
  kept acc := !acc.toolCalls.isEmpty
  sound acc := Told acc ∧ usable acc.usage

/-- A change that keeps what was sent and marks output. -/
theorem reads_quiet {f : StreamAcc (List α) → StreamAcc (List α)} {kept : Bool}
    (h : ∀ s, (f s).textParts = s.textParts ∧ (f s).sent = s.sent ∧ (f s).emitted = s.emitted ∧
      ((f s).sawOutput = s.sawOutput ∨ (f s).sawOutput = true) ∧ (usable s.usage → usable (f s).usage) ∧
      (!(f s).toolCalls.isEmpty) = (!s.toolCalls.isEmpty || kept)) :
    Reads (sseLedger α usable) (modify f : Body (StreamAcc (List α)) Result PUnit) [] kept := by
  apply reads_modify
  intro s ⟨⟨same, marked⟩, usage⟩
  obtain ⟨textParts, sent, emitted, saw, usage', keeps⟩ := h s
  refine ⟨⟨⟨by rw [textParts, sent, same], fun nonempty => ?_⟩, usage' usage⟩, by simp [sseLedger, sent], keeps⟩
  obtain ⟨told, seen⟩ := marked (sent ▸ nonempty)
  exact ⟨emitted ▸ told, saw.elim (fun h => h ▸ seen) id⟩

theorem reads_saw : Reads (sseLedger α usable)
    (modify fun acc => { acc with sawOutput := true } : Body (StreamAcc (List α)) Result PUnit) [] false :=
  reads_quiet fun _ => ⟨rfl, rfl, rfl, .inr rfl, id, by simp⟩

theorem reads_text (text : Json) :
    Reads (sseLedger α usable) (modify fun acc => { acc with
      sawOutput := true, emitted := true, textParts := acc.textParts ++ [text], sent := acc.sent ++ [text] } :
        Body (StreamAcc (List α)) Result PUnit) [text] false := by
  apply reads_modify
  rintro s ⟨⟨same, -⟩, usage⟩
  exact ⟨⟨⟨by rw [same], fun _ => ⟨rfl, rfl⟩⟩, usage⟩, rfl, by simp [sseLedger]⟩

end Sse

namespace AnthropicEvents

/-- The content index of an event. -/
def index (ev : Json) : Json := (ev.field? "index").getD (.int 0)

/-- The handler reads the event through: the parts it looks into are dictionaries,
a usage updates, an index is hashable, a piece of arguments is a string. -/
def readable (ev : Json) : Bool :=
  ev.isObj && match ev.field "type" with
    | .str "message_start" => (ev.field "message").dictish && ((ev.field "message").field "usage").updates
    | .str "content_block_start" => (ev.field "content_block").dictish &&
        (!((ev.field "content_block").field "type").isText "tool_use" || (index ev).hashable)
    | .str "content_block_delta" => (ev.field "delta").dictish &&
        (!((ev.field "delta").field "type").isText "input_json_delta" ||
          (index ev).hashable && (!((ev.field "delta").field "partial_json").truthy ||
            ((ev.field "delta").field "partial_json").isStr))
    | .str "message_delta" => (ev.field "delta").dictish && (ev.field "usage").updates
    | .str "error" => false
    | _ => true

/-- An `error` event whose report can be written. -/
def reports (ev : Json) : Bool :=
  ev.isObj && (ev.field "type").isText "error" && (ev.field "error").dictish &&
    (!((ev.field "error").field "message").truthy || ((ev.field "error").field "message").sliceable)

/-- The text delta of an event. -/
def deltas (ev : Json) : List Json :=
  if (ev.field "type").isText "content_block_delta" && ((ev.field "delta").field "type").isText "text_delta" &&
    ((ev.field "delta").field "text").truthy then [(ev.field "delta").field "text"] else []

/-- An event of a tool call. -/
def kept (ev : Json) : Bool :=
  (ev.field "type").isText "content_block_start" && ((ev.field "content_block").field "type").isText "tool_use" ||
    (ev.field "type").isText "content_block_delta" && ((ev.field "delta").field "type").isText "input_json_delta"

abbrev ledger : Ledger Anthropic.Acc Json := sseLedger _ fun usage => usage.isObj = true

theorem isEmpty_insert (key : Key) (call : ToolCall) (toolCalls : List (Key × ToolCall)) :
    (insert key call toolCalls).isEmpty = false :=
  List.isEmpty_eq_false_iff.mpr (insert_ne_nil key call toolCalls)

theorem reads_append (key : Key) (piece : String) :
    Reads ledger (modify fun acc => { acc with toolCalls := Anthropic.appendArguments key piece acc.toolCalls } :
      Body Anthropic.Acc Result PUnit) [] true :=
  reads_quiet fun _ => ⟨rfl, rfl, rfl, .inl rfl, id, by simp [Anthropic.appendArguments, isEmpty_insert]⟩

/-- A change of the usage, which takes the update of an event. -/
theorem reads_usage {v : Json} (updates : v.updates = true) (f : Anthropic.Acc → Json → Anthropic.Acc)
    (h : ∀ s usage, (f s usage).textParts = s.textParts ∧ (f s usage).sent = s.sent ∧
      (f s usage).emitted = s.emitted ∧ (f s usage).sawOutput = s.sawOutput ∧ (f s usage).usage = usage ∧
      (f s usage).toolCalls = s.toolCalls) :
    Reads ledger (do
      let acc ← get
      let usage ← acc.usage.update v.orDict
      set (f acc usage) : Body Anthropic.Acc Result PUnit) [] false := by
  intro s ⟨⟨same, marked⟩, usage⟩
  obtain ⟨fields, updated⟩ := update_of_updates usage updates
  obtain ⟨textParts, sent, emitted, saw, usage', toolCalls⟩ := h s (.obj fields)
  refine ⟨⟨⟩, f s (.obj fields), by simp [exec_bind, updated], ⟨⟨?_, ?_⟩, ?_⟩, by simp [sseLedger, sent], ?_⟩
  · rw [textParts, sent, same]
  · rw [sent, emitted, saw]
    exact marked
  · rw [usage']
    rfl
  · simp [sseLedger, toolCalls]

theorem other_delta {ev : Json} (type : ev.field "type" = .str "content_block_delta")
    (not_text : (ev.field "delta").field "type" = .str "text_delta" → False)
    (not_json : (ev.field "delta").field "type" = .str "input_json_delta" → False) :
    deltas ev = [] ∧ kept ev = false := by
  simp [deltas, kept, type, Json.isText_of_ne not_text, Json.isText_of_ne not_json]

theorem reads {ev : Json} (h : readable ev = true) : Reads ledger (Anthropic.onEvent ev) (deltas ev) (kept ev) := by
  have obj : ev.isObj = true := (Bool.and_eq_true_iff.mp h).1
  unfold Anthropic.onEvent
  simp only [Json.get_of_isObj obj, Json.getD_of_isObj obj, lift_ok, pure_bind]
  split
  · -- message_start
    rename_i type
    simp only [readable, obj, type, Bool.true_and, Bool.and_eq_true] at h
    simp only [Json.get_orDict h.1, lift_ok, pure_bind]
    have plain : deltas ev = [] ∧ kept ev = false := by simp [deltas, kept, type, Json.isText]
    rw [plain.1, plain.2]
    exact reads_usage h.2 _ fun _ _ => ⟨rfl, rfl, rfl, rfl, rfl, rfl⟩
  · -- content_block_start
    rename_i type
    simp only [readable, obj, type, Bool.true_and, Bool.and_eq_true] at h
    simp only [Json.get_orDict h.1, lift_ok, pure_bind]
    have unsent : deltas ev = [] := by simp [deltas, type, Json.isText]
    rw [unsent]
    split
    · rename_i tool
      have called : kept ev = true := by simp [kept, type, tool, Json.isText]
      have hashable : (index ev).hashable = true := by simpa [tool, Json.isText] using h.2
      obtain ⟨key, hashed⟩ := Json.key_of_hashable hashable
      rw [index] at hashed
      simp only [hashed, lift_ok, pure_bind, called]
      refine (reads_bind reads_saw fun _ => ?_ : Reads ledger _ ([] ++ []) (false || true))
      exact reads_quiet fun _ => ⟨rfl, rfl, rfl, .inl rfl, id, by simp [isEmpty_insert]⟩
    · rename_i other
      have plain : kept ev = false := by
        cases kind : (ev.field "content_block").field "type" with
        | str text =>
          have : text ≠ "tool_use" := fun same => other (same ▸ kind)
          simp [kept, type, kind, Json.isText, this]
        | _ => simp [kept, type, kind, Json.isText]
      rw [plain]
      exact reads_pure _
  · -- content_block_delta
    rename_i type
    simp only [readable, obj, type, Bool.true_and, Bool.and_eq_true] at h
    simp only [Json.get_orDict h.1, lift_ok, pure_bind]
    split
    · rename_i kind
      have plain : kept ev = false := by simp [kept, type, kind, Json.isText]
      rw [plain]
      split
      · rename_i truthy
        have text : deltas ev = [(ev.field "delta").field "text"] := by simp [deltas, type, kind, Json.isText, truthy]
        rw [text]
        exact reads_text _
      · rename_i falsy
        have unsent : deltas ev = [] := by simp [deltas, type, kind, Json.isText, falsy]
        rw [unsent]
        exact reads_saw
    · rename_i kind
      have unsent : deltas ev = [] := by simp [deltas, type, kind, Json.isText]
      have called : kept ev = true := by simp [kept, type, kind, Json.isText]
      have shape : (index ev).hashable = true ∧ (((ev.field "delta").field "partial_json").truthy = false ∨
          ((ev.field "delta").field "partial_json").isStr = true) := by
        simpa [kind, Json.isText] using h.2
      obtain ⟨key, hashed⟩ := Json.key_of_hashable shape.1
      rw [index] at hashed
      simp only [hashed, lift_ok, pure_bind, unsent, called]
      cases truth : ((ev.field "delta").field "partial_json").truthy with
      | false =>
        exact (reads_bind reads_saw fun _ => reads_bind (reads_append key "") fun _ => reads_pure _ :
          Reads ledger _ ([] ++ ([] ++ [])) (false || (true || false)))
      | true =>
        obtain ⟨piece, text⟩ := Json.text_of_isStr (shape.2.resolve_left (by simp [truth]))
        rw [text]
        exact (reads_bind reads_saw fun _ => reads_bind (reads_append key "") fun _ => reads_append key piece :
          Reads ledger _ ([] ++ ([] ++ [])) (false || (true || true)))
    · rename_i kind not_text not_json shape
      obtain ⟨unsent, plain⟩ := other_delta type (fun same => not_text (Json.str.inj (shape ▸ same)))
        fun same => not_json (Json.str.inj (shape ▸ same))
      rw [unsent, plain]
      split
      · exact reads_saw
      · exact reads_pure _
    · rename_i not_text not_json _
      obtain ⟨unsent, plain⟩ := other_delta type not_text not_json
      rw [unsent, plain]
      exact reads_pure _
  · -- message_delta
    rename_i type
    simp only [readable, obj, type, Bool.true_and, Bool.and_eq_true] at h
    simp only [Json.get_orDict h.1, lift_ok, pure_bind]
    have plain : deltas ev = [] ∧ kept ev = false := by simp [deltas, kept, type, Json.isText]
    rw [plain.1, plain.2]
    exact reads_usage h.2 _ fun _ _ => ⟨rfl, rfl, rfl, rfl, rfl, rfl⟩
  · rename_i type
    simp [readable, type] at h
  · rename_i not_start not_block not_delta not_message not_error
    have unsent : deltas ev = [] := by simp [deltas, Json.isText_of_ne not_delta]
    have plain : kept ev = false := by simp [kept, Json.isText_of_ne not_delta, Json.isText_of_ne not_block]
    rw [unsent, plain]
    exact reads_pure _

theorem fails_usage {v : Json} (stuck : v.updates = false) (f : Anthropic.Acc → Json → Anthropic.Acc) :
    Fails ledger (do
      let acc ← get
      let usage ← acc.usage.update v.orDict
      set (f acc usage) : Body Anthropic.Acc Result PUnit) := by
  intro s sound
  obtain ⟨e, raised⟩ := update_of_not_updates (d := s.usage) stuck
  exact ⟨e, s, by simp [exec_bind, raised], sound⟩

theorem fails {ev : Json} (unread : ¬ readable ev = true) (unreported : ¬ reports ev = true) :
    Fails ledger (Anthropic.onEvent ev) := by
  unfold Anthropic.onEvent
  cases obj : ev.isObj with
  | false =>
    rw [Json.get_of_not_isObj obj]
    exact fails_raise _
  | true =>
    simp only [Json.get_of_isObj obj, Json.getD_of_isObj obj, lift_ok, pure_bind]
    split
    · -- message_start
      rename_i type
      simp only [readable, obj, type, Bool.true_and, Bool.and_eq_true, not_and, Bool.not_eq_true] at unread
      cases dict : (ev.field "message").dictish with
      | false =>
        rw [Json.get_orDict_of_not dict]
        exact fails_raise _
      | true =>
        simp only [Json.get_orDict dict, lift_ok, pure_bind]
        exact fails_usage (unread dict) _
    · -- content_block_start
      rename_i type
      simp only [readable, obj, type, Bool.true_and, Bool.and_eq_true, not_and, Bool.not_eq_true] at unread
      cases dict : (ev.field "content_block").dictish with
      | false =>
        rw [Json.get_orDict_of_not dict]
        exact fails_raise _
      | true =>
        have stuck := unread dict
        simp only [Bool.or_eq_false_iff, Bool.not_eq_false'] at stuck
        rw [Json.isText_iff] at stuck
        have unhashed := Json.key_of_not_hashable stuck.2
        rw [index] at unhashed
        simp only [Json.get_orDict dict, lift_ok, pure_bind, stuck.1, unhashed, lift_error, raise_bind]
        exact fails_bind reads_saw fun _ => fails_raise _
    · -- content_block_delta
      rename_i type
      simp only [readable, obj, type, Bool.true_and, Bool.and_eq_true, not_and, Bool.not_eq_true] at unread
      cases dict : (ev.field "delta").dictish with
      | false =>
        rw [Json.get_orDict_of_not dict]
        exact fails_raise _
      | true =>
        have stuck := unread dict
        simp only [Bool.or_eq_false_iff, Bool.not_eq_false'] at stuck
        rw [Json.isText_iff] at stuck
        simp only [Json.get_orDict dict, lift_ok, pure_bind, stuck.1]
        cases hashable : (index ev).hashable with
        | false =>
          have unhashed := Json.key_of_not_hashable hashable
          rw [index] at unhashed
          simp only [unhashed, lift_error, raise_bind]
          exact fails_bind reads_saw fun _ => fails_raise _
        | true =>
          obtain ⟨key, hashed⟩ := Json.key_of_hashable hashable
          have piece : ((ev.field "delta").field "partial_json").truthy = true ∧
              ((ev.field "delta").field "partial_json").isStr = false := by simpa [hashable] using stuck.2
          rw [index] at hashed
          simp only [hashed, lift_ok, pure_bind, piece.1, if_true, Json.text_of_not_isStr piece.2, lift_error,
            raise_bind]
          exact fails_bind reads_saw fun _ => fails_bind (reads_append key "") fun _ => fails_raise _
    · -- message_delta
      rename_i type
      simp only [readable, obj, type, Bool.true_and, Bool.and_eq_true, not_and, Bool.not_eq_true] at unread
      cases dict : (ev.field "delta").dictish with
      | false =>
        rw [Json.get_orDict_of_not dict]
        exact fails_raise _
      | true =>
        simp only [Json.get_orDict dict, lift_ok, pure_bind]
        exact fails_usage (unread dict) _
    · -- error
      rename_i type
      cases dict : (ev.field "error").dictish with
      | false =>
        rw [Json.get_orDict_of_not dict]
        exact fails_raise _
      | true =>
        have stuck : ((ev.field "error").field "message").truthy = true ∧
            ((ev.field "error").field "message").sliceable = false := by simpa [reports, obj, type, dict] using unreported
        simp only [Json.get_orDict dict, lift_ok, pure_bind, stuck.1, stuck.2]
        exact fails_left (fails_raise _)
    · rename_i not_start not_block not_delta not_message not_error
      refine absurd ?_ unread
      unfold readable
      rw [obj]
      split
      · exact absurd ‹_› not_start
      · exact absurd ‹_› not_block
      · exact absurd ‹_› not_delta
      · exact absurd ‹_› not_message
      · exact absurd ‹_› not_error
      · rfl

theorem fallsOver_classified (status : Nat) (errMsg : String) : FallsOver (.err (classifyStatus status errMsg) status) := by
  refine ⟨_, _, rfl, ?_⟩
  unfold classifyStatus
  split_ifs <;> simp

theorem returns {ev : Json} (reported : reports ev = true) : Returns ledger (Anthropic.onEvent ev) [] FallsOver := by
  simp only [reports, Bool.and_eq_true, Json.isText_iff] at reported
  obtain ⟨⟨⟨obj, type⟩, dict⟩, message⟩ := reported
  unfold Anthropic.onEvent
  simp only [Json.get_of_isObj obj, lift_ok, pure_bind, type, Json.get_orDict dict]
  have written : (((ev.field "error").field "message").truthy &&
      !((ev.field "error").field "message").sliceable) = false := by
    cases truth : ((ev.field "error").field "message").truthy <;> simp_all
  intro s sound
  refine ⟨.err (classifyStatus s.status (((ev.field "error").field "message").text.toOption.getD "")) s.status, s, ?_,
    fallsOver_classified _ _, sound, by simp [sseLedger]⟩
  simp [exec_bind, written]

theorem unreadable {ev : Json} (reported : reports ev = true) : readable ev = false := by
  simp only [reports, Bool.and_eq_true, Json.isText_iff] at reported
  simp [readable, reported.1.1.2]

theorem finishes {s : Anthropic.Acc} (sound : ledger.sound s) : (exec Anthropic.finish s).2 = s ∧
    (Blank s.sent ∧ ledger.kept s = false → (exec Anthropic.finish s).1 = .ok (.err .badResponse 200)) ∧
    (¬ (Blank s.sent ∧ ledger.kept s = false) →
      (∃ response, (exec Anthropic.finish s).1 = .ok (.ok response)) ∨ ∃ e, (exec Anthropic.finish s).1 = .error (.raised e)) := by
  obtain ⟨⟨same, -⟩, usage⟩ := sound
  rw [← same]
  cases calls : inKeyOrder s.toolCalls with
  | error e =>
    have kept : ledger.kept s = true := by
      have : s.toolCalls ≠ [] := fun none => by rw [none] at calls; cases calls
      simp [sseLedger, this]
    simp [Anthropic.finish, exec_bind, calls, kept]
  | ok toolCalls =>
    cases joined : join s.textParts with
    | error e => simp [Anthropic.finish, exec_bind, calls, joined, not_blank_of_unjoined joined]
    | ok text =>
      have kept : ledger.kept s = !toolCalls.isEmpty := by rw [isEmpty_inKeyOrder calls]; rfl
      have bare : ledger.kept s = false ↔ toolCalls = [] := by simp [kept]
      rw [blank_iff joined, bare]
      by_cases small : blank text = true ∧ toolCalls = []
      · have ran : exec Anthropic.finish s = (.ok (.err .badResponse 200), s) := by
          simp [Anthropic.finish, exec_bind, calls, joined, small.1, small.2]
        simp [ran, small]
      · obtain ⟨response, ran⟩ : ∃ response, exec Anthropic.finish s = (.ok (.ok response), s) := by
          simp [Anthropic.finish, exec_bind, calls, joined, small, Json.get_of_isObj usage]
        simp [ran, small]

end AnthropicEvents

namespace GoogleEvents

def readablePart (part : Json) : Bool :=
  part.isObj && (!(part.field "functionCall").truthy || (part.field "functionCall").isObj)

def partDeltas (part : Json) : List Json := if (part.field "text").truthy then [part.field "text"] else []

def partKept (part : Json) : Bool := (part.field "functionCall").truthy

def parts (cand : Json) : List Json := ((cand.field "content").field "parts").elems

def readableCandidate (cand : Json) : Bool :=
  cand.isObj && (cand.field "content").dictish && ((cand.field "content").field "parts").listOf readablePart

/-- The handler reads the chunk through: candidates and parts are lists of
dictionaries, and so are the contents and function calls they have. -/
def readable (chunk : Json) : Bool := chunk.isObj && (chunk.field "candidates").listOf readableCandidate

/-- The text deltas of a chunk. -/
def deltas (chunk : Json) : List Json :=
  (chunk.field "candidates").elems.flatMap fun cand => (parts cand).flatMap partDeltas

/-- A chunk with a function call. -/
def kept (chunk : Json) : Bool := (chunk.field "candidates").elems.any fun cand => (parts cand).any partKept

abbrev ledger : Ledger Google.Acc Json := sseLedger _ fun _ => True

theorem toolCall_of_isObj {fc : Json} (obj : fc.isObj = true) : ∃ call, Google.toolCall fc = .ok call := by
  simp only [Google.toolCall, Json.get_of_isObj obj]
  exact ⟨_, rfl⟩

theorem reads_part {part : Json} (h : readablePart part = true) :
    Reads ledger (Google.onPart part) (partDeltas part) (partKept part) := by
  simp only [readablePart, Bool.and_eq_true, Bool.or_eq_true, Bool.not_eq_true'] at h
  have calls : Reads ledger (if (part.field "functionCall").truthy = true then do
      modify fun acc => { acc with sawOutput := true }
      let call ← Google.toolCall (part.field "functionCall")
      modify fun acc => { acc with toolCalls := acc.toolCalls ++ [call] }
      else pure PUnit.unit : Body Google.Acc Result PUnit) [] (partKept part) := by
    unfold partKept
    cases truth : (part.field "functionCall").truthy with
    | false => exact reads_pure _
    | true =>
      obtain ⟨call, made⟩ := toolCall_of_isObj (h.2.resolve_left (by simp [truth]))
      simp only [made, lift_ok, pure_bind]
      refine (reads_bind reads_saw fun _ => ?_ : Reads ledger _ ([] ++ []) (false || true))
      exact reads_quiet fun _ => ⟨rfl, rfl, rfl, .inl rfl, id, by simp⟩
  unfold Google.onPart partDeltas
  simp only [Json.get_of_isObj h.1, lift_ok, pure_bind]
  cases truth : (part.field "text").truthy with
  | false => exact calls
  | true => exact (reads_bind (reads_text _) fun _ => calls : Reads ledger _ ([_] ++ []) (false || _))

theorem fails_part {part : Json} (h : ¬ readablePart part = true) : Fails ledger (Google.onPart part) := by
  unfold Google.onPart
  cases obj : part.isObj with
  | false =>
    rw [Json.get_of_not_isObj obj]
    exact fails_raise _
  | true =>
    have stuck : (part.field "functionCall").truthy = true ∧ (part.field "functionCall").isObj = false := by
      simpa [readablePart, obj] using h
    have unmade : Google.toolCall (part.field "functionCall") = .error .attributeError := by
      rw [Google.toolCall, Json.get_of_not_isObj stuck.2]
      rfl
    simp only [Json.get_of_isObj obj, lift_ok, pure_bind, stuck.1, if_true, unmade, lift_error, raise_bind]
    cases truth : (part.field "text").truthy with
    | false => exact fails_bind reads_saw fun _ => fails_raise _
    | true => exact fails_bind (reads_text _) fun _ => fails_bind reads_saw fun _ => fails_raise _

theorem reads_candidate {cand : Json} (h : readableCandidate cand = true) :
    Reads ledger (Google.onCandidate cand) ((parts cand).flatMap partDeltas) ((parts cand).any partKept) := by
  simp only [readableCandidate, Bool.and_eq_true] at h
  unfold Google.onCandidate
  simp only [Json.get_of_isObj h.1.1, Json.get_orDict h.1.2, lift_ok, pure_bind]
  refine (reads_bind ?_ fun _ => reads_iterOr (p := readablePart) (fun _ => reads_part) h.2 : Reads ledger _ ([] ++ _) (false || _))
  exact reads_quiet fun _ => ⟨rfl, rfl, rfl, .inl rfl, id, by simp⟩

theorem fails_candidate {cand : Json} (h : ¬ readableCandidate cand = true) : Fails ledger (Google.onCandidate cand) := by
  unfold Google.onCandidate
  cases obj : cand.isObj with
  | false =>
    rw [Json.get_of_not_isObj obj]
    exact fails_raise _
  | true =>
    simp only [Json.get_of_isObj obj, lift_ok, pure_bind]
    refine fails_bind (?_ : Reads ledger _ [] false) fun _ => ?_
    · exact reads_quiet fun _ => ⟨rfl, rfl, rfl, .inl rfl, id, by simp⟩
    cases dict : (cand.field "content").dictish with
    | false =>
      rw [Json.get_orDict_of_not dict]
      exact fails_raise _
    | true =>
      simp only [Json.get_orDict dict, lift_ok, pure_bind]
      exact fails_iterOr (p := readablePart) (fun _ => rfl) (fun _ => reads_part) (fun _ => fails_part)
        (by simpa [readableCandidate, obj, dict] using h)

theorem reads {chunk : Json} (h : readable chunk = true) :
    Reads ledger (Google.onEvent chunk) (deltas chunk) (kept chunk) := by
  simp only [readable, Bool.and_eq_true] at h
  unfold Google.onEvent
  simp only [Json.get_of_isObj h.1, lift_ok, pure_bind]
  refine (reads_bind ?_ fun _ => reads_iterOr (p := readableCandidate) (fun _ => reads_candidate) h.2 : Reads ledger _ ([] ++ _) (false || _))
  exact reads_quiet fun _ => ⟨rfl, rfl, rfl, .inl rfl, id, by simp⟩

theorem fails {chunk : Json} (h : ¬ readable chunk = true) : Fails ledger (Google.onEvent chunk) := by
  unfold Google.onEvent
  cases obj : chunk.isObj with
  | false =>
    rw [Json.get_of_not_isObj obj]
    exact fails_raise _
  | true =>
    simp only [Json.get_of_isObj obj, lift_ok, pure_bind]
    refine fails_bind (?_ : Reads ledger _ [] false) fun _ => ?_
    · exact reads_quiet fun _ => ⟨rfl, rfl, rfl, .inl rfl, id, by simp⟩
    exact fails_iterOr (p := readableCandidate) (fun _ => rfl) (fun _ => reads_candidate) (fun _ => fails_candidate)
      (by simpa [readable, obj] using h)

theorem finishes {s : Google.Acc} (sound : ledger.sound s) : (exec Google.finish s).2 = s ∧
    (Blank s.sent ∧ ledger.kept s = false → (exec Google.finish s).1 = .ok (.err .badResponse 200)) ∧
    (¬ (Blank s.sent ∧ ledger.kept s = false) →
      (∃ response, (exec Google.finish s).1 = .ok (.ok response)) ∨ ∃ e, (exec Google.finish s).1 = .error (.raised e)) := by
  obtain ⟨⟨same, -⟩, -⟩ := sound
  rw [← same]
  cases joined : join s.textParts with
  | error e => simp [Google.finish, exec_bind, joined, not_blank_of_unjoined joined]
  | ok text =>
    have bare : ledger.kept s = false ↔ s.toolCalls = [] := by simp [sseLedger]
    rw [blank_iff joined, bare]
    by_cases small : blank text = true ∧ s.toolCalls = []
    · have ran : exec Google.finish s = (.ok (.err .badResponse 200), s) := by
        simp [Google.finish, exec_bind, joined, small.1, small.2]
      simp [ran, small]
    · cases usage : s.usage.isObj with
      | true =>
        obtain ⟨response, ran⟩ : ∃ response, exec Google.finish s = (.ok (.ok response), s) := by
          simp [Google.finish, exec_bind, joined, small, Json.get_of_isObj usage]
        simp [ran, small]
      | false =>
        have ran : exec Google.finish s = (.error (.raised .attributeError), s) := by
          simp [Google.finish, exec_bind, joined, small, Json.get_of_not_isObj usage]
        simp [ran, small]

end GoogleEvents

namespace BedrockEvents

/-- The content index of a payload. -/
def index (payload : Json) : Json := (payload.orDict.field? "contentBlockIndex").getD (.int 0)

def readableStart (payload : Json) : Bool :=
  payload.dictish && (payload.field "start").dictish &&
    (!((payload.field "start").field "toolUse").isObj || (index payload).hashable)

def readableDelta (payload : Json) : Bool :=
  payload.dictish && (payload.field "delta").dictish &&
    (!((payload.field "delta").field "toolUse").isObj || (index payload).hashable)

/-- The handler reads the event through: payloads and what they hold are
dictionaries, and the index of a tool call is hashable. -/
def readable (event : Bedrock.Event) : Bool :=
  if let some payload := event.lookup "messageStop" then payload.dictish
  else if let some payload := event.lookup "metadata" then payload.dictish
  else if let some payload := event.lookup "contentBlockStart" then readableStart payload
  else if let some payload := event.lookup "contentBlockDelta" then readableDelta payload
  else !event.any fun entry => entry.1.endsWith "Exception"

/-- An exception frame. -/
def reports (event : Bedrock.Event) : Bool :=
  if (event.lookup "messageStop").isSome || (event.lookup "metadata").isSome ||
    (event.lookup "contentBlockStart").isSome || (event.lookup "contentBlockDelta").isSome then false
  else event.any fun entry => entry.1.endsWith "Exception"

def deltasOf (payload : Json) : List Json :=
  if ((payload.field "delta").field "text").truthy then [(payload.field "delta").field "text"] else []

/-- The text delta of an event. -/
def deltas (event : Bedrock.Event) : List Json :=
  if (event.lookup "messageStop").isSome || (event.lookup "metadata").isSome ||
    (event.lookup "contentBlockStart").isSome then []
  else if let some payload := event.lookup "contentBlockDelta" then deltasOf payload
  else []

/-- An event of a tool call. -/
def kept (event : Bedrock.Event) : Bool :=
  if (event.lookup "messageStop").isSome || (event.lookup "metadata").isSome then false
  else if let some payload := event.lookup "contentBlockStart" then ((payload.field "start").field "toolUse").isObj
  else if let some payload := event.lookup "contentBlockDelta" then ((payload.field "delta").field "toolUse").isObj
  else false

def ledger : Ledger Bedrock.Acc Json where
  sent acc := acc.sent
  kept acc := !acc.toolCalls.isEmpty
  sound acc := acc.textParts = acc.sent ∧ (acc.sent ≠ [] → acc.emitted = true ∧ acc.sawOutput = true)

/-- A change that keeps what was sent and marks output. -/
theorem reads_quiet {f : Bedrock.Acc → Bedrock.Acc} {kept : Bool}
    (h : ∀ s, (f s).textParts = s.textParts ∧ (f s).sent = s.sent ∧ (f s).emitted = s.emitted ∧
      ((f s).sawOutput = s.sawOutput ∨ (f s).sawOutput = true) ∧
      (!(f s).toolCalls.isEmpty) = (!s.toolCalls.isEmpty || kept)) :
    Reads ledger (modify f : Body Bedrock.Acc Result PUnit) [] kept := by
  apply reads_modify
  intro s ⟨same, marked⟩
  obtain ⟨textParts, sent, emitted, saw, keeps⟩ := h s
  refine ⟨⟨by rw [textParts, sent, same], fun nonempty => ?_⟩, by simp [ledger, sent], keeps⟩
  obtain ⟨told, seen⟩ := marked (sent ▸ nonempty)
  exact ⟨emitted ▸ told, saw.elim (fun h => h ▸ seen) id⟩

theorem reads_saw :
    Reads ledger (modify fun acc => { acc with sawOutput := true } : Body Bedrock.Acc Result PUnit) [] false :=
  reads_quiet fun _ => ⟨rfl, rfl, rfl, .inr rfl, by simp⟩

theorem reads_text (text : Json) :
    Reads ledger (modify fun acc => { acc with
      sawOutput := true, emitted := true, textParts := acc.textParts ++ [text], sent := acc.sent ++ [text] } :
        Body Bedrock.Acc Result PUnit) [text] false := by
  apply reads_modify
  rintro s ⟨same, -⟩
  exact ⟨⟨by rw [same], fun _ => ⟨rfl, rfl⟩⟩, rfl, by simp [ledger]⟩

theorem isEmpty_insert (key : Key) (call : ToolCall) (toolCalls : List (Key × ToolCall)) :
    (insert key call toolCalls).isEmpty = false :=
  List.isEmpty_eq_false_iff.mpr (insert_ne_nil key call toolCalls)

/-- A tool call is entered under its index, where that is hashable. -/
theorem reads_tool {idx : Json} (hashable : idx.hashable = true) (f : Bedrock.Acc → Key → ToolCall) :
    Reads ledger (do
      modify fun acc => { acc with sawOutput := true }
      let key ← idx.key
      modify fun acc => { acc with toolCalls := insert key (f acc key) acc.toolCalls } :
        Body Bedrock.Acc Result PUnit) [] true := by
  obtain ⟨key, hashed⟩ := Json.key_of_hashable hashable
  simp only [hashed, lift_ok, pure_bind]
  refine (reads_bind reads_saw fun _ => ?_ : Reads ledger _ ([] ++ []) (false || true))
  exact reads_quiet fun _ => ⟨rfl, rfl, rfl, .inl rfl, by simp [isEmpty_insert]⟩

theorem fails_tool {idx : Json} (unhashable : idx.hashable = false) (next : Key → Body Bedrock.Acc Result PUnit) :
    Fails ledger (do
      modify fun acc => { acc with sawOutput := true }
      let key ← idx.key
      next key) := by
  simp only [Json.key_of_not_hashable unhashable, lift_error, raise_bind]
  exact fails_bind reads_saw fun _ => fails_raise _

theorem reads_start {payload : Json} (h : readableStart payload = true) :
    Reads ledger (Bedrock.onBlockStart payload.orDict) [] ((payload.field "start").field "toolUse").isObj := by
  simp only [readableStart, Bool.and_eq_true, Bool.or_eq_true, Bool.not_eq_true'] at h
  obtain ⟨⟨dict, start⟩, tool⟩ := h
  have obj : payload.orDict.isObj = true := by rw [Json.isObj_orDict, dict]
  unfold Bedrock.onBlockStart
  simp only [Json.getD_of_isObj obj, Json.get_orDict dict, Json.get_orDict start, lift_ok, pure_bind]
  cases is_tool : ((payload.field "start").field "toolUse").isObj with
  | false => exact reads_pure _
  | true => exact reads_tool (tool.resolve_left (by simp [is_tool])) _

theorem fails_start {payload : Json} (h : ¬ readableStart payload = true) :
    Fails ledger (Bedrock.onBlockStart payload.orDict) := by
  unfold Bedrock.onBlockStart
  cases dict : payload.dictish with
  | false =>
    rw [Json.getD_of_not_isObj (by rw [Json.isObj_orDict, dict])]
    exact fails_raise _
  | true =>
    have obj : payload.orDict.isObj = true := by rw [Json.isObj_orDict, dict]
    simp only [Json.getD_of_isObj obj, Json.get_orDict dict, lift_ok, pure_bind]
    cases start : (payload.field "start").dictish with
    | false =>
      rw [Json.get_orDict_of_not start]
      exact fails_raise _
    | true =>
      have stuck : ((payload.field "start").field "toolUse").isObj = true ∧ (index payload).hashable = false := by
        simpa [readableStart, dict, start] using h
      simp only [Json.get_orDict start, lift_ok, pure_bind, stuck.1, if_true]
      exact fails_tool stuck.2 _

/-- What follows the text of a delta. -/
def afterText (delta : Json) (idx : Json) : Body Bedrock.Acc Result Unit := do
  let tool := delta.field "toolUse"
  if tool.isObj then
    modify fun acc => { acc with sawOutput := true }
    let key ← idx.key
    modify fun acc =>
      let call := Bedrock.toolCallAt key acc.toolCalls
      { acc with toolCalls := insert key {
          id := (tool.field "toolUseId").orElse call.id
          name := (tool.field "name").orElse call.name
          arguments := Bedrock.addPiece call.arguments (Bedrock.inputPiece (tool.field "input")) } acc.toolCalls }
  if (delta.field "reasoningContent").truthy then modify fun acc => { acc with sawOutput := true }

theorem onBlockDelta_eq {payload : Json} (dict : payload.dictish = true) (delta : (payload.field "delta").dictish = true) :
    Bedrock.onBlockDelta payload.orDict = (do
      if ((payload.field "delta").field "text").truthy then
        modify fun acc => { acc with
          sawOutput := true, emitted := true
          textParts := acc.textParts ++ [(payload.field "delta").field "text"]
          sent := acc.sent ++ [(payload.field "delta").field "text"] }
      afterText (payload.field "delta") (index payload)) := by
  have obj : payload.orDict.isObj = true := by rw [Json.isObj_orDict, dict]
  unfold Bedrock.onBlockDelta afterText index
  simp only [Json.getD_of_isObj obj, Json.get_orDict dict, Json.get_orDict delta, lift_ok, pure_bind]

theorem reads_reasoning (delta : Json) :
    Reads ledger (if (delta.field "reasoningContent").truthy then modify fun acc => { acc with sawOutput := true }
      else pure PUnit.unit : Body Bedrock.Acc Result PUnit) [] false := by
  split
  · exact reads_saw
  · exact reads_pure _

theorem reads_afterText {delta idx : Json} (h : (delta.field "toolUse").isObj = false ∨ idx.hashable = true) :
    Reads ledger (afterText delta idx) [] (delta.field "toolUse").isObj := by
  unfold afterText
  dsimp only
  cases is_tool : (delta.field "toolUse").isObj with
  | false => exact reads_reasoning delta
  | true =>
    obtain ⟨key, hashed⟩ := Json.key_of_hashable (h.resolve_left (by simp [is_tool]))
    simp only [hashed, lift_ok, pure_bind, if_true]
    refine (reads_bind reads_saw fun _ => reads_bind ?_ fun _ => reads_reasoning delta :
      Reads ledger _ ([] ++ ([] ++ [])) (false || (true || false)))
    exact reads_quiet fun _ => ⟨rfl, rfl, rfl, .inl rfl, by simp [isEmpty_insert]⟩

theorem reads_delta {payload : Json} (h : readableDelta payload = true) :
    Reads ledger (Bedrock.onBlockDelta payload.orDict) (deltasOf payload)
      ((payload.field "delta").field "toolUse").isObj := by
  simp only [readableDelta, Bool.and_eq_true, Bool.or_eq_true, Bool.not_eq_true'] at h
  obtain ⟨⟨dict, delta⟩, tool⟩ := h
  rw [onBlockDelta_eq dict delta]
  unfold deltasOf
  cases truth : ((payload.field "delta").field "text").truthy with
  | false => exact reads_afterText tool
  | true => exact (reads_bind (reads_text _) fun _ => reads_afterText tool : Reads ledger _ ([_] ++ []) (false || _))

theorem fails_delta {payload : Json} (h : ¬ readableDelta payload = true) :
    Fails ledger (Bedrock.onBlockDelta payload.orDict) := by
  cases dict : payload.dictish with
  | false =>
    unfold Bedrock.onBlockDelta
    rw [Json.getD_of_not_isObj (by rw [Json.isObj_orDict, dict])]
    exact fails_raise _
  | true =>
    cases delta : (payload.field "delta").dictish with
    | false =>
      have obj : payload.orDict.isObj = true := by rw [Json.isObj_orDict, dict]
      unfold Bedrock.onBlockDelta
      simp only [Json.getD_of_isObj obj, Json.get_orDict dict, lift_ok, pure_bind]
      rw [Json.get_orDict_of_not delta]
      exact fails_raise _
    | true =>
      have stuck : ((payload.field "delta").field "toolUse").isObj = true ∧ (index payload).hashable = false := by
        simpa [readableDelta, dict, delta] using h
      have rest : Fails ledger (afterText (payload.field "delta") (index payload)) := by
        unfold afterText
        dsimp only
        rw [if_pos stuck.1]
        exact fails_tool stuck.2 _
      rw [onBlockDelta_eq dict delta]
      cases ((payload.field "delta").field "text").truthy with
      | false => exact rest
      | true => exact fails_bind (reads_text _) fun _ => rest

/-- The four kinds of events the handler knows, an exception frame, and the rest. -/
theorem reads {event : Bedrock.Event} (h : readable event = true) :
    Reads ledger (Bedrock.onEvent event) (deltas event) (kept event) := by
  unfold readable at h
  unfold Bedrock.onEvent deltas kept
  cases stop : event.lookup "messageStop" with
  | some payload =>
    simp only [stop] at h
    simp only [Json.get_orDict h, lift_ok, pure_bind]
    exact reads_quiet fun _ => ⟨rfl, rfl, rfl, .inl rfl, by simp⟩
  | none =>
    cases metadata : event.lookup "metadata" with
    | some payload =>
      simp only [stop, metadata] at h
      simp only [Json.get_orDict h, lift_ok, pure_bind]
      exact reads_quiet fun _ => ⟨rfl, rfl, rfl, .inl rfl, by simp⟩
    | none =>
      cases start : event.lookup "contentBlockStart" with
      | some payload =>
        simp only [stop, metadata, start] at h
        exact reads_start h
      | none =>
        cases delta : event.lookup "contentBlockDelta" with
        | some payload =>
          simp only [stop, metadata, start, delta] at h
          exact reads_delta h
        | none =>
          simp only [stop, metadata, start, delta, Bool.not_eq_true'] at h
          simp only [h]
          exact reads_pure _

theorem fails {event : Bedrock.Event} (unread : ¬ readable event = true) (unreported : ¬ reports event = true) :
    Fails ledger (Bedrock.onEvent event) := by
  unfold readable at unread
  unfold reports at unreported
  unfold Bedrock.onEvent
  cases stop : event.lookup "messageStop" with
  | some payload =>
    simp only [stop, Bool.not_eq_true] at unread
    simp only [Json.get_orDict_of_not unread, lift_error, raise_bind]
    exact fails_raise _
  | none =>
    cases metadata : event.lookup "metadata" with
    | some payload =>
      simp only [stop, metadata, Bool.not_eq_true] at unread
      simp only [Json.get_orDict_of_not unread, lift_error, raise_bind]
      exact fails_raise _
    | none =>
      cases start : event.lookup "contentBlockStart" with
      | some payload =>
        simp only [stop, metadata, start] at unread
        exact fails_start unread
      | none =>
        cases delta : event.lookup "contentBlockDelta" with
        | some payload =>
          simp only [stop, metadata, start, delta] at unread
          exact fails_delta unread
        | none =>
          refine absurd ?_ unreported
          simpa [stop, metadata, start, delta] using unread

theorem reports_cases {event : Bedrock.Event} (reported : reports event = true) :
    event.lookup "messageStop" = none ∧ event.lookup "metadata" = none ∧ event.lookup "contentBlockStart" = none ∧
      event.lookup "contentBlockDelta" = none ∧ (event.any fun entry => entry.1.endsWith "Exception") = true := by
  unfold reports at reported
  split at reported
  · cases reported
  · rename_i absent
    simp only [Bool.or_eq_true, not_or, Option.not_isSome_iff_eq_none] at absent
    exact ⟨absent.1.1.1, absent.1.1.2, absent.1.2, absent.2, reported⟩

theorem returns {event : Bedrock.Event} (reported : reports event = true) :
    Returns ledger (Bedrock.onEvent event) [] FallsOver := by
  obtain ⟨stop, metadata, start, delta, frame⟩ := reports_cases reported
  intro s sound
  refine ⟨.err .serverError 0, s, ?_, ⟨_, _, rfl, by simp⟩, sound, by simp⟩
  simp [Bedrock.onEvent, stop, metadata, start, delta, frame]

theorem unreadable {event : Bedrock.Event} (reported : reports event = true) : readable event = false := by
  obtain ⟨stop, metadata, start, delta, frame⟩ := reports_cases reported
  simp [readable, stop, metadata, start, delta, frame]

theorem finishes (call : Bedrock.ConverseCall) {s : Bedrock.Acc} (sound : ledger.sound s) :
    (exec (Bedrock.finish call) s).2 = s ∧
    (Blank s.sent ∧ ledger.kept s = false → (exec (Bedrock.finish call) s).1 = .ok (.err .badResponse 200)) ∧
    (¬ (Blank s.sent ∧ ledger.kept s = false) →
      (∃ response, (exec (Bedrock.finish call) s).1 = .ok (.ok response)) ∨
        ∃ e, (exec (Bedrock.finish call) s).1 = .error (.raised e)) := by
  obtain ⟨same, -⟩ := sound
  rw [← same]
  cases calls : inKeyOrder s.toolCalls with
  | error e =>
    have kept : ledger.kept s = true := by
      have : s.toolCalls ≠ [] := fun none => by rw [none] at calls; cases calls
      simp [ledger, this]
    simp [Bedrock.finish, exec_bind, calls, kept]
  | ok toolCalls =>
    cases joined : join s.textParts with
    | error e => simp [Bedrock.finish, exec_bind, calls, joined, not_blank_of_unjoined joined]
    | ok text =>
      have kept : ledger.kept s = !toolCalls.isEmpty := by rw [isEmpty_inKeyOrder calls]; rfl
      have bare : ledger.kept s = false ↔ toolCalls = [] := by simp [kept]
      rw [blank_iff joined, bare]
      by_cases small : blank text = true ∧ toolCalls = []
      · have ran : exec (Bedrock.finish call) s = (.ok (.err .badResponse 200), s) := by
          simp [Bedrock.finish, exec_bind, calls, joined, small.1, small.2]
        simp [ran, small]
      · cases usage : s.usage.isObj with
        | true =>
          obtain ⟨response, ran⟩ : ∃ response, exec (Bedrock.finish call) s = (.ok (.ok response), s) := by
            simp [Bedrock.finish, exec_bind, calls, joined, small, Json.get_of_isObj usage]
          simp [ran, small]
        | false =>
          have ran : exec (Bedrock.finish call) s = (.error (.raised .attributeError), s) := by
            simp [Bedrock.finish, exec_bind, calls, joined, small, Json.get_of_not_isObj usage]
          simp [ran, small]

end BedrockEvents

namespace OpenaiEvents

def calls (delta : Json) : List Json := (delta.field "tool_calls").elems

/-- The `tool_calls` delta of a choice. -/
def readableCall (tc : Json) : Bool :=
  tc.isObj && ((tc.field? "index").getD (.int 0)).hashable && (tc.field "function").dictish &&
    (!((tc.field "function").field "arguments").truthy || ((tc.field "function").field "arguments").isStr)

/-- What `observe_chunk` reads of a choice. -/
def observable (choice : Json) : Bool := choice.isObj && (choice.field "delta").dictish

def readableChoice (choice : Json) : Bool :=
  observable choice && ((choice.field "delta").field "tool_calls").listOf readableCall

/-- The handler reads the chunk through: choices, deltas and tool calls are
dictionaries, an index is hashable, a piece of arguments is a string. -/
def readable (chunk : Json) : Bool := chunk.isObj && (chunk.field "choices").listOf readableChoice

def choiceDeltas (choice : Json) : List Json :=
  if ((choice.field "delta").field "content").truthy then [(choice.field "delta").field "content"] else []

/-- The text deltas of a chunk. -/
def deltas (chunk : Json) : List Json := (chunk.field "choices").elems.flatMap choiceDeltas

/-- A tool call, or reasoning that is not blank. -/
def choiceKept (choice : Json) : Bool :=
  !(calls (choice.field "delta")).isEmpty || OpenaiCompatible.hasReasoningContent (choice.field "delta")

def kept (chunk : Json) : Bool := (chunk.field "choices").elems.any choiceKept

/-- Some reasoning of the accumulator is not blank. -/
def reasoned (acc : OpenaiCompatible.Acc) : Bool :=
  acc.reasoning.any OpenaiCompatible.nonblank || acc.reasoningContent.any OpenaiCompatible.nonblank ||
    acc.reasoningDetails.any OpenaiCompatible.hasReasoningDetail

def ledger : Ledger OpenaiCompatible.Acc Json where
  sent acc := acc.sent
  kept acc := !acc.toolCalls.isEmpty || reasoned acc
  sound acc := acc.textParts = acc.sent ∧ (acc.sent ≠ [] → acc.emitted = true ∧ acc.sawOutput = true) ∧
    (acc.reasoning.all Json.isStr ∧ acc.reasoningContent.all Json.isStr) ∧
    ∀ entry ∈ acc.toolCalls, entry.2.arguments.isStr = true

theorem stored_arguments {s : OpenaiCompatible.Acc} (sound : ledger.sound s) (key : Key) :
    ∃ text, ((s.toolCalls.lookup key).getD ⟨.null, .str "", .str ""⟩).arguments = .str text := by
  cases found : s.toolCalls.lookup key with
  | none => exact ⟨"", rfl⟩
  | some call => exact Json.text_of_isStr (sound.2.2.2 _ (mem_of_lookup found))

/-- A change of the tool calls that leaves them some. -/
theorem sound_calls {s : OpenaiCompatible.Acc} (sound : ledger.sound s) {toolCalls : List (Key × ToolCall)}
    (strings : ∀ entry ∈ toolCalls, entry.2.arguments.isStr = true) :
    ledger.sound { s with sawOutput := true, toolCalls := toolCalls } :=
  ⟨sound.1, fun nonempty => ⟨(sound.2.1 nonempty).1, rfl⟩, sound.2.2.1, strings⟩

theorem reads_call {tc : Json} (h : readableCall tc = true) : Reads ledger (OpenaiCompatible.onToolCall tc) [] true := by
  simp only [readableCall, Bool.and_eq_true, Bool.or_eq_true, Bool.not_eq_true'] at h
  obtain ⟨⟨⟨obj, hashable⟩, dict⟩, piece⟩ := h
  obtain ⟨key, hashed⟩ := Json.key_of_hashable hashable
  intro s sound
  obtain ⟨text, stored⟩ := stored_arguments sound key
  unfold OpenaiCompatible.onToolCall
  simp only [Json.get_of_isObj obj, Json.getD_of_isObj obj, Json.get_orDict dict, lift_ok, pure_bind, hashed]
  -- the call is opened under its key and then entered again with what the delta adds
  have written : ∀ opened call : ToolCall, opened.arguments.isStr = true → call.arguments.isStr = true →
      let calls := insert key call (insert key opened s.toolCalls)
      ledger.sound { s with sawOutput := true, toolCalls := calls } ∧ (!calls.isEmpty || reasoned s) =
        (!s.toolCalls.isEmpty || reasoned s || true) := by
    intro opened call opened_str call_str
    refine ⟨sound_calls sound ?_, by simp [List.isEmpty_eq_false_iff.mpr (insert_ne_nil key call _)]⟩
    exact forall_insert (P := fun call : ToolCall => call.arguments.isStr = true)
      (forall_insert (P := fun call : ToolCall => call.arguments.isStr = true) sound.2.2.2 opened_str) call_str
  let call : ToolCall := (s.toolCalls.lookup key).getD ⟨.null, .str "", .str ""⟩
  have stored_str : call.arguments.isStr = true := by
    change ((s.toolCalls.lookup key).getD ⟨.null, .str "", .str ""⟩).arguments.isStr = true
    rw [stored]
    rfl
  let next (arguments : Json) : ToolCall :=
    ⟨(tc.field "id").orElse call.id, ((tc.field "function").field "name").orElse call.name, arguments⟩
  cases truth : ((tc.field "function").field "arguments").truthy with
  | false =>
    obtain ⟨sound', kept⟩ := written call (next call.arguments) stored_str stored_str
    exact ⟨⟨⟩, _, rfl, sound', by simp [ledger], kept⟩
  | true =>
    obtain ⟨more, shape⟩ := Json.text_of_isStr (piece.resolve_left (by simp [truth]))
    obtain ⟨sound', kept⟩ := written call (next (.str (text ++ more))) stored_str rfl
    refine ⟨⟨⟩, _, ?_, sound', by simp [ledger], kept⟩
    simp only [exec_bind, exec_modify, exec_get, exec_set, if_true, stored, shape, OpenaiCompatible.addArguments, lift_ok,
      exec_pure]
    rfl

theorem fails_call {tc : Json} (h : ¬ readableCall tc = true) : Fails ledger (OpenaiCompatible.onToolCall tc) := by
  intro s sound
  have marked : ledger.sound { s with sawOutput := true } := sound_calls sound sound.2.2.2
  unfold OpenaiCompatible.onToolCall
  cases obj : tc.isObj with
  | false =>
    simp only [Json.getD_of_not_isObj obj, lift_error, raise_bind]
    exact ⟨_, _, rfl, marked⟩
  | true =>
    simp only [Json.get_of_isObj obj, Json.getD_of_isObj obj, lift_ok, pure_bind]
    cases hashable : ((tc.field? "index").getD (.int 0)).hashable with
    | false =>
      simp only [Json.key_of_not_hashable hashable, lift_error, raise_bind]
      exact ⟨_, _, rfl, marked⟩
    | true =>
      obtain ⟨key, hashed⟩ := Json.key_of_hashable hashable
      obtain ⟨text, stored⟩ := stored_arguments sound key
      have opened : ledger.sound { s with
          sawOutput := true
          toolCalls := insert key ((s.toolCalls.lookup key).getD ⟨.null, .str "", .str ""⟩) s.toolCalls } :=
        sound_calls sound (forall_insert (P := fun call : ToolCall => call.arguments.isStr = true) sound.2.2.2
          (by rw [stored]; rfl))
      simp only [hashed, lift_ok, pure_bind]
      cases dict : (tc.field "function").dictish with
      | false =>
        simp only [Json.get_orDict_of_not dict, lift_error, raise_bind]
        exact ⟨_, _, rfl, opened⟩
      | true =>
        have stuck : ((tc.field "function").field "arguments").truthy = true ∧
            ((tc.field "function").field "arguments").isStr = false := by
          simpa [readableCall, obj, hashable, dict] using h
        have unwritten (arguments : Json) : OpenaiCompatible.addArguments arguments
            ((tc.field "function").field "arguments") = .error .typeError := by
          cases piece : (tc.field "function").field "arguments" with
          | str more => simp [piece, Json.isStr] at stuck
          | _ => cases arguments <;> rfl
        simp only [Json.get_orDict dict, lift_ok, pure_bind, stuck.1, if_true, unwritten, lift_error, raise_bind]
        exact ⟨_, _, rfl, opened⟩

/-- What the parts of a delta say of its reasoning. -/
theorem hasReasoningContent_eq (delta : Json) : OpenaiCompatible.hasReasoningContent delta =
    ((OpenaiCompatible.strings (delta.field "reasoning")).any OpenaiCompatible.nonblank ||
      (OpenaiCompatible.strings (delta.field "reasoning_content")).any OpenaiCompatible.nonblank ||
      (OpenaiCompatible.elements (delta.field "reasoning_details")).any OpenaiCompatible.hasReasoningDetail) := by
  have strings : ∀ v, (OpenaiCompatible.strings v).any OpenaiCompatible.nonblank = OpenaiCompatible.nonblank v := by
    intro v
    cases v <;> simp [OpenaiCompatible.strings, OpenaiCompatible.nonblank, Json.isStr]
  rw [strings, strings, OpenaiCompatible.hasReasoningContent]
  cases delta.field "reasoning_details" with
  | arr details => simp [OpenaiCompatible.elements]
  | _ => simp [OpenaiCompatible.elements]

/-- What a choice adds before its text. -/
theorem reads_marks {finishReason delta : Json} :
    Reads ledger (modify fun acc => { acc with
      finishReason := finishReason.orElse acc.finishReason
      reasoning := acc.reasoning ++ OpenaiCompatible.strings (delta.field "reasoning")
      reasoningContent := acc.reasoningContent ++ OpenaiCompatible.strings (delta.field "reasoning_content")
      reasoningDetails := acc.reasoningDetails ++ OpenaiCompatible.elements (delta.field "reasoning_details")
      sawOutput := acc.sawOutput || OpenaiCompatible.hasReasoningContent delta } :
        Body OpenaiCompatible.Acc Result PUnit) [] (OpenaiCompatible.hasReasoningContent delta) := by
  apply reads_modify
  rintro s ⟨same, marked, ⟨reasoning, content⟩, strings⟩
  have all_strings (v : Json) : (OpenaiCompatible.strings v).all Json.isStr = true := by
    unfold OpenaiCompatible.strings
    split
    · rename_i str
      simp [str]
    · rfl
  refine ⟨⟨same, fun nonempty => ⟨(marked nonempty).1, by simp [(marked nonempty).2]⟩, ⟨?_, ?_⟩, strings⟩,
    by simp [ledger], ?_⟩
  · simp [List.all_append, reasoning, all_strings]
  · simp [List.all_append, content, all_strings]
  · rw [hasReasoningContent_eq]
    simp only [ledger, reasoned, List.any_append]
    ac_rfl

theorem reads_content (content : Json) :
    Reads ledger (modify fun acc => { acc with
      sawOutput := true, textParts := acc.textParts ++ [content]
      sent := acc.sent ++ [content], emitted := true } : Body OpenaiCompatible.Acc Result PUnit) [content] false := by
  apply reads_modify
  rintro s ⟨same, marked, parts, strings⟩
  exact ⟨⟨by rw [same], fun _ => ⟨rfl, rfl⟩, parts, strings⟩, rfl, by simp [ledger, reasoned]⟩

/-- A choice after what it marks: its text, then its tool calls. -/
def afterMarks (delta : Json) : Body OpenaiCompatible.Acc Result PUnit := do
  if (delta.field "content").truthy then
    modify fun acc => { acc with
      sawOutput := true, textParts := acc.textParts ++ [delta.field "content"]
      sent := acc.sent ++ [delta.field "content"], emitted := true }
  let toolCalls ← (delta.field "tool_calls").iterOr
  toolCalls.forM OpenaiCompatible.onToolCall

theorem onChoice_eq {choice : Json} (obj : choice.isObj = true) (dict : (choice.field "delta").dictish = true) :
    OpenaiCompatible.onChoice choice = (do
      modify fun acc => { acc with
        finishReason := (choice.field "finish_reason").orElse acc.finishReason
        reasoning := acc.reasoning ++ OpenaiCompatible.strings ((choice.field "delta").field "reasoning")
        reasoningContent := acc.reasoningContent ++ OpenaiCompatible.strings ((choice.field "delta").field "reasoning_content")
        reasoningDetails := acc.reasoningDetails ++ OpenaiCompatible.elements ((choice.field "delta").field "reasoning_details")
        sawOutput := acc.sawOutput || OpenaiCompatible.hasReasoningContent (choice.field "delta") }
      afterMarks (choice.field "delta")) := by
  have sameDelta : ∀ key, (choice.field "delta").orDict.field key = (choice.field "delta").field key :=
    fun key => Json.field_orDict dict key
  have isObj : (choice.field "delta").orDict.isObj = true := by rw [Json.isObj_orDict, dict]
  have sameReasoning : OpenaiCompatible.hasReasoningContent (choice.field "delta").orDict =
      OpenaiCompatible.hasReasoningContent (choice.field "delta") := by
    simp only [OpenaiCompatible.hasReasoningContent, sameDelta]
  unfold OpenaiCompatible.onChoice afterMarks
  simp only [Json.get_of_isObj obj, Json.get_of_isObj isObj, sameDelta, sameReasoning, lift_ok, pure_bind]

theorem afterMarks_eq (delta : Json) : afterMarks delta = (do
    (if (delta.field "content").truthy then modify fun acc => { acc with
      sawOutput := true, textParts := acc.textParts ++ [delta.field "content"]
      sent := acc.sent ++ [delta.field "content"], emitted := true } else pure ⟨⟩ : Body OpenaiCompatible.Acc Result PUnit)
    let toolCalls ← (delta.field "tool_calls").iterOr
    toolCalls.forM OpenaiCompatible.onToolCall) := by
  unfold afterMarks
  split
  · rfl
  · rfl

theorem reads_text (choice : Json) :
    Reads ledger (if ((choice.field "delta").field "content").truthy then modify fun acc => { acc with
      sawOutput := true, textParts := acc.textParts ++ [(choice.field "delta").field "content"]
      sent := acc.sent ++ [(choice.field "delta").field "content"], emitted := true }
      else pure ⟨⟩ : Body OpenaiCompatible.Acc Result PUnit) (choiceDeltas choice) false := by
  unfold choiceDeltas
  split
  · exact reads_content _
  · exact reads_pure _

theorem reads_choice {choice : Json} (h : readableChoice choice = true) :
    Reads ledger (OpenaiCompatible.onChoice choice) (choiceDeltas choice) (choiceKept choice) := by
  simp only [readableChoice, observable, Bool.and_eq_true] at h
  obtain ⟨⟨obj, dict⟩, listed⟩ := h
  have toolCalls : Reads ledger (do
      let items ← ((choice.field "delta").field "tool_calls").iterOr
      items.forM OpenaiCompatible.onToolCall : Body OpenaiCompatible.Acc Result PUnit)
      (((choice.field "delta").field "tool_calls").elems.flatMap fun _ => [])
      (((choice.field "delta").field "tool_calls").elems.any fun _ => true) :=
    reads_iterOr (p := readableCall) (fun _ => reads_call) listed
  have kept : (OpenaiCompatible.hasReasoningContent (choice.field "delta") ||
      (false || ((choice.field "delta").field "tool_calls").elems.any fun _ => true)) = choiceKept choice := by
    unfold choiceKept calls
    cases ((choice.field "delta").field "tool_calls").elems with
    | nil => simp
    | cons call more => simp
  have sent : [] ++ (choiceDeltas choice ++ ((choice.field "delta").field "tool_calls").elems.flatMap fun _ => []) =
      choiceDeltas choice := by simp
  rw [onChoice_eq obj dict, afterMarks_eq, ← kept, ← sent]
  exact reads_bind reads_marks fun _ => reads_bind (reads_text choice) fun _ => toolCalls

theorem fails_choice {choice : Json} (h : ¬ readableChoice choice = true) : Fails ledger (OpenaiCompatible.onChoice choice) := by
  cases obj : choice.isObj with
  | false =>
    unfold OpenaiCompatible.onChoice
    rw [Json.get_of_not_isObj obj]
    exact fails_raise _
  | true =>
    cases dict : (choice.field "delta").dictish with
    | false =>
      unfold OpenaiCompatible.onChoice
      simp only [Json.get_of_isObj obj, lift_ok, pure_bind]
      rw [Json.get_orDict_of_not dict]
      exact fails_raise _
    | true =>
      rw [onChoice_eq obj dict, afterMarks_eq]
      refine fails_bind reads_marks fun _ => fails_bind (reads_text choice) fun _ => ?_
      exact fails_iterOr (p := readableCall) (fun _ => rfl) (fun _ => reads_call) (fun _ => fails_call)
        (by simpa [readableChoice, observable, obj, dict] using h)

theorem observed {choices : List Json} (all : ∀ choice ∈ choices, observable choice = true) :
    (choices.forM fun choice => do
      let delta := (← choice.get "delta").orDict
      let _ ← delta.get "reasoning" : Except Raised PUnit) = .ok ⟨⟩ := by
  induction choices with
  | nil => rfl
  | cons choice choices ih =>
    have first := all choice List.mem_cons_self
    simp only [observable, Bool.and_eq_true] at first
    have rest := ih fun other mem => all other (List.mem_cons_of_mem _ mem)
    rw [List.forM_eq_forM] at rest ⊢
    rw [List.forM_cons, Json.get_of_isObj first.1, rest]
    simp [Json.get_orDict first.2, bind, Except.bind, pure, Except.pure]

theorem observeChunk_ok {chunk : Json} (obj : chunk.isObj = true) (h : (chunk.field "choices").listOf observable = true) :
    OpenaiCompatible.observeChunk chunk = .ok ⟨⟩ := by
  obtain ⟨items, all⟩ := Json.iterOr_of_listOf h
  unfold OpenaiCompatible.observeChunk
  rw [Json.get_of_isObj obj]
  simp only [bind, Except.bind, items]
  exact observed all

theorem listOf_mono {p q : Json → Bool} (weaker : ∀ v, p v = true → q v = true) {v : Json} (h : v.listOf p = true) :
    v.listOf q = true := by
  cases v with
  | arr items => exact List.all_eq_true.mpr fun item mem => weaker item (List.all_eq_true.mp h item mem)
  | _ => exact h

theorem reads {chunk : Json} (h : readable chunk = true) :
    Reads ledger (OpenaiCompatible.onChunk chunk) (deltas chunk) (kept chunk) := by
  simp only [readable, Bool.and_eq_true] at h
  have observes := observeChunk_ok h.1 (listOf_mono (fun v read => (Bool.and_eq_true_iff.mp read).1) h.2)
  unfold OpenaiCompatible.onChunk
  simp only [observes, Json.get_of_isObj h.1, lift_ok, pure_bind]
  refine (reads_bind ?_ fun _ => reads_iterOr (p := readableChoice) (fun _ => reads_choice) h.2 :
    Reads ledger _ ([] ++ _) (false || _))
  apply reads_modify
  intro s sound
  exact ⟨sound, by simp [ledger], by simp [ledger, reasoned]⟩

theorem fails {chunk : Json} (h : ¬ readable chunk = true) : Fails ledger (OpenaiCompatible.onChunk chunk) := by
  unfold OpenaiCompatible.onChunk
  cases observes : OpenaiCompatible.observeChunk chunk with
  | error e =>
    simp only [lift_error, raise_bind]
    exact fails_raise _
  | ok u =>
    cases obj : chunk.isObj with
    | false =>
      unfold OpenaiCompatible.observeChunk at observes
      rw [Json.get_of_not_isObj obj] at observes
      cases observes
    | true =>
      simp only [Json.get_of_isObj obj, lift_ok, pure_bind]
      refine fails_bind (?_ : Reads ledger _ [] false) fun _ => ?_
      · apply reads_modify
        intro s sound
        exact ⟨sound, by simp [ledger], by simp [ledger, reasoned]⟩
      · exact fails_iterOr (p := readableChoice) (fun _ => rfl) (fun _ => reads_choice) (fun _ => fails_choice)
          (by simpa [readable, obj] using h)

/-- Reasoning parts join, and what they join to is blank if they are. -/
theorem joined_strings {parts : List Json} (strings : parts.all Json.isStr = true) (key : String) :
    ∃ fields, OpenaiCompatible.joined key parts = .ok fields ∧ (fields = [] ∨ ∃ text, fields = [(key, .str text)]) ∧
      (fields.any fun entry => OpenaiCompatible.nonblank entry.2) = parts.any OpenaiCompatible.nonblank := by
  rcases join_cases parts with ⟨texts, rfl⟩ | ⟨⟨part, mem, odd⟩, -⟩
  · unfold OpenaiCompatible.joined
    rw [join_str]
    cases texts with
    | nil => exact ⟨[], rfl, .inl rfl, rfl⟩
    | cons text texts =>
      refine ⟨[(key, .str (String.join (text :: texts)))], rfl, .inr ⟨_, rfl⟩, ?_⟩
      simp only [List.any_cons, List.any_nil, Bool.or_false, OpenaiCompatible.nonblank, blank_join, List.any_map,
        Function.comp_def, List.all_cons, Bool.not_and]
      rw [List.any_eq_not_all_not]
      simp
  · have := List.all_eq_true.mp strings part mem
    rw [odd] at this
    cases this

/-- The message that is returned has the reasoning of the accumulator. -/
theorem hasReasoningContent_message {reasoning content : List (String × Json)} {details : List Json}
    (reasons : reasoning = [] ∨ ∃ text, reasoning = [("reasoning", .str text)])
    (contents : content = [] ∨ ∃ text, content = [("reasoning_content", .str text)]) :
    OpenaiCompatible.hasReasoningContent (.obj (reasoning ++ content ++
      if details.isEmpty then [] else [("reasoning_details", .arr details)])) =
      ((reasoning.any fun entry => OpenaiCompatible.nonblank entry.2) ||
        (content.any fun entry => OpenaiCompatible.nonblank entry.2) || details.any OpenaiCompatible.hasReasoningDetail) := by
  rcases reasons with rfl | ⟨text, rfl⟩ <;> rcases contents with rfl | ⟨other, rfl⟩ <;> cases details with
  | nil => simp [OpenaiCompatible.hasReasoningContent, Json.field, Json.field?, OpenaiCompatible.nonblank, List.lookup_cons]
  | cons detail more =>
    simp [OpenaiCompatible.hasReasoningContent, Json.field, Json.field?, OpenaiCompatible.nonblank, List.lookup_cons]

theorem finishes {s : OpenaiCompatible.Acc} (sound : ledger.sound s) : (exec OpenaiCompatible.finish s).2 = s ∧
    (Blank s.sent ∧ ledger.kept s = false → (exec OpenaiCompatible.finish s).1 = .ok (.err .badResponse 200)) ∧
    (¬ (Blank s.sent ∧ ledger.kept s = false) → (∃ response, (exec OpenaiCompatible.finish s).1 = .ok (.ok response)) ∨
      ∃ e, (exec OpenaiCompatible.finish s).1 = .error (.raised e)) := by
  obtain ⟨same, -, ⟨reasons, contents⟩, -⟩ := sound
  rw [← same]
  cases calls : inKeyOrder s.toolCalls with
  | error e =>
    have kept : ledger.kept s = true := by
      have : s.toolCalls ≠ [] := fun none => by rw [none] at calls; cases calls
      simp [ledger, this]
    simp [OpenaiCompatible.finish, exec_bind, calls, kept]
  | ok toolCalls =>
    cases joined : join s.textParts with
    | error e => simp [OpenaiCompatible.finish, exec_bind, calls, joined, not_blank_of_unjoined joined]
    | ok text =>
      obtain ⟨reasoning, reasoningJoined, reasoningShape, reasoningKept⟩ := joined_strings reasons "reasoning"
      obtain ⟨content, contentJoined, contentShape, contentKept⟩ := joined_strings contents "reasoning_content"
      have message : OpenaiCompatible.hasReasoningContent (.obj (reasoning ++ content ++
          if s.reasoningDetails.isEmpty then [] else [("reasoning_details", .arr s.reasoningDetails)])) = reasoned s := by
        rw [hasReasoningContent_message reasoningShape contentShape, reasoningKept, contentKept]
        rfl
      have kept : ledger.kept s = false ↔ toolCalls = [] ∧ reasoned s = false := by
        have bare : s.toolCalls.isEmpty = toolCalls.isEmpty := (isEmpty_inKeyOrder calls).symm
        simp [ledger, bare]
      have ran : exec OpenaiCompatible.finish s = exec (if blank text && toolCalls.isEmpty && !reasoned s then
          pure (.err .badResponse 200)
        else do
          return .ok {
            text := text
            toolCalls := toolCalls
            finishReason := s.finishReason
            tokensIn := ← s.usage.get "prompt_tokens"
            tokensOut := ← s.usage.get "completion_tokens"
            tokensCached := cachedTokens s.usage
            rawModel := s.rawModel }) s := by
        simp only [OpenaiCompatible.finish, exec_bind, exec_get, calls, joined, reasoningJoined, contentJoined, lift_ok,
          exec_pure, message]
      rw [blank_iff joined, kept, ran]
      by_cases small : blank text = true ∧ toolCalls = [] ∧ reasoned s = false
      · simp [small]
      · have full : (blank text && toolCalls.isEmpty && !reasoned s) = false := by
          simpa [Bool.and_eq_false_iff, or_assoc, imp_iff_not_or] using small
        rw [full]
        cases usage : s.usage.isObj with
        | true => simp [Json.get_of_isObj usage, small]
        | false => simp [Json.get_of_not_isObj usage, small]

/-- The handler of exceptions. -/
def handler (error : Raised) : Body OpenaiCompatible.Acc Result Unit := do
  let acc ← get
  if OpenaiCompatible.isTooLarge error then
    Body.ret (.err (if acc.emitted then .streamInterrupted else .badResponse) 200)
  let _ ← join acc.textParts
  Body.ret (.err (if acc.emitted then .streamInterrupted else .networkError) 0)

theorem shields (e : Raised) {s : OpenaiCompatible.Acc} (sound : ledger.sound s) : ∃ x t, (handler e).exec s = (.error x, t) ∧
    t.sent = s.sent ∧ (Committed s.sent → ∀ kind status, x = .returned (.err kind status) → kind = .streamInterrupted) := by
  have emitted : Committed s.sent → s.emitted = true := fun committed => (sound.2.1 (ne_nil_of_committed committed)).1
  cases large : OpenaiCompatible.isTooLarge e with
  | true =>
    refine ⟨_, s, by simp [handler, exec_bind, large]; rfl, rfl, ?_⟩
    intro committed kind status same
    rw [emitted committed] at same
    cases same
    rfl
  | false =>
    cases joined : join s.textParts with
    | ok text =>
      refine ⟨_, s, by simp [handler, exec_bind, large, joined]; rfl, rfl, ?_⟩
      intro committed kind status same
      rw [emitted committed] at same
      cases same
      rfl
    | error e' =>
      refine ⟨.raised e', s, by simp [handler, exec_bind, large, joined], rfl, ?_⟩
      intro _ kind status same
      cases same

end OpenaiEvents

end Unhardcoded.Guarantees.StreamReader
