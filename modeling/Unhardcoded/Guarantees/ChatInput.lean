import Mathlib.Data.List.Chain
import Mathlib.Data.List.Forall2
import Unhardcoded.Python.Dict
import Unhardcoded.Source.ChatInput

/-!
# Chat messages come back from Responses items

A canonical message is sent as a block of items, and the block read behind any messages
adds the message again, where an assistant message does not stand behind another one. The
items of a call with a text merge with the text item before them.
-/

namespace Unhardcoded.Guarantees.ChatInput

open Unhardcoded.Python Unhardcoded.Source.ChatInput

section Canonical

/-- A tool call of a canonical message. -/
structure Call where
  id : String
  name : String
  arguments : String
  full : arguments ≠ ""

/-- A canonical chat message. -/
inductive Message where
  | system (content : String)
  | user (content : String)
  | assistant (content : String)
  /-- An assistant message with tool calls, a first one and more. -/
  | calling (content : Option {text : String // text ≠ ""}) (first : Call) (more : List Call)
  | tool (toolCallId content : String)

def Message.isAssistant : Message → Bool
  | .assistant _ => true
  | .calling _ _ _ => true
  | _ => false

def Call.function (call : Call) : List (String × Json) := [("name", .str call.name), ("arguments", .str call.arguments)]

def Call.fields (call : Call) (function : Json) : List (String × Json) :=
  [("id", .str call.id), ("type", .str "function"), ("function", function)]

def Call.json (call : Call) : Json := .obj (call.fields (.obj call.function))

/-- The content of a message with tool calls. -/
def contentOf (content : Option {text : String // text ≠ ""}) : Json := content.elim .null fun text => .str text.val

/-- The dictionary of a message, up to the dictionaries of its calls. -/
def Message.fields (calls : List Json) : Message → List (String × Json)
  | .system content => [("role", .str "system"), ("content", .str content)]
  | .user content => [("role", .str "user"), ("content", .str content)]
  | .assistant content => [("role", .str "assistant"), ("content", .str content)]
  | .calling content _ _ => [("role", .str "assistant"), ("content", contentOf content), ("tool_calls", .arr calls)]
  | .tool toolCallId content => [("role", .str "tool"), ("tool_call_id", .str toolCallId), ("content", .str content)]

def Message.calls : Message → List Call
  | .calling _ first more => first :: more
  | _ => []

def Message.json (message : Message) : Json := .obj (message.fields (message.calls.map Call.json))

/-- A dictionary that equals the one of a call, whatever the order of its keys. -/
def SaysCall (tc : Json) (call : Call) : Prop :=
  ∃ fields function, tc = .obj fields ∧ function.Perm call.function ∧ fields.Perm (call.fields (.obj function))

/-- A dictionary that equals the one of a message, whatever the order of its keys. -/
def SaysMessage (m : Json) (message : Message) : Prop :=
  ∃ fields calls, m = .obj fields ∧ List.Forall₂ SaysCall calls message.calls ∧ fields.Perm (message.fields calls)

theorem saysCall_json (call : Call) : SaysCall call.json call := ⟨_, _, rfl, List.Perm.refl _, List.Perm.refl _⟩

theorem saysMessage_json (message : Message) : SaysMessage message.json message := by
  refine ⟨_, _, rfl, ?_, List.Perm.refl _⟩
  rw [List.forall₂_map_left_iff]
  exact List.forall₂_same.mpr fun call _ => saysCall_json call

end Canonical

section Sent

variable {str : Json → String}

/-- A field of a dictionary whose keys stand in another order. -/
theorem field_perm {fields entries : List (String × Json)} (perm : fields.Perm entries) (distinct : (entries.map (·.1)).Nodup)
    (key : String) : (Json.obj fields).field key = (Json.obj entries).field key := by
  have same := lookup_perm distinct perm key
  unfold Json.field
  exact congrArg (Option.getD · .null) same

theorem orElse_str (text : String) : (Json.str text).orElse (.str "") = .str text := by
  unfold Json.orElse
  split
  · rfl
  · rename_i empty
    have : text = "" := by simpa [Json.truthy] using empty
    rw [this]

theorem orElse_full {v : Json} (full : v.truthy = true) (w : Json) : v.orElse w = v := if_pos full

/-- The item of a call. -/
def Call.item (call : Call) : Json :=
  .obj [("type", .str "function_call"), ("call_id", .str call.id), ("name", .str call.name), ("arguments", .str call.arguments)]

theorem functionCall_says {tc : Json} {call : Call} (said : SaysCall tc call) : functionCall tc = .ok call.item := by
  obtain ⟨fields, function, rfl, inner, outer⟩ := said
  have outer' := field_perm outer (by simp [Call.fields])
  have inner' := field_perm inner (by simp [Call.function])
  have nonempty : function ≠ [] := by
    intro none
    have := inner.length_eq
    rw [none] at this
    cases this
  have fn : ((Json.obj (call.fields (.obj function))).field "function").orDict = .obj function := by
    have inside : (Json.obj (call.fields (.obj function))).field "function" = .obj function := rfl
    rw [inside]
    exact orElse_full (by simpa [Json.truthy] using nonempty) _
  have arguments : (Json.str call.arguments).orElse (.str "\x7b\x7d") = .str call.arguments :=
    orElse_full (by simp [Json.truthy, call.full]) _
  have id : (Json.obj (call.fields (.obj function))).field "id" = .str call.id := rfl
  have name : (Json.obj call.function).field "name" = .str call.name := rfl
  have said : (Json.obj call.function).field "arguments" = .str call.arguments := rfl
  unfold functionCall
  rw [Json.get_of_isObj rfl]
  simp only [bind, Except.bind, fn, Json.get_of_isObj (show (Json.obj function).isObj = true from rfl), outer', inner', id, name, said,
    orElse_str, arguments]
  rfl

theorem mapM_functionCall {tcs : List Json} {calls : List Call} (said : List.Forall₂ SaysCall tcs calls) :
    tcs.mapM functionCall = .ok (calls.map Call.item) := by
  induction said with
  | nil => rfl
  | cons first rest ih =>
    rw [List.mapM_cons, functionCall_says first, ih]
    rfl

/-- The items of a message. -/
def Message.items : Message → List Json
  | .calling content first more =>
    (content.toList.map fun text => .obj [("role", .str "assistant"), ("content", .str text.val)]) ++ (first :: more).map Call.item
  | .tool toolCallId content =>
    [.obj [("type", .str "function_call_output"), ("call_id", .str toolCallId), ("output", .str content)]]
  | message => [.obj (message.fields [])]

theorem itemsOf_says {m : Json} {message : Message} (said : SaysMessage m message) : itemsOf str m = .ok message.items := by
  obtain ⟨fields, tcs, rfl, calls, perm⟩ := said
  have field := field_perm perm (by cases message <;> simp [Message.fields])
  unfold itemsOf
  rw [Json.get_of_isObj rfl]
  cases message with
  | system content | user content | assistant content =>
    simp only [bind, Except.bind, field]
    rfl
  | tool toolCallId content =>
    have id : ((Json.str toolCallId).orElse .null).orElse (.str "") = .str toolCallId := by
      unfold Json.orElse
      by_cases empty : toolCallId = ""
      · simp [Json.truthy, empty]
      · simp [Json.truthy, empty]
    simp only [bind, Except.bind, field]
    calc
      _ = Except.ok [Json.obj [("type", .str "function_call_output"),
            ("call_id", ((Json.str toolCallId).orElse .null).orElse (.str "")), ("output", .str content)]] := rfl
      _ = _ := by
        rw [id]
        rfl
  | calling content first more =>
    have nonempty : tcs.isEmpty = false := by
      cases calls with
      | cons first rest => rfl
    have sent : tcs.mapM functionCall = .ok ((first :: more).map Call.item) := mapM_functionCall calls
    have role : ((Json.obj ((Message.calling content first more).fields tcs)).field "role").orElse (.str "user") =
        .str "assistant" := rfl
    have toolCalls : (Json.obj ((Message.calling content first more).fields tcs)).field "tool_calls" = .arr tcs := rfl
    have said : (Json.obj ((Message.calling content first more).fields tcs)).field "content" = contentOf content := rfl
    have truthy : (Json.arr tcs).truthy = true := by simp [Json.truthy, nonempty]
    have other : (Json.str "assistant").isText "tool" = false := rfl
    have same : (Json.str "assistant").isText "assistant" = true := rfl
    simp only [bind, Except.bind, field, role, toolCalls, said, truthy, other, same, Bool.and_true, Bool.false_eq_true, if_false,
      if_true, Json.iter, sent]
    cases content with
    | none => rfl
    | some text =>
      have full : text.val ≠ "" := text.property
      have read : contentToText str (contentOf (some text)) = .ok text.val := rfl
      simp only [read, if_neg full]
      rfl

theorem messagesToInput_says {ms : List Json} {messages : List Message} (said : List.Forall₂ SaysMessage ms messages) :
    messagesToInput str (.arr ms) = .ok (messages.flatMap Message.items) := by
  have elements : (Json.arr ms).iterOr = .ok ms := by
    cases ms with
    | nil => rfl
    | cons m ms => rfl
  have sent : ms.mapM (itemsOf str) = .ok (messages.map Message.items) := by
    clear elements
    induction said with
    | nil => rfl
    | cons first rest ih =>
      rw [List.mapM_cons, itemsOf_says first, ih]
      rfl
  unfold messagesToInput
  rw [elements]
  simp only [bind, Except.bind, sent]
  rw [List.flatMap_def]
  rfl

end Sent

section Read

variable {str : Json → String}

/-- The assistant message of a text, or of none, and calls. -/
def calling (content : Json) (calls : List Json) : Json :=
  .obj [("role", .str "assistant"), ("content", content), ("tool_calls", .arr calls)]

theorem readItem_call (call : Call) (messages : List Json) :
    readItem str messages call.item =
      match messages.getLast? with
      | some prev =>
        if (prev.field "role").isText "assistant" then do
          let prev ← appendCall prev call.json
          return messages.dropLast ++ [prev]
        else .ok (messages ++ [calling .null [call.json]])
      | none => .ok (messages ++ [calling .null [call.json]]) := by
  have id : (call.item.field "call_id").orElse (.str "") = .str call.id := orElse_str call.id
  have name : (call.item.field "name").orElse (.str "") = .str call.name := orElse_str call.name
  have arguments : (call.item.field "arguments").orElse (.str "\x7b\x7d") = .str call.arguments := by
    have inside : call.item.field "arguments" = .str call.arguments := rfl
    rw [inside]
    exact orElse_full (by simp [Json.truthy, call.full]) _
  unfold readItem
  rw [id, name, arguments]
  rfl

/-- A call behind an assistant message with calls. -/
theorem readItem_more (call : Call) (messages : List Json) (content : Json) (calls : List Json) :
    readItem str (messages ++ [calling content calls]) call.item = .ok (messages ++ [calling content (calls ++ [call.json])]) := by
  rw [readItem_call, List.getLast?_concat, List.dropLast_concat]
  rfl

theorem read_calls (more : List Call) (messages : List Json) (content : Json) (calls : List Json) :
    (more.map Call.item).foldlM (readItem str) (messages ++ [calling content calls]) =
      .ok (messages ++ [calling content (calls ++ more.map Call.json)]) := by
  induction more generalizing calls with
  | nil => rw [List.map_nil, List.map_nil, List.append_nil]; rfl
  | cons call more ih =>
    have rest := ih (calls ++ [call.json])
    rw [List.append_assoc, List.singleton_append] at rest
    rw [List.map_cons, List.foldlM_cons, readItem_more]
    exact rest

/-- No assistant message is last. -/
def Open (messages : List Json) : Prop := ∀ prev ∈ messages.getLast?, (prev.field "role").isText "assistant" = false

/-- The first call behind no assistant message. -/
theorem readItem_first (call : Call) {messages : List Json} (opened : Open messages) :
    readItem str messages call.item = .ok (messages ++ [calling .null [call.json]]) := by
  rw [readItem_call]
  cases last : messages.getLast? with
  | none => rfl
  | some prev =>
    have other := opened prev last
    simp only [other, Bool.false_eq_true, if_false]

/-- The items of a message, read behind other messages. -/
theorem read_items {message : Message} {messages : List Json} (opened : message.isAssistant = true → Open messages) :
    message.items.foldlM (readItem str) messages = .ok (messages ++ [message.json]) := by
  cases message with
  | system content | user content | assistant content => rfl
  | tool toolCallId content =>
    have id : (Json.str toolCallId).orElse (.str "") = .str toolCallId := orElse_str toolCallId
    calc
      _ = Except.ok (messages ++ [Json.obj [("role", .str "tool"), ("tool_call_id", (Json.str toolCallId).orElse (.str "")),
            ("content", .str content)]]) := rfl
      _ = _ := by
        rw [id]
        rfl
  | calling content first more =>
    cases content with
    | none =>
      have items : (Message.calling none first more).items = first.item :: more.map Call.item := rfl
      rw [items, List.foldlM_cons, readItem_first first (opened rfl)]
      exact read_calls more messages .null [first.json]
    | some text =>
      have items : (Message.calling (some text) first more).items =
          .obj [("role", .str "assistant"), ("content", .str text.val)] :: first.item :: more.map Call.item := rfl
      have plain : readItem str messages (.obj [("role", .str "assistant"), ("content", .str text.val)]) =
          .ok (messages ++ [.obj [("role", .str "assistant"), ("content", .str text.val)]]) := rfl
      have merged : readItem str (messages ++ [.obj [("role", .str "assistant"), ("content", .str text.val)]]) first.item =
          .ok (messages ++ [calling (.str text.val) [first.json]]) := by
        rw [readItem_call, List.getLast?_concat, List.dropLast_concat]
        rfl
      rw [items, List.foldlM_cons, plain]
      simp only [bind, Except.bind]
      rw [List.foldlM_cons, merged]
      exact read_calls more messages (.str text.val) [first.json]

theorem role_json (message : Message) : (message.json.field "role").isText "assistant" = message.isAssistant := by
  cases message <;> rfl

/-- The items of canonical messages, read behind other messages. -/
theorem read_messages {messages : List Message} (apart : messages.IsChain fun a b => ¬(a.isAssistant = true ∧ b.isAssistant = true))
    {before : List Json} (opened : ∀ first ∈ messages.head?, first.isAssistant = true → Open before) :
    (messages.flatMap Message.items).foldlM (readItem str) before = .ok (before ++ messages.map Message.json) := by
  induction messages generalizing before with
  | nil => rw [List.map_nil, List.append_nil]; rfl
  | cons message messages ih =>
    have next : ∀ first ∈ messages.head?, first.isAssistant = true → Open (before ++ [message.json]) := by
      intro first mem speaks prev last
      rw [List.getLast?_concat] at last
      rw [← Option.some.inj last, role_json]
      cases messages with
      | nil => cases mem
      | cons second rest =>
        have pair := (List.isChain_cons_cons.mp apart).1
        rw [← Option.some.inj mem] at speaks
        simpa [speaks] using pair
    have rest := ih apart.of_cons next
    rw [List.append_assoc, List.singleton_append] at rest
    rw [List.flatMap_cons, List.foldlM_append, read_items (opened message rfl)]
    exact rest

end Read

/-- Two dictionaries of one message. -/
def Same (m m' : Json) : Prop := ∃ message, SaysMessage m message ∧ SaysMessage m' message

/-- Canonical messages come back from the items they are sent as. -/
theorem chat_round_trip (str : Json → String) {ms : List Json} {messages : List Message}
    (canonical : List.Forall₂ SaysMessage ms messages)
    (apart : messages.IsChain fun a b => ¬(a.isAssistant = true ∧ b.isAssistant = true)) :
    ∃ items back, messagesToInput str (.arr ms) = .ok items ∧ inputToMessages str (.arr items) .null = .ok back ∧
      List.Forall₂ Same back ms := by
  refine ⟨_, messages.map Message.json, messagesToInput_says canonical, ?_, ?_⟩
  · have read := @read_messages str _ apart [] fun _ _ _ _ last => by cases last
    exact read
  · rw [List.forall₂_map_left_iff]
    exact List.Forall₂.flip (canonical.imp fun m message said => ⟨message, saysMessage_json message, said⟩)

def weatherCall : Call := ⟨"call_1", "weather", "[1]", by decide⟩

def clockCall : Call := ⟨"call_2", "clock", "\x7b\x7d", by decide⟩

/-- A question, a text with two calls, their two results and an answer. -/
def weather : List Message :=
  [.user "Rain at what time?", .calling (some ⟨"Looking.", by decide⟩) weatherCall [clockCall], .tool "call_1" "rain",
    .tool "call_2" "noon", .assistant "At noon."]

/-- As a client may write them, its keys in another order. -/
def weatherSent : List Json :=
  [.obj [("content", .str "Rain at what time?"), ("role", .str "user")],
    .obj [("role", .str "assistant"), ("content", .str "Looking."), ("tool_calls", .arr [
      .obj [("id", .str "call_1"), ("type", .str "function"),
        ("function", .obj [("arguments", .str "[1]"), ("name", .str "weather")])],
      .obj [("type", .str "function"), ("id", .str "call_2"), ("function", .obj clockCall.function)]])],
    (Message.tool "call_1" "rain").json, (Message.tool "call_2" "noon").json, (Message.assistant "At noon.").json]

theorem says_weather : List.Forall₂ SaysMessage weatherSent weather := by
  have calls : List.Forall₂ SaysCall
      [.obj [("id", .str "call_1"), ("type", .str "function"),
        ("function", .obj [("arguments", .str "[1]"), ("name", .str "weather")])],
      .obj [("type", .str "function"), ("id", .str "call_2"), ("function", .obj clockCall.function)]] [weatherCall, clockCall] :=
    .cons ⟨_, _, rfl, List.Perm.swap _ _ _, List.Perm.refl _⟩
      (.cons ⟨_, _, rfl, List.Perm.refl _, List.Perm.swap _ _ _⟩ .nil)
  exact .cons ⟨_, [], rfl, .nil, List.Perm.swap _ _ _⟩ (.cons ⟨_, _, rfl, calls, List.Perm.refl _⟩
    (.cons (saysMessage_json _) (.cons (saysMessage_json _) (.cons (saysMessage_json _) .nil))))

theorem chat_round_trip_weather :
    ∃ items back, messagesToInput (fun _ => "") (.arr weatherSent) = .ok items ∧
      inputToMessages (fun _ => "") (.arr items) .null = .ok back ∧ List.Forall₂ Same back weatherSent :=
  chat_round_trip _ says_weather (by simp [weather, Message.isAssistant])

end Unhardcoded.Guarantees.ChatInput
