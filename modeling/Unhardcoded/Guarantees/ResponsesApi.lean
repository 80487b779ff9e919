import Unhardcoded.Python.Dict
import Unhardcoded.Source.ResponsesApi

/-!
# A Responses stream read back

The frames of the object of an ok result, folded by the Codex aggregate, give the
result back. What an emitter sends is described as a Hoare triple over the aggregate
that reads it: `Sends` of a part, `Block` of an item.
-/

namespace Unhardcoded.Guarantees.ResponsesApi

open Python Source Source.ResponsesApi Source.CodexBackend
open Adapters (Line ToolCall cachedTokens)

section Emitters

/-- An event's name and data, without its number. -/
abbrev Event := String × List (String × Json)

def numbered : Int → List Event → List Frame
  | _, [] => []
  | seq, (event, data) :: events =>
    ⟨event, .obj (("type", .str event) :: ("sequence_number", .int seq) :: data)⟩ :: numbered (seq + 1) events

/-- An emitter that does not raise sends these events. -/
def Emits (m : Emitter Unit) (events : List Event) : Prop :=
  ∀ seq frames, m.run (seq, frames) = .ok ((), seq + events.length, frames ++ numbered seq events)

variable {m n : Emitter Unit} {events later : List Event}

theorem numbered_append (seq : Int) (events later : List Event) :
    numbered seq (events ++ later) = numbered seq events ++ numbered (seq + events.length) later := by
  induction events generalizing seq with
  | nil => simp [numbered]
  | cons ev events ih =>
    have next : seq + 1 + (events.length : Int) = seq + ((ev :: events).length : Int) := by
      rw [List.length_cons]
      push_cast
      omega
    rw [List.cons_append, numbered, numbered, ih, next]
    rfl

theorem getElem?_numbered (seq : Int) (events : List Event) (i : Nat) :
    (numbered seq events)[i]? = events[i]?.map fun ev =>
      ⟨ev.1, .obj (("type", .str ev.1) :: ("sequence_number", .int (seq + i)) :: ev.2)⟩ := by
  induction events generalizing seq i with
  | nil => rfl
  | cons ev events ih =>
    cases i with
    | zero => simp [numbered]
    | succ i =>
      have next : seq + 1 + (i : Int) = seq + ((i + 1 : Nat) : Int) := by
        push_cast
        omega
      rw [numbered, List.getElem?_cons_succ, List.getElem?_cons_succ, ih, next]

theorem emits_pure : Emits (pure ()) [] := by
  intro seq frames
  simp [numbered]
  rfl

theorem emits_emit (event : String) (data : List (String × Json)) : Emits (emit event data) [(event, data)] := by
  intro seq frames
  rfl

theorem Emits.bind (first : Emits m events) (second : Emits n later) :
    Emits (m >>= fun _ => n) (events ++ later) := by
  intro seq frames
  have length : seq + (events.length : Int) + (later.length : Int) = seq + ((events ++ later).length : Int) := by
    rw [List.length_append]
    push_cast
    omega
  rw [StateT.run_bind, first seq frames]
  calc
    _ = n.run (seq + events.length, frames ++ numbered seq events) := rfl
    _ = _ := by rw [second, numbered_append, List.append_assoc, length]

/-- A value that is there when the generator reads it. -/
theorem Emits.read {α : Type} {x : Except Raised α} {a : α} {f : α → Emitter Unit} (ok : x = .ok a)
    (rest : Emits (f a) events) : Emits (liftM x >>= f) events := by
  intro seq frames
  rw [ok]
  exact rest seq frames

end Emitters

section Triples

/-- The aggregate of the events of some frames. -/
def folds (acc : Aggregate) (frames : List Frame) : Except Raised Aggregate :=
  frames.foldlM (fun acc frame => aggregateEvent acc frame.data) acc

theorem folds_append (acc : Aggregate) (frames later : List Frame) :
    folds acc (frames ++ later) = folds acc frames >>= fun acc => folds acc later :=
  List.foldlM_append

/-- The other lines of a frame are skipped. -/
theorem aggregateLines_frames (acc : Aggregate) (frames : List Frame) :
    aggregateLines acc (frames.flatMap Frame.lines) = folds acc frames := by
  induction frames generalizing acc with
  | nil => rfl
  | cons frame frames ih =>
    rw [List.flatMap_cons, Frame.lines]
    simp only [List.cons_append, List.nil_append, aggregateLines]
    rw [folds, List.foldlM_cons]
    refine bind_congr fun next => ?_
    rw [ih]
    rfl

/-- `m` sends events of one output index, which take one aggregate to another. -/
def Sends (outIndex : Nat) (acc : Aggregate) (m : Emitter Unit) (acc' : Aggregate) : Prop :=
  ∃ events, Emits m events ∧ (∀ ev ∈ events, ev.2.lookup "output_index" = some (.int outIndex)) ∧
    ∀ seq, folds acc (numbered seq events) = .ok acc'

variable {outIndex : Nat} {acc mid acc' : Aggregate} {m n : Emitter Unit}

theorem sends_pure : Sends outIndex acc (pure ()) acc :=
  ⟨[], emits_pure, by simp, fun _ => rfl⟩

/-- One event, by what the aggregate makes of it whatever its number is. -/
theorem sends_emit {event : String} {data : List (String × Json)}
    (index : data.lookup "output_index" = some (.int outIndex))
    (step : ∀ seq, aggregateEvent acc (.obj (("type", .str event) :: ("sequence_number", seq) :: data)) = .ok acc') :
    Sends outIndex acc (emit event data) acc' := by
  refine ⟨[(event, data)], emits_emit event data, ?_, fun seq => ?_⟩
  · intro ev mem
    rw [List.mem_singleton.mp mem]
    exact index
  · rw [numbered, numbered, folds, List.foldlM_cons, step]
    rfl

theorem Sends.bind (first : Sends outIndex acc m mid) (second : Sends outIndex mid n acc') :
    Sends outIndex acc (m >>= fun _ => n) acc' := by
  obtain ⟨events, emits, index, fold⟩ := first
  obtain ⟨later, emits', index', fold'⟩ := second
  refine ⟨events ++ later, emits.bind emits', fun ev mem => ?_, fun seq => ?_⟩
  · rcases List.mem_append.mp mem with mem | mem
    · exact index ev mem
    · exact index' ev mem
  · rw [numbered_append, folds_append, fold]
    exact fold' _

theorem Sends.read {α : Type} {x : Except Raised α} {a : α} {f : α → Emitter Unit} (ok : x = .ok a)
    (rest : Sends outIndex acc (f a) acc') : Sends outIndex acc (liftM x >>= f) acc' := by
  obtain ⟨events, emits, index, fold⟩ := rest
  exact ⟨events, emits.read ok, index, fold⟩

/-- The events of an item: all at its output index, the last one its `done`. -/
def Block (outIndex : Nat) (item : Json) (events : List Event) : Prop :=
  (∀ ev ∈ events, ev.2.lookup "output_index" = some (.int outIndex)) ∧
    ∃ before, events = before ++ [("response.output_item.done", [("output_index", .int outIndex), ("item", item)])]

/-- `m` sends the events of an item. -/
def SendsItem (outIndex : Nat) (item : Json) (acc : Aggregate) (m : Emitter Unit) (acc' : Aggregate) : Prop :=
  ∃ events, Emits m events ∧ Block outIndex item events ∧ ∀ seq, folds acc (numbered seq events) = .ok acc'

variable {item : Json}

theorem sendsItem_done
    (step : ∀ seq, aggregateEvent acc (.obj [("type", .str "response.output_item.done"), ("sequence_number", seq),
      ("output_index", .int outIndex), ("item", item)]) = .ok acc') :
    SendsItem outIndex item acc (itemDone outIndex item) acc' := by
  refine ⟨_, emits_emit _ _, ⟨?_, [], rfl⟩, fun seq => ?_⟩
  · simp
  · rw [numbered, numbered, folds, List.foldlM_cons, step]
    rfl

theorem Sends.finish (first : Sends outIndex acc m mid) (last : SendsItem outIndex item mid n acc') :
    SendsItem outIndex item acc (m >>= fun _ => n) acc' := by
  obtain ⟨events, emits, index, fold⟩ := first
  obtain ⟨later, emits', ⟨index', before, done⟩, fold'⟩ := last
  refine ⟨events ++ later, emits.bind emits', ⟨fun ev mem => ?_, events ++ before, ?_⟩, fun seq => ?_⟩
  · rcases List.mem_append.mp mem with mem | mem
    · exact index ev mem
    · exact index' ev mem
  · rw [done, List.append_assoc]
  · rw [numbered_append, folds_append, fold]
    exact fold' _

theorem SendsItem.read {α : Type} {x : Except Raised α} {a : α} {f : α → Emitter Unit} (ok : x = .ok a)
    (rest : SendsItem outIndex item acc (f a) acc') : SendsItem outIndex item acc (liftM x >>= f) acc' := by
  obtain ⟨events, emits, block, fold⟩ := rest
  exact ⟨events, emits.read ok, block, fold⟩

/-- Items from an output index on, sent and read one after the other. -/
inductive SendsItems : Nat → List Json → Aggregate → Aggregate → Prop where
  | nil (outIndex : Nat) (acc : Aggregate) : SendsItems outIndex [] acc acc
  | cons {outIndex : Nat} {item : Json} {items : List Json} {acc mid acc' : Aggregate}
      (first : SendsItem outIndex item acc (emitItem outIndex item) mid)
      (rest : SendsItems (outIndex + 1) items mid acc') : SendsItems outIndex (item :: items) acc acc'

theorem SendsItems.append {items later : List Json} (first : SendsItems outIndex items acc mid)
    (rest : SendsItems (outIndex + items.length) later mid acc') : SendsItems outIndex (items ++ later) acc acc' := by
  induction first with
  | nil outIndex acc => exact rest
  | cons first _ ih =>
    refine .cons first (ih ?_)
    rwa [Nat.add_right_comm, Nat.add_assoc]

/-- One block of events for each item, in order. -/
theorem SendsItems.blocks {items : List Json} (sent : SendsItems outIndex items acc acc') :
    ∃ blocks : List (List Event), Emits (emitItems outIndex items) blocks.flatten ∧
      List.Forall₂ (fun item block => Block item.2 item.1 block) (items.zipIdx outIndex) blocks ∧
      ∀ seq, folds acc (numbered seq blocks.flatten) = .ok acc' := by
  induction sent with
  | nil outIndex acc => exact ⟨[], emits_pure, .nil, fun _ => rfl⟩
  | cons first _ ih =>
    obtain ⟨events, emits, block, fold⟩ := first
    obtain ⟨blocks, emits', each, fold'⟩ := ih
    refine ⟨events :: blocks, emits.bind emits', .cons block each, fun seq => ?_⟩
    rw [List.flatten_cons, numbered_append, folds_append, fold]
    exact fold' _

end Triples

section Results

/-- A part of a summary: a dict whose text, if it has one that is not empty, is a string. -/
def IsPart (part : Json) : Prop := part.isObj = true ∧ ((part.field "text").truthy = true → (part.field "text").isStr = true)

/-- A reasoning item: a dict with an id and a list of summary parts. -/
structure ReasoningItem where
  id : String
  fields : List (String × Json)
  parts : List Json
  type : fields.lookup "type" = some (.str "reasoning")
  identified : fields.lookup "id" = some (.str id)
  summary : fields.lookup "summary" = some (.arr parts) ∨ fields.lookup "summary" = none ∧ parts = []
  isPart : ∀ part ∈ parts, IsPart part

namespace ReasoningItem

variable (item : ReasoningItem)

def json : Json := .obj item.fields

/-- What it is in `reasoning_items`. -/
def entry : Key × Json := (.str item.id, item.json)

@[simp] theorem isObj_json : item.json.isObj = true := rfl

@[simp] theorem field_type : item.json.field "type" = .str "reasoning" := by
  simp [json, Json.field, Json.field?, item.type]

theorem itemId_json : itemId item.json = .ok (.str item.id) := by
  simp [itemId, json, Json.field?, item.identified]
  rfl

theorem getD_summary : item.json.getD "summary" (.arr []) = .ok (.arr item.parts) := by
  rw [Json.getD_of_isObj rfl, json, Json.field?]
  rcases item.summary with given | ⟨absent, none⟩
  · rw [given]
    rfl
  · rw [absent, none]
    rfl

theorem iterOr_summary : (item.json.field "summary").iterOr = .ok item.parts := by
  rw [json, Json.field, Json.field?]
  rcases item.summary with given | ⟨absent, none⟩
  · rw [given]
    cases item.parts <;> rfl
  · rw [absent, none]
    rfl

end ReasoningItem

/-- A tool call of the router's results; without an id it would be given one. -/
structure Call where
  id : String
  name : String
  arguments : String
  identified : id ≠ ""

namespace Call

variable (call : Call)

def json : Json :=
  .obj [("id", .str call.id), ("type", .str "function"),
    ("function", .obj [("name", .str call.name), ("arguments", .str call.arguments)])]

def sentArguments : String := if call.arguments = "" then "{}" else call.arguments

/-- How it reads once it was sent. -/
def received : ToolCall := ⟨.str call.id, .str call.name, .str call.sentArguments⟩

theorem sentArguments_ne : call.sentArguments ≠ "" := by
  unfold sentArguments
  split
  · decide
  · assumption

end Call

/-- An ok result of the router with this text, these calls and these reasoning items.
Its other fields are free. -/
structure OkResult (result : Json) (text : String) (calls : List Call) (reasoning : List ReasoningItem) : Prop where
  dict : result.isObj = true
  response : (result.field "response").isObj = true
  chosen : (result.field "chosen").dictish = true
  hasText : ((result.field "response").field "text").orElse (.str "") = .str text
  hasCalls : ((result.field "response").field "tool_calls").orElse (.arr []) = .arr (calls.map Call.json)
  hasReasoning : ((result.field "response").field "reasoning_items").orElse (.arr []) =
    .arr (reasoning.map ReasoningItem.json)
  distinct : (reasoning.map ReasoningItem.id).Nodup

end Results

section Aggregates

variable {acc : Aggregate} {item : Json} {items : List (Key × Json)}

theorem orDict_of_isObj (h : item.isObj = true) : item.orDict = item := by
  cases item with
  | obj fields => cases fields <;> rfl
  | _ => cases h

theorem keepReasoning_other (h : item.isObj = true) (type : (item.field "type").isText "reasoning" = false) :
    keepReasoning items item = .ok items := by
  rw [keepReasoning, Json.get_of_isObj h]
  simp [bind, Except.bind, type]
  rfl

theorem keepReasoning_reasoning (item : ReasoningItem) :
    keepReasoning items item.json = .ok (insert (.str item.id) item.json items) := by
  have id : item.json.getD "id" (.str "reasoning") = .ok (.str item.id) := by
    rw [Json.getD_of_isObj rfl, ReasoningItem.json, Json.field?, item.identified]
    rfl
  rw [keepReasoning, Json.get_of_isObj rfl, item.field_type, id]
  rfl

theorem aggregate_added_other {seq index : Json} (h : item.isObj = true)
    (type : (item.field "type").isText "function_call" = false) :
    aggregateEvent acc (.obj [("type", .str "response.output_item.added"), ("sequence_number", seq),
      ("output_index", index), ("item", item)]) = .ok acc := by
  calc
    _ = (do
          let type ← item.orDict.get "type"
          if type.isText "function_call" then
            let iid ← item.orDict.get "id"
            let key ← iid.key
            pure { acc with
              fcalls := insert key ⟨(item.orDict.field "call_id").orElse iid, item.orDict.field "name", [], .null⟩ acc.fcalls
              fcorder := acc.fcorder ++ [key] }
          else pure acc) := rfl
    _ = .ok acc := by
      rw [orDict_of_isObj h, Json.get_of_isObj h]
      simp only [bind, Except.bind, type, Bool.false_eq_true, if_false]
      rfl

theorem aggregate_done {seq index : Json} (h : item.isObj = true) :
    aggregateEvent acc (.obj [("type", .str "response.output_item.done"), ("sequence_number", seq),
      ("output_index", index), ("item", item)]) =
      (keepReasoning acc.reasoningItems item).map fun items => { acc with reasoningItems := items } := by
  calc
    _ = (do
          let items ← keepReasoning acc.reasoningItems item.orDict
          pure { acc with reasoningItems := items }) := rfl
    _ = _ := by
      rw [orDict_of_isObj h]
      rfl

variable {fc callId : String} {seq index name args : Json} {call : FunctionCall}

theorem aggregate_added_call {status : Json} (identified : callId ≠ "") :
    aggregateEvent acc (.obj [("type", .str "response.output_item.added"), ("sequence_number", seq),
      ("output_index", index), ("item", .obj [("type", .str "function_call"), ("id", .str fc),
        ("call_id", .str callId), ("name", name), ("arguments", args), ("status", status)])]) =
      .ok { acc with
        fcalls := insert (.str fc) ⟨.str callId, name, [], .null⟩ acc.fcalls
        fcorder := acc.fcorder ++ [.str fc] } := by
  have id : (Json.str callId).orElse (.str fc) = .str callId := by simp [Json.orElse, Json.truthy, identified]
  calc
    _ = Except.ok ({ acc with
          fcalls := insert (.str fc) ⟨(Json.str callId).orElse (.str fc), name, [], .null⟩ acc.fcalls
          fcorder := acc.fcorder ++ [.str fc] } : Aggregate) := rfl
    _ = _ := by rw [id]

/-- What a delta of arguments leaves, once its call was looked up. -/
def withDelta (acc : Aggregate) (fc : String) (args : Json) : Option FunctionCall → Except Raised Aggregate
  | some call =>
    pure (if args.truthy then
      { acc with fcalls := insert (.str fc) { call with args := call.args ++ [args] } acc.fcalls } else acc)
  | none => pure acc

theorem aggregate_arguments_delta (found : acc.fcalls.lookup (.str fc) = some call) (full : args.truthy = true) :
    aggregateEvent acc (.obj [("type", .str "response.function_call_arguments.delta"), ("sequence_number", seq),
      ("item_id", .str fc), ("output_index", index), ("delta", args)]) =
      .ok { acc with fcalls := insert (.str fc) { call with args := call.args ++ [args] } acc.fcalls } := by
  calc
    _ = withDelta acc fc args (acc.fcalls.lookup (.str fc)) := rfl
    _ = _ := by
      rw [found]
      simp only [withDelta, full, if_true]
      rfl

/-- What the complete arguments leave, once their call was looked up. -/
def withDone (acc : Aggregate) (fc : String) : Option FunctionCall → Json → Except Raised Aggregate
  | some _, .null => pure acc
  | some call, arguments => pure { acc with fcalls := insert (.str fc) { call with done := arguments } acc.fcalls }
  | none, _ => pure acc

theorem aggregate_arguments_done {text : String} (found : acc.fcalls.lookup (.str fc) = some call) :
    aggregateEvent acc (.obj [("type", .str "response.function_call_arguments.done"), ("sequence_number", seq),
      ("item_id", .str fc), ("output_index", index), ("arguments", .str text)]) =
      .ok { acc with fcalls := insert (.str fc) { call with done := .str text } acc.fcalls } := by
  calc
    _ = withDone acc fc (acc.fcalls.lookup (.str fc)) (.str text) := rfl
    _ = _ := by
      rw [found]
      rfl

end Aggregates

section Reasoning

/-- What the delta of a part leaves in `summaries`. -/
def summaryEntry (id : String) (index : Nat) (part : Json) : List ((Key × Key) × Summary) :=
  if (part.field "text").truthy then [((.str id, .num (index : Int)), ⟨.str id, [part.field "text"]⟩)] else []

def summaryEntries (id : String) : Nat → List Json → List ((Key × Key) × Summary)
  | _, [] => []
  | index, part :: parts => summaryEntry id index part ++ summaryEntries id (index + 1) parts

/-- A reasoning item's deltas are not there yet from an index on. -/
def Fresh (id : String) (index : Nat) (summaries : List ((Key × Key) × Summary)) : Prop :=
  ∀ later : Nat, index ≤ later → summaries.lookup (.str id, .num (later : Int)) = none

theorem Fresh.append {id : String} {index : Nat} {summaries : List ((Key × Key) × Summary)}
    (fresh : Fresh id index summaries) (part : Json) :
    Fresh id (index + 1) (summaries ++ summaryEntry id index part) := by
  intro later le
  have other : ((later : Int) : ℚ) ≠ ((index : Int) : ℚ) := by
    intro same
    have : (later : Int) = (index : Int) := by exact_mod_cast same
    omega
  rw [List.lookup_append, fresh later (by omega), Option.none_or]
  unfold summaryEntry
  split
  · rw [List.lookup_cons, beq_eq_false_iff_ne.mpr (by simpa using other), List.lookup_nil]
  · rfl

variable {outIndex : Nat} {acc : Aggregate} {part : Json}

theorem override_obj {item : Json} (h : item.isObj = true) (key : String) (value : Json) :
    ∃ fields, item = .obj fields ∧ override item key value = .ok (.obj (insert key value fields)) := by
  cases item with
  | obj fields => exact ⟨fields, rfl, rfl⟩
  | _ => cases h

theorem truthy_getD_text (h : part.isObj = true) :
    ∃ text, part.getD "text" (.str "") = .ok text ∧ text.truthy = (part.field "text").truthy ∧
      ((part.field "text").truthy = true → text = part.field "text") := by
  rw [Json.getD_of_isObj h]
  refine ⟨_, rfl, ?_, ?_⟩
  · rw [Json.field]
    cases part.field? "text" <;> rfl
  · rw [Json.field]
    cases part.field? "text" with
    | none => exact fun truth => by cases truth
    | some text => exact fun _ => rfl

theorem sends_part (item : ReasoningItem) {index : Nat} (h : part.isObj = true) (fresh : Fresh item.id index acc.summaries) :
    Sends outIndex acc (emitPart outIndex item.json index part)
      { acc with summaries := acc.summaries ++ summaryEntry item.id index part } := by
  obtain ⟨text, read, truth, given⟩ := truthy_getD_text h
  obtain ⟨fields, shape, overridden⟩ := override_obj h "text" (.str "")
  have absent := fresh index (le_refl _)
  unfold emitPart
  refine Sends.read item.itemId_json ?_
  refine Sends.read read ?_
  refine Sends.read overridden ?_
  refine Sends.bind (sends_emit rfl fun _ => rfl) ?_
  have rest : ∀ acc, Sends outIndex acc (do
      emit "response.reasoning_summary_text.done" ([("item_id", .str item.id), ("output_index", .int outIndex),
        ("summary_index", .int index)] ++ [("text", text)])
      emit "response.reasoning_summary_part.done" ([("item_id", .str item.id), ("output_index", .int outIndex),
        ("summary_index", .int index)] ++ [("part", part)])) acc :=
    fun acc => Sends.bind (sends_emit rfl fun _ => rfl) (sends_emit rfl fun _ => rfl)
  cases full : (part.field "text").truthy with
  | false =>
    rw [truth, full, summaryEntry, full]
    simp only [Bool.false_eq_true, if_false, List.append_nil]
    exact rest acc
  | true =>
    rw [truth, full, summaryEntry, full]
    simp only [if_true]
    refine Sends.bind (sends_emit rfl fun seq => ?_) (rest _)
    rw [given full]
    have delta : (part.field "text").orElse (.str "") = part.field "text" := by rw [Json.orElse, full, if_pos rfl]
    have added : addSummary (.str item.id, .num (index : Int)) (.str item.id) ((part.field "text").orElse (.str ""))
        acc.summaries = acc.summaries ++ [((.str item.id, .num (index : Int)), ⟨.str item.id, [part.field "text"]⟩)] := by
      rw [addSummary, absent, delta]
    rw [← added]
    rfl

theorem sends_parts (item : ReasoningItem) {index : Nat} {parts : List Json} (h : ∀ part ∈ parts, IsPart part)
    (fresh : Fresh item.id index acc.summaries) :
    Sends outIndex acc (emitParts outIndex item.json index parts)
      { acc with summaries := acc.summaries ++ summaryEntries item.id index parts } := by
  induction parts generalizing index acc with
  | nil =>
    rw [summaryEntries, List.append_nil]
    exact sends_pure
  | cons part parts ih =>
    rw [summaryEntries, ← List.append_assoc]
    refine (sends_part item (h part List.mem_cons_self).1 fresh).bind (ih ?_ (fresh.append part))
    exact fun part mem => h part (List.mem_cons_of_mem _ mem)

/-- The aggregate once these reasoning items were read. -/
def afterReasoning (items : List ReasoningItem) : Aggregate :=
  { Aggregate.new with
    reasoningItems := items.map ReasoningItem.entry
    summaries := items.flatMap fun item => summaryEntries item.id 0 item.parts }

theorem fst_summaryEntries {id : String} {index : Nat} {parts : List Json} {entry : (Key × Key) × Summary}
    (mem : entry ∈ summaryEntries id index parts) : entry.1.1 = .str id := by
  induction parts generalizing index with
  | nil => cases mem
  | cons part parts ih =>
    rw [summaryEntries] at mem
    rcases List.mem_append.mp mem with mem | mem
    · unfold summaryEntry at mem
      split at mem
      · rw [List.mem_singleton.mp mem]
      · cases mem
    · exact ih mem

variable {prior : List ReasoningItem} {item : ReasoningItem}

theorem fresh_afterReasoning (new : item.id ∉ prior.map ReasoningItem.id) :
    Fresh item.id 0 (afterReasoning prior).summaries := by
  intro later _
  refine Option.eq_none_iff_forall_ne_some.mpr fun summary found => new ?_
  obtain ⟨before, after, split, _⟩ := List.lookup_eq_some_iff.mp found
  have stored : ((Key.str item.id, Key.num (later : Int)), summary) ∈ (afterReasoning prior).summaries := by
    rw [split]
    exact List.mem_append_cons_self
  obtain ⟨other, mem, within⟩ := List.mem_flatMap.mp stored
  have same : Key.str item.id = .str other.id := fst_summaryEntries within
  rw [Key.str.inj same]
  exact List.mem_map_of_mem mem

theorem sends_reasoning (outIndex : Nat) (new : item.id ∉ prior.map ReasoningItem.id) :
    SendsItem outIndex item.json (afterReasoning prior) (emitItem outIndex item.json)
      (afterReasoning (prior ++ [item])) := by
  have absent : (prior.map ReasoningItem.entry).lookup (.str item.id) = none := by
    refine Option.eq_none_iff_forall_ne_some.mpr fun value found => new ?_
    obtain ⟨other, mem, same⟩ := List.mem_map.mp (mem_of_lookup found)
    have : Key.str other.id = .str item.id := congrArg Prod.fst same
    rw [← Key.str.inj this]
    exact List.mem_map_of_mem mem
  have type : item.json.get "type" = .ok (.str "reasoning") := by
    rw [Json.get_of_isObj rfl, item.field_type]
  unfold emitItem
  refine SendsItem.read type ?_
  unfold emitReasoning
  -- the item as it is added has no summary yet
  have added : Sends outIndex (afterReasoning prior) (itemAdded outIndex item.json "summary" (.arr []))
      (afterReasoning prior) := by
    unfold itemAdded
    refine Sends.read (rfl : override item.json "summary" (.arr []) = .ok (.obj (insert "summary" (.arr []) item.fields))) ?_
    refine sends_emit rfl fun seq => aggregate_added_other rfl ?_
    rw [Json.field, Json.field?, lookup_insert_of_ne (by decide), item.type]
    rfl
  refine added.finish ?_
  refine SendsItem.read item.iterOr_summary ?_
  refine (sends_parts item item.isPart (fresh_afterReasoning new)).finish ?_
  refine sendsItem_done fun seq => ?_
  rw [aggregate_done rfl, keepReasoning_reasoning]
  simp only [afterReasoning, insert_of_absent absent, List.map_append, List.map_cons, List.map_nil, List.flatMap_append,
    List.flatMap_cons, List.flatMap_nil, List.append_nil, ReasoningItem.entry]
  rfl

theorem sends_reasoningItems (outIndex : Nat) (prior items : List ReasoningItem)
    (distinct : ((prior ++ items).map ReasoningItem.id).Nodup) :
    SendsItems outIndex (items.map ReasoningItem.json) (afterReasoning prior) (afterReasoning (prior ++ items)) := by
  induction items generalizing outIndex prior with
  | nil =>
    rw [List.append_nil]
    exact .nil outIndex _
  | cons item items ih =>
    have new : item.id ∉ prior.map ReasoningItem.id := by
      rw [List.map_append, List.map_cons] at distinct
      intro mem
      exact (List.nodup_append.mp distinct).2.2 _ mem _ List.mem_cons_self rfl
    have rest := ih (outIndex + 1) (prior ++ [item]) (by rwa [List.append_assoc])
    rw [List.append_assoc] at rest
    exact .cons (sends_reasoning outIndex new) rest

end Reasoning

section Message

variable {acc : Aggregate}

theorem sends_message (ids : Ids) (outIndex : Nat) {text : String} (h : text ≠ "") :
    SendsItem outIndex (messageItem ids (.str text)) acc (emitItem outIndex (messageItem ids (.str text)))
      { acc with textParts := acc.textParts ++ [.str text] } := by
  have full : (Json.str text).truthy = true := by simpa [Json.truthy] using h
  have added : Sends outIndex acc (itemAdded outIndex (messageItem ids (.str text)) "content" (.arr [])) acc :=
    Sends.read rfl (sends_emit rfl fun seq => aggregate_added_other rfl rfl)
  have delta : ∀ seq, aggregateEvent acc (.obj [("type", .str "response.output_text.delta"), ("sequence_number", seq),
      ("item_id", .str ids.message), ("output_index", .int outIndex), ("content_index", .int 0),
      ("delta", .str text)]) = .ok { acc with textParts := acc.textParts ++ [.str text] } := by
    intro seq
    calc
      _ = Except.ok (if (Json.str text).truthy then { acc with textParts := acc.textParts ++ [.str text] } else acc) := rfl
      _ = _ := by rw [full, if_pos rfl]
  unfold emitItem
  refine SendsItem.read rfl ?_
  unfold emitMessage
  refine SendsItem.read rfl ?_
  refine SendsItem.read (rfl : _ = Except.ok (Json.str text)) ?_
  refine added.finish ?_
  refine SendsItem.read rfl ?_
  refine (sends_emit rfl delta).finish ?_
  refine (sends_emit rfl fun _ => rfl).finish ?_
  refine sendsItem_done fun seq => ?_
  rw [aggregate_done rfl, keepReasoning_other rfl rfl]
  rfl

end Message

section Calls

/-- The item of a tool call under an `fc` id. -/
def callItem (sent : String × Call) : Json :=
  .obj [("type", .str "function_call"), ("id", .str sent.1), ("call_id", .str sent.2.id), ("name", .str sent.2.name),
    ("arguments", .str sent.2.sentArguments), ("status", .str "completed")]

/-- What it is in `fcalls`. -/
def callEntry (sent : String × Call) : Key × FunctionCall :=
  (.str sent.1, ⟨.str sent.2.id, .str sent.2.name, [.str sent.2.sentArguments], .str sent.2.sentArguments⟩)

/-- The aggregate once these tool calls were read after `acc`. -/
def afterCalls (acc : Aggregate) (sent : List (String × Call)) : Aggregate :=
  { acc with fcalls := sent.map callEntry, fcorder := sent.map fun sent => .str sent.1 }

variable {acc : Aggregate} {prior : List (String × Call)} {sent : String × Call}

theorem sends_call (outIndex : Nat) (new : sent.1 ∉ prior.map (·.1)) :
    SendsItem outIndex (callItem sent) (afterCalls acc prior) (emitItem outIndex (callItem sent))
      (afterCalls acc (prior ++ [sent])) := by
  obtain ⟨fc, call⟩ := sent
  have absent : (prior.map callEntry).lookup (.str fc) = none := by
    refine Option.eq_none_iff_forall_ne_some.mpr fun value found => new ?_
    obtain ⟨other, mem, same⟩ := List.mem_map.mp (mem_of_lookup found)
    have : Key.str other.1 = .str fc := congrArg Prod.fst same
    exact List.mem_map.mpr ⟨other, mem, Key.str.inj this⟩
  have full : (Json.str call.sentArguments).truthy = true := by simpa [Json.truthy] using call.sentArguments_ne
  -- the call under its `fc` id
  let opened (args : List Json) (done : Json) : Aggregate :=
    { afterCalls acc prior with
      fcalls := prior.map callEntry ++ [(Key.str fc, ⟨.str call.id, .str call.name, args, done⟩)]
      fcorder := prior.map (fun sent => Key.str sent.1) ++ [.str fc] }
  have found : ∀ args done, (opened args done).fcalls.lookup (.str fc) = some ⟨.str call.id, .str call.name, args, done⟩ :=
    fun args done => lookup_last absent _
  have added : Sends outIndex (afterCalls acc prior)
      (itemAdded outIndex (callItem (fc, call)) "arguments" (.str "")) (opened [] .null) := by
    refine Sends.read rfl (sends_emit rfl fun seq => ?_)
    calc
      _ = Except.ok { afterCalls acc prior with
            fcalls := insert (Key.str fc) ⟨.str call.id, .str call.name, [], .null⟩ (prior.map callEntry)
            fcorder := prior.map (fun sent => Key.str sent.1) ++ [.str fc] } :=
        aggregate_added_call call.identified
      _ = _ := by rw [insert_of_absent absent]
  have delta : ∀ seq, aggregateEvent (opened [] .null) (.obj [("type", .str "response.function_call_arguments.delta"),
      ("sequence_number", seq), ("item_id", .str fc), ("output_index", .int outIndex),
      ("delta", .str call.sentArguments)]) = .ok (opened [.str call.sentArguments] .null) := by
    intro seq
    rw [aggregate_arguments_delta (found _ _) full]
    simp only [opened, insert_last absent]
    rfl
  have done : ∀ seq, aggregateEvent (opened [.str call.sentArguments] .null)
      (.obj [("type", .str "response.function_call_arguments.done"), ("sequence_number", seq), ("item_id", .str fc),
      ("output_index", .int outIndex), ("arguments", .str call.sentArguments)]) =
      .ok (opened [.str call.sentArguments] (.str call.sentArguments)) := by
    intro seq
    rw [aggregate_arguments_done (found _ _)]
    simp only [opened, insert_last absent]
  have args : ((callItem (fc, call)).field "arguments").orElse (.str "") = .str call.sentArguments := by
    calc
      _ = (Json.str call.sentArguments).orElse (.str "") := rfl
      _ = _ := by rw [Json.orElse, full, if_pos rfl]
  unfold emitItem
  refine SendsItem.read rfl ?_
  unfold emitFunctionCall
  rw [args]
  refine added.finish ?_
  refine SendsItem.read rfl ?_
  refine (sends_emit rfl delta).finish ?_
  refine (sends_emit rfl done).finish ?_
  refine sendsItem_done fun seq => ?_
  rw [aggregate_done rfl, keepReasoning_other rfl rfl]
  simp only [afterCalls, opened, List.map_append, List.map_cons, List.map_nil, callEntry]
  rfl

theorem sends_calls (acc : Aggregate) (outIndex : Nat) (prior calls : List (String × Call))
    (distinct : ((prior ++ calls).map (·.1)).Nodup) :
    SendsItems outIndex (calls.map callItem) (afterCalls acc prior) (afterCalls acc (prior ++ calls)) := by
  induction calls generalizing outIndex prior with
  | nil =>
    rw [List.append_nil]
    exact .nil outIndex _
  | cons sent calls ih =>
    have new : sent.1 ∉ prior.map (·.1) := by
      rw [List.map_append, List.map_cons] at distinct
      intro mem
      exact (List.nodup_append.mp distinct).2.2 _ mem _ List.mem_cons_self rfl
    have rest := ih (outIndex + 1) (prior ++ [sent]) (by rwa [List.append_assoc])
    rw [List.append_assoc] at rest
    exact .cons (sends_call outIndex new) rest

/-- The calls with their `fc` ids, from a position on. -/
def named (ids : Ids) : Nat → List Call → List (String × Call)
  | _, [] => []
  | position, call :: calls => (ids.fc position, call) :: named ids (position + 1) calls

theorem functionCallItems_json (ids : Ids) (position : Nat) (calls : List Call) :
    functionCallItems ids position (calls.map Call.json) = .ok ((named ids position calls).map callItem) := by
  induction calls generalizing position with
  | nil => rfl
  | cons call calls ih =>
    have id : (Json.str call.id).orElse (.str (ids.call position)) = .str call.id := by
      simp [Json.orElse, Json.truthy, call.identified]
    have name : (Json.str call.name).orElse (.str "") = .str call.name := by
      simp [Json.orElse, Json.truthy]
    have args : (Json.str call.arguments).orElse (.str "\x7b\x7d") = .str call.sentArguments := by
      rw [Call.sentArguments]
      split
      · rename_i empty
        rw [empty]
        rfl
      · rename_i nonempty
        simp [Json.orElse, Json.truthy, nonempty]
    have first : functionCallItem ids position call.json = .ok (callItem (ids.fc position, call)) := by
      rw [callItem, ← id, ← name, ← args]
      rfl
    rw [List.map_cons, functionCallItems, first, ih]
    rfl

theorem mem_named {ids : Ids} {position : Nat} {calls : List Call} {fc : String}
    (mem : fc ∈ (named ids position calls).map (·.1)) : ∃ later, position ≤ later ∧ fc = ids.fc later := by
  induction calls generalizing position with
  | nil => cases mem
  | cons call calls ih =>
    rcases List.mem_cons.mp mem with rfl | mem
    · exact ⟨position, le_refl _, rfl⟩
    · obtain ⟨later, le, same⟩ := ih mem
      exact ⟨later, by omega, same⟩

theorem nodup_named {ids : Ids} (distinct : Function.Injective ids.fc) (position : Nat) (calls : List Call) :
    ((named ids position calls).map (·.1)).Nodup := by
  induction calls generalizing position with
  | nil => exact List.nodup_nil
  | cons call calls ih =>
    refine List.nodup_cons.mpr ⟨fun mem => ?_, ih (position + 1)⟩
    obtain ⟨later, le, same⟩ := mem_named mem
    have := distinct same
    omega

theorem snd_named (ids : Ids) (position : Nat) (calls : List Call) : (named ids position calls).map (·.2) = calls := by
  induction calls generalizing position with
  | nil => rfl
  | cons call calls ih => rw [named, List.map_cons, ih]

end Calls

section Completed

variable {acc : Aggregate} {items : List (Key × Json)}

/-- The items of the object of a result. -/
def outputItems (ids : Ids) (text : String) (calls : List Call) (reasoning : List ReasoningItem) : List Json :=
  reasoning.map ReasoningItem.json ++ (if text = "" then [] else [messageItem ids (.str text)]) ++
    (named ids 0 calls).map callItem

/-- A complete response object with these items and this usage. -/
structure ObjectOf (fields : List (String × Json)) (output : List Json) (usage : List (String × Json)) : Prop where
  nonempty : fields ≠ []
  output : fields.lookup "output" = some (.arr output)
  usage : ((fields.lookup "usage").getD .null).orElse (.obj []) = .obj usage

theorem object_of_okResult (ids : Ids) (requestedModel : String) (createdAt : Int) {result : Json} {text : String}
    {calls : List Call} {reasoning : List ReasoningItem} (ok : OkResult result text calls reasoning) :
    ∃ fields, resultToResponsesObject ids requestedModel createdAt result = .ok (.obj fields) ∧
      ObjectOf fields (outputItems ids text calls reasoning) (usage (result.field "response")) := by
  set resp := result.field "response"
  have served : ∃ name, model resp (result.field "chosen").orDict requestedModel = .ok name := by
    rw [model, Json.get_orDict ok.chosen]
    split <;> exact ⟨_, rfl⟩
  obtain ⟨name, read⟩ := served
  have reasons : (resp.field "reasoning_items").iterOr = .ok (reasoning.map ReasoningItem.json) := by
    rw [Json.iterOr, ok.hasReasoning]
    rfl
  have tools : (resp.field "tool_calls").iterOr = .ok (calls.map Call.json) := by
    rw [Json.iterOr, ok.hasCalls]
    rfl
  have message : (if (Json.str text).truthy then [messageItem ids (.str text)] else []) =
      if text = "" then [] else [messageItem ids (.str text)] := by
    by_cases empty : text = "" <;> simp [Json.truthy, empty]
  let status : String := if ((resp.field "finish_reason").orElse (.str "stop")).isText "length" then "incomplete" else "completed"
  let fields : List (String × Json) := [("id", .str ids.response), ("object", .str "response"),
    ("created_at", .int createdAt), ("status", .str status), ("model", name),
    ("output", .arr (outputItems ids text calls reasoning))]
  refine ⟨if (usage resp).isEmpty then fields else fields ++ [("usage", .obj (usage resp))], ?_, ?_⟩
  · unfold resultToResponsesObject
    rw [Json.get_of_isObj ok.dict, Json.get_of_isObj ok.dict]
    simp only [bind, Except.bind]
    rw [orDict_of_isObj ok.response, Json.get_of_isObj ok.response]
    simp only
    rw [ok.hasText, read]
    simp only
    rw [reasons]
    simp only
    rw [tools]
    simp only
    rw [functionCallItems_json]
    simp only
    rw [message]
    rfl
  · cases used : (usage resp).isEmpty with
    | true =>
      have none : usage resp = [] := List.isEmpty_iff.mp used
      exact ⟨by simp [fields], rfl, by rw [none]; rfl⟩
    | false =>
      have some : (Json.obj (usage resp)).truthy = true := by rw [Json.truthy, used]; rfl
      refine ⟨by simp, rfl, ?_⟩
      calc
        _ = (Json.obj (usage resp)).orElse (.obj []) := rfl
        _ = _ := by rw [Json.orElse, some, if_pos rfl]

theorem nodup_entries {reasoning : List ReasoningItem} (distinct : (reasoning.map ReasoningItem.id).Nodup) :
    ((reasoning.map ReasoningItem.entry).map (·.1)).Nodup := by
  rw [List.map_map]
  have keys : (Prod.fst ∘ ReasoningItem.entry) = Key.str ∘ ReasoningItem.id := rfl
  rw [keys, ← List.map_map]
  exact distinct.map fun a b same => Key.str.inj same

theorem foldlM_same {α β : Type} {step : α → β → Except Raised α} {a : α} {l : List β}
    (same : ∀ b ∈ l, step a b = .ok a) : l.foldlM step a = .ok a := by
  induction l with
  | nil => rfl
  | cons b l ih =>
    rw [List.foldlM_cons, same b List.mem_cons_self]
    exact ih fun b mem => same b (List.mem_cons_of_mem _ mem)

/-- The items of `response.completed` are there already. -/
theorem keepReasoning_outputItems (ids : Ids) (text : String) (calls : List Call) {reasoning : List ReasoningItem}
    (distinct : (reasoning.map ReasoningItem.id).Nodup) :
    (outputItems ids text calls reasoning).foldlM keepReasoning (reasoning.map ReasoningItem.entry) =
      .ok (reasoning.map ReasoningItem.entry) := by
  refine foldlM_same fun item mem => ?_
  rcases List.mem_append.mp mem with mem | call
  · rcases List.mem_append.mp mem with item' | message
    · obtain ⟨item, within, rfl⟩ := List.mem_map.mp item'
      have entry : (Key.str item.id, item.json) ∈ reasoning.map ReasoningItem.entry :=
        List.mem_map_of_mem within
      rw [keepReasoning_reasoning, insert_of_lookup (nodup_entries distinct)
        (lookup_of_mem (nodup_entries distinct) entry)]
    · split at message
      · cases message
      · rw [List.mem_singleton.mp message]
        exact keepReasoning_other rfl rfl
  · obtain ⟨sent, _, rfl⟩ := List.mem_map.mp call
    exact keepReasoning_other rfl rfl

theorem aggregate_completed {seq : Json} {fields : List (String × Json)} {output : List Json} {used : List (String × Json)}
    (object : ObjectOf fields output used) (kept : output.foldlM keepReasoning acc.reasoningItems = .ok acc.reasoningItems)
    (usage : acc.usage = .obj []) :
    ∃ finish, aggregateEvent acc (.obj [("type", .str "response.completed"), ("sequence_number", seq),
      ("response", .obj fields)]) = .ok { acc with usage := .obj used, finishReason := finish } := by
  have full : (Json.obj fields).isObj = true := rfl
  have items : ((Json.obj fields).field "output").iterOr = .ok output := by
    rw [Json.field, Json.field?, object.output]
    cases output <;> rfl
  have counts : ((Json.obj fields).field "usage").orElse (.obj []) = .obj used := object.usage
  refine ⟨if ((Json.obj fields).field "status").isText "incomplete" then "length" else acc.finishReason, ?_⟩
  calc
    _ = (do
          let resp := (Json.obj fields).orDict
          let usage ← resp.get "usage"
          let output ← (resp.field "output").iterOr
          let items ← output.foldlM keepReasoning acc.reasoningItems
          pure { acc with
            usage := usage.orElse acc.usage
            reasoningItems := items
            finishReason := if (resp.field "status").isText "incomplete" then "length" else acc.finishReason }) := rfl
    _ = _ := by
      dsimp only
      rw [orDict_of_isObj full, Json.get_of_isObj full, items, usage]
      simp only [bind, Except.bind, kept, counts]
      rfl

end Completed

section Merging

variable {item : ReasoningItem} {part : Json}

/-- A part is found among the parts by its text. -/
theorem anyText_of_mem {text : String} {parts : List Json} (dicts : ∀ part ∈ parts, IsPart part) (mem : part ∈ parts)
    (same : part.field "text" = .str text) : anyText [.str text] parts = .ok true := by
  induction parts with
  | nil => cases mem
  | cons other parts ih =>
    have joined : join [.str text] = .ok text := by
      have := join_str [text]
      simpa using this
    rw [anyText, Json.get_of_isObj (dicts other List.mem_cons_self).1, joined]
    simp only [bind, Except.bind]
    cases found : (other.field "text").isText text with
    | true => rfl
    | false =>
      rcases List.mem_cons.mp mem with rfl | later
      · rw [same, Json.isText_str, decide_eq_true rfl] at found
        cases found
      · exact ih (fun part mem => dicts part (List.mem_cons_of_mem _ mem)) later

theorem mem_summaryEntries {id : String} {index : Nat} {parts : List Json} {entry : (Key × Key) × Summary}
    (mem : entry ∈ summaryEntries id index parts) :
    ∃ part ∈ parts, (part.field "text").truthy = true ∧ entry.2.parts = [part.field "text"] := by
  induction parts generalizing index with
  | nil => cases mem
  | cons part parts ih =>
    rw [summaryEntries] at mem
    rcases List.mem_append.mp mem with mem | mem
    · unfold summaryEntry at mem
      split at mem
      · rename_i full
        rw [List.mem_singleton.mp mem]
        exact ⟨part, List.mem_cons_self, full, rfl⟩
      · cases mem
    · obtain ⟨later, within, rest⟩ := ih mem
      exact ⟨later, List.mem_cons_of_mem _ within, rest⟩

/-- The final items have every text of the deltas. -/
theorem mergeSummary_entry {reasoning : List ReasoningItem} (distinct : (reasoning.map ReasoningItem.id).Nodup)
    {entry : (Key × Key) × Summary} (mem : entry ∈ (afterReasoning reasoning).summaries) :
    mergeSummary (reasoning.map ReasoningItem.entry) entry = .ok (reasoning.map ReasoningItem.entry) := by
  obtain ⟨item, within, mem⟩ := List.mem_flatMap.mp mem
  have key := fst_summaryEntries mem
  obtain ⟨part, partMem, full, parts⟩ := mem_summaryEntries mem
  obtain ⟨text, same⟩ := Json.text_of_isStr ((item.isPart part partMem).2 full)
  have found : (reasoning.map ReasoningItem.entry).lookup entry.1.1 = some item.json := by
    rw [key]
    exact lookup_of_mem (nodup_entries distinct) (List.mem_map_of_mem within)
  have any := anyText_of_mem item.isPart partMem same
  rw [mergeSummary, parts, same]
  simp only [found, Option.isSome_some, if_true, Option.getD_some, item.getD_summary]
  simp only [bind, Except.bind, Json.iter, any, if_true]
  rfl

theorem summaryTexts_json (item : ReasoningItem) : ∃ texts, summaryTexts item.json = .ok texts := by
  have texts : ∀ parts : List Json, (∀ part ∈ parts, IsPart part) →
      ∃ texts, parts.mapM (fun part => part.getD "text" (.str "")) = .ok texts := by
    intro parts dicts
    induction parts with
    | nil => exact ⟨[], rfl⟩
    | cons part parts ih =>
      obtain ⟨texts, rest⟩ := ih fun part mem => dicts part (List.mem_cons_of_mem _ mem)
      rw [List.mapM_cons, Json.getD_of_isObj (dicts part List.mem_cons_self).1, rest]
      exact ⟨_, rfl⟩
  obtain ⟨texts, read⟩ := texts item.parts item.isPart
  refine ⟨texts, ?_⟩
  rw [summaryTexts, item.getD_summary]
  exact read

theorem mapM_summaryTexts (reasoning : List ReasoningItem) :
    ∃ details, (reasoning.map ReasoningItem.entry).mapM (fun entry => summaryTexts entry.2) = .ok details := by
  induction reasoning with
  | nil => exact ⟨[], rfl⟩
  | cons item reasoning ih =>
    obtain ⟨details, rest⟩ := ih
    obtain ⟨texts, first⟩ := summaryTexts_json item
    refine ⟨texts :: details, ?_⟩
    rw [List.map_cons, List.mapM_cons, rest, ReasoningItem.entry, first]
    rfl

/-- The tool calls in the order of their items. -/
theorem toolCalls_afterCalls {sent : List (String × Call)} (distinct : (sent.map (·.1)).Nodup) (acc : Aggregate) :
    ((afterCalls acc sent).fcorder.filterMap fun iid => (afterCalls acc sent).fcalls.lookup iid).mapM toolCall =
      .ok ((sent.map (·.2)).map Call.received) := by
  have keys : ((sent.map callEntry).map (·.1)).Nodup := by
    rw [List.map_map]
    have : (Prod.fst ∘ callEntry) = Key.str ∘ Prod.fst := rfl
    rw [this, ← List.map_map]
    exact distinct.map fun a b same => Key.str.inj same
  have calls : (afterCalls acc sent).fcorder.filterMap (fun iid => (afterCalls acc sent).fcalls.lookup iid) =
      sent.map fun sent => (callEntry sent).2 := by
    rw [← List.filterMap_eq_map]
    unfold afterCalls
    rw [List.filterMap_map]
    refine List.filterMap_congr fun call mem => ?_
    exact lookup_of_mem keys (List.mem_map_of_mem mem)
  rw [calls]
  clear calls keys distinct
  induction sent with
  | nil => rfl
  | cons call sent ih =>
    have full : (Json.str call.2.sentArguments).truthy = true := by simpa [Json.truthy] using call.2.sentArguments_ne
    have first : toolCall (callEntry call).2 = .ok call.2.received := by
      calc
        _ = Except.ok (⟨.str call.2.id, .str call.2.name, (Json.str call.2.sentArguments).orElse (.str "\x7b\x7d")⟩ :
              ToolCall) := rfl
        _ = _ := by
          rw [Json.orElse, full, if_pos rfl]
          rfl
    rw [List.map_cons, List.mapM_cons, first, ih]
    rfl

end Merging

section Counts

theorem lookup_countIf (condition : Bool) (key other : String) (value : Json) :
    (countIf condition key value).lookup other = if other = key ∧ condition = true then some value else none := by
  unfold countIf
  by_cases same : other = key
  · subst same
    cases condition <;> simp
  · have : (other == key) = false := beq_eq_false_iff_ne.mpr same
    cases condition <;> simp [List.lookup_cons, this, same]

theorem getD_present (value : Json) : (if present value then some value else none).getD .null = value := by
  cases value <;> rfl

variable (resp : Json)

theorem get_tokensIn : (Json.obj (usage resp)).get "input_tokens" = .ok (resp.field "tokens_in") := by
  rw [Json.get_of_isObj rfl, Json.field, Json.field?, usage]
  simp [List.lookup_append, lookup_countIf, getD_present]

theorem get_tokensOut : (Json.obj (usage resp)).get "output_tokens" = .ok (resp.field "tokens_out") := by
  rw [Json.get_of_isObj rfl, Json.field, Json.field?, usage]
  simp [List.lookup_append, lookup_countIf, getD_present]

theorem get_tokensTotal : (Json.obj (usage resp)).get "total_tokens" = .ok (resp.field "tokens_total") := by
  rw [Json.get_of_isObj rfl, Json.field, Json.field?, usage]
  simp [List.lookup_append, lookup_countIf, getD_present]

theorem get_cost : (Json.obj (usage resp)).get "cost" = .ok .null := by
  rw [Json.get_of_isObj rfl, Json.field, Json.field?, usage]
  simp [List.lookup_append, lookup_countIf]

theorem get_reasoningTokens :
    ∃ value, ((Json.obj (usage resp)).field "output_tokens_details").orDict.get "reasoning_tokens" = .ok value := by
  rw [Json.field, Json.field?, usage]
  simp only [List.lookup_append, lookup_countIf]
  cases present (resp.field "tokens_reasoning") <;> exact ⟨_, rfl⟩

/-- A count of cached tokens that is zero was not sent. -/
theorem cachedTokens_usage : cachedTokens (.obj (usage resp)) =
    if (resp.field "tokens_cached").truthy then resp.field "tokens_cached" else .null := by
  have prompt : (Json.obj (usage resp)).field "prompt_tokens_details" = .null := by
    rw [Json.field, Json.field?, usage]
    simp [List.lookup_append, lookup_countIf]
  have plain : (Json.obj (usage resp)).field "cache_read_input_tokens" = .null := by
    rw [Json.field, Json.field?, usage]
    simp [List.lookup_append, lookup_countIf]
  have input : (Json.obj (usage resp)).field "input_tokens_details" =
      if (resp.field "tokens_cached").truthy then .obj [("cached_tokens", resp.field "tokens_cached")] else .null := by
    rw [Json.field, Json.field?, usage]
    simp only [List.lookup_append, lookup_countIf]
    cases (resp.field "tokens_cached").truthy <;> rfl
  rw [cachedTokens, prompt, plain, input]
  cases full : (resp.field "tokens_cached").truthy with
  | false => rfl
  | true =>
    have read : (Json.obj [("cached_tokens", resp.field "tokens_cached")]).field "cached_tokens" =
      resp.field "tokens_cached" := rfl
    simp only [if_true, read]
    cases shape : resp.field "tokens_cached" with
    | null =>
      rw [shape] at full
      cases full
    | _ => rfl

end Counts

section RoundTrip

/-- What is recovered of a result. -/
structure Recovers (result : Json) (text : String) (calls : List Call) (reasoning : List ReasoningItem)
    (response : Response) : Prop where
  text : response.text = text
  toolCalls : response.toolCalls = calls.map Call.received
  reasoningItems : response.reasoningItems = reasoning.map ReasoningItem.json
  tokensIn : response.tokensIn = (result.field "response").field "tokens_in"
  tokensOut : response.tokensOut = (result.field "response").field "tokens_out"
  tokensTotal : response.tokensTotal = (result.field "response").field "tokens_total"
  tokensCached : response.tokensCached = if ((result.field "response").field "tokens_cached").truthy then
    (result.field "response").field "tokens_cached" else .null

/-- The frames of an item: all with its output index, the last one with the item itself. -/
def FramesOf (item : Json × Nat) (block : List Frame) : Prop :=
  (∀ frame ∈ block, frame.data.field "output_index" = .int item.2) ∧
    ∃ before last, block = before ++ [last] ∧ last.event = "response.output_item.done" ∧ last.data.field "item" = item.1

/-- Consecutive sequence numbers, and output indices that run over the items. -/
structure Ordered (startSeq : Int) (output : List Json) (frames : List Frame) : Prop where
  sequence : ∀ (i : Nat) (frame : Frame), frames[i]? = some frame → frame.data.field "sequence_number" = .int (startSeq + i)
  items : ∃ blocks completed, frames = blocks.flatten ++ [completed] ∧ completed.event = "response.completed" ∧
    List.Forall₂ FramesOf output.zipIdx blocks

theorem framesOf_numbered {item : Json × Nat} {events : List Event} (block : Block item.2 item.1 events) (seq : Int) :
    FramesOf item (numbered seq events) := by
  obtain ⟨index, before, rfl⟩ := block
  refine ⟨fun frame mem => ?_, numbered seq before, _, numbered_append seq before _, rfl, rfl⟩
  obtain ⟨i, at_i⟩ := List.mem_iff_getElem?.mp mem
  rw [getElem?_numbered, Option.map_eq_some_iff] at at_i
  obtain ⟨ev, here, rfl⟩ := at_i
  have : ev.2.lookup "output_index" = some (.int item.2) := index ev (List.mem_of_getElem? here)
  simp [Json.field, Json.field?, List.lookup_cons, this]

theorem numbered_flatten (seq : Int) (blocks : List (List Event)) {items : List (Json × Nat)}
    (each : List.Forall₂ (fun item block => Block item.2 item.1 block) items blocks) :
    ∃ framed : List (List Frame), numbered seq blocks.flatten = framed.flatten ∧ List.Forall₂ FramesOf items framed := by
  induction each generalizing seq with
  | nil => exact ⟨[], rfl, .nil⟩
  | @cons item block items blocks first _ ih =>
    obtain ⟨framed, same, rest⟩ := ih (seq + block.length)
    refine ⟨numbered seq block :: framed, ?_, .cons (framesOf_numbered first seq) rest⟩
    rw [List.flatten_cons, numbered_append, same, List.flatten_cons]

/-- The aggregate once the items before the tool calls were read. -/
def beforeCalls (text : String) (reasoning : List ReasoningItem) : Aggregate :=
  { afterReasoning reasoning with textParts := if text = "" then [] else [.str text] }

/-- The items of a result, sent and read. -/
theorem sends_outputItems {ids : Ids} (distinct : Function.Injective ids.fc) (text : String) (calls : List Call)
    {reasoning : List ReasoningItem} (ids_distinct : (reasoning.map ReasoningItem.id).Nodup) :
    SendsItems 0 (outputItems ids text calls reasoning) .new
      (afterCalls (beforeCalls text reasoning) (named ids 0 calls)) := by
  have items : SendsItems 0 (reasoning.map ReasoningItem.json) .new (afterReasoning reasoning) :=
    sends_reasoningItems 0 [] reasoning ids_distinct
  have message : SendsItems (0 + (reasoning.map ReasoningItem.json).length)
      (if text = "" then [] else [messageItem ids (.str text)]) (afterReasoning reasoning)
      (beforeCalls text reasoning) := by
    unfold beforeCalls
    by_cases empty : text = ""
    · rw [if_pos empty, if_pos empty]
      exact .nil _ _
    · rw [if_neg empty, if_neg empty]
      exact .cons (sends_message ids _ empty) (.nil _ _)
  have tools (outIndex : Nat) : SendsItems outIndex ((named ids 0 calls).map callItem) (beforeCalls text reasoning)
      (afterCalls (beforeCalls text reasoning) (named ids 0 calls)) :=
    sends_calls (beforeCalls text reasoning) outIndex [] _ (nodup_named distinct 0 calls)
  exact (items.append message).append (tools _)

/-- The frames of the object of an ok result give the result back. -/
theorem responses_stream_round_trip (ids : Ids) (distinct : Function.Injective ids.fc) (requestedModel : String)
    (createdAt startSeq : Int) (result : Json) (text : String) (calls : List Call) (reasoning : List ReasoningItem)
    (ok : OkResult result text calls reasoning) :
    ∃ obj frames response, resultToResponsesObject ids requestedModel createdAt result = .ok obj ∧
      responsesSseEvents obj startSeq = .ok frames ∧
      aggregateCodexSse (frames.flatMap Frame.lines) = .ok (some response) ∧
      Recovers result text calls reasoning response ∧
      Ordered startSeq (outputItems ids text calls reasoning) frames := by
  obtain ⟨fields, built, object⟩ := object_of_okResult ids requestedModel createdAt ok
  obtain ⟨blocks, emits, each, fold⟩ := (sends_outputItems distinct text calls ok.distinct).blocks
  set acc := afterCalls (beforeCalls text reasoning) (named ids 0 calls) with accDef
  let events : List Event := blocks.flatten ++ [("response.completed", [("response", .obj fields)])]
  have output : ((Json.obj fields).field "output").iterOr = .ok (outputItems ids text calls reasoning) := by
    rw [Json.field, Json.field?, object.output]
    cases outputItems ids text calls reasoning <;> rfl
  have sent : responsesSseEvents (.obj fields) startSeq = .ok (numbered startSeq events) := by
    have all : Emits (do
        emitItems 0 (← (← (Json.obj fields).get "output").iterOr)
        emit "response.completed" [("response", .obj fields)]) events :=
      Emits.read (Json.get_of_isObj rfl _) (Emits.read output (emits.bind (emits_emit _ _)))
    rw [responsesSseEvents]
    dsimp only
    rw [all startSeq []]
    rfl
  have kept := keepReasoning_outputItems ids text calls ok.distinct
  obtain ⟨finish, completed⟩ : ∃ finish, aggregateEvent acc (.obj [("type", .str "response.completed"),
      ("sequence_number", .int (startSeq + blocks.flatten.length)), ("response", .obj fields)]) =
      .ok { acc with usage := .obj (usage (result.field "response")), finishReason := finish } :=
    aggregate_completed object kept rfl
  have lines : aggregateLines .new ((numbered startSeq events).flatMap Frame.lines) =
      .ok { acc with usage := .obj (usage (result.field "response")), finishReason := finish } := by
    rw [aggregateLines_frames, numbered_append, folds_append, fold]
    calc
      _ = aggregateEvent acc (.obj [("type", .str "response.completed"),
            ("sequence_number", .int (startSeq + blocks.flatten.length)), ("response", .obj fields)]) >>= pure := rfl
      _ = _ := by
        rw [completed]
        rfl
  have merged : acc.summaries.foldlM mergeSummary acc.reasoningItems = .ok acc.reasoningItems :=
    foldlM_same fun entry mem => mergeSummary_entry ok.distinct mem
  have tools : (acc.fcorder.filterMap fun iid => acc.fcalls.lookup iid).mapM toolCall = .ok (calls.map Call.received) := by
    have := toolCalls_afterCalls (nodup_named distinct 0 calls) (beforeCalls text reasoning)
    rwa [snd_named] at this
  have joined : join acc.textParts = .ok text := by
    by_cases empty : text = ""
    · simp [accDef, afterCalls, beforeCalls, empty, join]
      rfl
    · have := join_str [text]
      simpa [accDef, afterCalls, beforeCalls, empty] using this
  have details : ∃ details, acc.reasoningItems.mapM (fun entry => summaryTexts entry.2) = .ok details :=
    mapM_summaryTexts reasoning
  obtain ⟨details, texts⟩ := details
  obtain ⟨reasoningTokens, counted⟩ := get_reasoningTokens (result.field "response")
  let response : Response := {
    text := text
    toolCalls := calls.map Call.received
    finishReason := if (calls.map Call.received).isEmpty then finish else "tool_calls"
    tokensIn := (result.field "response").field "tokens_in"
    tokensOut := (result.field "response").field "tokens_out"
    tokensTotal := (result.field "response").field "tokens_total"
    tokensCached := cachedTokens (.obj (usage (result.field "response")))
    costReported := .null
    reasoningItems := (reasoning.map ReasoningItem.entry).map (·.2)
    reasoningDetails := details.flatten
    tokensReasoning := reasoningTokens }
  have folded : aggregateCodexSse ((numbered startSeq events).flatMap Frame.lines) = .ok (some response) := by
    have alive : acc.failed = false := rfl
    rw [aggregateCodexSse, lines]
    simp only [bind, Except.bind, alive, Bool.false_eq_true, if_false]
    rw [merged]
    simp only
    rw [tools]
    simp only
    rw [joined]
    simp only
    rw [texts]
    simp only
    rw [get_tokensIn, get_tokensOut, get_tokensTotal, get_cost, counted]
    rfl
  refine ⟨_, numbered startSeq events, response, built, sent, folded, ?_, ?_⟩
  · refine ⟨rfl, rfl, ?_, rfl, rfl, rfl, cachedTokens_usage _⟩
    calc
      _ = (reasoning.map ReasoningItem.entry).map (·.2) := rfl
      _ = _ := by
        rw [List.map_map]
        rfl
  · obtain ⟨framed, same, items⟩ := numbered_flatten startSeq blocks each
    have flat : numbered startSeq events = framed.flatten ++ [⟨"response.completed", .obj [("type",
        .str "response.completed"), ("sequence_number", .int (startSeq + blocks.flatten.length)),
        ("response", .obj fields)]⟩] := by
      rw [← same]
      exact numbered_append startSeq blocks.flatten _
    refine ⟨fun i frame at_i => ?_, framed, _, flat, rfl, items⟩
    rw [getElem?_numbered, Option.map_eq_some_iff] at at_i
    obtain ⟨ev, _, rfl⟩ := at_i
    rfl

/-- A thought with an empty part, then text and two calls, one without arguments. -/
def thought : ReasoningItem where
  id := "rs_1"
  fields := [("id", .str "rs_1"), ("type", .str "reasoning"), ("summary", .arr
    [.obj [("type", .str "summary_text"), ("text", .str "Look first.")], .obj [("type", .str "summary_text"), ("text", .str "")]])]
  parts := [.obj [("type", .str "summary_text"), ("text", .str "Look first.")],
    .obj [("type", .str "summary_text"), ("text", .str "")]]
  type := rfl
  identified := rfl
  summary := .inl rfl
  isPart := by
    intro part mem
    rcases List.mem_cons.mp mem with rfl | mem
    · exact ⟨rfl, fun _ => rfl⟩
    · rw [List.mem_singleton.mp mem]
      exact ⟨rfl, fun _ => rfl⟩

def lookups : List Call := [⟨"call_1", "weather", "\x7b\"city\": \"Lyon\"\x7d", by decide⟩, ⟨"call_2", "clock", "", by decide⟩]

def thoughtful : Json := .obj [("ok", .bool true), ("chosen", .null), ("response", .obj [("text", .str "Checking."),
  ("tool_calls", .arr (lookups.map Call.json)), ("reasoning_items", .arr [thought.json]),
  ("finish_reason", .str "tool_calls"), ("raw_model", .str "m"), ("tokens_in", .int 12), ("tokens_out", .int 0),
  ("tokens_cached", .int 4)])]

def countedIds : Ids := ⟨"resp_0", "msg_0", fun n => String.ofList (List.replicate n 'f'), fun _ => "call_0"⟩

theorem responses_stream_round_trip_thoughtful :
    ∃ obj frames response, resultToResponsesObject countedIds "" 0 thoughtful = .ok obj ∧
      responsesSseEvents obj 1 = .ok frames ∧ aggregateCodexSse (frames.flatMap Frame.lines) = .ok (some response) ∧
      Recovers thoughtful "Checking." lookups [thought] response ∧
      Ordered 1 (outputItems countedIds "Checking." lookups [thought]) frames := by
  refine responses_stream_round_trip countedIds (fun m n same => ?_) "" 0 1 thoughtful "Checking." lookups [thought]
    ⟨rfl, rfl, rfl, rfl, rfl, rfl, List.nodup_singleton _⟩
  have chars : List.replicate m 'f' = List.replicate n 'f' := String.ofList_injective same
  simpa using congrArg List.length chars

end RoundTrip

end Unhardcoded.Guarantees.ResponsesApi
