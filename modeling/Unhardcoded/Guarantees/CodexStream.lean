import Unhardcoded.Python.Dict
import Unhardcoded.Source.Adapters.Codex
import Unhardcoded.Source.SseLines

/-!
# What a Codex stream is decoded to

What a client expects of the events is said first: the text deltas, and for each
`function_call` item the arguments that come after it. The fold by item id keeps just that,
and a stream whose events are each on one line is read event by event.
-/

namespace Unhardcoded.Guarantees.CodexStream

open Unhardcoded.Python Unhardcoded.Source Unhardcoded.Source.CodexBackend Unhardcoded.Source.Adapters

section Expected

/-- The text of an event's field, where the event has the type. -/
def textOf (type name : String) (ev : Json) : Option String :=
  if (ev.field "type").isText type then
    match ev.field name with
    | .str text => some text
    | _ => none
  else none

/-- The text delta of an event, unless it is empty. -/
def deltaOf (ev : Json) : Option String := (textOf "response.output_text.delta" "delta" ev).filter (· ≠ "")

/-- The item that an event begins, if that is a function call. -/
def callOf (ev : Json) : Option (String × Json) :=
  if (ev.field "type").isText "response.output_item.added" && ((ev.field "item").field "type").isText "function_call" then
    match (ev.field "item").field "id" with
    | .str id => some (id, ev.field "item")
    | _ => none
  else none

/-- What an event says of the arguments of an item. -/
def saidOf (type name id : String) (ev : Json) : Option String :=
  if (ev.field "item_id").isText id then textOf type name ev else none

/-- The arguments of an item, from the events behind the one that begins it: those of the last `done`, else the deltas. -/
def finalArguments (id : String) (later : List Json) : String :=
  let text := ((later.filterMap (saidOf "response.function_call_arguments.done" "arguments" id)).getLast?).getD
    (String.join (later.filterMap (saidOf "response.function_call_arguments.delta" "delta" id)))
  if text = "" then "\x7b\x7d" else text

/-- The tool calls of the events, in the order in which their items begin. -/
def expectedCalls : List Json → List ToolCall
  | [] => []
  | ev :: later =>
    ((callOf ev).toList.map fun (id, item) =>
      ⟨(item.field "call_id").orElse (.str id), item.field "name", .str (finalArguments id later)⟩) ++ expectedCalls later

end Expected

section Upstream

/-- An event of a type. -/
structure Typed (ev : Json) (type : String) : Prop where
  isObj : ev.isObj = true
  type : ev.field "type" = .str type

/-- The summary of a reasoning item is a list of dictionaries, where there is one. -/
def Summarized (item : Json) : Prop :=
  item.isObj = true ∧ (item.field? "summary" = none ∨
    ∃ parts, item.field? "summary" = some (.arr parts) ∧ ∀ part ∈ parts, part.isObj = true)

/-- An output item. -/
structure IsItem (item : Json) : Prop where
  isObj : item.isObj = true
  call : (item.field "type").isText "function_call" = true → ∃ id, item.field "id" = .str id
  reasoning : (item.field "type").isText "reasoning" = true → (∃ id, item.field? "id" = some (.str id)) ∧ Summarized item

/-- A usage object. -/
def IsUsage (usage : Json) : Prop := usage.isObj = true ∧ Json.dictish (usage.field "output_tokens_details") = true

/-- The types that the fold knows, with those of a failure. -/
def knownTypes : List String :=
  ["response.output_text.delta", "response.reasoning_summary_text.delta", "response.output_item.done",
    "response.output_item.added", "response.function_call_arguments.delta", "response.function_call_arguments.done",
    "response.completed", "response.incomplete", "response.failed", "error"]

/-- An event that the service sends on a stream which does not fail. -/
inductive Upstream (ev : Json) : Prop where
  | text (typed : Typed ev "response.output_text.delta") (delta : String) (value : ev.field "delta" = .str delta)
  | summary (typed : Typed ev "response.reasoning_summary_text.delta") (id : String) (item : ev.field? "item_id" = some (.str id))
      (index : Int) (part : ev.field? "summary_index" = some (.int index)) (delta : String) (value : ev.field "delta" = .str delta)
  | itemDone (typed : Typed ev "response.output_item.done") (item : IsItem (ev.field "item"))
  | itemAdded (typed : Typed ev "response.output_item.added") (item : IsItem (ev.field "item"))
  | argumentsDelta (typed : Typed ev "response.function_call_arguments.delta") (id : String) (item : ev.field "item_id" = .str id)
      (delta : String) (value : ev.field "delta" = .str delta)
  | argumentsDone (typed : Typed ev "response.function_call_arguments.done") (id : String) (item : ev.field "item_id" = .str id)
      (text : String) (value : ev.field "arguments" = .str text)
  | completed (typed : Typed ev "response.completed") (response : (ev.field "response").isObj = true)
      (usage : (ev.field "response").field "usage" = .null ∨ IsUsage ((ev.field "response").field "usage"))
      (output : List Json) (items : (ev.field "response").field "output" = .arr output) (each : ∀ item ∈ output, IsItem item)
  | other (type : String) (typed : Typed ev type) (unknown : type ∉ knownTypes)

end Upstream

section Step

/-- What the fold holds beside the texts and the calls. -/
structure Steady (acc : Aggregate) : Prop where
  unfailed : acc.failed = false
  usage : IsUsage acc.usage
  reasoning : ∀ entry ∈ acc.reasoningItems, Summarized entry.2
  summaries : ∀ entry ∈ acc.summaries, ∃ texts : List String, entry.2.parts = texts.map Json.str

/-- An entry of `fcalls` behind an event. -/
def heard (ev : Json) (entry : Key × FunctionCall) : Key × FunctionCall :=
  match ev.field "item_id" with
  | .str id =>
    if entry.1 = .str id then
      match textOf "response.function_call_arguments.delta" "delta" ev, textOf "response.function_call_arguments.done" "arguments" ev with
      | some delta, _ => if delta = "" then entry else (entry.1, { entry.2 with args := entry.2.args ++ [.str delta] })
      | none, some text => (entry.1, { entry.2 with done := .str text })
      | none, none => entry
    else entry
  | _ => entry

/-- The entry that an event begins. -/
def begun (ev : Json) : Option (Key × FunctionCall) :=
  (callOf ev).map fun (id, item) => (.str id, ⟨(item.field "call_id").orElse (.str id), item.field "name", [], .null⟩)

/-- What an event makes of the fold. -/
structure Moves (ev : Json) (acc acc' : Aggregate) : Prop where
  texts : acc'.textParts = acc.textParts ++ (deltaOf ev).toList.map Json.str
  calls : acc'.fcalls = acc.fcalls.map (heard ev) ++ (begun ev).toList
  order : acc'.fcorder = acc.fcorder ++ (begun ev).toList.map (·.1)
  steady : Steady acc'

variable {ev : Json} {acc : Aggregate}

theorem textOf_other {type other name : String} (typed : Typed ev type) (differs : type ≠ other) : textOf other name ev = none := by
  unfold textOf
  rw [typed.type, Json.isText_str, decide_eq_false differs]
  rfl

theorem textOf_str {type name text : String} (typed : Typed ev type) (value : ev.field name = .str text) :
    textOf type name ev = some text := by
  unfold textOf
  rw [typed.type, Json.isText_str, decide_eq_true rfl, value]
  rfl

theorem deltaOf_other {type : String} (typed : Typed ev type) (differs : type ≠ "response.output_text.delta") : deltaOf ev = none := by
  unfold deltaOf
  rw [textOf_other typed differs]
  rfl

theorem callOf_other {type : String} (typed : Typed ev type) (differs : type ≠ "response.output_item.added") : callOf ev = none := by
  unfold callOf
  rw [typed.type, Json.isText_str, decide_eq_false differs]
  rfl

theorem heard_other {type : String} (typed : Typed ev type) (delta : type ≠ "response.function_call_arguments.delta")
    (done : type ≠ "response.function_call_arguments.done") (entry : Key × FunctionCall) : heard ev entry = entry := by
  unfold heard
  split
  · rw [textOf_other typed delta, textOf_other typed done]
    simp
  · rfl

/-- An event that leaves the texts and the calls. -/
theorem moves_quiet {type : String} (typed : Typed ev type) (text : type ≠ "response.output_text.delta")
    (added : type ≠ "response.output_item.added") (delta : type ≠ "response.function_call_arguments.delta")
    (done : type ≠ "response.function_call_arguments.done") {acc' : Aggregate} (texts : acc'.textParts = acc.textParts)
    (calls : acc'.fcalls = acc.fcalls) (order : acc'.fcorder = acc.fcorder) (steady : Steady acc') : Moves ev acc acc' := by
  have same : acc.fcalls.map (heard ev) = acc.fcalls := by
    calc
      _ = acc.fcalls.map id := List.map_congr_left fun entry _ => heard_other typed delta done entry
      _ = acc.fcalls := List.map_id _
  constructor
  case texts => rw [texts, deltaOf_other typed text]; simp
  case calls => rw [calls, same, begun, callOf_other typed added]; simp
  case order => rw [order, begun, callOf_other typed added]; simp
  case steady => exact steady

theorem filter_full {text : String} (full : text ≠ "") : (some text).filter (· ≠ "") = some text := by
  simp [Option.filter_some, full]

theorem moves_text (steady : Steady acc) (typed : Typed ev "response.output_text.delta") {delta : String}
    (value : ev.field "delta" = .str delta) : ∃ acc', aggregateEvent acc ev = .ok acc' ∧ Moves ev acc acc' := by
  have read : aggregateEvent acc ev =
      .ok (if (Json.str delta).truthy then { acc with textParts := acc.textParts ++ [.str delta] } else acc) := by
    unfold aggregateEvent
    rw [Json.get_of_isObj typed.isObj, typed.type, value]
    rfl
  have calls : acc.fcalls.map (heard ev) ++ (begun ev).toList = acc.fcalls := by
    rw [begun, callOf_other typed (by decide)]
    calc
      _ = acc.fcalls.map id ++ [] := by
        congr 1
        exact List.map_congr_left fun entry _ => heard_other typed (by decide) (by decide) entry
      _ = acc.fcalls := by simp
  have order : acc.fcorder ++ (begun ev).toList.map (·.1) = acc.fcorder := by
    rw [begun, callOf_other typed (by decide)]
    simp
  have told : deltaOf ev = (some delta).filter (· ≠ "") := by rw [deltaOf, textOf_str typed value]
  by_cases full : delta = ""
  · refine ⟨acc, by rw [read, full]; rfl, ?_, calls.symm, order.symm, steady⟩
    rw [told, full]
    simp
  · refine ⟨{ acc with textParts := acc.textParts ++ [.str delta] }, ?_, ?_, calls.symm, order.symm, ?_⟩
    · rw [read, if_pos (by simp [Json.truthy, full])]
    · rw [told, filter_full full]
      rfl
    · exact ⟨steady.unfailed, steady.usage, steady.reasoning, steady.summaries⟩

theorem addSummary_parts {key : Key × Key} {itemId : Json} {delta : String} {summaries : List ((Key × Key) × Summary)}
    (each : ∀ entry ∈ summaries, ∃ texts : List String, entry.2.parts = texts.map Json.str) :
    ∀ entry ∈ addSummary key itemId (.str delta) summaries, ∃ texts : List String, entry.2.parts = texts.map Json.str := by
  intro entry mem
  unfold addSummary at mem
  split at mem
  · rename_i summary found
    rcases mem_insert mem with rfl | old
    · obtain ⟨before, after, split, -⟩ := List.lookup_eq_some_iff.mp found
      obtain ⟨texts, parts⟩ := each (key, summary) (by rw [split]; exact List.mem_append_right _ List.mem_cons_self)
      exact ⟨texts ++ [delta], by rw [List.map_append]; exact congrArg (· ++ [Json.str delta]) parts⟩
    · exact each entry old.1
  · rcases List.mem_append.mp mem with old | new
    · exact each entry old
    · rw [List.mem_singleton.mp new]
      exact ⟨[delta], rfl⟩

theorem moves_summary (steady : Steady acc) (typed : Typed ev "response.reasoning_summary_text.delta") {id : String}
    (item : ev.field? "item_id" = some (.str id)) {index : Int} (part : ev.field? "summary_index" = some (.int index))
    {delta : String} (value : ev.field "delta" = .str delta) : ∃ acc', aggregateEvent acc ev = .ok acc' ∧ Moves ev acc acc' := by
  have text : (Json.str delta).orElse (.str "") = .str delta := by
    unfold Json.orElse
    split
    · rfl
    · rename_i empty
      have : delta = "" := by simpa [Json.truthy] using empty
      rw [this]
  refine ⟨{ acc with summaries := addSummary (.str id, .num index) (.str id) (.str delta) acc.summaries }, ?_, ?_⟩
  · unfold aggregateEvent
    rw [Json.get_of_isObj typed.isObj, typed.type, value, text, Json.getD_of_isObj typed.isObj, Json.getD_of_isObj typed.isObj, item,
      part]
    rfl
  · refine moves_quiet typed (by decide) (by decide) (by decide) (by decide) rfl rfl rfl ?_
    exact ⟨steady.unfailed, steady.usage, steady.reasoning, addSummary_parts steady.summaries⟩

/-- A reasoning item is kept under its id, another item is not. -/
theorem keepReasoning_item {items : List (Key × Json)} (each : ∀ entry ∈ items, Summarized entry.2) {item : Json} (ok : IsItem item) :
    ∃ items', keepReasoning items item = .ok items' ∧ ∀ entry ∈ items', Summarized entry.2 := by
  unfold keepReasoning
  rw [Json.get_of_isObj ok.isObj]
  cases type : (item.field "type").isText "reasoning" with
  | false => exact ⟨items, by simp [bind, Except.bind, type]; rfl, each⟩
  | true =>
    obtain ⟨⟨id, identified⟩, summarized⟩ := ok.reasoning type
    refine ⟨insert (.str id) item items, ?_, fun entry mem => ?_⟩
    · rw [Json.getD_of_isObj ok.isObj, identified]
      simp only [bind, Except.bind, type, if_true]
      rfl
    · rcases mem_insert mem with rfl | old
      · exact summarized
      · exact each entry old.1

theorem orDict_item {item : Json} (h : item.isObj = true) : item.orDict = item := by
  cases item with
  | obj fields => cases fields <;> rfl
  | _ => cases h

theorem moves_itemDone (steady : Steady acc) (typed : Typed ev "response.output_item.done") (item : IsItem (ev.field "item")) :
    ∃ acc', aggregateEvent acc ev = .ok acc' ∧ Moves ev acc acc' := by
  obtain ⟨items, kept, summarized⟩ := keepReasoning_item steady.reasoning item
  refine ⟨{ acc with reasoningItems := items }, ?_, ?_⟩
  · unfold aggregateEvent
    rw [Json.get_of_isObj typed.isObj, typed.type, orDict_item item.isObj, kept]
    rfl
  · refine moves_quiet typed (by decide) (by decide) (by decide) (by decide) rfl rfl rfl ?_
    exact ⟨steady.unfailed, steady.usage, summarized, steady.summaries⟩

theorem moves_itemAdded (steady : Steady acc) (typed : Typed ev "response.output_item.added") (item : IsItem (ev.field "item"))
    (fresh : ∀ entry ∈ begun ev, acc.fcalls.lookup entry.1 = none) :
    ∃ acc', aggregateEvent acc ev = .ok acc' ∧ Moves ev acc acc' := by
  have texts : acc.textParts = acc.textParts ++ (deltaOf ev).toList.map Json.str := by
    rw [deltaOf_other typed (by decide)]
    simp
  have same : acc.fcalls.map (heard ev) = acc.fcalls := by
    calc
      _ = acc.fcalls.map id := List.map_congr_left fun entry _ => heard_other typed (by decide) (by decide) entry
      _ = acc.fcalls := List.map_id _
  have told : callOf ev = if ((ev.field "item").field "type").isText "function_call" = true then
      match (ev.field "item").field "id" with
      | .str id => some (id, ev.field "item")
      | _ => none
    else none := by
    unfold callOf
    rw [typed.type, Json.isText_str, decide_eq_true rfl, Bool.true_and]
  cases type : ((ev.field "item").field "type").isText "function_call" with
  | false =>
    have none : begun ev = none := by
      rw [begun, told, type]
      rfl
    refine ⟨acc, ?_, texts, ?_, ?_, steady⟩
    · unfold aggregateEvent
      rw [Json.get_of_isObj typed.isObj, typed.type]
      simp only [bind, Except.bind, orDict_item item.isObj, Json.get_of_isObj item.isObj, type, Bool.false_eq_true, if_false]
      rfl
    · rw [none, same]
      simp
    · rw [none]
      simp
  | true =>
    obtain ⟨id, identified⟩ := item.call type
    have entry : begun ev = some (.str id, ⟨((ev.field "item").field "call_id").orElse (.str id), (ev.field "item").field "name", [],
        .null⟩) := by
      rw [begun, told, type, if_pos rfl, identified]
      rfl
    have absent := fresh _ entry
    refine ⟨{ acc with
      fcalls := insert (.str id) ⟨((ev.field "item").field "call_id").orElse (.str id), (ev.field "item").field "name", [], .null⟩
        acc.fcalls
      fcorder := acc.fcorder ++ [.str id] }, ?_, texts, ?_, ?_, ?_⟩
    · unfold aggregateEvent
      rw [Json.get_of_isObj typed.isObj, typed.type]
      simp only [bind, Except.bind, orDict_item item.isObj, Json.get_of_isObj item.isObj, type, if_true, identified]
      rfl
    · rw [insert_of_absent absent, entry, same]
      rfl
    · rw [entry]
      rfl
    · exact ⟨steady.unfailed, steady.usage, steady.reasoning, steady.summaries⟩

/-- An entry is written again where there is one. -/
theorem rewritten {d : List (Key × FunctionCall)} (distinct : (d.map (·.1)).Nodup) (key : Key) (f : FunctionCall → FunctionCall) :
    ((d.lookup key).elim d fun call => insert key (f call) d) = d.map fun e => if e.1 = key then (e.1, f e.2) else e := by
  cases found : d.lookup key with
  | none =>
    calc
      _ = d.map id := (List.map_id d).symm
      _ = _ := List.map_congr_left fun e mem => (if_neg fun same => by
        obtain ⟨value, present⟩ := exists_lookup (List.mem_map_of_mem (f := Prod.fst) mem)
        rw [same, found] at present
        cases present).symm
  | some call =>
    rw [Option.elim_some, Python.insert, found, Option.isSome_some, if_pos rfl]
    refine List.map_congr_left fun e mem => ?_
    by_cases same : e.1 = key
    · have here := lookup_of_mem distinct mem
      rw [same, found] at here
      rw [if_pos same, if_pos same, same, Option.some.inj here]
    · rw [if_neg same, if_neg same]

/-- A call behind a delta of its arguments. -/
def spoken (delta : String) (call : FunctionCall) : FunctionCall :=
  if delta = "" then call else { call with args := call.args ++ [.str delta] }

theorem moves_argumentsDelta (steady : Steady acc) (distinct : (acc.fcalls.map (·.1)).Nodup)
    (typed : Typed ev "response.function_call_arguments.delta") {id : String} (item : ev.field "item_id" = .str id) {delta : String}
    (value : ev.field "delta" = .str delta) : ∃ acc', aggregateEvent acc ev = .ok acc' ∧ Moves ev acc acc' := by
  have hears : heard ev = fun e => if e.1 = .str id then (e.1, spoken delta e.2) else e := by
    funext e
    unfold heard spoken
    rw [item, textOf_str typed value]
    by_cases empty : delta = ""
    · simp [empty]
    · simp [empty]
  refine ⟨{ acc with fcalls := acc.fcalls.map (heard ev) }, ?_, ?_, ?_, ?_, ?_⟩
  · rw [hears, ← rewritten distinct (.str id) (spoken delta)]
    unfold aggregateEvent spoken
    rw [Json.get_of_isObj typed.isObj, typed.type, item, value]
    simp only [bind, Except.bind, Json.key]
    cases found : acc.fcalls.lookup (.str id) with
    | none => rfl
    | some call =>
      by_cases empty : delta = ""
      · have falsy : (Json.str delta).truthy = false := by simp [Json.truthy, empty]
        simp only [falsy, Bool.false_eq_true, if_false, if_pos empty, Option.elim_some]
        rw [insert_of_lookup distinct found]
        rfl
      · have full : (Json.str delta).truthy = true := by simp [Json.truthy, empty]
        simp only [full, if_true, if_neg empty, Option.elim_some]
        rfl
  · rw [deltaOf_other typed (by decide)]
    simp
  · rw [begun, callOf_other typed (by decide)]
    simp
  · rw [begun, callOf_other typed (by decide)]
    simp
  · exact ⟨steady.unfailed, steady.usage, steady.reasoning, steady.summaries⟩

theorem moves_argumentsDone (steady : Steady acc) (distinct : (acc.fcalls.map (·.1)).Nodup)
    (typed : Typed ev "response.function_call_arguments.done") {id : String} (item : ev.field "item_id" = .str id) {text : String}
    (value : ev.field "arguments" = .str text) : ∃ acc', aggregateEvent acc ev = .ok acc' ∧ Moves ev acc acc' := by
  have hears : heard ev = fun e => if e.1 = .str id then (e.1, { e.2 with done := .str text }) else e := by
    funext e
    unfold heard
    rw [item, textOf_other typed (by decide), textOf_str typed value]
  refine ⟨{ acc with fcalls := acc.fcalls.map (heard ev) }, ?_, ?_, ?_, ?_, ?_⟩
  · rw [hears, ← rewritten distinct (.str id) fun call => { call with done := .str text }]
    unfold aggregateEvent
    rw [Json.get_of_isObj typed.isObj, typed.type, item, value]
    simp only [bind, Except.bind, Json.key]
    cases found : acc.fcalls.lookup (.str id) with
    | none => rfl
    | some call => rfl
  · rw [deltaOf_other typed (by decide)]
    simp
  · rw [begun, callOf_other typed (by decide)]
    simp
  · rw [begun, callOf_other typed (by decide)]
    simp
  · exact ⟨steady.unfailed, steady.usage, steady.reasoning, steady.summaries⟩

theorem keepReasoning_output {items : List (Key × Json)} (each : ∀ entry ∈ items, Summarized entry.2) {output : List Json}
    (ok : ∀ item ∈ output, IsItem item) :
    ∃ items', output.foldlM keepReasoning items = .ok items' ∧ ∀ entry ∈ items', Summarized entry.2 := by
  induction output generalizing items with
  | nil => exact ⟨items, rfl, each⟩
  | cons item output ih =>
    obtain ⟨mid, kept, summarized⟩ := keepReasoning_item each (ok item List.mem_cons_self)
    obtain ⟨items', rest, last⟩ := ih summarized fun other mem => ok other (List.mem_cons_of_mem _ mem)
    refine ⟨items', ?_, last⟩
    rw [List.foldlM_cons, kept]
    exact rest

theorem moves_completed (steady : Steady acc) (typed : Typed ev "response.completed") (response : (ev.field "response").isObj = true)
    (usage : (ev.field "response").field "usage" = .null ∨ IsUsage ((ev.field "response").field "usage")) {output : List Json}
    (items : (ev.field "response").field "output" = .arr output) (each : ∀ item ∈ output, IsItem item) :
    ∃ acc', aggregateEvent acc ev = .ok acc' ∧ Moves ev acc acc' := by
  obtain ⟨kept, read, summarized⟩ := keepReasoning_output steady.reasoning each
  have elements : (Json.arr output).iterOr = .ok output := by
    cases output with
    | nil => rfl
    | cons item output => rfl
  have used : IsUsage (((ev.field "response").field "usage").orElse acc.usage) := by
    unfold Json.orElse
    split
    · rename_i full
      rcases usage with none | ok
      · rw [none] at full
        cases full
      · exact ok
    · exact steady.usage
  refine ⟨{ acc with
    usage := ((ev.field "response").field "usage").orElse acc.usage
    reasoningItems := kept
    finishReason := if ((ev.field "response").field "status").isText "incomplete" then "length" else acc.finishReason }, ?_, ?_⟩
  · unfold aggregateEvent
    rw [Json.get_of_isObj typed.isObj, typed.type]
    simp only [bind, Except.bind, orDict_item response, Json.get_of_isObj response, items, elements, read]
    rfl
  · refine moves_quiet typed (by decide) (by decide) (by decide) (by decide) rfl rfl rfl ?_
    exact ⟨steady.unfailed, used, summarized, steady.summaries⟩

theorem moves_other (steady : Steady acc) {type : String} (typed : Typed ev type) (unknown : type ∉ knownTypes) :
    ∃ acc', aggregateEvent acc ev = .ok acc' ∧ Moves ev acc acc' := by
  have differs (known : String) (mem : known ∈ knownTypes) : type ≠ known := fun same => unknown (same ▸ mem)
  refine ⟨acc, ?_, ?_⟩
  · unfold aggregateEvent
    rw [Json.get_of_isObj typed.isObj, typed.type]
    simp only [bind, Except.bind]
    split
    all_goals first
      | rfl
      | (rename_i same; exact absurd (Json.str.inj same) (differs _ (by decide)))
  · exact moves_quiet typed (differs _ (by decide)) (differs _ (by decide)) (differs _ (by decide)) (differs _ (by decide)) rfl rfl
      rfl steady

/-- One event, whatever it is. -/
theorem moves_event (steady : Steady acc) (distinct : (acc.fcalls.map (·.1)).Nodup) (upstream : Upstream ev)
    (fresh : ∀ entry ∈ begun ev, acc.fcalls.lookup entry.1 = none) :
    ∃ acc', aggregateEvent acc ev = .ok acc' ∧ Moves ev acc acc' := by
  cases upstream with
  | text typed delta value => exact moves_text steady typed value
  | summary typed id item index part delta value => exact moves_summary steady typed item part value
  | itemDone typed item => exact moves_itemDone steady typed item
  | itemAdded typed item => exact moves_itemAdded steady typed item fresh
  | argumentsDelta typed id item delta value => exact moves_argumentsDelta steady distinct typed item value
  | argumentsDone typed id item text value => exact moves_argumentsDone steady distinct typed item value
  | completed typed response usage output items each => exact moves_completed steady typed response usage items each
  | other type typed unknown => exact moves_other steady typed unknown

end Step

section Fold

/-- The entries that a list of events begins, each behind the events that follow. -/
def laterCalls : List Json → List (Key × FunctionCall)
  | [] => []
  | ev :: later => ((begun ev).toList.map fun e => later.foldl (fun e ev => heard ev e) e) ++ laterCalls later

theorem fst_heard (ev : Json) (entry : Key × FunctionCall) : (heard ev entry).1 = entry.1 := by
  unfold heard
  split
  · split
    · split
      · split <;> rfl
      · rfl
      · rfl
    · rfl
  · rfl

theorem keys_heard (ev : Json) (calls : List (Key × FunctionCall)) : (calls.map (heard ev)).map (·.1) = calls.map (·.1) := by
  rw [List.map_map]
  exact List.map_congr_left fun entry _ => fst_heard ev entry

/-- The ids of the calls that the events begin. -/
def begunKeys (events : List Json) : List Key := events.flatMap fun ev => (begun ev).toList.map (·.1)

/-- The fold over all events. -/
theorem fold_events {acc : Aggregate} (steady : Steady acc) (ordered : acc.fcorder = acc.fcalls.map (·.1)) {events : List Json}
    (upstream : ∀ ev ∈ events, Upstream ev) (distinct : (acc.fcalls.map (·.1) ++ begunKeys events).Nodup) :
    ∃ acc', events.foldlM aggregateEvent acc = .ok acc' ∧ Steady acc' ∧
      acc'.textParts = acc.textParts ++ (events.filterMap deltaOf).map Json.str ∧
      acc'.fcalls = (acc.fcalls.map fun e => events.foldl (fun e ev => heard ev e) e) ++ laterCalls events ∧
      acc'.fcorder = acc'.fcalls.map (·.1) ∧ (acc'.fcalls.map (·.1)).Nodup := by
  induction events generalizing acc with
  | nil => exact ⟨acc, rfl, steady, by simp, by simp [laterCalls], ordered, by simpa [begunKeys] using distinct⟩
  | cons ev later ih =>
    have fresh : ∀ entry ∈ begun ev, acc.fcalls.lookup entry.1 = none := by
      intro entry here
      refine Option.eq_none_iff_forall_ne_some.mpr fun call found => ?_
      have old : entry.1 ∈ acc.fcalls.map (·.1) := List.mem_map.mpr ⟨_, mem_of_lookup found, rfl⟩
      have new : entry.1 ∈ begunKeys (ev :: later) := by
        unfold begunKeys
        rw [List.flatMap_cons, Option.mem_def.mp here]
        exact List.mem_append_left _ List.mem_cons_self
      exact (List.nodup_append.mp distinct).2.2 _ old _ new rfl
    obtain ⟨mid, read, moves⟩ := moves_event steady (List.nodup_append.mp distinct).1 (upstream ev List.mem_cons_self) fresh
    have keys : mid.fcalls.map (·.1) = acc.fcalls.map (·.1) ++ (begun ev).toList.map (·.1) := by
      rw [moves.calls, List.map_append, keys_heard]
    have ordered' : mid.fcorder = mid.fcalls.map (·.1) := by rw [moves.order, ordered, keys]
    have distinct' : (mid.fcalls.map (·.1) ++ begunKeys later).Nodup := by
      rw [keys, List.append_assoc]
      exact distinct
    obtain ⟨acc', rest, steady', texts, calls, order, nodup⟩ :=
      ih moves.steady ordered' (fun e mem => upstream e (List.mem_cons_of_mem _ mem)) distinct'
    refine ⟨acc', ?_, steady', ?_, ?_, order, nodup⟩
    · rw [List.foldlM_cons, read]
      exact rest
    · rw [texts, moves.texts, List.append_assoc, ← List.map_append]
      cases told : deltaOf ev with
      | none => simp [told]
      | some delta => simp [told]
    · rw [calls, moves.calls, List.map_append, List.map_map, List.append_assoc]
      rfl

/-- What an event tells one call. -/
theorem heard_call (ev : Json) (id : String) (call : FunctionCall) :
    heard ev (.str id, call) = (.str id, { call with
      args := call.args ++ ((saidOf "response.function_call_arguments.delta" "delta" id ev).toList.filter (· ≠ "")).map Json.str
      done := (saidOf "response.function_call_arguments.done" "arguments" id ev).elim call.done Json.str }) := by
  unfold heard saidOf
  cases item : ev.field "item_id" with
  | str other =>
    rw [Json.isText_str]
    by_cases same : other = id
    · subst same
      simp only [decide_true, if_true]
      cases delta : textOf "response.function_call_arguments.delta" "delta" ev with
      | some text =>
        have done : textOf "response.function_call_arguments.done" "arguments" ev = none := by
          unfold textOf at delta ⊢
          split at delta
          · rename_i type
            rw [(Json.isText_iff _).mp type, Json.isText_str]
            rfl
          · cases delta
        rw [done]
        by_cases empty : text = ""
        · simp [empty]
        · simp [empty]
      | none =>
        cases done : textOf "response.function_call_arguments.done" "arguments" ev with
        | some text => simp
        | none => simp
    · simp [same, Ne.symm same]
  | _ => simp [Json.isText]

/-- What a list of events tells one call. -/
theorem foldl_heard (later : List Json) (id : String) (call : FunctionCall) :
    later.foldl (fun e ev => heard ev e) (.str id, call) = (.str id, { call with
      args := call.args ++
        ((later.filterMap (saidOf "response.function_call_arguments.delta" "delta" id)).filter (· ≠ "")).map Json.str
      done := (later.filterMap (saidOf "response.function_call_arguments.done" "arguments" id)).getLast?.elim call.done Json.str }) := by
  induction later generalizing call with
  | nil => simp
  | cons ev later ih =>
    rw [List.foldl_cons, heard_call, ih]
    congr 2
    · cases delta : saidOf "response.function_call_arguments.delta" "delta" id ev with
      | none => simp [delta]
      | some text =>
        by_cases empty : text = ""
        · simp [delta, empty]
        · simp [delta, empty]
    · cases done : saidOf "response.function_call_arguments.done" "arguments" id ev with
      | none => simp [done]
      | some text =>
        rw [List.filterMap_cons, done]
        simp only [Option.elim_some]
        rw [List.getLast?_cons]
        cases (later.filterMap (saidOf "response.function_call_arguments.done" "arguments" id)).getLast? with
        | none => rfl
        | some last => rfl

end Fold

section Result

theorem join_filter (texts : List String) : String.join (texts.filter (· ≠ "")) = String.join texts := by
  induction texts with
  | nil => rfl
  | cons text texts ih =>
    by_cases empty : text = ""
    · rw [List.filter_cons_of_neg (by simp [empty]), ih, String.join_cons, empty, String.empty_append]
    · rw [List.filter_cons_of_pos (by simp [empty]), String.join_cons, String.join_cons, ih]

/-- The tool call of an item, from the events behind it. -/
theorem toolCall_later (later : List Json) (id : String) (callId name : Json) :
    toolCall (later.foldl (fun e ev => heard ev e) (Key.str id, ⟨callId, name, [], .null⟩)).2 =
      .ok ⟨callId, name, .str (finalArguments id later)⟩ := by
  have text (arguments : String) : (Json.str arguments).orElse (.str "\x7b\x7d") =
      .str (if arguments = "" then "\x7b\x7d" else arguments) := by
    unfold Json.orElse
    by_cases empty : arguments = ""
    · simp [Json.truthy, empty]
    · simp [Json.truthy, empty]
  rw [foldl_heard]
  unfold toolCall finalArguments
  rw [List.nil_append]
  cases (later.filterMap (saidOf "response.function_call_arguments.done" "arguments" id)).getLast? with
  | some arguments =>
    simp only [Option.elim_some, Option.getD_some]
    rw [← text]
    rfl
  | none =>
    simp only [Option.elim_none, Option.getD_none]
    rw [← text, ← join_filter, join_str]
    rfl

theorem mapM_laterCalls (events : List Json) : ((laterCalls events).map (·.2)).mapM toolCall = .ok (expectedCalls events) := by
  induction events with
  | nil => rfl
  | cons ev later ih =>
    unfold laterCalls expectedCalls
    rw [List.map_append, begun]
    cases callOf ev with
    | none => exact ih
    | some found =>
      simp only [Option.map_some, Option.toList_some, List.map_cons, List.map_nil, List.cons_append, List.nil_append,
        List.mapM_cons, toolCall_later, ih]
      rfl

theorem filterMap_lookup {calls : List (Key × FunctionCall)} (distinct : (calls.map (·.1)).Nodup) :
    (calls.map (·.1)).filterMap (fun iid => calls.lookup iid) = calls.map (·.2) := by
  rw [List.filterMap_map, ← List.filterMap_eq_map]
  exact List.filterMap_congr fun entry mem => lookup_of_mem distinct mem

/-- The parts of a summary, none where there is no summary. -/
theorem summary_parts {item : Json} (summarized : Summarized item) :
    ∃ fields parts, item = .obj fields ∧ item.getD "summary" (.arr []) = .ok (.arr parts) ∧
      (∀ part ∈ parts, part.isObj = true) ∧
      (fields.lookup "summary" = none ∧ parts = [] ∨ fields.lookup "summary" = some (.arr parts)) := by
  obtain ⟨isObj, kept⟩ := summarized
  cases item with
  | obj fields =>
    rcases kept with none | ⟨parts, found, dicts⟩
    · refine ⟨fields, [], rfl, ?_, by simp, .inl ⟨none, rfl⟩⟩
      rw [Json.getD_of_isObj rfl, none]
      rfl
    · refine ⟨fields, parts, rfl, ?_, dicts, .inr found⟩
      rw [Json.getD_of_isObj rfl, found]
      rfl
  | _ => cases isObj

theorem anyText_ok (texts : List String) {parts : List Json} (dicts : ∀ part ∈ parts, part.isObj = true) :
    ∃ b, anyText (texts.map Json.str) parts = .ok b := by
  induction parts with
  | nil => exact ⟨false, rfl⟩
  | cons part parts ih =>
    obtain ⟨b, rest⟩ := ih fun p mem => dicts p (List.mem_cons_of_mem _ mem)
    rw [anyText, Json.get_of_isObj (dicts part List.mem_cons_self), join_str, rest]
    simp only [bind, Except.bind]
    split
    · exact ⟨true, rfl⟩
    · exact ⟨b, rfl⟩

/-- The deltas of a summary are merged. -/
theorem mergeSummary_ok {items : List (Key × Json)} (each : ∀ entry ∈ items, Summarized entry.2) {entry : (Key × Key) × Summary}
    {texts : List String} (parts : entry.2.parts = texts.map Json.str) :
    ∃ items', mergeSummary items entry = .ok items' ∧ ∀ e ∈ items', Summarized e.2 := by
  have present : ∃ items₁ item, (if (items.lookup entry.1.1).isSome then items else insert entry.1.1
        (Json.obj [("id", entry.2.itemId), ("type", .str "reasoning"), ("summary", .arr [])]) items) = items₁ ∧
      (items₁.lookup entry.1.1).getD .null = item ∧ Summarized item ∧ ∀ e ∈ items₁, Summarized e.2 := by
    cases found : items.lookup entry.1.1 with
    | some item => exact ⟨items, item, rfl, by rw [found]; rfl, each _ (mem_of_lookup found), each⟩
    | none =>
      refine ⟨_, _, rfl, by simp only [Option.isSome_none, Bool.false_eq_true, if_false, lookup_insert_self]; rfl, ?_, ?_⟩
      · exact ⟨rfl, .inr ⟨[], rfl, by simp⟩⟩
      · intro e mem
        rcases mem_insert mem with rfl | old
        · exact ⟨rfl, .inr ⟨[], rfl, by simp⟩⟩
        · exact each e old.1
  obtain ⟨items₁, item, opened, here, summarized, each₁⟩ := present
  obtain ⟨fields, said, shape, read, dicts, stored⟩ := summary_parts summarized
  obtain ⟨b, any⟩ := anyText_ok texts dicts
  have written (summary : List Json) (parts' : ∀ part ∈ summary, part.isObj = true) :
      ∀ e ∈ insert entry.1.1 (.obj (insert "partial" (.bool true) (insert "summary" (.arr summary) fields))) items₁,
        Summarized e.2 := by
    intro e mem
    rcases mem_insert mem with rfl | old
    · refine ⟨rfl, .inr ⟨summary, ?_, parts'⟩⟩
      rw [Json.field?, lookup_insert_of_ne (by decide), lookup_insert_self]
    · exact each₁ e old.1
  unfold mergeSummary
  simp only [opened, here, read, parts, any, bind, Except.bind, Json.iter, join_str]
  cases b with
  | true => exact ⟨items₁, rfl, each₁⟩
  | false =>
    simp only [Bool.false_eq_true, if_false]
    split
    · subst shape
      rcases stored with ⟨none, rfl⟩ | found
      · rw [Json.field?, none]
        exact ⟨_, rfl, written _ (by simp [Json.isObj])⟩
      · rw [Json.field?, found]
        exact ⟨_, rfl, written _ (List.forall_mem_append.mpr ⟨dicts, by simp [Json.isObj]⟩)⟩
    · exact ⟨items₁, rfl, each₁⟩

theorem mergeSummaries_ok {items : List (Key × Json)} (each : ∀ entry ∈ items, Summarized entry.2)
    {summaries : List ((Key × Key) × Summary)}
    (parts : ∀ entry ∈ summaries, ∃ texts : List String, entry.2.parts = texts.map Json.str) :
    ∃ items', summaries.foldlM mergeSummary items = .ok items' ∧ ∀ e ∈ items', Summarized e.2 := by
  induction summaries generalizing items with
  | nil => exact ⟨items, rfl, each⟩
  | cons entry summaries ih =>
    obtain ⟨texts, same⟩ := parts entry List.mem_cons_self
    obtain ⟨mid, merged, each'⟩ := mergeSummary_ok each same
    obtain ⟨items', rest, last⟩ := ih each' fun e mem => parts e (List.mem_cons_of_mem _ mem)
    refine ⟨items', ?_, last⟩
    rw [List.foldlM_cons, merged]
    exact rest

theorem summaryTexts_ok {items : List (Key × Json)} (each : ∀ entry ∈ items, Summarized entry.2) :
    ∃ details, items.mapM (fun entry => summaryTexts entry.2) = .ok details := by
  have texts (parts : List Json) (dicts : ∀ part ∈ parts, part.isObj = true) :
      ∃ texts, parts.mapM (fun part => part.getD "text" (.str "")) = .ok texts := by
    induction parts with
    | nil => exact ⟨[], rfl⟩
    | cons part parts ih =>
      obtain ⟨texts, rest⟩ := ih fun p mem => dicts p (List.mem_cons_of_mem _ mem)
      rw [List.mapM_cons, Json.getD_of_isObj (dicts part List.mem_cons_self), rest]
      exact ⟨_, rfl⟩
  induction items with
  | nil => exact ⟨[], rfl⟩
  | cons entry items ih =>
    obtain ⟨details, rest⟩ := ih fun e mem => each e (List.mem_cons_of_mem _ mem)
    obtain ⟨fields, parts, -, read, dicts, -⟩ := summary_parts (each entry List.mem_cons_self)
    obtain ⟨found, told⟩ := texts parts dicts
    have first : summaryTexts entry.2 = .ok found := by
      rw [summaryTexts, read]
      exact told
    exact ⟨found :: details, by rw [List.mapM_cons, first, rest]; rfl⟩

theorem begunKeys_eq (events : List Json) : begunKeys events = ((events.filterMap callOf).map (·.1)).map Key.str := by
  unfold begunKeys
  induction events with
  | nil => rfl
  | cons ev later ih =>
    rw [List.flatMap_cons, begun, List.filterMap_cons]
    cases callOf ev with
    | none => simpa using ih
    | some found => simpa using ih

/-- The aggregate of a stream that does not fail. -/
theorem aggregate_events {lines : List Line} {events : List Json} (read : ∀ acc, aggregateLines acc lines = events.foldlM aggregateEvent acc)
    (upstream : ∀ ev ∈ events, Upstream ev) (distinct : ((events.filterMap callOf).map (·.1)).Nodup) :
    ∃ response, aggregateCodexSse lines = .ok (some response) ∧ response.text = String.join (events.filterMap deltaOf) ∧
      response.toolCalls = expectedCalls events := by
  have start : Steady .new := ⟨rfl, ⟨rfl, rfl⟩, by simp [Aggregate.new], by simp [Aggregate.new]⟩
  have distinct' : (Aggregate.new.fcalls.map (·.1) ++ begunKeys events).Nodup := by
    rw [begunKeys_eq]
    exact distinct.map fun a b same => Key.str.inj same
  obtain ⟨acc, fold, steady, texts, calls, order, nodup⟩ := fold_events start rfl upstream distinct'
  obtain ⟨items, merged, summarized⟩ := mergeSummaries_ok steady.reasoning steady.summaries
  obtain ⟨details, told⟩ := summaryTexts_ok summarized
  have toolCalls : (acc.fcorder.filterMap fun iid => acc.fcalls.lookup iid).mapM toolCall = .ok (expectedCalls events) := by
    rw [order, filterMap_lookup nodup, calls]
    exact mapM_laterCalls events
  have text : join acc.textParts = .ok (String.join (events.filterMap deltaOf)) := by
    rw [texts]
    exact join_str _
  have reasoned : (acc.usage.field "output_tokens_details").orDict.get "reasoning_tokens" =
      .ok ((acc.usage.field "output_tokens_details").orDict.field "reasoning_tokens") := by
    refine Json.get_of_isObj ?_ _
    have := steady.usage.2
    unfold Json.orDict Json.orElse
    split
    · rename_i full
      simpa [Json.dictish, full] using this
    · rfl
  unfold aggregateCodexSse
  rw [read, fold]
  simp only [bind, Except.bind, steady.unfailed, Bool.false_eq_true, if_false, merged, toolCalls, text, told,
    Json.get_of_isObj steady.usage.1, reasoned]
  exact ⟨_, rfl, rfl, rfl⟩

end Result

section Reading

variable {float : String → Json}

/-- A JSON text of an event. -/
structure Encodes (float : String → Json) (text : String) (ev : Json) : Prop where
  reads : loads float text = some ev
  trimmed : Trimmed text.toList

/-- The lines of events. -/
def linesOf (events : List Json) : List Line := events.flatMap fun ev => [⟨false, .event ev⟩, ⟨false, .absent⟩]

theorem aggregateLines_linesOf (acc : Aggregate) (events : List Json) :
    aggregateLines acc (linesOf events) = events.foldlM aggregateEvent acc := by
  induction events generalizing acc with
  | nil => rfl
  | cons ev events ih =>
    unfold linesOf
    rw [List.flatMap_cons, List.foldlM_cons]
    simp only [List.cons_append, List.nil_append, aggregateLines]
    exact bind_congr fun next => ih next

/-- The line of a text that is on one line. -/
theorem lineOf_event {text : String} {ev : Json} (encodes : Encodes float text ev) :
    SseLines.lineOf float ("data: " ++ text) = ⟨false, .event ev⟩ := by
  have opened : text.toList ≠ [] := by
    intro none
    have reads := encodes.reads
    rw [show text = "" from String.toList_inj.mp none] at reads
    cases reads
  have chars : ("data: " ++ text).toList = "data:".toList ++ ' ' :: text.toList := by
    rw [String.toList_append]
    rfl
  have whole : strip ("data: " ++ text) = "data: " ++ text := by
    have := strip_trimmed (@trimmed_named "data:".toList _ (by decide) (by decide) encodes.trimmed opened)
    rwa [← chars, String.ofList_toList] at this
  have data : SseLines.isData ("data: " ++ text) = true := by
    rw [SseLines.isData, chars]
    exact List.isPrefixOf_iff_prefix.mpr (List.prefix_append _ _)
  have rest : SseLines.dataOf ("data: " ++ text) = text := by
    have dropped : ("data:".toList ++ ' ' :: text.toList).drop 5 = ' ' :: text.toList := rfl
    rw [SseLines.dataOf, chars, dropped, strip_space (by decide), strip_trimmed encodes.trimmed, String.ofList_toList]
  have going : text ≠ "[DONE]" := by
    rintro rfl
    have none : loads float "[DONE]" = none := rfl
    rw [encodes.reads] at none
    cases none
  unfold SseLines.lineOf SseLines.payloadOf
  rw [whole, data, rest, if_neg (by simp), if_neg going, encodes.reads]
  rfl

theorem aiterLines_events {stream : List (String × Json)} (encoded : ∀ e ∈ stream, Encodes float e.1 e.2)
    (oneLine : ∀ e ∈ stream, OneLine e.1) :
    SseLines.aiterLines float (String.join (stream.map fun e => SseLines.eventText e.1)) = linesOf (stream.map (·.2)) := by
  have text : (String.join (stream.map fun e => SseLines.eventText e.1)).toList =
      (stream.flatMap fun e => ["data: ".toList ++ e.1.toList, []]).flatMap fun l => l ++ ['\n'] := by
    induction stream with
    | nil => rfl
    | cons e stream ih =>
      rw [List.map_cons, String.join_cons, String.toList_append, ih (fun d mem => encoded d (List.mem_cons_of_mem _ mem))
        fun d mem => oneLine d (List.mem_cons_of_mem _ mem)]
      unfold SseLines.eventText
      rw [String.toList_append, String.toList_append]
      simp
  have plain : ∀ l ∈ stream.flatMap fun e => ["data: ".toList ++ e.1.toList, []], ∀ c ∈ l, isBreak c = false := by
    intro l mem
    obtain ⟨e, within, here⟩ := List.mem_flatMap.mp mem
    rcases List.mem_pair.mp here with rfl | rfl
    · exact List.forall_mem_append.mpr ⟨forall_char (by decide), oneLine e within⟩
    · simp
  unfold SseLines.aiterLines splitlines linesOf
  rw [text, splitFrom_flatMap plain, List.map_map, List.map_flatMap, List.flatMap_map]
  refine List.flatMap_congr fun e mem => ?_
  have first : SseLines.lineOf float (String.ofList ("data: ".toList ++ e.1.toList)) = ⟨false, .event e.2⟩ := by
    rw [String.ofList_append, String.ofList_toList, String.ofList_toList]
    exact lineOf_event (encoded e mem)
  rw [List.map_cons, List.map_cons, List.map_nil, Function.comp_apply, first]
  rfl

end Reading

section Stream

open Unhardcoded.Python.Body

theorem upstream_isObj {ev : Json} (upstream : Upstream ev) : ev.isObj = true := by
  cases upstream with
  | text typed | summary typed | itemDone typed | itemAdded typed | argumentsDelta typed | argumentsDone typed | completed typed
  | other _ typed => exact typed.isObj

/-- An event of the text type has a text. -/
theorem upstream_text {ev : Json} (upstream : Upstream ev) (type : ev.field "type" = .str "response.output_text.delta") :
    ∃ delta, ev.field "delta" = .str delta := by
  have differs {other : String} (typed : Typed ev other) : other = "response.output_text.delta" := by
    rw [typed.type] at type
    exact Json.str.inj type
  cases upstream with
  | text typed delta value => exact ⟨delta, value⟩
  | other _ typed unknown =>
    refine absurd ?_ unknown
    rw [differs typed]
    decide
  | summary typed | itemDone typed | itemAdded typed | argumentsDelta typed | argumentsDone typed | completed typed =>
    exact absurd (differs typed) (by decide)

/-- One event of the loop. -/
theorem onEvent_upstream {ev : Json} (upstream : Upstream ev) (acc : Codex.Acc) :
    ∃ emitted, exec (Codex.onEvent ev) acc = (.ok (), ⟨emitted, acc.lines, acc.sent ++ (deltaOf ev).toList.map Json.str⟩) := by
  have isObj := upstream_isObj upstream
  unfold Codex.onEvent
  rw [Json.get_of_isObj isObj, Json.get_of_isObj isObj]
  cases type : (ev.field "type").isText "response.output_text.delta" with
  | false =>
    have quiet : deltaOf ev = none := by
      rw [deltaOf, textOf, type]
      rfl
    refine ⟨acc.emitted, ?_⟩
    rw [quiet]
    simp [type]
  | true =>
    obtain ⟨delta, value⟩ := upstream_text upstream ((Json.isText_iff _).mp type)
    have told : deltaOf ev = (some delta).filter (· ≠ "") := by
      rw [deltaOf, textOf, type, if_pos rfl, value]
    by_cases empty : delta = ""
    · have none : deltaOf ev = none := by
        rw [told, empty]
        rfl
      refine ⟨acc.emitted, ?_⟩
      rw [none, value]
      simp [Json.truthy, empty]
    · refine ⟨true, ?_⟩
      rw [told, filter_full empty, value]
      simp [type, Json.truthy, empty]

/-- The loop over the lines of all events. -/
theorem readAll_events {call : HttpCall} (ending : call.ending = .closed) {events : List Json} (upstream : ∀ ev ∈ events, Upstream ev)
    (acc : Codex.Acc) :
    ∃ emitted, exec (Codex.readAll call (linesOf events)) acc =
      (.ok (), ⟨emitted, acc.lines ++ linesOf events, acc.sent ++ (events.filterMap deltaOf).map Json.str⟩) := by
  induction events generalizing acc with
  | nil =>
    refine ⟨acc.emitted, ?_⟩
    unfold linesOf
    rw [List.flatMap_nil, Codex.readAll]
    unfold lastRead
    rw [ending]
    simp
  | cons ev events ih =>
    obtain ⟨emitted, event⟩ := onEvent_upstream (upstream ev List.mem_cons_self)
      { acc with lines := acc.lines ++ [⟨false, .event ev⟩] }
    obtain ⟨emitted', rest⟩ := ih (fun e mem => upstream e (List.mem_cons_of_mem _ mem))
      ⟨emitted, acc.lines ++ [⟨false, .event ev⟩] ++ [⟨false, .absent⟩], acc.sent ++ (deltaOf ev).toList.map Json.str⟩
    refine ⟨emitted', ?_⟩
    have lines : linesOf (ev :: events) = ⟨false, .event ev⟩ :: ⟨false, .absent⟩ :: linesOf events := rfl
    have deltas : (ev :: events).filterMap deltaOf = (deltaOf ev).toList ++ events.filterMap deltaOf := by
      rw [List.filterMap_cons]
      cases deltaOf ev with
      | none => rfl
      | some delta => rfl
    rw [lines, Codex.readAll, exec_bind, exec_modify]
    simp only
    rw [exec_bind, event]
    simp only
    rw [Codex.readAll, exec_bind, exec_modify]
    simp only
    rw [rest, deltas, List.map_append]
    simp

/-- A call that is answered with these lines, up to the end of the stream. -/
structure Answered (call : HttpCall) (lines : List Line) : Prop where
  authorized : call.token.getD "" ≠ ""
  opened : ∃ code body, call.opening = .status code body ∧ code < 400
  lines : call.lines = lines
  ending : call.ending = .closed

/-- Every text delta is emitted, and the result has the texts and the calls of all events. -/
def KeepsAll (run : Run) (events : List Json) : Prop :=
  run.sent = (events.filterMap deltaOf).map Json.str ∧
    ∃ response, run.outcome = .ok (.ok response) ∧ response.text = String.join (events.filterMap deltaOf) ∧
      response.toolCalls = expectedCalls events

theorem streamCodex_events {call : HttpCall} {events : List Json} (answered : Answered call (linesOf events))
    (upstream : ∀ ev ∈ events, Upstream ev) (distinct : ((events.filterMap callOf).map (·.1)).Nodup) :
    KeepsAll (Codex.streamCodex call) events := by
  obtain ⟨code, body, opened, fine⟩ := answered.opened
  obtain ⟨emitted, loop⟩ := readAll_events answered.ending upstream ⟨false, [], []⟩
  obtain ⟨response, folded, text, calls⟩ := aggregate_events (fun acc => aggregateLines_linesOf acc events) upstream distinct
  have token : exec (authToken call : Body Codex.Acc Result Unit) ⟨false, [], []⟩ = (.ok (), ⟨false, [], []⟩) := by
    unfold authToken
    rw [if_neg answered.authorized]
    rfl
  have read : exec (Codex.read call) ⟨false, [], []⟩ =
      (.ok (), ⟨emitted, linesOf events, (events.filterMap deltaOf).map Json.str⟩) := by
    unfold Codex.read
    rw [exec_tryExcept, opened]
    simp only
    rw [if_neg (by omega), if_neg (by omega), if_neg (by omega), answered.lines, loop]
    rfl
  have result : Codex.aggregate (linesOf events) = .ok (.ok ⟨response.text, response.toolCalls, .str response.finishReason,
      response.tokensIn, response.tokensOut, response.tokensCached, .null⟩) := by
    unfold Codex.aggregate
    rw [folded]
    rfl
  have whole : Codex.streamCodex call = ⟨(events.filterMap deltaOf).map Json.str, .ok (.ok ⟨response.text, response.toolCalls,
      .str response.finishReason, response.tokensIn, response.tokensOut, response.tokensCached, .null⟩)⟩ := by
    unfold Codex.streamCodex stream
    rw [exec_bind, token]
    simp only
    rw [exec_bind, read]
    simp only
    rw [exec_bind, exec_get]
    simp only
    rw [result]
    rfl
  rw [whole]
  exact ⟨rfl, _, rfl, text, calls⟩

/-- The text of a stream of events. -/
def streamText (stream : List (String × Json)) : String := String.join (stream.map fun e => SseLines.eventText e.1)

/-- Where each event is on one line for `str.splitlines`, no event is lost. -/
theorem codexStream_keepsAll {float : String → Json} {events : List (String × Json)} {call : HttpCall}
    (encoded : ∀ e ∈ events, Encodes float e.1 e.2) (upstream : ∀ e ∈ events, Upstream e.2)
    (distinct : (((events.map (·.2)).filterMap callOf).map (·.1)).Nodup)
    (answered : Answered call (SseLines.aiterLines float (streamText events))) (oneLine : ∀ e ∈ events, OneLine e.1) :
    KeepsAll (Codex.streamCodex call) (events.map (·.2)) := by
  unfold streamText at answered
  rw [aiterLines_events encoded oneLine] at answered
  refine streamCodex_events answered (fun ev mem => ?_) distinct
  obtain ⟨e, within, rfl⟩ := List.mem_map.mp mem
  exact upstream e within

section Examples

/-- The text delta of a text, encoded with the text as it is. -/
def deltaText (text : String) : String := "\x7b\"type\": \"response.output_text.delta\", \"delta\": \"" ++ text ++ "\"\x7d"

def deltaEvent (text : String) : Json := .obj [("type", .str "response.output_text.delta"), ("delta", .str text)]

def addedEvent : Json := .obj [("type", .str "response.output_item.added"), ("item", .obj [("type", .str "function_call"),
  ("id", .str "fc_1"), ("call_id", .str "call_1"), ("name", .str "clock")])]

def argumentsEvent (delta : String) : Json := .obj [("type", .str "response.function_call_arguments.delta"),
  ("item_id", .str "fc_1"), ("delta", .str delta)]

def completedEvent : Json := .obj [("type", .str "response.completed"), ("response", .obj [("output", .arr [])])]

theorem upstream_delta (text : String) : Upstream (deltaEvent text) := .text ⟨rfl, rfl⟩ text rfl

theorem upstream_completed : Upstream completedEvent :=
  .completed ⟨rfl, rfl⟩ rfl (.inl rfl) [] rfl (by simp)

/-- A call that is answered with a text. -/
def answeredWith (body : String) : HttpCall :=
  ⟨some "token", false, .status 200 "", SseLines.aiterLines (fun _ => .null) body, .closed⟩

theorem answered_answeredWith (body : String) : Answered (answeredWith body) (SseLines.aiterLines (fun _ => .null) body) :=
  ⟨(by decide : "token" ≠ ""), ⟨200, "", rfl, by decide⟩, rfl, rfl⟩

def called : List (String × Json) :=
  [(deltaText "h\u00e9", deltaEvent "h\u00e9"), (addedEvent.dumps, addedEvent),
    ((argumentsEvent "[1]").dumps, argumentsEvent "[1]"), (completedEvent.dumps, completedEvent)]

theorem codexStream_keepsAll_called : KeepsAll (Codex.streamCodex (answeredWith (streamText called))) (called.map (·.2)) := by
  have encoded : ∀ e ∈ called, Encodes (fun _ => .null) e.1 e.2 := by
    have reads : ∀ e ∈ called, loads (fun _ => .null) e.1 = some e.2 := by decide +kernel
    have trimmed : ∀ e ∈ called, Trimmed e.1.toList := by decide +kernel
    exact fun e mem => ⟨reads e mem, trimmed e mem⟩
  have upstream : ∀ e ∈ called, Upstream e.2 := by
    have added : IsItem (addedEvent.field "item") := ⟨rfl, fun _ => ⟨"fc_1", rfl⟩, fun other => by cases other⟩
    have spoke : Upstream (argumentsEvent "[1]") := .argumentsDelta ⟨rfl, rfl⟩ "fc_1" rfl "[1]" rfl
    intro e mem
    simp only [called, List.mem_cons, List.not_mem_nil, or_false] at mem
    rcases mem with rfl | rfl | rfl | rfl
    · exact upstream_delta _
    · exact .itemAdded ⟨rfl, rfl⟩ added
    · exact spoke
    · exact upstream_completed
  exact codexStream_keepsAll encoded upstream (by decide +kernel) (answered_answeredWith _) (by decide +kernel)

/-- A delta with a line separator in it, and the end of the stream. -/
def separated : List (String × Json) :=
  [(deltaText "a\u2028b", deltaEvent "a\u2028b"), (completedEvent.dumps, completedEvent)]

/-- A line separator, which JSON allows in a string, breaks the line of its event, and the delta is lost. -/
theorem codexStream_loses_separated :
    (∀ e ∈ separated, Encodes (fun _ => .null) e.1 e.2 ∧ Upstream e.2) ∧
      (((separated.map (·.2)).filterMap callOf).map (·.1)).Nodup ∧
      ¬KeepsAll (Codex.streamCodex (answeredWith (streamText separated))) (separated.map (·.2)) := by
  have reads : ∀ e ∈ separated, loads (fun _ => .null) e.1 = some e.2 := by decide +kernel
  have trimmed : ∀ e ∈ separated, Trimmed e.1.toList := by decide +kernel
  refine ⟨fun e mem => ⟨⟨reads e mem, trimmed e mem⟩, ?_⟩, by decide +kernel, ?_⟩
  · rcases List.mem_pair.mp mem with rfl | rfl
    · exact upstream_delta _
    · exact upstream_completed
  · rintro ⟨sent, -⟩
    have lost : (Codex.streamCodex (answeredWith (streamText separated))).sent = [] := by decide +kernel
    have expected : ((separated.map (·.2)).filterMap deltaOf).map Json.str = [.str "a\u2028b"] := by decide +kernel
    rw [lost, expected] at sent
    cases sent

end Examples

end Stream

end Unhardcoded.Guarantees.CodexStream
