import Unhardcoded.Guarantees.StreamReaders
import Unhardcoded.Source.Adapters.Codex

/-!
# What the events of a Codex stream say

The loop of `stream_codex` passes text deltas on as they come, and the aggregate of the
lines says at the end whether the stream failed: where an event before `[DONE]` does, and
the aggregate can read all of them (`aggregate_none_iff`).
-/

namespace Unhardcoded.Guarantees.StreamReader
open Python Python.Body Source Source.Adapters

namespace CodexEvents
open CodexBackend

section Aggregate

/-- An item that `keepReasoning` reads. -/
def keeps (item : Json) : Bool :=
  item.isObj && (!(item.field "type").isText "reasoning" || ((item.field? "id").getD (.str "reasoning")).hashable)

/-- The aggregate reads the event: the parts it looks into are dictionaries, and what it
files under is hashable. -/
def foldable (ev : Json) : Bool :=
  ev.isObj && match ev.field "type" with
    | .str "response.reasoning_summary_text.delta" => ((ev.field? "item_id").getD (.str "reasoning")).hashable &&
        ((ev.field? "summary_index").getD (.int 0)).hashable
    | .str "response.output_item.done" => (ev.field "item").dictish && keeps (ev.field "item").orDict
    | .str "response.output_item.added" => (ev.field "item").dictish &&
        (!((ev.field "item").field "type").isText "function_call" || ((ev.field "item").field "id").hashable)
    | .str "response.function_call_arguments.delta" | .str "response.function_call_arguments.done" =>
        (ev.field "item_id").hashable
    | .str "response.completed" | .str "response.incomplete" => (ev.field "response").dictish &&
        ((ev.field "response").orDict.field "output").listOf keeps
    | .str "response.failed" | .str "error" => ((ev.field "response").orElse ev).isObj
    | _ => true

/-- The event says that the stream failed. -/
def failing (ev : Json) : Bool := (ev.field "type").isText "response.failed" || (ev.field "type").isText "error"

theorem keepReasoning_ok {item : Json} (h : keeps item = true) (items : List (Key × Json)) :
    ∃ kept, keepReasoning items item = .ok kept := by
  simp only [keeps, Bool.and_eq_true] at h
  simp only [keepReasoning, Json.get_of_isObj h.1, Json.getD_of_isObj h.1, bind, Except.bind]
  split
  · rename_i reasoning
    have hashable : ((item.field? "id").getD (.str "reasoning")).hashable = true := by simpa [reasoning] using h.2
    obtain ⟨key, hashed⟩ := Json.key_of_hashable hashable
    exact ⟨_, by rw [hashed]; rfl⟩
  · exact ⟨_, rfl⟩

theorem keepReasoning_error {item : Json} (h : keeps item = false) (items : List (Key × Json)) :
    ∃ e, keepReasoning items item = .error e := by
  unfold keepReasoning
  cases obj : item.isObj with
  | false => exact ⟨_, by rw [Json.get_of_not_isObj obj]; rfl⟩
  | true =>
    simp only [keeps, obj, Bool.true_and, Bool.or_eq_false_iff, Bool.not_eq_false'] at h
    simp only [Json.get_of_isObj obj, Json.getD_of_isObj obj, bind, Except.bind, h.1, if_true, Json.key_of_not_hashable h.2]
    exact ⟨_, rfl⟩

theorem foldlM_ok {output : List Json} (h : ∀ item ∈ output, keeps item = true) (items : List (Key × Json)) :
    ∃ kept, output.foldlM keepReasoning items = .ok kept := by
  induction output generalizing items with
  | nil => exact ⟨items, rfl⟩
  | cons item output ih =>
    obtain ⟨next, read⟩ := keepReasoning_ok (h item List.mem_cons_self) items
    obtain ⟨kept, rest⟩ := ih (fun other mem => h other (List.mem_cons_of_mem _ mem)) next
    exact ⟨kept, by rw [List.foldlM_cons, read]; exact rest⟩

theorem foldlM_error {output : List Json} (h : ¬ ∀ item ∈ output, keeps item = true) (items : List (Key × Json)) :
    ∃ e, output.foldlM keepReasoning items = .error e := by
  induction output generalizing items with
  | nil => exact absurd (by simp) h
  | cons item output ih =>
    rw [List.foldlM_cons]
    cases first : keeps item with
    | false =>
      obtain ⟨e, raised⟩ := keepReasoning_error first items
      exact ⟨e, by rw [raised]; rfl⟩
    | true =>
      obtain ⟨next, read⟩ := keepReasoning_ok first items
      obtain ⟨e, raised⟩ := ih (fun all => h (by simpa [first] using all)) next
      exact ⟨e, by rw [read]; exact raised⟩

/-- The items of a response, read into those kept so far. -/
theorem output_ok {v : Json} (h : v.listOf keeps = true) (items : List (Key × Json)) :
    ∃ output kept, v.iterOr = .ok output ∧ output.foldlM keepReasoning items = .ok kept := by
  obtain ⟨listed, all⟩ := Json.iterOr_of_listOf h
  obtain ⟨kept, read⟩ := foldlM_ok all items
  exact ⟨v.elems, kept, listed, read⟩

theorem output_error {v : Json} (h : v.listOf keeps = false) (items : List (Key × Json)) :
    (∃ e, v.iterOr = .error e) ∨ ∃ output e, v.iterOr = .ok output ∧ output.foldlM keepReasoning items = .error e := by
  rcases Json.iterOr_of_not_listOf (fun _ => rfl) h with unlisted | ⟨output, listed, odd⟩
  · exact .inl unlisted
  · obtain ⟨e, raised⟩ := foldlM_error odd items
    exact .inr ⟨output, e, listed, raised⟩

theorem aggregateEvent_ok {ev : Json} (h : foldable ev = true) (acc : CodexBackend.Aggregate) :
    ∃ next, aggregateEvent acc ev = .ok next ∧ next.failed = (acc.failed || failing ev) := by
  have obj : ev.isObj = true := (Bool.and_eq_true_iff.mp h).1
  unfold aggregateEvent
  simp only [Json.get_of_isObj obj, Json.getD_of_isObj obj, bind, Except.bind]
  split
  · rename_i type
    have plain : failing ev = false := by simp [failing, type, Json.isText]
    rw [plain, Bool.or_false]
    split
    · exact ⟨_, rfl, rfl⟩
    · exact ⟨_, rfl, rfl⟩
  · rename_i type
    have plain : failing ev = false := by simp [failing, type, Json.isText]
    simp only [foldable, obj, type, Bool.true_and, Bool.and_eq_true] at h
    obtain ⟨key, hashed⟩ := Json.key_of_hashable h.1
    obtain ⟨index, numbered⟩ := Json.key_of_hashable h.2
    rw [plain, Bool.or_false, hashed, numbered]
    exact ⟨_, rfl, rfl⟩
  · rename_i type
    have plain : failing ev = false := by simp [failing, type, Json.isText]
    simp only [foldable, obj, type, Bool.true_and, Bool.and_eq_true] at h
    obtain ⟨kept, read⟩ := keepReasoning_ok h.2 acc.reasoningItems
    rw [plain, Bool.or_false, read]
    exact ⟨_, rfl, rfl⟩
  · rename_i type
    have plain : failing ev = false := by simp [failing, type, Json.isText]
    simp only [foldable, obj, type, Bool.true_and, Bool.and_eq_true] at h
    simp only [Json.get_orDict h.1]
    rw [plain, Bool.or_false]
    split
    · rename_i call
      obtain ⟨key, hashed⟩ := Json.key_of_hashable (by simpa [call] using h.2)
      rw [hashed]
      exact ⟨_, rfl, rfl⟩
    · exact ⟨_, rfl, rfl⟩
  · rename_i type
    have plain : failing ev = false := by simp [failing, type, Json.isText]
    simp only [foldable, obj, type, Bool.true_and] at h
    obtain ⟨key, hashed⟩ := Json.key_of_hashable h
    rw [plain, Bool.or_false, hashed]
    simp only []
    split
    · split
      · exact ⟨_, rfl, rfl⟩
      · exact ⟨_, rfl, rfl⟩
    · exact ⟨_, rfl, rfl⟩
  · rename_i type
    have plain : failing ev = false := by simp [failing, type, Json.isText]
    simp only [foldable, obj, type, Bool.true_and] at h
    obtain ⟨key, hashed⟩ := Json.key_of_hashable h
    rw [plain, Bool.or_false, hashed]
    simp only []
    split
    · exact ⟨_, rfl, rfl⟩
    · exact ⟨_, rfl, rfl⟩
    · exact ⟨_, rfl, rfl⟩
  · rename_i type
    have plain : failing ev = false := by simp [failing, type, Json.isText]
    simp only [foldable, obj, type, Bool.true_and, Bool.and_eq_true] at h
    obtain ⟨output, kept, listed, read⟩ := output_ok h.2 acc.reasoningItems
    simp only [Json.get_orDict h.1, listed, read, plain, Bool.or_false]
    exact ⟨_, rfl, rfl⟩
  · rename_i type
    have plain : failing ev = false := by simp [failing, type, Json.isText]
    simp only [foldable, obj, type, Bool.true_and, Bool.and_eq_true] at h
    obtain ⟨output, kept, listed, read⟩ := output_ok h.2 acc.reasoningItems
    simp only [Json.get_orDict h.1, listed, read, plain, Bool.or_false]
    exact ⟨_, rfl, rfl⟩
  · rename_i type
    have fails : failing ev = true := by simp [failing, type, Json.isText]
    simp only [foldable, obj, type, Bool.true_and] at h
    rw [fails, Bool.or_true, Json.get_of_isObj h]
    exact ⟨_, rfl, rfl⟩
  · rename_i type
    have fails : failing ev = true := by simp [failing, type, Json.isText]
    simp only [foldable, obj, type, Bool.true_and] at h
    rw [fails, Bool.or_true, Json.get_of_isObj h]
    exact ⟨_, rfl, rfl⟩
  · rename_i not_failed not_error
    have plain : failing ev = false := by simp [failing, Json.isText_of_ne not_failed, Json.isText_of_ne not_error]
    rw [plain, Bool.or_false]
    exact ⟨acc, rfl, rfl⟩

theorem aggregateEvent_error {ev : Json} (h : foldable ev = false) (acc : CodexBackend.Aggregate) :
    ∃ e, aggregateEvent acc ev = .error e := by
  unfold aggregateEvent
  cases obj : ev.isObj with
  | false => exact ⟨_, by rw [Json.get_of_not_isObj obj]; rfl⟩
  | true =>
    simp only [Json.get_of_isObj obj, Json.getD_of_isObj obj, bind, Except.bind]
    split
    · rename_i type
      simp [foldable, obj, type] at h
    · rename_i type
      simp only [foldable, obj, type, Bool.true_and, Bool.and_eq_false_iff] at h
      cases first : ((ev.field? "item_id").getD (.str "reasoning")).hashable with
      | false => exact ⟨_, by rw [Json.key_of_not_hashable first]⟩
      | true =>
        obtain ⟨key, hashed⟩ := Json.key_of_hashable first
        have second := h.resolve_left (by simp [first])
        exact ⟨_, by rw [hashed, Json.key_of_not_hashable second]⟩
    · rename_i type
      simp only [foldable, obj, type, Bool.true_and, Bool.and_eq_false_iff] at h
      have lost : keeps (ev.field "item").orDict = false := by
        rcases h with odd | lost
        · rw [keeps, Json.isObj_orDict, odd, Bool.false_and]
        · exact lost
      obtain ⟨e, raised⟩ := keepReasoning_error lost acc.reasoningItems
      exact ⟨e, by rw [raised]⟩
    · rename_i type
      simp only [foldable, obj, type, Bool.true_and] at h
      cases dict : (ev.field "item").dictish with
      | false => exact ⟨_, by rw [Json.get_orDict_of_not dict]⟩
      | true =>
        simp only [dict, Bool.true_and, Bool.or_eq_false_iff, Bool.not_eq_false'] at h
        simp only [Json.get_orDict dict, h.1, if_true, Json.key_of_not_hashable h.2]
        exact ⟨_, rfl⟩
    · rename_i type
      simp only [foldable, obj, type, Bool.true_and] at h
      exact ⟨_, by rw [Json.key_of_not_hashable h]⟩
    · rename_i type
      simp only [foldable, obj, type, Bool.true_and] at h
      exact ⟨_, by rw [Json.key_of_not_hashable h]⟩
    · rename_i type
      simp only [foldable, obj, type, Bool.true_and] at h
      cases dict : (ev.field "response").dictish with
      | false => exact ⟨_, by rw [Json.get_orDict_of_not dict]⟩
      | true =>
        rw [dict, Bool.true_and] at h
        simp only [Json.get_orDict dict]
        rcases output_error h acc.reasoningItems with ⟨e, raised⟩ | ⟨output, e, listed, raised⟩
        · exact ⟨e, by rw [raised]⟩
        · exact ⟨e, by simp only [listed, raised]⟩
    · rename_i type
      simp only [foldable, obj, type, Bool.true_and] at h
      cases dict : (ev.field "response").dictish with
      | false => exact ⟨_, by rw [Json.get_orDict_of_not dict]⟩
      | true =>
        rw [dict, Bool.true_and] at h
        simp only [Json.get_orDict dict]
        rcases output_error h acc.reasoningItems with ⟨e, raised⟩ | ⟨output, e, listed, raised⟩
        · exact ⟨e, by rw [raised]⟩
        · exact ⟨e, by simp only [listed, raised]⟩
    · rename_i type
      simp only [foldable, obj, type, Bool.true_and] at h
      exact ⟨_, by rw [Json.get_of_not_isObj h]⟩
    · rename_i type
      simp only [foldable, obj, type, Bool.true_and] at h
      exact ⟨_, by rw [Json.get_of_not_isObj h]⟩
    · rename_i no_text no_summary no_done no_added no_piece no_arguments no_completed no_incomplete no_failed no_error
      refine absurd ?_ (Bool.eq_false_iff.mp h)
      unfold foldable
      rw [obj]
      split
      · exact absurd ‹_› no_summary
      · exact absurd ‹_› no_done
      · exact absurd ‹_› no_added
      · exact absurd ‹_› no_piece
      · exact absurd ‹_› no_arguments
      · exact absurd ‹_› no_completed
      · exact absurd ‹_› no_incomplete
      · exact absurd ‹_› no_failed
      · exact absurd ‹_› no_error
      · rfl

/-- The events of the lines, up to `[DONE]`. -/
def folded : List Line → List Json
  | [] => []
  | ⟨_, .event ev⟩ :: lines => ev :: folded lines
  | ⟨_, .done⟩ :: _ => []
  | _ :: lines => folded lines

theorem aggregateLines_eq (lines : List Line) (acc : CodexBackend.Aggregate) :
    aggregateLines acc lines = (folded lines).foldlM aggregateEvent acc := by
  induction lines generalizing acc with
  | nil => rfl
  | cons line lines ih =>
    obtain ⟨indented, payload⟩ := line
    cases payload with
    | absent => exact ih acc
    | done => rfl
    | undecodable => exact ih acc
    | event ev =>
      rw [aggregateLines, folded, List.foldlM_cons]
      congr 1
      funext next
      exact ih next

theorem fold_ok {events : List Json} (h : ∀ ev ∈ events, foldable ev = true) (acc : CodexBackend.Aggregate) :
    ∃ done, events.foldlM aggregateEvent acc = .ok done ∧ done.failed = (acc.failed || events.any failing) := by
  induction events generalizing acc with
  | nil => exact ⟨acc, rfl, by simp⟩
  | cons ev events ih =>
    obtain ⟨next, read, told⟩ := aggregateEvent_ok (h ev List.mem_cons_self) acc
    obtain ⟨done, rest, failed⟩ := ih (fun other mem => h other (List.mem_cons_of_mem _ mem)) next
    refine ⟨done, by rw [List.foldlM_cons, read]; exact rest, ?_⟩
    rw [failed, told, List.any_cons, Bool.or_assoc]

theorem fold_error {events : List Json} (h : ¬ ∀ ev ∈ events, foldable ev = true) (acc : CodexBackend.Aggregate) :
    ∃ e, events.foldlM aggregateEvent acc = .error e := by
  induction events generalizing acc with
  | nil => exact absurd (by simp) h
  | cons ev events ih =>
    rw [List.foldlM_cons]
    cases first : foldable ev with
    | false =>
      obtain ⟨e, raised⟩ := aggregateEvent_error first acc
      exact ⟨e, by rw [raised]; rfl⟩
    | true =>
      obtain ⟨next, read, -⟩ := aggregateEvent_ok first acc
      obtain ⟨e, raised⟩ := ih (fun all => h (by simpa [first] using all)) next
      exact ⟨e, by rw [read]; exact raised⟩

/-- The lines of a stream that failed. -/
def Failed (lines : List Line) : Prop :=
  (∀ ev ∈ folded lines, foldable ev = true) ∧ ∃ ev ∈ folded lines, failing ev = true

/-- A stream that did not fail has a response, if its aggregate can be made. -/
theorem aggregate_some {lines : List Line} {done : CodexBackend.Aggregate} (read : aggregateLines .new lines = .ok done)
    (well : done.failed = false) : aggregateCodexSse lines ≠ .ok none := by
  intro h
  unfold aggregateCodexSse at h
  rw [read] at h
  change (if done.failed then _ else _) = _ at h
  rw [well, if_neg Bool.false_ne_true] at h
  obtain ⟨items, -, h⟩ := ok_of_bind h
  obtain ⟨calls, -, h⟩ := ok_of_bind h
  obtain ⟨text, -, h⟩ := ok_of_bind h
  obtain ⟨details, -, h⟩ := ok_of_bind h
  obtain ⟨tokensIn, -, h⟩ := ok_of_bind h
  obtain ⟨tokensOut, -, h⟩ := ok_of_bind h
  obtain ⟨tokensTotal, -, h⟩ := ok_of_bind h
  obtain ⟨cost, -, h⟩ := ok_of_bind h
  obtain ⟨reasoning, -, h⟩ := ok_of_bind h
  cases h

/-- The aggregate is an error exactly for a stream that failed. -/
theorem aggregate_cases (lines : List Line) :
    Failed lines ∧ Codex.aggregate lines = .ok (.err .serverError 0) ∨
      ¬ Failed lines ∧ ((∃ response, Codex.aggregate lines = .ok (.ok response)) ∨ ∃ e, Codex.aggregate lines = .error e) := by
  unfold Codex.aggregate
  by_cases all : ∀ ev ∈ folded lines, foldable ev = true
  · obtain ⟨done, read, failed⟩ := fold_ok all .new
    cases fails : (folded lines).any failing with
    | true =>
      left
      rw [fails] at failed
      refine ⟨⟨all, List.any_eq_true.mp fails⟩, ?_⟩
      rw [aggregateCodexSse, aggregateLines_eq, read]
      change ((if done.failed then _ else _) >>= _) = _
      rw [failed]
      rfl
    | false =>
      right
      rw [fails] at failed
      constructor
      · rintro ⟨-, ev, mem, failing⟩
        rw [List.any_eq_true.mpr ⟨ev, mem, failing⟩] at fails
        cases fails
      · have some := aggregate_some (by rw [aggregateLines_eq, read]) failed
        cases made : aggregateCodexSse lines with
        | error e => exact .inr ⟨e, rfl⟩
        | ok response =>
          cases response with
          | none => exact absurd made some
          | some response => exact .inl ⟨_, rfl⟩
  · obtain ⟨e, raised⟩ := fold_error all .new
    refine .inr ⟨fun failed => all failed.1, .inr ⟨e, ?_⟩⟩
    rw [aggregateCodexSse, aggregateLines_eq, raised]
    rfl

end Aggregate

section Loop

/-- The events that the loop of the stream reads, those behind `[DONE]` too. -/
def streamed : List Line → List Json
  | [] => []
  | ⟨false, .event ev⟩ :: lines => ev :: streamed lines
  | _ :: lines => streamed lines

/-- The text delta of an event. -/
def deltas (ev : Json) : List Json :=
  if (ev.field "type").isText "response.output_text.delta" && (ev.field "delta").truthy then [ev.field "delta"] else []

/-- What was passed to `emit` is remembered. -/
def Told (acc : Codex.Acc) : Prop := acc.sent ≠ [] → acc.emitted = true

theorem onEvent_reads {ev : Json} (obj : ev.isObj = true) {acc : Codex.Acc} (told : Told acc) :
    ∃ t, exec (Codex.onEvent ev) acc = (.ok (), t) ∧ Told t ∧ t.sent = acc.sent ++ deltas ev ∧ t.lines = acc.lines := by
  unfold Codex.onEvent deltas
  simp only [Json.get_of_isObj obj, lift_ok, pure_bind]
  split
  · exact ⟨_, exec_modify _ _, fun _ => rfl, rfl, rfl⟩
  · exact ⟨acc, rfl, told, by simp, rfl⟩

theorem onEvent_fails {ev : Json} (odd : ev.isObj = false) (acc : Codex.Acc) :
    exec (Codex.onEvent ev) acc = (.error (.raised .attributeError), acc) := by
  unfold Codex.onEvent
  rw [Json.get_of_not_isObj odd]
  rfl

/-- A line the loop reads no event from. -/
def Skipped (line : Line) : Prop := ∀ ev, line ≠ ⟨false, .event ev⟩

theorem skipped_or (line : Line) : Skipped line ∨ ∃ ev, line = ⟨false, .event ev⟩ := by
  by_cases some : ∃ ev, line = ⟨false, .event ev⟩
  · exact .inr some
  · exact .inl fun ev same => some ⟨ev, same⟩

theorem streamed_skipped {line : Line} (skipped : Skipped line) (lines : List Line) :
    streamed (line :: lines) = streamed lines := by
  rw [streamed]
  exact skipped

variable (call : HttpCall)

theorem readAll_skipped {line : Line} (skipped : Skipped line) (lines : List Line) (acc : Codex.Acc) :
    exec (Codex.readAll call (line :: lines)) acc = exec (Codex.readAll call lines) { acc with lines := acc.lines ++ [line] } := by
  rw [Codex.readAll, exec_bind_ok (exec_modify _ _)]
  simp only []
  split
  · rename_i ev
    exact absurd rfl (skipped ev)
  · rfl

theorem readAll_event (ev : Json) (lines : List Line) (acc : Codex.Acc) :
    exec (Codex.readAll call (⟨false, .event ev⟩ :: lines)) acc =
      exec (Codex.onEvent ev >>= fun _ => Codex.readAll call lines)
        { acc with lines := acc.lines ++ [⟨false, .event ev⟩] } := by
  rw [Codex.readAll, exec_bind_ok (exec_modify _ _)]

/-- The loop reads every event, up to the read that ends it. -/
theorem readAll_reads {lines : List Line} (dicts : ∀ ev ∈ streamed lines, ev.isObj = true) {acc : Codex.Acc} (told : Told acc) :
    ∃ t, exec (Codex.readAll call lines) acc = exec (lastRead (·.emitted) call.firstTokenTimeout call.ending) t ∧ Told t ∧
      t.sent = acc.sent ++ (streamed lines).flatMap deltas ∧ t.lines = acc.lines ++ lines := by
  induction lines generalizing acc with
  | nil => exact ⟨acc, rfl, told, by simp [streamed], by simp⟩
  | cons line lines ih =>
    rcases skipped_or line with skipped | ⟨ev, rfl⟩
    · rw [streamed_skipped skipped] at dicts ⊢
      obtain ⟨t, ran, told', sent, kept⟩ := @ih dicts { acc with lines := acc.lines ++ [line] } told
      exact ⟨t, by rw [readAll_skipped call skipped, ran], told', sent, by rw [kept]; simp⟩
    · rw [streamed] at dicts ⊢
      obtain ⟨mid, read, told', sent', kept'⟩ := @onEvent_reads ev (dicts ev List.mem_cons_self)
        { acc with lines := acc.lines ++ [⟨false, .event ev⟩] } told
      obtain ⟨t, ran, told'', sent, kept⟩ := ih (fun other mem => dicts other (List.mem_cons_of_mem _ mem)) told'
      refine ⟨t, by rw [readAll_event, exec_bind_ok read, ran], told'', ?_, ?_⟩
      · rw [sent, sent', List.flatMap_cons, List.append_assoc]
      · rw [kept, kept']
        simp

/-- The loop stops at an event that is no dictionary, with what it sent remembered. -/
theorem readAll_fails {lines : List Line} (odd : ¬ ∀ ev ∈ streamed lines, ev.isObj = true) {acc : Codex.Acc} (told : Told acc) :
    ∃ e t, exec (Codex.readAll call lines) acc = (.error (.raised e), t) ∧ Told t := by
  induction lines generalizing acc with
  | nil => exact absurd (by simp [streamed]) odd
  | cons line lines ih =>
    rcases skipped_or line with skipped | ⟨ev, rfl⟩
    · rw [streamed_skipped skipped] at odd
      rw [readAll_skipped call skipped]
      exact ih odd told
    · rw [streamed] at odd
      rw [readAll_event]
      cases obj : ev.isObj with
      | false => exact ⟨_, _, exec_bind_error (onEvent_fails obj _), told⟩
      | true =>
        obtain ⟨mid, read, told', -, -⟩ := @onEvent_reads ev obj { acc with lines := acc.lines ++ [⟨false, .event ev⟩] } told
        rw [exec_bind_ok read]
        exact ih (fun all => odd (by simpa [obj] using all)) told'

end Loop

section Stream

variable (call : HttpCall)

/-- The call gets to the lines: there is a token, and the answer is no error. -/
def served : Bool :=
  call.token.getD "" ≠ "" && match call.opening with
    | .status code _ => code ≠ 401 && code ≠ 429 && code < 400
    | _ => false

/-- The handler of exceptions of `stream_codex`. -/
def handler (_ : Raised) : Body Codex.Acc Result Unit := do
  let acc ← get
  if acc.emitted then
    let _ ← Codex.aggregate acc.lines
    Body.ret (.err .streamInterrupted 0)
  else Body.ret (.err .networkError 0)

theorem shields (e : Raised) {acc : Codex.Acc} (told : Told acc) : ∃ x, exec (handler e) acc = (.error x, acc) ∧
    (Committed acc.sent → ∀ kind status, x = .returned (.err kind status) → kind = .streamInterrupted) := by
  cases emitted : acc.emitted with
  | false =>
    refine ⟨.returned (.err .networkError 0), by simp [handler, exec_bind, emitted], fun committed => ?_⟩
    rw [told (ne_nil_of_committed committed)] at emitted
    cases emitted
  | true =>
    cases made : Codex.aggregate acc.lines with
    | ok result =>
      refine ⟨.returned (.err .streamInterrupted 0), by simp [handler, exec_bind, emitted, made], fun _ kind status same => ?_⟩
      cases same
      rfl
    | error e' =>
      refine ⟨.raised e', by simp [handler, exec_bind, emitted, made], fun _ kind status same => ?_⟩
      cases same

/-- The exact condition: a stream that ends in order after a text delta did not fail. -/
def Quiet : Prop :=
  call.ending = .closed → (∀ ev ∈ streamed call.lines, ev.isObj = true) →
    Committed ((streamed call.lines).flatMap deltas) → ¬ Failed call.lines

/-- A call that does not get to the lines passes nothing on. -/
theorem unserved (h : served call = false) : (Codex.streamCodex call).sent = [] := by
  unfold Codex.streamCodex stream authToken
  by_cases token : call.token.getD "" = ""
  · simp [token]
  · cases opening : call.opening with
    | timedOut =>
      cases deadline : call.firstTokenTimeout with
      | true => simp [token, Codex.read, opening, exec_bind, exec_tryExcept, firstTokenTimeoutErr, deadline]
      | false => simp [token, Codex.read, opening, exec_bind, exec_tryExcept, firstTokenTimeoutErr, deadline]
    | raised e => simp [token, Codex.read, opening, exec_bind, exec_tryExcept]
    | status code body =>
      by_cases denied : code = 401
      · simp [token, Codex.read, opening, exec_bind, exec_tryExcept, denied]
      · by_cases limited : code = 429
        · simp [token, Codex.read, opening, exec_bind, exec_tryExcept, limited]
        · have refused : 400 ≤ code := by simpa [served, token, opening, denied, limited] using h
          simp [token, Codex.read, opening, exec_bind, exec_tryExcept, denied, limited, refused]

theorem served_eq (h : served call = true) : Codex.streamCodex call = stream (·.sent) ⟨false, [], []⟩ (do
    tryExcept (Codex.readAll call call.lines) handler
    let acc ← get
    Codex.aggregate acc.lines) := by
  simp only [served, Bool.and_eq_true, decide_eq_true_eq] at h
  obtain ⟨token, success⟩ := h
  cases opening : call.opening with
  | timedOut =>
    rw [opening] at success
    cases success
  | raised e =>
    rw [opening] at success
    cases success
  | status code body =>
    rw [opening] at success
    simp only [ne_eq, Bool.and_eq_true, decide_eq_true_eq] at success
    obtain ⟨⟨denied, limited⟩, fine⟩ := success
    unfold Codex.streamCodex authToken Codex.read
    simp only [token, if_false, opening, denied, limited, Nat.not_le.mpr fine, pure_bind]
    rfl

variable {call} {start t : Codex.Acc}

/-- The loop and what guards it, with the aggregate of the lines behind. -/
def body (call : HttpCall) : Body Codex.Acc Result Result := do
  tryExcept (Codex.readAll call call.lines) handler
  let acc ← get
  Codex.aggregate acc.lines

/-- An exception in the loop goes to the handler. -/
theorem commitPoint_raised {e : Raised} (ran : exec (Codex.readAll call call.lines) start = (.error (.raised e), t))
    (told : Told t) : CommitPoint (stream (·.sent) start (body call)) := by
  obtain ⟨x, handled, shielded⟩ := shields e told
  have out : exec (body call) start = (.error x, t) := by
    apply exec_bind_error
    rw [exec_tryExcept, ran]
    exact handled
  exact commitPoint_of_error out shielded

theorem exec_of_read (ran : exec (Codex.readAll call call.lines) start = (.ok (), t)) :
    exec (body call) start = exec (liftM (Codex.aggregate t.lines) : Body Codex.Acc Result Result) t := by
  apply (exec_bind_ok (by rw [exec_tryExcept, ran])).trans
  exact exec_bind_ok (exec_get t)

/-- A stream read to its end in order returns what the aggregate makes of it. -/
theorem commitPoint_closed (ran : exec (Codex.readAll call call.lines) start = (.ok (), t)) (lines : t.lines = call.lines) :
    CommitPoint (stream (·.sent) start (body call)) ↔ (Committed t.sent → ¬ Failed call.lines) := by
  have out := exec_of_read ran
  rw [lines] at out
  rcases aggregate_cases call.lines with ⟨failed, made⟩ | ⟨well, ⟨response, made⟩ | ⟨e, raised⟩⟩
  · rw [made] at out
    rw [stream_ok out]
    constructor
    · intro commits committed _
      cases commits committed .serverError 0 rfl
    · intro quiet committed
      exact absurd failed (quiet committed)
  · rw [made] at out
    rw [stream_ok out]
    refine iff_of_true (fun _ kind status outcome => ?_) fun _ => well
    cases outcome
  · rw [raised] at out
    rw [stream_raised out]
    refine iff_of_true (fun _ kind status outcome => ?_) fun _ => well
    cases outcome

theorem codex_iff (call : HttpCall) : CommitPoint (Codex.streamCodex call) ↔ (served call = true → Quiet call) := by
  cases reaches : served call with
  | false => exact iff_of_true (commitPoint_of_unsent (unserved call reaches)) fun no => nomatch no
  | true =>
    rw [served_eq call reaches, forall_prop_of_true rfl, ← body]
    have told : Told ⟨false, [], []⟩ := fun some => absurd rfl some
    by_cases dicts : ∀ ev ∈ streamed call.lines, ev.isObj = true
    · obtain ⟨t, ran, told', sent, lines⟩ := readAll_reads call dicts told
      rw [List.nil_append] at sent lines
      cases ending : call.ending with
      | closed =>
        rw [ending] at ran
        rw [commitPoint_closed ran lines, sent]
        exact ⟨fun well _ _ => well, fun quiet => quiet ending dicts⟩
      | timedOut =>
        refine iff_of_true ?_ fun closed => by rw [ending] at closed; cases closed
        rw [ending] at ran
        rcases lastRead_timedOut (·.emitted) call.firstTokenTimeout t with ⟨e, raised⟩ | ⟨returned, silent⟩
        · exact commitPoint_raised (ran.trans raised) told'
        · have out : exec (body call) ⟨false, [], []⟩ = (.error (.returned (.err .timeout 0)), t) := by
            apply exec_bind_error
            rw [exec_tryExcept, ran, returned]
          refine commitPoint_of_error out fun committed => ?_
          rw [told' (ne_nil_of_committed committed)] at silent
          cases silent
      | raised e =>
        refine iff_of_true ?_ fun closed => by rw [ending] at closed; cases closed
        rw [ending] at ran
        exact commitPoint_raised ran told'
    · obtain ⟨e, t, ran, told'⟩ := readAll_fails call dicts told
      exact iff_of_true (commitPoint_raised ran told') fun _ all => absurd all dicts

end Stream

end CodexEvents

end Unhardcoded.Guarantees.StreamReader
