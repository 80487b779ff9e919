import Unhardcoded.Python.JsonSize
import Unhardcoded.Source.FlowRouting

/-!
# What a routing decision is shown

The state counts characters: at most 12000 of the encoded messages, at most 2000 of the
request. The request that carries it is limited by its bytes, after the texts have been
encoded once more. `encodedSize` adds up what that second encoding costs.
-/

namespace Unhardcoded.Guarantees.RoutingState

open Unhardcoded.Python Unhardcoded.Source Unhardcoded.Source.FlowRouting
open FlowData (bytes)

section Recent

/-- An entry is the start of its encoded message, and says whether anything is missing. -/
def Shows (message : Json) (entry : Clipped) : Prop :=
  ∃ limit, 128 ≤ limit ∧ limit ≤ 2400 ∧
    entry = ⟨clip (compact message) limit, limit < (compact message).length⟩

def total (history : List Clipped) : Nat := (history.map fun entry => entry.message.length).sum

/-- The history is that of the newest messages, within 12000 characters, and every other
message is counted; messages are omitted only once fewer than 128 characters remain. -/
structure Recent (messages : List Json) (state : DecisionState) : Prop where
  counted : state.omittedMessages + state.history.length = messages.length
  shown : List.Forall₂ Shows (messages.drop state.omittedMessages) state.history
  bounded : total state.history ≤ 12000
  full : 0 < state.omittedMessages → 12000 < total state.history + 128

theorem length_clip (text : String) (limit : Nat) : (clip text limit).length = min text.length limit := by
  rw [clip, String.length_ofList, List.length_take, String.length_toList, Nat.min_comm]

theorem select_low {remaining : Nat} (low : remaining < 128) (messages : List Json) :
    select remaining messages = ([], messages.length) := by
  induction messages with
  | nil => rfl
  | cons message older ih => simp [select, low, ih]

theorem select_step {remaining : Nat} (enough : 128 ≤ remaining) (message : Json) (older : List Json) :
    let text := compact message
    let limit := min 2400 remaining
    let rest := select (remaining - min text.length limit) older
    select remaining (message :: older) = (⟨clip text limit, limit < text.length⟩ :: rest.1, rest.2) := by
  simp [select, Nat.not_lt.mpr enough]

/-- What the loop selects, newest first. -/
structure Selected (remaining : Nat) (messages : List Json) (selected : List Clipped) (omitted : Nat) : Prop where
  counted : selected.length + omitted = messages.length
  shown : List.Forall₂ Shows (messages.take selected.length) selected
  bounded : total selected ≤ remaining
  full : 0 < omitted → remaining < total selected + 128

theorem select_spec (remaining : Nat) (messages : List Json) :
    Selected remaining messages (select remaining messages).1 (select remaining messages).2 := by
  induction messages generalizing remaining with
  | nil => exact ⟨rfl, .nil, Nat.zero_le _, by simp [select]⟩
  | cons message older ih =>
    by_cases low : remaining < 128
    · rw [select_low low]
      exact ⟨by simp, .nil, Nat.zero_le _, fun _ => by simp [total, low]⟩
    · have enough : 128 ≤ remaining := by omega
      rw [select_step enough]
      dsimp only
      have spent := length_clip (compact message) (min 2400 remaining)
      have rest := ih (remaining - min (compact message).length (min 2400 remaining))
      constructor
      · have := rest.counted
        simp only [List.length_cons]
        omega
      · rw [List.length_cons, List.take_succ_cons]
        exact .cons ⟨min 2400 remaining, by omega, by omega, rfl⟩ rest.shown
      · have := rest.bounded
        unfold total at this ⊢
        rw [List.map_cons, List.sum_cons, spent]
        omega
      · intro some
        have := rest.full some
        unfold total at this ⊢
        rw [List.map_cons, List.sum_cons, spent]
        omega

theorem decisionState_recent (messages : List Json) (prompt : String) : Recent messages (decisionState messages prompt) := by
  have selected := select_spec 12000 messages.reverse
  have counted := selected.counted
  rw [List.length_reverse] at counted
  have same : total (select 12000 messages.reverse).1.reverse = total (select 12000 messages.reverse).1 := by
    rw [total, List.map_reverse, List.sum_reverse, ← total]
  constructor
  · show (select 12000 messages.reverse).2 + (select 12000 messages.reverse).1.reverse.length = messages.length
    rw [List.length_reverse]
    omega
  · show List.Forall₂ Shows (messages.drop (select 12000 messages.reverse).2) (select 12000 messages.reverse).1.reverse
    have shown := selected.shown
    rw [List.take_reverse] at shown
    have omitted : (select 12000 messages.reverse).2 = messages.length - (select 12000 messages.reverse).1.length := by omega
    rw [omitted, ← List.forall₂_reverse_iff, List.reverse_reverse]
    exact shown
  · exact same ▸ selected.bounded
  · intro some
    have := selected.full some
    exact same ▸ this

end Recent

section Size

/-- An encoded entry of the history: the text with its escapes, and 30 bytes around it and the flag. -/
def entrySize (text : String) (limit : Nat) : Nat :=
  textWidth (clip text limit) + (if limit < text.length then 4 else 5) + 30

/-- The encoded entries for messages, newest first. -/
def historySize (remaining : Nat) : List Json → Nat
  | [] => 0
  | message :: older =>
    if remaining < 128 then 0
    else
      let text := compact message
      let limit := min 2400 remaining
      entrySize text limit + historySize (remaining - min text.length limit) older

/-- How many messages, newest first, find 128 characters left. -/
def keptCount (remaining : Nat) : List Json → Nat
  | [] => 0
  | message :: older =>
    if remaining < 128 then 0
    else keptCount (remaining - min (compact message).length (min 2400 remaining)) older + 1

/-- The bytes of the decision request: its questions, the history with its separators, the
number of messages left out, the request and 101 bytes of keys and brackets. -/
def encodedSize (routing : Routing) (messages : List Json) (prompt : String) : Nat :=
  let kept := keptCount 12000 messages.reverse
  bytes (Json.obj routing.questions).dumps + historySize 12000 messages.reverse + 2 * (kept - 1) +
    bytes (toString (messages.length - kept)) + textWidth (clip prompt 2000) + (if 2000 < prompt.length then 4 else 5) + 101

theorem size_clipped (text : String) (limit : Nat) :
    (Clipped.json ⟨clip text limit, limit < text.length⟩).size = entrySize text limit := by
  have message : textWidth "message" = 7 := by decide
  have truncated : textWidth "truncated" = 9 := by decide
  simp only [Clipped.json, size_obj, List.map_cons, List.map_nil, List.sum_cons, List.sum_nil, List.length_cons,
    List.length_nil, size_str, size_bool, message, truncated, entrySize, decide_eq_true_eq]
  omega

theorem select_sizes (remaining : Nat) (messages : List Json) :
    ((select remaining messages).1.map fun entry => entry.json.size).sum = historySize remaining messages ∧
      (select remaining messages).1.length = keptCount remaining messages := by
  induction messages generalizing remaining with
  | nil => exact ⟨rfl, rfl⟩
  | cons message older ih =>
    by_cases low : remaining < 128
    · rw [select_low low]
      simp [historySize, keptCount, low]
    · obtain ⟨sizes, count⟩ := ih (remaining - min (compact message).length (min 2400 remaining))
      rw [select_step (by omega)]
      simp only [historySize, keptCount, if_neg low, List.map_cons, List.sum_cons, List.length_cons, size_clipped,
        sizes, count, and_self]

theorem size_state (messages : List Json) (prompt : String) :
    (decisionState messages prompt).json.size = historySize 12000 messages.reverse +
      2 * (keptCount 12000 messages.reverse - 1) + bytes (toString (messages.length - keptCount 12000 messages.reverse)) +
      textWidth (clip prompt 2000) + (if 2000 < prompt.length then 4 else 5) + 75 := by
  obtain ⟨sizes, count⟩ := select_sizes 12000 messages.reverse
  have omitted : (select 12000 messages.reverse).2 = messages.length - keptCount 12000 messages.reverse := by
    have := (select_spec 12000 messages.reverse).counted
    rw [List.length_reverse] at this
    omega
  have digits (n : Nat) : (Json.int n).size = bytes (toString n) := rfl
  have history : textWidth "history" = 7 := by decide
  have omittedMessages : textWidth "omitted_messages" = 16 := by decide
  have request : textWidth "request" = 7 := by decide
  have requestTruncated : textWidth "request_truncated" = 17 := by decide
  have entries : ((decisionState messages prompt).history.map Clipped.json).map Json.size =
      ((select 12000 messages.reverse).1.map fun entry => entry.json.size).reverse := by
    rw [List.map_map, ← List.map_reverse]
    rfl
  have kept : (decisionState messages prompt).history.length = keptCount 12000 messages.reverse := by
    rw [← count]
    exact List.length_reverse
  simp only [DecisionState.json, size_obj, size_arr, List.map_cons, List.map_nil, List.sum_cons, List.sum_nil,
    List.length_cons, List.length_nil, size_str, size_bool, history, omittedMessages, request, requestTruncated, digits,
    entries, List.sum_reverse, sizes, List.length_map, kept]
  simp only [decisionState, omitted, decide_eq_true_eq]
  omega

theorem size_payload (routing : Routing) (messages : List Json) (prompt : String) :
    bytes (routing.payload messages prompt).dumps = encodedSize routing messages prompt := by
  have state : textWidth "state" = 5 := by decide
  have questions : textWidth "questions" = 9 := by decide
  have encoded : (routing.payload messages prompt).size =
      (decisionState messages prompt).json.size + (Json.obj routing.questions).size + 26 := by
    simp only [Routing.payload, @size_obj [_, _], List.map_cons, List.map_nil, List.sum_cons, List.sum_nil,
      List.length_cons, List.length_nil, state, questions]
    omega
  show (routing.payload messages prompt).size = _
  rw [encoded, size_state]
  show _ = (Json.obj routing.questions).size + _ + _ + _ + _ + _ + _
  omega

end Size

section Fits

/-- A routing specification whose own texts are valid and take at most 4000 bytes. -/
structure Spec where
  routing : Routing
  valid : DecisionProtocol.validateQuestions routing.questions = .ok ()
  small : bytes (Json.obj routing.questions).dumps ≤ 4000

/-- The state is the recent evidence, and the request that carries it may be sent. -/
def Fits (spec : Spec) (messages : List Json) (prompt : String) : Prop :=
  Recent messages (decisionState messages prompt) ∧
    DecisionProtocol.validatePayload (spec.routing.payload messages prompt) = .ok (spec.routing.payload messages prompt)

theorem validatePayload_iff (spec : Spec) (messages : List Json) (prompt : String) :
    DecisionProtocol.validatePayload (spec.routing.payload messages prompt) = .ok (spec.routing.payload messages prompt) ↔
      encodedSize spec.routing messages prompt ≤ 32000 := by
  rw [← size_payload]
  have checks : DecisionProtocol.validatePayload (spec.routing.payload messages prompt) =
      (DecisionProtocol.validateQuestions spec.routing.questions >>= fun _ =>
        DecisionProtocol.require (bytes (spec.routing.payload messages prompt).dumps ≤ 32000)
          "Decision request exceeds 32000 bytes." >>= fun _ => pure (spec.routing.payload messages prompt)) := rfl
  rw [checks, spec.valid]
  by_cases fits : bytes (spec.routing.payload messages prompt).dumps ≤ 32000
  · simp [fits, DecisionProtocol.require]
    rfl
  · simp [fits, DecisionProtocol.require]
    nofun

theorem fits_iff (spec : Spec) (messages : List Json) (prompt : String) :
    Fits spec messages prompt ↔ encodedSize spec.routing messages prompt ≤ 32000 := by
  rw [← validatePayload_iff]
  exact ⟨And.right, fun valid => ⟨decisionState_recent messages prompt, valid⟩⟩

/-- What encoding once more adds to a text, beyond one byte for each character. -/
def added (text : String) : Nat := textWidth text - text.length

theorem textWidth_clip_le (text : String) (limit : Nat) : textWidth (clip text limit) ≤ min text.length limit + added text := by
  have split : textWidth text = textWidth (clip text limit) + textWidth (String.ofList (text.toList.drop limit)) := by
    rw [← textWidth_append, clip, ← String.ofList_append, List.take_append_drop, String.ofList_toList]
  have left := length_le_textWidth (String.ofList (text.toList.drop limit))
  rw [String.length_ofList, List.length_drop, String.length_toList] at left
  unfold added
  omega

theorem historySize_le (remaining : Nat) (messages : List Json) :
    historySize remaining messages + 2 * keptCount remaining messages ≤
      remaining + (messages.map fun message => added (compact message)).sum + 37 * messages.length := by
  induction messages generalizing remaining with
  | nil => simp [historySize, keptCount]
  | cons message older ih =>
    unfold historySize keptCount
    dsimp only
    rw [List.map_cons, List.sum_cons, List.length_cons]
    by_cases low : remaining < 128
    · rw [if_pos low, if_pos low]
      omega
    · have rest := ih (remaining - min (compact message).length (min 2400 remaining))
      have text := textWidth_clip_le (compact message) (min 2400 remaining)
      rw [if_neg low, if_neg low, entrySize]
      split <;> omega

theorem digits_le {n : Nat} (few : n < 400) : bytes (toString n) ≤ 3 := by
  revert n
  decide +kernel

/-- Texts whose second encoding adds little fit, however long they are. -/
theorem fits_of_added (spec : Spec) (messages : List Json) (prompt : String)
    (little : (messages.map fun message => added (compact message)).sum + added prompt + 37 * messages.length ≤ 13891) :
    Fits spec messages prompt := by
  have history := historySize_le 12000 messages.reverse
  rw [List.map_reverse, List.sum_reverse, List.length_reverse] at history
  have request := textWidth_clip_le prompt 2000
  have digits := @digits_le (messages.length - keptCount 12000 messages.reverse) (by omega)
  have small := spec.small
  refine ⟨decisionState_recent messages prompt, (validatePayload_iff spec messages prompt).mpr ?_⟩
  unfold encodedSize
  dsimp only
  split <;> omega

/-- A chat message of a role and a text. -/
def chatMessage (entry : String × String) : Json := .obj [("role", .str entry.1), ("content", .str entry.2)]

theorem added_chatMessage {entry : String × String} (role : Plain entry.1) (content : Plain entry.2) :
    added (compact (chatMessage entry)) = 8 := by
  have keys : ∀ key ∈ ["role", "content"], Plain key := by decide +kernel
  have text : compact (chatMessage entry) = "\x7b" ++ ("\"" ++ "role" ++ "\"" ++ ":" ++ ("\"" ++ entry.1 ++ "\"") ++ "," ++
      ("\"" ++ "content" ++ "\"" ++ ":" ++ ("\"" ++ entry.2 ++ "\""))) ++ "\x7d" := by
    simp only [chatMessage, compact, compactFields, String.intercalate_cons_cons, String.intercalate_singleton,
      quote_plain (keys "role" (by simp)), quote_plain (keys "content" (by simp)), quote_plain role, quote_plain content]
  have quoted : textWidth "\"" = 2 := by decide +kernel
  have brace : textWidth "\x7b" = 1 := by decide +kernel
  have closing : textWidth "\x7d" = 1 := by decide +kernel
  have colon : textWidth ":" = 1 := by decide +kernel
  have comma : textWidth "," = 1 := by decide +kernel
  unfold added
  rw [text]
  simp only [textWidth_append, String.length_append, quoted, brace, closing, colon, comma, textWidth_plain role,
    textWidth_plain content, textWidth_plain (keys "role" (by simp)), textWidth_plain (keys "content" (by simp))]
  have lengths : "\"".length = 1 ∧ "\x7b".length = 1 ∧ "\x7d".length = 1 ∧ ":".length = 1 ∧ ",".length = 1 := by decide +kernel
  omega

/-- A conversation of up to 308 messages in plain characters fits, whatever their lengths. -/
theorem fits_plain (spec : Spec) (messages : List (String × String)) (prompt : String) (asked : Plain prompt)
    (plain : ∀ entry ∈ messages, Plain entry.1 ∧ Plain entry.2) (few : messages.length ≤ 308) :
    Fits spec (messages.map chatMessage) prompt := by
  apply fits_of_added
  have each : (messages.map chatMessage).map (fun message => added (compact message)) = List.replicate messages.length 8 := by
    rw [List.map_map, ← List.map_const']
    exact List.map_congr_left fun entry mem => added_chatMessage (plain entry mem).1 (plain entry mem).2
  have request : added prompt = 0 := by
    rw [added, textWidth_plain asked, Nat.sub_self]
  rw [each, request, List.sum_replicate_nat, List.length_map]
  omega

theorem le_historySize {message : Json} (long : 2400 ≤ (compact message).length) (n : Nat) :
    2400 * n ≤ historySize (2400 * n) (List.replicate n message) := by
  induction n with
  | zero => exact Nat.zero_le _
  | succ n ih =>
    have limit : min 2400 (2400 * (n + 1)) = 2400 := by omega
    have rest : 2400 * (n + 1) - min (compact message).length 2400 = 2400 * n := by omega
    have shown := length_le_textWidth (clip (compact message) 2400)
    rw [length_clip] at shown
    rw [List.replicate_succ, historySize, if_neg (by omega)]
    simp only [limit, rest, entrySize]
    omega

theorem history_add_request_le (routing : Routing) (messages : List Json) (prompt : String) :
    historySize 12000 messages.reverse + textWidth (clip prompt 2000) ≤ encodedSize routing messages prompt := by
  unfold encodedSize
  dsimp only
  omega

theorem clip_replicate (n : Nat) (c : Char) :
    clip (String.ofList (List.replicate n c)) n = String.ofList (List.replicate n c) := by
  rw [clip, String.toList_ofList, List.take_of_length_le (by rw [List.length_replicate])]

/-- Two choices without descriptions. -/
def terse : Spec :=
  ⟨⟨[("fast", ⟨.null, .null⟩), ("deep", ⟨.null, .null⟩)], "fast", "Pick a model.", .null, 5000, 1 / 2⟩,
    by decide +kernel, by decide +kernel⟩

/-- A message of 2400 letters. -/
def note : Json := .obj [("role", .str "user"), ("content", .str (String.ofList (List.replicate 2400 'a')))]

theorem long_note : 2400 ≤ (compact note).length := by
  have content := length_le_quote (String.ofList (List.replicate 2400 'a'))
  rw [String.length_ofList, List.length_replicate] at content
  simp only [note, compact, compactFields, String.intercalate_cons_cons, String.intercalate_singleton, String.length_append]
  omega

/-- Five long messages fill the history, and a request of 2000 emoji is written as 24000 bytes. -/
theorem emoji_overflow : ¬ Fits terse (List.replicate 5 note) (String.ofList (List.replicate 2000 '😀')) := by
  rw [fits_iff, not_le]
  have history : 12000 ≤ historySize 12000 (List.replicate 5 note).reverse := by
    rw [List.reverse_replicate]
    exact le_historySize long_note 5
  have emoji : width '😀' = 12 := by decide +kernel
  have sizes := history_add_request_le terse.routing (List.replicate 5 note) (String.ofList (List.replicate 2000 '😀'))
  rw [clip_replicate, textWidth_replicate, emoji] at sizes
  omega

end Fits

end Unhardcoded.Guarantees.RoutingState
