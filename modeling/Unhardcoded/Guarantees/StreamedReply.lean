import Unhardcoded.Python.Dict
import Unhardcoded.Source.Adapters.Common

/-!
# Replies whole and cut

A reply of a provider is a list of text and tool-use blocks with a stop reason. It
comes whole, or each block in pieces. What is made of it is compared by its answer:
the kind of an error, or the text, the calls and the finish reason.

The pieces of a stream are followed by the reply they assemble to (`Assembly.add`):
the deltas of a cut reply make it up again (`assemble_cut`), and its answer is that of
the whole reply exactly where each call is spelled as it would be written
(`streamed_iff`). Below that, what a parser or an accumulator holds of the blocks read.
-/

namespace Unhardcoded.Guarantees.StreamedReply
open Python Source Source.Adapters

/-- What a caller sees of a response. -/
structure Reply where
  text : String
  /-- Names and arguments. -/
  calls : List (Json × Json)
  finishReason : Json

def answer : Result → Except ErrorKind Reply
  | .ok response =>
    .ok ⟨response.text, response.toolCalls.map fun call => (call.name, call.arguments), response.finishReason⟩
  | .err kind _ => .error kind

/-- A reply that says nothing is a bad response. -/
def Reply.answer (reply : Reply) : Except ErrorKind Reply :=
  if blank reply.text && reply.calls.isEmpty then .error .badResponse else .ok reply

/-- A block of a whole reply. -/
inductive Block where
  | text (text : String)
  | toolUse (name : String) (input : Json)

/-- A block and the pieces it is cut into: of its text, or of the text of its input. -/
inductive Part where
  | text (pieces : List String)
  | toolUse (name : String) (input : Json) (pieces : List String)

def Part.block : Part → Block
  | .text pieces => .text (String.join pieces)
  | .toolUse name input _ => .toolUse name input

def Block.said : Block → String
  | .text t => t
  | .toolUse .. => ""

def Block.call? : Block → Option (Json × Json)
  | .text _ => none
  | .toolUse name input => some (.str name, .str input.orDict.dumps)

def textOf (blocks : List Block) : String := String.join (blocks.map Block.said)

def callsOf (blocks : List Block) : List (Json × Json) := blocks.filterMap Block.call?

/-- The reply that is sent whole. -/
def whole (parts : List Part) (stop : Json) : Reply :=
  ⟨textOf (parts.map Part.block), callsOf (parts.map Part.block), stop⟩

/-- What an event of a stream adds. -/
inductive Delta where
  | text (piece : String)
  | opened (index : Nat) (name : String)
  | arguments (index : Nat) (piece : String)
  | stopped (reason : Json)

def Part.deltas (index : Nat) : Part → List Delta
  | .text pieces => pieces.map .text
  | .toolUse name _ pieces => .opened index name :: pieces.map (.arguments index)

/-- The blocks it is sent in where calls come whole. -/
def Part.spoken : Part → List Block
  | .text pieces => pieces.map .text
  | .toolUse name input _ => [.toolUse name input]

/-- The blocks one after the other, from a content index on. -/
def deltasFrom (index : Nat) : List Part → List Delta
  | [] => []
  | part :: parts => part.deltas index ++ deltasFrom (index + 1) parts

/-- A reason that is set. -/
def stops (reason : Json) : List Delta := if reason.truthy then [.stopped reason] else []

/-- The deltas of a reply that is cut into these parts. -/
def cut (parts : List Part) (stop : Json) : List Delta := deltasFrom 0 parts ++ stops stop

section Assembly

structure OpenCall where
  index : Nat
  name : String
  arguments : String

/-- The reply as far as it has come. -/
structure Assembly where
  text : String
  calls : List OpenCall
  stop : Json

def Assembly.empty : Assembly := ⟨"", [], .null⟩

/-- Calls are opened in the order of their indices, and a piece belongs to the last one. -/
def Assembly.add (a : Assembly) : Delta → Option Assembly
  | .text piece => some { a with text := a.text ++ piece }
  | .opened index name =>
    if ∀ call ∈ a.calls, call.index < index then some { a with calls := a.calls ++ [⟨index, name, ""⟩] } else none
  | .arguments index piece =>
    a.calls.getLast?.bind fun call =>
      if call.index = index then
        some { a with calls := a.calls.dropLast ++ [{ call with arguments := call.arguments ++ piece }] }
      else none
  | .stopped reason => some { a with stop := reason }

def OpenCall.shown (call : OpenCall) : Json × Json := (.str call.name, .str call.arguments)

def Assembly.reply (a : Assembly) : Reply := ⟨a.text, a.calls.map OpenCall.shown, a.stop⟩

/-- The calls of the parts, by index, each with its pieces put together. -/
def callsFrom (index : Nat) : List Part → List OpenCall
  | [] => []
  | .text _ :: parts => callsFrom (index + 1) parts
  | .toolUse name _ pieces :: parts => ⟨index, name, String.join pieces⟩ :: callsFrom (index + 1) parts

/-- The reply that the pieces make. -/
def streamed (parts : List Part) (stop : Json) : Reply :=
  ⟨textOf (parts.map Part.block), (callsFrom 0 parts).map OpenCall.shown, stop.orElse .null⟩

theorem add_opened {a b : Assembly} {index : Nat} {name : String} (h : a.add (.opened index name) = some b) :
    (∀ call ∈ a.calls, call.index < index) ∧ b = { a with calls := a.calls ++ [⟨index, name, ""⟩] } := by
  rw [Assembly.add] at h
  split at h
  · rename_i before
    exact ⟨before, (Option.some.inj h).symm⟩
  · cases h

theorem add_arguments (a : Assembly) {calls : List OpenCall} {call : OpenCall} (isLast : a.calls = calls ++ [call])
    (piece : String) : a.add (.arguments call.index piece) =
      some { a with calls := calls ++ [{ call with arguments := call.arguments ++ piece }] } := by
  simp [Assembly.add, isLast]

theorem assemble_text (pieces : List String) (a : Assembly) :
    (pieces.map Delta.text).foldlM Assembly.add a = some { a with text := a.text ++ String.join pieces } := by
  induction pieces generalizing a with
  | nil => simp
  | cons piece pieces ih =>
    rw [List.map_cons, List.foldlM_cons]
    change (pieces.map Delta.text).foldlM Assembly.add { a with text := a.text ++ piece } = _
    rw [ih, String.join_cons, String.append_assoc]

theorem assemble_arguments (pieces : List String) (a : Assembly) {calls : List OpenCall} (call : OpenCall)
    (isLast : a.calls = calls ++ [call]) :
    (pieces.map (Delta.arguments call.index)).foldlM Assembly.add a =
      some { a with calls := calls ++ [{ call with arguments := call.arguments ++ String.join pieces }] } := by
  induction pieces generalizing a call with
  | nil => simp [← isLast]
  | cons piece pieces ih =>
    rw [List.map_cons, List.foldlM_cons, add_arguments a isLast, Option.bind_eq_bind, Option.bind_some]
    have rest := ih { a with calls := calls ++ [{ call with arguments := call.arguments ++ piece }] }
      { call with arguments := call.arguments ++ piece } rfl
    rw [rest, String.join_cons, String.append_assoc]

theorem assemble_part (index : Nat) (part : Part) (a : Assembly) (before : ∀ call ∈ a.calls, call.index < index) :
    (part.deltas index).foldlM Assembly.add a =
      some { a with text := a.text ++ part.block.said, calls := a.calls ++ callsFrom index [part] } := by
  cases part with
  | text pieces => simp [Part.deltas, assemble_text, Part.block, Block.said, callsFrom]
  | toolUse name input pieces =>
    have added : a.add (.opened index name) = some { a with calls := a.calls ++ [⟨index, name, ""⟩] } := if_pos before
    rw [Part.deltas, List.foldlM_cons, added, Option.bind_eq_bind, Option.bind_some,
      assemble_arguments pieces { a with calls := a.calls ++ [⟨index, name, ""⟩] } ⟨index, name, ""⟩ rfl]
    simp [Part.block, Block.said, callsFrom]

theorem callsFrom_cons (index : Nat) (part : Part) (parts : List Part) :
    callsFrom index (part :: parts) = callsFrom index [part] ++ callsFrom (index + 1) parts := by
  cases part <;> rfl

theorem callsFrom_one {index : Nat} {part : Part} {call : OpenCall} (mem : call ∈ callsFrom index [part]) :
    call.index = index := by
  cases part with
  | text pieces => cases mem
  | toolUse name input pieces =>
    obtain rfl := List.mem_singleton.mp mem
    rfl

theorem assemble_parts (index : Nat) (parts : List Part) (a : Assembly)
    (before : ∀ call ∈ a.calls, call.index < index) :
    (deltasFrom index parts).foldlM Assembly.add a =
      some { a with text := a.text ++ textOf (parts.map Part.block), calls := a.calls ++ callsFrom index parts } := by
  induction parts generalizing index a with
  | nil => simp [deltasFrom, textOf, callsFrom]
  | cons part parts ih =>
    have later : ∀ call ∈ a.calls ++ callsFrom index [part], call.index < index + 1 := by
      intro call mem
      rcases List.mem_append.mp mem with mem | mem
      · exact (before call mem).trans (Nat.lt_succ_self _)
      · exact (callsFrom_one mem) ▸ Nat.lt_succ_self _
    rw [deltasFrom, List.foldlM_append, assemble_part index part a before, Option.bind_eq_bind, Option.bind_some,
      ih (index + 1) _ later, callsFrom_cons index part parts]
    simp [textOf, String.append_assoc]

/-- The deltas of a cut reply put it together again. -/
theorem assemble_cut (parts : List Part) (stop : Json) :
    ∃ a, (cut parts stop).foldlM Assembly.add .empty = some a ∧ a.reply = streamed parts stop := by
  have blocks := assemble_parts 0 parts .empty (by simp [Assembly.empty])
  unfold cut stops
  rw [List.foldlM_append, blocks, Option.bind_eq_bind, Option.bind_some]
  cases truth : stop.truthy with
  | true => exact ⟨_, rfl, by simp [Assembly.reply, Assembly.empty, streamed, Json.orElse, truth]⟩
  | false => exact ⟨_, rfl, by simp [Assembly.reply, Assembly.empty, streamed, Json.orElse, truth]⟩

end Assembly

section Faithful

/-- The pieces of a call make up the text that is written for its whole input. -/
def Part.Spelled : Part → Prop
  | .text _ => True
  | .toolUse _ input pieces => String.join pieces = input.orDict.dumps

/-- Blank text and no tool call. -/
def Silent (parts : List Part) : Prop :=
  ∀ part ∈ parts, ∃ pieces, part = .text pieces ∧ blank (String.join pieces) = true

/-- A stop reason that both ways pass on: one that is set, or none. -/
def Settled (stop : Json) : Prop := stop.truthy = true ∨ stop = .null

theorem callsFrom_eq_callsOf (index : Nat) (parts : List Part) :
    (callsFrom index parts).map OpenCall.shown = callsOf (parts.map Part.block) ↔ ∀ part ∈ parts, part.Spelled := by
  induction parts generalizing index with
  | nil => simp [callsFrom, callsOf]
  | cons part parts ih =>
    have rest := ih (index + 1)
    cases part with
    | text pieces =>
      rw [List.forall_mem_cons, and_iff_right (show (Part.text pieces).Spelled from trivial)]
      exact rest
    | toolUse name input pieces =>
      simp only [callsFrom, List.map_cons, callsOf, Part.block, Block.call?, List.filterMap_cons, List.cons.injEq,
        OpenCall.shown, Prod.mk.injEq, Json.str.injEq, true_and, List.forall_mem_cons, Part.Spelled]
      exact and_congr_right fun _ => rest

theorem isEmpty_callsFrom (index : Nat) (parts : List Part) :
    (callsFrom index parts).isEmpty = (callsOf (parts.map Part.block)).isEmpty := by
  induction parts generalizing index with
  | nil => rfl
  | cons part parts ih =>
    cases part with
    | text pieces => exact ih (index + 1)
    | toolUse name input pieces => rfl

theorem silent_iff (parts : List Part) :
    Silent parts ↔ blank (textOf (parts.map Part.block)) = true ∧ callsOf (parts.map Part.block) = [] := by
  unfold Silent textOf
  rw [blank_join]
  induction parts with
  | nil => simp [callsOf]
  | cons part parts ih =>
    rw [List.forall_mem_cons, ih]
    cases part with
    | text pieces => simp [callsOf, Part.block, Block.said, Block.call?, and_assoc]
    | toolUse name input pieces => simp [callsOf, Part.block, Block.call?]

/-- Two replies of one text, both with calls or both without, are answered alike exactly if
they are the same, or say nothing. -/
theorem answer_eq_iff {text : String} {calls calls' : List (Json × Json)} {stop stop' : Json}
    (both : calls.isEmpty = calls'.isEmpty) :
    (⟨text, calls, stop⟩ : Reply).answer = (⟨text, calls', stop'⟩ : Reply).answer ↔
      blank text = true ∧ calls' = [] ∨ calls = calls' ∧ stop = stop' := by
  unfold Reply.answer
  rw [both]
  by_cases silent : blank text = true ∧ calls' = []
  · simp [silent]
  · have spoken : (blank text && calls'.isEmpty) = false := by simpa using silent
    simp [spoken, silent]

theorem settled_iff (stop : Json) : stop.orElse .null = stop ↔ Settled stop := by
  unfold Settled
  cases truth : stop.truthy with
  | true => simp [Json.orElse, truth]
  | false => simp [Json.orElse, truth, eq_comm]

/-- A cut reply is answered as the whole one exactly where its calls are spelled, and its
stop reason is settled unless it says nothing. -/
theorem streamed_iff (parts : List Part) (stop : Json) :
    (streamed parts stop).answer = (whole parts stop).answer ↔
      (∀ part ∈ parts, part.Spelled) ∧ (Silent parts ∨ Settled stop) := by
  have both : ((callsFrom 0 parts).map OpenCall.shown).isEmpty = (callsOf (parts.map Part.block)).isEmpty := by
    rw [List.isEmpty_map, isEmpty_callsFrom]
  unfold streamed whole
  rw [answer_eq_iff both, ← silent_iff, callsFrom_eq_callsOf, settled_iff]
  constructor
  · rintro (silent | ⟨spelled, settled⟩)
    · refine ⟨fun part mem => ?_, .inl silent⟩
      obtain ⟨pieces, rfl, -⟩ := silent part mem
      trivial
    · exact ⟨spelled, .inr settled⟩
  · rintro ⟨spelled, silent | settled⟩
    · exact .inl silent
    · exact .inr ⟨spelled, settled⟩

end Faithful

section Kept

/-- What a caller sees of a tool call. -/
def shown (call : ToolCall) : Json × Json := (call.name, call.arguments)

/-- The end of every reading: what was read is a response unless it says nothing. -/
theorem answer_made {toolCalls : List ToolCall} {calls : List (Json × Json)} (same : toolCalls.map shown = calls)
    (text : String) (status : Nat) (finishReason tokensIn tokensOut tokensCached rawModel : Json) :
    answer (if blank text && toolCalls.isEmpty then .err .badResponse status
      else .ok ⟨text, toolCalls, finishReason, tokensIn, tokensOut, tokensCached, rawModel⟩) =
      (⟨text, calls, finishReason⟩ : Reply).answer := by
  unfold Reply.answer
  rw [← same, List.isEmpty_map]
  split
  · rfl
  · rfl

/-- The text parts and the tool calls of these blocks. -/
structure Kept (textParts : List Json) (toolCalls : List ToolCall) (blocks : List Block) : Prop where
  text : join textParts = .ok (textOf blocks)
  calls : toolCalls.map shown = callsOf blocks

variable {textParts : List Json} {toolCalls : List ToolCall} {blocks : List Block}

theorem kept_nil : Kept [] [] [] := ⟨rfl, rfl⟩

theorem kept_text (h : Kept textParts toolCalls blocks) (text : String) :
    Kept (textParts ++ [.str text]) toolCalls (blocks ++ [.text text]) where
  text := by
    rw [join_append_str h.text, textOf, textOf, List.map_append, String.join_append]
    simp [Block.said]
  calls := by simp [h.calls, callsOf, Block.call?]

theorem kept_silent (h : Kept textParts toolCalls blocks) : Kept textParts toolCalls (blocks ++ [.text ""]) where
  text := by simp [h.text, textOf, Block.said]
  calls := by simp [h.calls, callsOf, Block.call?]

/-- An empty text is left out. -/
theorem kept_said (h : Kept textParts toolCalls blocks) (text : String) :
    Kept (if (Json.str text).truthy then textParts ++ [.str text] else textParts) toolCalls (blocks ++ [.text text]) := by
  by_cases none : text = ""
  · subst none
    exact kept_silent h
  · rw [if_pos (Json.truthy_str none)]
    exact kept_text h text

theorem kept_call (h : Kept textParts toolCalls blocks) (id : Json) (name : String) (input : Json) :
    Kept textParts (toolCalls ++ [⟨id, .str name, .str input.orDict.dumps⟩]) (blocks ++ [.toolUse name input]) where
  text := by simp [h.text, textOf, Block.said]
  calls := by simp [h.calls, callsOf, Block.call?, shown]

/-- A loop that keeps what each element holds keeps what all of them hold. -/
theorem kept_foldlM {read : List Json × List ToolCall → Json → Except Raised (List Json × List ToolCall)}
    {held : Json → Option (List Block)}
    (step : ∀ (kept : List Json × List ToolCall) (blocks : List Block) (item : Json) (more : List Block),
      held item = some more → Kept kept.1 kept.2 blocks →
        ∃ kept', read kept item = .ok kept' ∧ Kept kept'.1 kept'.2 (blocks ++ more))
    {items : List Json} {found : List (List Block)} (h : items.mapM held = some found) :
    ∀ (kept : List Json × List ToolCall) (blocks : List Block), Kept kept.1 kept.2 blocks →
      ∃ kept', items.foldlM read kept = .ok kept' ∧ Kept kept'.1 kept'.2 (blocks ++ found.flatten) := by
  induction items generalizing found with
  | nil =>
    intro kept blocks here
    rw [List.mapM_nil] at h
    obtain rfl := Option.some.inj h
    exact ⟨kept, rfl, by simpa using here⟩
  | cons item items ih =>
    intro kept blocks here
    rw [List.mapM_cons] at h
    obtain ⟨more, first, h⟩ := Option.bind_eq_some_iff.mp h
    obtain ⟨rest, others, h⟩ := Option.bind_eq_some_iff.mp h
    obtain rfl := Option.some.inj h
    obtain ⟨kept', ran, here'⟩ := step kept blocks item more first here
    obtain ⟨kept'', ran', here''⟩ := ih others kept' _ here'
    refine ⟨kept'', ?_, by simpa using here''⟩
    rw [List.foldlM_cons, ran]
    exact ran'

end Kept

section Tracks

/-- The accumulator of a stream holds the reply as far as it has come. -/
structure Tracks (textParts : List Json) (toolCalls : List (Key × ToolCall)) (finishReason : Json) (a : Assembly) :
    Prop where
  text : join textParts = .ok a.text
  calls : toolCalls.map (fun entry => (entry.1, shown entry.2)) =
    a.calls.map fun call => (Key.num call.index, call.shown)
  increasing : (a.calls.map (·.index)).Pairwise (· < ·)
  stop : finishReason = a.stop

variable {textParts : List Json} {toolCalls : List (Key × ToolCall)} {finishReason : Json} {a b : Assembly}

theorem tracks_empty : Tracks [] [] .null .empty := ⟨rfl, rfl, .nil, rfl⟩

theorem tracks_text (h : Tracks textParts toolCalls finishReason a) (piece : String) :
    Tracks (textParts ++ [.str piece]) toolCalls finishReason { a with text := a.text ++ piece } :=
  { h with text := join_append_str h.text piece }

theorem tracks_stops (h : Tracks textParts toolCalls finishReason a) {reason : Json}
    (stepped : (stops reason).foldlM Assembly.add a = some b) :
    Tracks textParts toolCalls (reason.orElse finishReason) b := by
  unfold stops at stepped
  rw [Json.orElse]
  split at stepped
  · rename_i truthy
    obtain rfl := Option.some.inj stepped
    rw [if_pos truthy]
    exact { h with stop := rfl }
  · rename_i falsy
    obtain rfl := Option.some.inj stepped
    rw [if_neg falsy]
    exact h

theorem tracks_keys (h : Tracks textParts toolCalls finishReason a) :
    toolCalls.map (·.1) = a.calls.map fun call => Key.num call.index := by
  have := congrArg (List.map Prod.fst) h.calls
  rwa [List.map_map, List.map_map] at this

theorem absent_of_before {calls : List OpenCall} {index : Nat}
    (keys : toolCalls.map (·.1) = calls.map fun call => Key.num call.index)
    (before : ∀ call ∈ calls, call.index < index) :
    toolCalls.lookup (.num index) = none := by
  rw [List.lookup_eq_none_iff]
  intro entry mem
  have there : entry.1 ∈ calls.map fun call => Key.num call.index := keys ▸ List.mem_map_of_mem (f := Prod.fst) mem
  obtain ⟨call, within, same⟩ := List.mem_map.mp there
  have := before call within
  rw [← same, bne_iff_ne]
  intro equal
  have : index = call.index := by exact_mod_cast Key.num.inj equal
  omega

theorem tracks_silent (h : Tracks textParts toolCalls finishReason a) :
    Tracks textParts toolCalls finishReason { a with text := a.text ++ "" } :=
  { h with text := by rw [String.append_empty, h.text] }

/-- A call is opened under an index above those before it. -/
theorem tracks_opened (h : Tracks textParts toolCalls finishReason a) {index : Nat}
    (before : ∀ call ∈ a.calls, call.index < index) (id : Json) (name arguments : String) :
    Tracks textParts (insert (.num index) ⟨id, .str name, .str arguments⟩ toolCalls) finishReason
      { a with calls := a.calls ++ [⟨index, name, arguments⟩] } := by
  rw [insert_of_absent (absent_of_before (tracks_keys h) before)]
  refine { h with calls := ?_, increasing := ?_ }
  · rw [List.map_append, List.map_append, h.calls]
    rfl
  · rw [List.map_append, List.pairwise_append]
    refine ⟨h.increasing, List.pairwise_singleton _ _, fun earlier mem new here => ?_⟩
    obtain ⟨call, within, rfl⟩ := List.mem_map.mp mem
    obtain rfl := List.mem_singleton.mp here
    exact before call within

/-- A piece goes to the last call that was opened. -/
theorem tracks_arguments (h : Tracks textParts toolCalls finishReason a) {index : Nat} {piece : String}
    (added : a.add (.arguments index piece) = some b) :
    ∃ call text, toolCalls.lookup (.num index) = some call ∧ call.arguments = .str text ∧
      ∀ id, Tracks textParts (insert (.num index) ⟨id, call.name, .str (text ++ piece)⟩ toolCalls) finishReason
        b := by
  rw [Assembly.add] at added
  obtain ⟨last, isLast, added⟩ := Option.bind_eq_some_iff.mp added
  split at added
  swap
  · cases added
  rename_i here
  obtain rfl := Option.some.inj added
  have calls : a.calls = a.calls.dropLast ++ [last] := (List.dropLast_append_getLast? last isLast).symm
  have increasing := h.increasing
  have held := h.calls
  rw [calls, List.map_append] at held increasing
  obtain ⟨front, back, rfl, fronts, backs⟩ := List.map_eq_append_iff.mp held
  obtain ⟨⟨key, call⟩, rfl, entry⟩ := List.map_eq_singleton_iff.mp backs
  simp only [Prod.mk.injEq, shown, OpenCall.shown] at entry
  obtain ⟨rfl, isName, isText⟩ := entry
  have before : ∀ earlier ∈ a.calls.dropLast, earlier.index < last.index := fun earlier mem =>
    (List.pairwise_append.mp increasing).2.2 _ (List.mem_map_of_mem mem) _ (by simp)
  have keys : front.map (·.1) = a.calls.dropLast.map fun call => Key.num call.index := by
    have := congrArg (List.map Prod.fst) fronts
    rwa [List.map_map, List.map_map] at this
  have absent := absent_of_before keys before
  subst here
  refine ⟨call, last.arguments, lookup_last absent call, isText, fun id => ?_⟩
  rw [insert_last absent]
  refine { h with calls := ?_, increasing := ?_ }
  · rw [List.map_append, List.map_append, fronts]
    simp [shown, OpenCall.shown, isName]
  · simpa using increasing

theorem nodup_of_tracks (h : Tracks textParts toolCalls finishReason a) : (toolCalls.map (·.1)).Nodup := by
  rw [tracks_keys h]
  refine List.pairwise_map.mpr ((List.pairwise_map.mp h.increasing).imp fun less same => ?_)
  have := Key.num.inj same
  exact (ne_of_lt less) (by exact_mod_cast this)

/-- The calls come out in the order they were opened in. -/
theorem inKeyOrder_of_tracks (h : Tracks textParts toolCalls finishReason a) :
    inKeyOrder toolCalls = .ok (toolCalls.map (·.2)) := by
  refine inKeyOrder_of_increasing (a.calls.map fun call => (call.index : ℚ)) ?_ ?_
  · rw [tracks_keys h, List.map_map]
    rfl
  · rw [List.pairwise_map]
    exact (List.pairwise_map.mp h.increasing).imp fun less => by exact_mod_cast less

theorem shown_of_tracks (h : Tracks textParts toolCalls finishReason a) :
    (toolCalls.map (·.2)).map shown = a.calls.map OpenCall.shown := by
  have calls := congrArg (List.map Prod.snd) h.calls
  rw [List.map_map, List.map_map] at calls
  rw [List.map_map]
  exact calls

end Tracks

end Unhardcoded.Guarantees.StreamedReply
