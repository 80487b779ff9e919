import Unhardcoded.Source.CompactEndpoint

/-!
# What the compaction endpoint keeps

Every input message is kept verbatim and in order, or in the text that the summarizer is
asked about and answers for, or is one of the tool turns right behind the cut, which go with
the assistant turn they answer (`compact_accounts`). No tool turn outlives a message that was
cut away when only tool turns stand between the two; one behind another turn does.
-/

namespace Unhardcoded.Guarantees.CompactEndpoint
open Source.CompactEndpoint Python
open Source.Compaction (isTool)

section Seam

variable (req : Request)

/-- `recent` drops these. -/
def dropped : List Json := (tail req).takeWhile isTool

theorem tail_eq : tail req = dropped req ++ recent req := List.takeWhile_append_dropWhile.symm

theorem frozen_cases : frozen req = [] ∨ ∃ m, frozen req = [m] ∧ (m.field "role").isText "system" = true := by
  unfold frozen
  cases req.messages with
  | nil => exact .inl rfl
  | cons m rest =>
    cases system : (m.field "role").isText "system" with
    | false => exact .inl (by simp [system])
    | true => exact .inr ⟨m, by simp [system], system⟩

/-- The frozen prefix is one: it stands in front of the messages. -/
theorem take_frozen : req.messages.take (frozen req).length = frozen req := by
  unfold frozen
  cases req.messages with
  | nil => rfl
  | cons m rest =>
    cases system : (m.field "role").isText "system" with
    | false => simp [system]
    | true => simp [system]

theorem messages_eq (long : (frozen req).length ≤ req.messages.length - keep req) :
    req.messages = frozen req ++ aged req ++ dropped req ++ recent req := by
  have cut := List.take_append_drop (req.messages.length - keep req) req.messages
  have front : req.messages.take (req.messages.length - keep req) = frozen req ++ aged req := by
    have split := List.take_append_drop (frozen req).length (req.messages.take (req.messages.length - keep req))
    rw [List.take_take, Nat.min_eq_left long, take_frozen] at split
    exact split.symm
  rw [front] at cut
  rw [List.append_assoc, ← tail_eq]
  exact cut.symm

theorem isTool_of_dropped {m : Json} (h : m ∈ dropped req) : isTool m = true := by
  have all : (dropped req).all isTool = true := List.all_takeWhile
  exact List.all_eq_true.mp all m h

theorem not_isTool_of_head {m : Json} (h : m ∈ (recent req).head?) : isTool m = false := by
  have := List.head?_dropWhile_not isTool (tail req)
  unfold recent at h
  rw [h] at this
  simpa using this

end Seam

/-- How a sealed reply accounts for the messages: what is kept of them, and what the
summarizer was asked and answered. -/
structure Accounts (format : Json → String) (execute : Contract → Execution) (req : Request)
    (head middle seam last out : List Json) : Prop where
  input : req.messages = head ++ middle ++ seam ++ last
  system : head = [] ∨ ∃ m, head = [m] ∧ (m.field "role").isText "system" = true
  kept : (seam ++ last).length = max 1 req.keepRecent
  tools : ∀ m ∈ seam, isTool m = true
  opens : ∀ m ∈ last.head?, isTool m = false
  /-- The middle is rendered, the summarizer gets that text, and its answer stands for it. -/
  handed : ∃ conversation res summary, renderMessages format middle = .ok conversation ∧
    execute (contract req conversation) = .result res ∧ summaryText res = .ok summary ∧ summary ≠ "" ∧
    out = head ++ [sealedMessage summary] ++ last

/-- A tool turn that only tool turns separate from a message of the middle is not in the
tail that is kept. -/
def NoOrphan (req : Request) (head middle seam : List Json) : Prop :=
  ∀ before call answers tool after, req.messages = before ++ call :: (answers ++ tool :: after) →
    (∀ m ∈ answers, isTool m = true) → isTool tool = true →
    head.length ≤ before.length → before.length < (head ++ middle).length →
    before.length + 1 + answers.length < (head ++ middle ++ seam).length

theorem noOrphan {req : Request} {head middle seam last : List Json} (input : req.messages = head ++ middle ++ seam ++ last)
    (opens : ∀ m ∈ last.head?, isTool m = false) : NoOrphan req head middle seam := by
  intro before call answers tool after split allTools isAnswer _ inAged
  by_contra kept
  -- `p` is where the kept tail starts; it lies between the call and the answer
  generalize hp : (head ++ middle ++ seam).length = p at kept
  have late : (head ++ middle).length ≤ p := by
    rw [← hp]
    exact (List.prefix_append (head ++ middle) seam).length_le
  have first : req.messages[p]? = last.head? := by
    rw [input, List.getElem?_append_right (by omega), hp, Nat.sub_self, List.head?_eq_getElem?]
  have within : req.messages[p]? = (answers ++ tool :: after)[p - (before.length + 1)]? := by
    rw [split, List.getElem?_append_right (by omega),
      show p - before.length = p - (before.length + 1) + 1 by omega, List.getElem?_cons_succ]
  have turn : ∃ m, req.messages[p]? = some m ∧ isTool m = true := by
    rw [within]
    by_cases inner : p - (before.length + 1) < answers.length
    · refine ⟨answers[p - (before.length + 1)], ?_, allTools _ (List.getElem_mem inner)⟩
      rw [List.getElem?_append_left inner, List.getElem?_eq_getElem inner]
    · refine ⟨tool, ?_, isAnswer⟩
      rw [List.getElem?_append_right (by omega), show p - (before.length + 1) - answers.length = 0 by omega]
      rfl
  obtain ⟨m, here, isTurn⟩ := turn
  rw [first] at here
  rw [opens m here] at isTurn
  cases isTurn

section Endpoint

variable {format : Json → String} {execute : Contract → Execution} {req : Request}
variable {out : List Json} {compacted costed : Bool}

theorem length_tail (short : keep req ≤ req.messages.length) : ((dropped req ++ recent req).length : Int) = max 1 req.keepRecent := by
  rw [← tail_eq, tail, List.length_drop, Nat.sub_sub_self short, keep]
  omega

/-- A reply is the input as it came, or accounts for every message of it. -/
theorem compact_accounts (ran : compact format execute req = .ok (.body out compacted costed)) :
    (compacted = false ∧ out = req.messages) ∨
    (compacted = true ∧ ∃ head middle seam last, Accounts format execute req head middle seam last out ∧
      NoOrphan req head middle seam) := by
  unfold compact at ran
  split at ran
  · injection ran with same
    injection same with outs flag
    exact .inl ⟨flag.symm, outs.symm⟩
  rename_i long
  split at ran
  · injection ran with same
    injection same with outs flag
    exact .inl ⟨flag.symm, outs.symm⟩
  obtain ⟨conversation, handed, ran⟩ := ok_of_bind ran
  split at ran
  · cases ran
  · cases ran
  rename_i res answered
  obtain ⟨summary, summed, ran⟩ := ok_of_bind ran
  split at ran
  · injection ran with same
    injection same with outs flag
    exact .inl ⟨flag.symm, outs.symm⟩
  · rename_i some_summary
    injection ran with same
    injection same with outs flag
    have input := messages_eq req (by omega)
    have opens : ∀ m ∈ (recent req).head?, isTool m = false := fun m => not_isTool_of_head req
    refine .inr ⟨flag.symm, frozen req, aged req, dropped req, recent req, ?_, noOrphan input opens⟩
    exact {
      input
      system := frozen_cases req
      kept := length_tail (by omega)
      tools := fun m => isTool_of_dropped req
      opens
      handed := ⟨conversation, res, summary, handed, answered, summed, some_summary, outs.symm⟩ }

end Endpoint

section Sample

/-- A tool result on the cut: the last two messages are kept, the first of them answers a
call that is not. -/
def sampleRequest : Request where
  messages := [
    .obj [("role", .str "system"), ("content", .str "Rules")],
    .obj [("role", .str "user"), ("content", .str "Task")],
    .obj [("role", .str "assistant"), ("tool_calls", .arr [.obj [("id", .str "call_1")]])],
    .obj [("role", .str "tool"), ("tool_call_id", .str "call_1"), ("content", .str "result")],
    .obj [("role", .str "user"), ("content", .str "Next")]]
  keepRecent := 2
  policyIr := none
  maxTokens := none

/-- A summarizer that answers with what it is told first. -/
def sampleHost (asked : Contract) : Execution :=
  .result (.obj [("response", .obj [("text", ((asked.messages.getLast?).getD .null).field "content")])])

def sampleFormat (_ : Json) : String := "None"

def sampleOut : List Json :=
  [.obj [("role", .str "system"), ("content", .str "Rules")], sealedMessage "user: Task\nassistant: None",
    .obj [("role", .str "user"), ("content", .str "Next")]]

theorem compact_sample : compact sampleFormat sampleHost sampleRequest = .ok (.body sampleOut true true) := rfl

theorem compact_accounts_sample : ∃ head middle seam last,
    Accounts sampleFormat sampleHost sampleRequest head middle seam last sampleOut ∧ NoOrphan sampleRequest head middle seam := by
  rcases compact_accounts compact_sample with ⟨unsealed, _⟩ | ⟨_, accounted⟩
  · cases unsealed
  · exact accounted

/-- The call of the assistant that a tool turn answers. -/
def Answers (call tool : Json) : Prop :=
  isTool tool = true ∧ ∃ calls, call.field "tool_calls" = .arr calls ∧ ∃ c ∈ calls, c.field "id" = tool.field "tool_call_id"

/-- A user turn between the call and its result: the tail that is kept begins with it. -/
def splitRequest : Request where
  messages := [
    .obj [("role", .str "user"), ("content", .str "Task")],
    .obj [("role", .str "assistant"), ("tool_calls", .arr [.obj [("id", .str "call_1")]])],
    .obj [("role", .str "user"), ("content", .str "Wait")],
    .obj [("role", .str "tool"), ("tool_call_id", .str "call_1"), ("content", .str "result")]]
  keepRecent := 2
  policyIr := none
  maxTokens := none

def splitOut : List Json :=
  [sealedMessage "user: Task\nassistant: None", .obj [("role", .str "user"), ("content", .str "Wait")],
    .obj [("role", .str "tool"), ("tool_call_id", .str "call_1"), ("content", .str "result")]]

/-- A tool result on the cut is neither returned nor rendered for the summarizer; one behind
another turn is returned although its call is not. -/
theorem tool_result_dropped :
    (¬ ∀ format execute req out costed, compact format execute req = .ok (.body out true costed) →
      ∀ m ∈ req.messages, m ∈ out ∨ m ∈ aged req) ∧
    ¬ ∀ format execute req out costed, compact format execute req = .ok (.body out true costed) →
      ∀ tool ∈ out, ∀ call ∈ aged req, Answers call tool → call ∈ out := by
  constructor
  · intro all
    have lost := all sampleFormat sampleHost sampleRequest sampleOut true rfl
      (.obj [("role", .str "tool"), ("tool_call_id", .str "call_1"), ("content", .str "result")])
      (by simp [sampleRequest])
    revert lost
    simp [sampleOut, sealedMessage, aged, sampleRequest, frozen, keep, Json.field, Json.field?, Json.isText]
  · intro all
    have alone := all sampleFormat sampleHost splitRequest splitOut true rfl
      (.obj [("role", .str "tool"), ("tool_call_id", .str "call_1"), ("content", .str "result")]) (by simp [splitOut])
      (.obj [("role", .str "assistant"), ("tool_calls", .arr [.obj [("id", .str "call_1")]])])
      (by simp [aged, splitRequest, frozen, keep, Json.field, Json.field?, Json.isText])
      ⟨rfl, [.obj [("id", .str "call_1")]], rfl, _, List.mem_cons_self, rfl⟩
    revert alone
    simp [splitOut, sealedMessage]

end Sample

end Unhardcoded.Guarantees.CompactEndpoint
