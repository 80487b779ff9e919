import Mathlib.Data.List.ReduceOption
import Unhardcoded.Effects.Linkage
import Unhardcoded.Python.Dict
import Unhardcoded.Python.Lists
import Unhardcoded.Source.MessageTranslation

/-!
# Tool results and the calls they answer

The tool uses and tool results of a request, in order, are the links of its messages. For
each translator they are said of the chat messages first; then a result is linked exactly
where its message finds an earlier call that is sent under the same reference.
-/

namespace Unhardcoded.Guarantees.ToolLinkage

open Unhardcoded.Effects Unhardcoded.Python Unhardcoded.Source.MessageTranslation

section Chat

def hasRole (m : Json) (role : String) : Bool := (m.field "role").isText role

def callsOf (m : Json) : List Json := (m.field "tool_calls").elems

/-- The name of a call's function. -/
def nameOf (tc : Json) : Json := (tc.field "function").field "name"

def textOf (m : Json) : String :=
  match textFromContent (m.field "content") with
  | .ok text => text
  | .error _ => ""

/-- A tool call of a chat message, with or without an id and a name. -/
structure IsCall (tc : Json) : Prop where
  isObj : tc.isObj = true
  function : (tc.field "function").dictish = true
  id : tc.field "id" = .null ∨ ∃ id, tc.field "id" = .str id

/-- A chat message: a dictionary whose content has a text and whose tool calls are a list, if there are any. -/
structure IsMessage (m : Json) : Prop where
  isObj : m.isObj = true
  text : textFromContent (m.field "content") = .ok (textOf m)
  calls : (m.field "tool_calls").iterOr = .ok (callsOf m)
  each : ∀ tc ∈ callsOf m, IsCall tc

/-- What is asked of each tool message, with the messages before it. -/
def EachTool (messages : List Json) (P : List Json → Json → Prop) : Prop :=
  ∀ pre m post, messages = pre ++ m :: post → hasRole m "tool" = true → P pre m

theorem eachTool_nil (P : List Json → Json → Prop) : EachTool [] P := fun pre m post split => by simp at split

theorem eachTool_append {messages : List Json} {m : Json} {P : List Json → Json → Prop} (each : EachTool messages P)
    (last : hasRole m "tool" = true → P messages m) : EachTool (messages ++ [m]) P := by
  intro pre other post split tool
  rcases List.eq_nil_or_concat post with rfl | ⟨post, end_, rfl⟩
  · obtain ⟨same, single⟩ := List.append_inj' split rfl
    rw [List.cons.injEq] at single
    rw [← single.1] at tool ⊢
    rw [← same]
    exact last tool
  · rw [List.concat_eq_append, ← List.cons_append, ← List.append_assoc] at split
    exact each pre other post (List.append_inj' split rfl).1 tool

/-- Each tool message refers by id to a tool call of an earlier assistant message. -/
def Refers (messages : List Json) : Prop :=
  EachTool messages fun pre m => ∃ id, m.field "tool_call_id" = .str id ∧
    ∃ earlier ∈ pre, hasRole earlier "assistant" = true ∧ ∃ tc ∈ callsOf earlier, tc.field "id" = .str id

end Chat

section Requests

/-- The link of a block of the Anthropic request. -/
def blockLink (block : Json) : Option (Link Json Json) :=
  if (block.field "type").isText "tool_use" then some (.use (block.field "id"))
  else if (block.field "type").isText "tool_result" then some (.result (block.field "tool_use_id") (block.field "content"))
  else none

def anthropicLinks (m : Json) : List (Link Json Json) := (m.field "content").elems.filterMap blockLink

/-- The link of a part of the Gemini request. -/
def partLink (part : Json) : Option (Link Json Json) :=
  match part.field? "functionCall", part.field? "functionResponse" with
  | some call, _ => some (.use (call.field "name"))
  | none, some response => some (.result (response.field "name") (response.field "response"))
  | none, none => none

def geminiLinks (m : Json) : List (Link Json Json) := (m.field "parts").elems.filterMap partLink

/-- The link of a block of the Bedrock request. -/
def contentLink (block : Json) : Option (Link Json Json) :=
  match block.field? "toolUse", block.field? "toolResult" with
  | some use, _ => some (.use (use.field "toolUseId"))
  | none, some result => some (.result (result.field "toolUseId") (result.field "content"))
  | none, none => none

def bedrockLinks (m : Json) : List (Link Json Json) := (m.field "content").elems.filterMap contentLink

/-- Each result of a request refers to an earlier use, and the results are those of the tool messages. -/
def Survives (messages : List Json) (render : String → Json) (links : List (Link Json Json)) : Prop :=
  Linked links ∧ contents links = (messages.filter (hasRole · "tool")).map fun m => render (textOf m)

end Requests

section Translate

variable {α β δ : Type}

theorem flatMap_message (extract : Json → List δ) (emitted : List Emitted) :
    (emitted.filterMap Emitted.message?).flatMap extract = emitted.flatMap fun e => e.message?.toList.flatMap extract := by
  induction emitted with
  | nil => rfl
  | cons e emitted ih =>
    rw [List.filterMap_cons, List.flatMap_cons, ← ih]
    cases e.message? with
    | none => rfl
    | some m => simp

/-- The links of a request, from the links of what each message is made. -/
theorem translate_links {each : Json → Except Raised Emitted} {extract parts : Json → List δ} {messages : List Json}
    (one : ∀ m ∈ messages, ∃ e, each m = .ok e ∧ e.message?.toList.flatMap extract = parts m) :
    ∃ out system, translate each (.arr messages) = .ok (out, system) ∧ out.flatMap extract = messages.flatMap parts := by
  obtain ⟨emitted, made, images⟩ := mapM_image one
  have elements : (Json.arr messages).iterOr = .ok messages := by
    cases messages with
    | nil => rfl
    | cons m messages => rfl
  refine ⟨emitted.filterMap Emitted.message?, emitted.filterMap Emitted.system?, ?_, ?_⟩
  · unfold Source.MessageTranslation.translate
    rw [elements]
    simp only [bind, Except.bind, made]
    rfl
  · rw [flatMap_message, List.flatMap_def, images, List.flatMap_def]

theorem functionOf_ok {tc : Json} (call : IsCall tc) :
    functionOf tc = .ok (tc.field "function").orDict ∧ (tc.field "function").orDict.get "name" = .ok (nameOf tc) := by
  constructor
  · unfold functionOf
    rw [Json.get_of_isObj call.isObj]
    rfl
  · exact Json.get_orDict call.function "name"

theorem filterMap_link {blocks : List β} {link : β → Option δ} {links : List δ} (all : blocks.map link = links.map some) :
    blocks.filterMap link = links := by
  have direct : blocks.filterMap link = (blocks.map link).filterMap id := by rw [List.filterMap_map]; rfl
  rw [direct, all, List.filterMap_map]
  exact List.filterMap_some

theorem role_unique {m : Json} {role other : String} (is : hasRole m role = true) (differs : role ≠ other) : hasRole m other = false := by
  unfold hasRole at is ⊢
  rw [(Json.isText_iff role).mp is, Json.isText_str, decide_eq_false differs]

theorem message?_systemPart (text : String) : (systemPart text).message? = none := by
  unfold systemPart
  split <;> rfl

theorem links_message (extract : Json → List δ) (m : Json) : (Emitted.message m).message?.toList.flatMap extract = extract m := by
  simp [Emitted.message?]

/-- The links of a message, by its role. -/
def partsOf (result uses : Json → List (Link Json Json)) (m : Json) : List (Link Json Json) :=
  if hasRole m "tool" then result m else if hasRole m "assistant" then uses m else []

variable {result uses : Json → List (Link Json Json)} {m : Json}

theorem partsOf_tool (is : hasRole m "tool" = true) : partsOf result uses m = result m := if_pos is

theorem partsOf_assistant (is : hasRole m "assistant" = true) : partsOf result uses m = uses m := by
  unfold partsOf
  rw [role_unique is (by decide), if_neg (by simp), if_pos is]

theorem partsOf_other (tool : ¬hasRole m "tool" = true) (assistant : ¬hasRole m "assistant" = true) : partsOf result uses m = [] := by
  unfold partsOf
  rw [if_neg tool, if_neg assistant]

theorem partsOf_role {role : String} (is : hasRole m role = true) (tool : role ≠ "tool") (assistant : role ≠ "assistant") :
    partsOf result uses m = [] :=
  partsOf_other (by rw [role_unique is tool]; simp) (by rw [role_unique is assistant]; simp)

end Translate

section Anthropic

variable {float : String → Json}

/-- What the Anthropic translator makes of a message. -/
def anthropicParts : Json → List (Link Json Json) :=
  partsOf (fun m => [.result (m.field "tool_call_id") (.str (textOf m))]) fun m => (callsOf m).map fun tc => .use (tc.field "id")

theorem toolUse_link {tc : Json} (call : IsCall tc) :
    ∃ block, toolUse float tc = .ok block ∧ blockLink block = some (.use (tc.field "id")) := by
  obtain ⟨function, name⟩ := functionOf_ok call
  unfold toolUse
  rw [function]
  simp only [bind, Except.bind, name]
  exact ⟨_, rfl, rfl⟩

theorem anthropicLinks_blocks (role : Json) (blocks : List Json) :
    anthropicLinks (.obj [("role", role), ("content", .arr blocks)]) = blocks.filterMap blockLink := rfl

theorem anthropic_message {m : Json} (message : IsMessage m) :
    ∃ e, anthropicMessage float m = .ok e ∧ e.message?.toList.flatMap anthropicLinks = anthropicParts m := by
  unfold anthropicMessage
  rw [Json.get_of_isObj message.isObj, message.text, message.calls]
  simp only [bind, Except.bind]
  split
  · rename_i system
    exact ⟨_, rfl, by rw [message?_systemPart]; exact (@partsOf_role _ _ m "system" system (by decide) (by decide)).symm⟩
  split
  · rename_i tool
    refine ⟨_, rfl, Eq.trans ?_ (partsOf_tool tool).symm⟩
    rw [links_message, anthropicLinks_blocks]
    rfl
  split
  · rename_i assistant
    obtain ⟨uses, made, links⟩ := mapM_image fun tc mem => @toolUse_link float tc (message.each tc mem)
    have sent : uses.filterMap blockLink = anthropicParts m := by
      refine Eq.trans (filterMap_link ?_) (partsOf_assistant assistant).symm
      rw [links, List.map_map]
      rfl
    simp only [made]
    split
    · rename_i none
      rw [List.isEmpty_iff.mp none] at sent
      split
      · exact ⟨_, rfl, sent⟩
      · exact ⟨_, rfl, sent⟩
    · refine ⟨_, rfl, ?_⟩
      rw [links_message, anthropicLinks_blocks, ← sent]
      split
      · rfl
      · rw [List.filterMap_append]
        rfl
  split
  · rename_i user
    have parts : anthropicParts m = [] := @partsOf_role _ _ m "user" user (by decide) (by decide)
    split
    · exact ⟨_, rfl, parts.symm⟩
    · exact ⟨_, rfl, parts.symm⟩
  · rename_i tool assistant _
    exact ⟨_, rfl, (@partsOf_other _ _ m tool assistant).symm⟩

end Anthropic

section Bedrock

variable {float : String → Json}

/-- The id under which Bedrock gets a tool message. -/
def resultId (m : Json) : Json := (m.field "tool_call_id").orElse (m.field "id")

/-- The id under which Bedrock gets a tool call. -/
def useId (tc : Json) : Json := (tc.field "id").orElse (nameOf tc)

/-- What the Bedrock translator makes of a message. -/
def bedrockParts : Json → List (Link Json Json) :=
  partsOf (fun m => if (resultId m).truthy then [.result (resultId m) (.arr [.obj [("text", .str (textOf m))]])] else [])
    fun m => ((callsOf m).filter fun tc => (nameOf tc).truthy).map fun tc => .use (useId tc)

theorem toolUseBlock_link {tc : Json} (call : IsCall tc) :
    ∃ block, toolUseBlock float tc = .ok block ∧
      block.toList.filterMap contentLink = if (nameOf tc).truthy then [.use (useId tc)] else [] := by
  obtain ⟨function, name⟩ := functionOf_ok call
  unfold toolUseBlock
  rw [function]
  simp only [bind, Except.bind, name]
  split
  · exact ⟨_, rfl, rfl⟩
  · exact ⟨_, rfl, rfl⟩

theorem bedrockLinks_blocks (role : Json) (blocks : List Json) :
    bedrockLinks (.obj [("role", role), ("content", .arr blocks)]) = blocks.filterMap contentLink := rfl

theorem reduceOption_links (link : β → Option δ) (blocks : List (Option β)) :
    blocks.reduceOption.filterMap link = blocks.flatMap fun block => block.toList.filterMap link := by
  induction blocks with
  | nil => rfl
  | cons block blocks ih =>
    cases block with
    | none => rw [List.reduceOption_cons_of_none, ih]; rfl
    | some b =>
      rw [List.reduceOption_cons_of_some, List.flatMap_cons, ← ih, Option.toList_some, ← List.filterMap_append]
      rfl

theorem bedrock_message {m : Json} (message : IsMessage m) :
    ∃ e, bedrockMessage float m = .ok e ∧ e.message?.toList.flatMap bedrockLinks = bedrockParts m := by
  unfold bedrockMessage
  rw [Json.get_of_isObj message.isObj, message.text, message.calls]
  simp only [bind, Except.bind]
  split
  · rename_i system
    exact ⟨_, rfl, by rw [message?_systemPart]; exact (@partsOf_role _ _ m "system" system (by decide) (by decide)).symm⟩
  split
  · rename_i tool
    refine ⟨_, rfl, Eq.trans ?_ (partsOf_tool tool).symm⟩
    unfold resultId
    split
    · rw [links_message, bedrockLinks_blocks]
      rfl
    · rfl
  split
  · rename_i assistant
    obtain ⟨blocks, made, links⟩ := mapM_image fun tc mem => @toolUseBlock_link float tc (message.each tc mem)
    have sent : blocks.reduceOption.filterMap contentLink = bedrockParts m := by
      refine Eq.trans ?_ (partsOf_assistant assistant).symm
      rw [reduceOption_links, List.flatMap_def, links, ← List.flatMap_def]
      induction callsOf m with
      | nil => rfl
      | cons tc calls ih =>
        rw [List.flatMap_cons, ih]
        cases named : (nameOf tc).truthy with
        | true => simp [named]
        | false => simp [named]
    simp only [made]
    have content : ((if textOf m = "" then [] else [Json.obj [("text", .str (textOf m))]]) ++ blocks.reduceOption).filterMap contentLink =
        bedrockParts m := by
      rw [List.filterMap_append, sent]
      split
      · rfl
      · rfl
    generalize (if textOf m = "" then [] else [Json.obj [("text", .str (textOf m))]]) ++ blocks.reduceOption = shown at content ⊢
    split
    · rename_i none
      rw [List.isEmpty_iff.mp none] at content
      exact ⟨_, rfl, content⟩
    · exact ⟨_, rfl, by rw [links_message, bedrockLinks_blocks, content]⟩
  · rename_i tool assistant
    have parts : bedrockParts m = [] := partsOf_other tool assistant
    split
    · exact ⟨_, rfl, parts.symm⟩
    · exact ⟨_, rfl, parts.symm⟩

end Bedrock

section Gemini

variable {float : String → Json}

/-- The name of the last call with an id, of the calls that have a name. -/
def knownName (id : String) (calls : List Json) : Option Json :=
  ((calls.filter fun tc => (tc.field "id").isText id && (tc.field "id").truthy && (nameOf tc).truthy).getLast?).map nameOf

/-- The name under which Gemini gets a tool message. -/
def answerName (messages : List Json) (m : Json) : Json :=
  let known := match m.field "tool_call_id" with
    | .str id => (knownName id (messages.flatMap callsOf)).getD .null
    | _ => .null
  (known.orElse (m.field "name")).orElse (.str "tool")

/-- What the Gemini translator makes of a message. -/
def geminiParts (float : String → Json) (messages : List Json) : Json → List (Link Json Json) :=
  partsOf (fun m => [.result (answerName messages m) (toolResponsePayload float (textOf m))])
    fun m => (callsOf m).map fun tc => .use ((nameOf tc).orElse (.str ""))

theorem knownName_cons (id : String) (tc : Json) (calls : List Json) :
    knownName id (tc :: calls) = (knownName id calls).or
      (if (tc.field "id").isText id && (tc.field "id").truthy && (nameOf tc).truthy then some (nameOf tc) else none) := by
  unfold knownName
  rw [List.filter_cons]
  split
  · rw [List.getLast?_cons]
    cases (calls.filter fun tc => (tc.field "id").isText id && (tc.field "id").truthy && (nameOf tc).truthy).getLast? with
    | none => rfl
    | some last => rfl
  · rw [Option.or_none]

/-- One call of the loop that remembers names. -/
theorem rememberName_ok {tc : Json} (call : IsCall tc) (out : List (Key × Json)) :
    ∃ out', rememberName out tc = .ok out' ∧ ∀ id : String, out'.lookup (.str id) =
      (if (tc.field "id").isText id && (tc.field "id").truthy && (nameOf tc).truthy then some (nameOf tc) else none).or
        (out.lookup (.str id)) := by
  obtain ⟨function, name⟩ := functionOf_ok call
  unfold rememberName
  rw [Json.get_of_isObj call.isObj, function]
  simp only [bind, Except.bind, name]
  rcases call.id with none | ⟨id, given⟩
  · refine ⟨out, ?_, fun other => ?_⟩
    · rw [none]
      rfl
    · rw [none]
      rfl
  · rw [given]
    split
    · rename_i both
      refine ⟨insert (.str id) (nameOf tc) out, rfl, fun other => ?_⟩
      rw [lookup_insert, Json.isText_str]
      by_cases same : other = id
      · subst same
        rw [if_pos rfl, decide_eq_true rfl, Bool.true_and, if_pos both]
        rfl
      · rw [if_neg (by simpa using same), decide_eq_false (Ne.symm same), if_neg (by simp)]
        rfl
    · rename_i lacking
      refine ⟨out, rfl, fun other => ?_⟩
      rw [Bool.and_assoc, if_neg (by simp [lacking])]
      rfl

theorem rememberNames_ok {calls : List Json} (each : ∀ tc ∈ calls, IsCall tc) (out : List (Key × Json)) :
    ∃ out', calls.foldlM rememberName out = .ok out' ∧
      ∀ id : String, out'.lookup (.str id) = (knownName id calls).or (out.lookup (.str id)) := by
  induction calls generalizing out with
  | nil => exact ⟨out, rfl, fun _ => rfl⟩
  | cons tc calls ih =>
    obtain ⟨mid, first, known⟩ := rememberName_ok (each tc List.mem_cons_self) out
    obtain ⟨out', rest, later⟩ := ih (fun c mem => each c (List.mem_cons_of_mem _ mem)) mid
    refine ⟨out', ?_, fun id => ?_⟩
    · rw [List.foldlM_cons, first]
      exact rest
    · rw [later, known, knownName_cons, Option.or_assoc]

theorem toolNameById_ok {messages : List Json} (each : ∀ m ∈ messages, IsMessage m) :
    ∃ names, toolNameById messages = .ok names ∧
      ∀ id : String, names.lookup (.str id) = knownName id (messages.flatMap callsOf) := by
  have calls : ∀ tc ∈ messages.flatMap callsOf, IsCall tc := by
    intro tc mem
    obtain ⟨m, within, here⟩ := List.mem_flatMap.mp mem
    exact (each m within).each tc here
  obtain ⟨names, loop, known⟩ := rememberNames_ok calls []
  have flat (out : List (Key × Json)) : (messages.foldlM (fun out msg => do
        let calls ← (← msg.get "tool_calls").iterOr
        calls.foldlM rememberName out) out) = (messages.flatMap callsOf).foldlM rememberName out := by
    clear loop known calls
    induction messages generalizing out with
    | nil => rfl
    | cons m messages ih =>
      have here := each m List.mem_cons_self
      rw [List.foldlM_cons, List.flatMap_cons, List.foldlM_append, Json.get_of_isObj here.isObj]
      simp only [bind, Except.bind, here.calls]
      cases (callsOf m).foldlM rememberName out with
      | error e => rfl
      | ok mid => exact ih (fun n mem => each n (List.mem_cons_of_mem _ mem)) mid
  refine ⟨names, ?_, fun id => ?_⟩
  · unfold toolNameById
    rw [flat]
    exact loop
  · rw [known]
    exact Option.or_none

theorem functionCallPart_link {tc : Json} (call : IsCall tc) :
    ∃ part, functionCallPart float tc = .ok part ∧ partLink part = some (.use ((nameOf tc).orElse (.str ""))) := by
  obtain ⟨function, name⟩ := functionOf_ok call
  unfold functionCallPart
  rw [function]
  simp only [bind, Except.bind, name]
  exact ⟨_, rfl, rfl⟩

theorem geminiLinks_parts (role : Json) (parts : List Json) :
    geminiLinks (.obj [("role", role), ("parts", .arr parts)]) = parts.filterMap partLink := rfl

theorem gemini_message {messages : List Json} {names : List (Key × Json)}
    (known : ∀ id : String, names.lookup (.str id) = knownName id (messages.flatMap callsOf)) {m : Json} (message : IsMessage m)
    (refers : hasRole m "tool" = true → ∃ id, m.field "tool_call_id" = .str id) :
    ∃ e, geminiMessage float names m = .ok e ∧ e.message?.toList.flatMap geminiLinks = geminiParts float messages m := by
  unfold geminiMessage
  rw [Json.get_of_isObj message.isObj, message.text, message.calls]
  simp only [bind, Except.bind]
  split
  · rename_i system
    exact ⟨_, rfl, by rw [message?_systemPart]; exact (@partsOf_role _ _ m "system" system (by decide) (by decide)).symm⟩
  split
  · rename_i tool
    obtain ⟨id, given⟩ := refers tool
    have named : answerName messages m =
        (((names.lookup (.str id)).getD .null).orElse (m.field "name")).orElse (.str "tool") := by
      unfold answerName
      rw [given, known]
    rw [given]
    refine ⟨_, rfl, Eq.trans ?_ (partsOf_tool tool).symm⟩
    rw [links_message, geminiLinks_parts, named]
    rfl
  split
  · rename_i assistant
    obtain ⟨calls, made, links⟩ := mapM_image fun tc mem => @functionCallPart_link float tc (message.each tc mem)
    have sent : calls.filterMap partLink = geminiParts float messages m := by
      refine Eq.trans (filterMap_link ?_) (partsOf_assistant assistant).symm
      rw [links, List.map_map]
      rfl
    simp only [made]
    have content : ((if textOf m = "" then [] else [Json.obj [("text", .str (textOf m))]]) ++ calls).filterMap partLink =
        geminiParts float messages m := by
      rw [List.filterMap_append, sent]
      split
      · rfl
      · rfl
    generalize (if textOf m = "" then [] else [Json.obj [("text", .str (textOf m))]]) ++ calls = shown at content ⊢
    split
    · rename_i none
      rw [List.isEmpty_iff.mp none] at content
      exact ⟨_, rfl, content⟩
    · exact ⟨_, rfl, by rw [links_message, geminiLinks_parts, content]⟩
  · rename_i tool assistant
    have parts : geminiParts float messages m = [] := partsOf_other tool assistant
    split
    · exact ⟨_, rfl, parts.symm⟩
    · exact ⟨_, rfl, parts.symm⟩

end Gemini

section Linkage

variable {result uses : Json → List (Link Json Json)} {messages : List Json}

/-- The calls of the assistant messages before a message. -/
def earlierCalls (pre : List Json) : List Json := (pre.filter (hasRole · "assistant")).flatMap callsOf

theorem mem_earlierCalls {pre : List Json} {tc : Json} :
    tc ∈ earlierCalls pre ↔ ∃ m ∈ pre, hasRole m "assistant" = true ∧ tc ∈ callsOf m := by
  unfold earlierCalls
  rw [List.mem_flatMap]
  constructor
  · rintro ⟨m, mem, here⟩
    obtain ⟨within, assistant⟩ := List.mem_filter.mp mem
    exact ⟨m, within, assistant, here⟩
  · rintro ⟨m, within, assistant, here⟩
    exact ⟨m, List.mem_filter.mpr ⟨within, assistant⟩, here⟩

/-- A tool message has one result at most, under this key. -/
structure OneResult (result : Json → List (Link Json Json)) (sends : Json → Bool) (key content : Json → Json) : Prop where
  sent : ∀ m, result m = if sends m then [.result (key m) (content m)] else []

/-- The uses of a message are those of its calls that are sent. -/
structure UsesOf (uses : Json → List (Link Json Json)) (sends : Json → Bool) (key : Json → Json) : Prop where
  sent : ∀ m, uses m = ((callsOf m).filter sends).map fun tc => .use (key tc)

section Parts

variable {sends sendsCall : Json → Bool} {key keyCall : Json → Json} {render : String → Json}
  (one : OneResult result sends key fun m => render (textOf m)) (calls : UsesOf uses sendsCall keyCall)

include one calls

theorem simple_partsOf (m : Json) : Simple (partsOf result uses m) := by
  unfold partsOf
  split
  · rw [one.sent]
    split
    · exact .inr ⟨_, _, rfl⟩
    · exact .inl fun link mem => by cases mem
  split
  · rw [calls.sent]
    refine .inl fun link mem => ?_
    obtain ⟨tc, -, rfl⟩ := List.mem_map.mp mem
    exact ⟨_, rfl⟩
  · exact .inl fun link mem => by cases mem

theorem result_mem_partsOf (m k c : Json) :
    .result k c ∈ partsOf result uses m ↔ hasRole m "tool" = true ∧ sends m = true ∧ k = key m ∧ c = render (textOf m) := by
  unfold partsOf
  split
  · rename_i tool
    rw [one.sent]
    split
    · rename_i sent
      simp [tool, sent]
    · rename_i kept
      simp [kept]
  · rename_i other
    split
    · simp [calls.sent, other]
    · simp [other]

theorem use_mem_partsOf (m k : Json) : .use k ∈ partsOf result uses m ↔
    hasRole m "assistant" = true ∧ ∃ tc ∈ callsOf m, sendsCall tc = true ∧ keyCall tc = k := by
  unfold partsOf
  split
  · rename_i tool
    rw [one.sent, role_unique tool (by decide)]
    split
    · simp
    · simp
  · split
    · rename_i assistant
      rw [calls.sent]
      simp [assistant, and_assoc]
    · rename_i other
      simp [other]

theorem linked_partsOf : Linked (messages.flatMap (partsOf result uses)) ↔
    EachTool messages fun pre m => sends m = true → ∃ tc ∈ earlierCalls pre, sendsCall tc = true ∧ keyCall tc = key m := by
  rw [linked_flatMap fun m _ => simple_partsOf one calls m]
  constructor
  · intro each pre m post split tool sent
    obtain ⟨earlier, mem, used⟩ := each pre m post split _ _ ((result_mem_partsOf one calls m _ _).mpr ⟨tool, sent, rfl, rfl⟩)
    obtain ⟨assistant, tc, here, found⟩ := (use_mem_partsOf one calls earlier _).mp used
    exact ⟨tc, mem_earlierCalls.mpr ⟨earlier, mem, assistant, here⟩, found⟩
  · intro each pre m post split k c mem
    obtain ⟨tool, sent, rfl, -⟩ := (result_mem_partsOf one calls m k c).mp mem
    obtain ⟨tc, here, found⟩ := each pre m post split tool sent
    obtain ⟨earlier, mem, assistant, inside⟩ := mem_earlierCalls.mp here
    exact ⟨earlier, mem, (use_mem_partsOf one calls earlier _).mpr ⟨assistant, tc, inside, found⟩⟩

theorem contents_partsOf : contents (messages.flatMap (partsOf result uses)) =
    ((messages.filter (hasRole · "tool")).filter sends).map fun m => render (textOf m) := by
  induction messages with
  | nil => rfl
  | cons m messages ih =>
    rw [List.flatMap_cons, contents_append, ih, List.filter_cons]
    cases tool : hasRole m "tool" with
    | true =>
      rw [partsOf_tool tool, one.sent, if_pos rfl, List.filter_cons]
      cases sends m with
      | true => rfl
      | false => rfl
    | false =>
      have none : contents (partsOf result uses m) = [] := by
        unfold partsOf contents
        rw [tool, if_neg (by simp)]
        split
        · rw [calls.sent, List.filterMap_map]
          exact List.filterMap_eq_nil_iff.mpr fun _ _ => rfl
        · rfl
      rw [none]
      rfl

/-- Results are linked and none is lost, just when each tool message is sent and finds an earlier call. -/
theorem survives_iff : Survives messages render (messages.flatMap (partsOf result uses)) ↔
    EachTool messages fun pre m => sends m = true ∧ ∃ tc ∈ earlierCalls pre, sendsCall tc = true ∧ keyCall tc = key m := by
  have all : ((messages.filter (hasRole · "tool")).filter sends).map (fun m => render (textOf m)) =
        (messages.filter (hasRole · "tool")).map (fun m => render (textOf m)) ↔
      EachTool messages fun _ m => sends m = true := by
    constructor
    · intro same pre m post split tool
      have lengths := congrArg List.length same
      rw [List.length_map, List.length_map, List.length_filter_eq_length_iff] at lengths
      exact lengths m (List.mem_filter.mpr ⟨by rw [split]; exact List.mem_append_right _ List.mem_cons_self, tool⟩)
    · intro each
      rw [List.filter_eq_self.mpr]
      intro m mem
      obtain ⟨within, tool⟩ := List.mem_filter.mp mem
      obtain ⟨pre, post, split⟩ := List.append_of_mem within
      exact each pre m post split tool
  unfold Survives
  rw [linked_partsOf one calls, contents_partsOf one calls, all]
  constructor
  · rintro ⟨found, sent⟩ pre m post split tool
    exact ⟨sent pre m post split tool, found pre m post split tool (sent pre m post split tool)⟩
  · intro each
    exact ⟨fun pre m post split tool _ => (each pre m post split tool).2, fun pre m post split tool => (each pre m post split tool).1⟩

end Parts

theorem oneResult_always {key content : Json → Json} :
    OneResult (fun m => [.result (key m) (content m)]) (fun _ => true) key content := ⟨fun _ => rfl⟩

theorem usesOf_always {key : Json → Json} : UsesOf (fun m => (callsOf m).map fun tc => .use (key tc)) (fun _ => true) key :=
  ⟨fun m => by rw [List.filter_true]⟩

end Linkage

section Translators

/-- The content of a tool result of Bedrock. -/
def bedrockContent (text : String) : Json := .arr [.obj [("text", .str text)]]

/-- In the requests of the three translators each tool result refers to an earlier tool use, and none is lost. -/
structure LinkageSurvives (float : String → Json) (messages : List Json) : Prop where
  anthropic : ∃ out system, openaiMessagesToAnthropic float (.arr messages) = .ok (out, system) ∧
    Survives messages Json.str (out.flatMap anthropicLinks)
  gemini : ∃ out system, openaiMessagesToGemini float (.arr messages) = .ok (out, system) ∧
    Survives messages (toolResponsePayload float) (out.flatMap geminiLinks)
  bedrock : ∃ out system, openaiMessagesToBedrock float (.arr messages) = .ok (out, system) ∧
    Survives messages bedrockContent (out.flatMap bedrockLinks)

/-- A tool message that both Gemini and Bedrock can tie to a call. -/
structure Answers (messages pre : List Json) (m : Json) : Prop where
  /-- It has an id, and an earlier call with a name has it too. -/
  bedrock : (resultId m).truthy = true ∧ ∃ tc ∈ earlierCalls pre, (nameOf tc).truthy = true ∧ useId tc = resultId m
  /-- The name that its id stands for is the name of an earlier call. -/
  gemini : ∃ tc ∈ earlierCalls pre, (nameOf tc).orElse (.str "") = answerName messages m

variable {float : String → Json} {messages : List Json}

theorem anthropic_survives (each : ∀ m ∈ messages, IsMessage m) (refers : Refers messages) :
    ∃ out system, openaiMessagesToAnthropic float (.arr messages) = .ok (out, system) ∧
      Survives messages Json.str (out.flatMap anthropicLinks) := by
  obtain ⟨out, system, made, links⟩ := translate_links fun m mem => @anthropic_message float m (each m mem)
  refine ⟨out, system, made, ?_⟩
  rw [links, anthropicParts, survives_iff oneResult_always usesOf_always]
  intro pre m post split tool
  obtain ⟨id, given, earlier, mem, assistant, tc, here, same⟩ := refers pre m post split tool
  exact ⟨rfl, tc, mem_earlierCalls.mpr ⟨earlier, mem, assistant, here⟩, rfl, by rw [same, given]⟩

theorem gemini_survives_iff (each : ∀ m ∈ messages, IsMessage m) (refers : Refers messages) :
    (∃ out system, openaiMessagesToGemini float (.arr messages) = .ok (out, system) ∧
        Survives messages (toolResponsePayload float) (out.flatMap geminiLinks)) ↔
      EachTool messages fun pre m => ∃ tc ∈ earlierCalls pre, (nameOf tc).orElse (.str "") = answerName messages m := by
  obtain ⟨names, told, known⟩ := toolNameById_ok each
  have given (m : Json) (mem : m ∈ messages) (tool : hasRole m "tool" = true) : ∃ id, m.field "tool_call_id" = .str id := by
    obtain ⟨pre, post, split⟩ := List.append_of_mem mem
    obtain ⟨id, same, -⟩ := refers pre m post split tool
    exact ⟨id, same⟩
  obtain ⟨out, system, made, links⟩ := translate_links fun m mem => @gemini_message float messages names known m (each m mem)
    (given m mem)
  have whole : openaiMessagesToGemini float (.arr messages) = .ok (out, system) := by
    have elements : (Json.arr messages).iterOr = .ok messages := by
      cases messages with
      | nil => rfl
      | cons m messages => rfl
    unfold openaiMessagesToGemini
    rw [elements]
    simp only [bind, Except.bind, told]
    exact made
  have iff : Survives messages (toolResponsePayload float) (out.flatMap geminiLinks) ↔
      EachTool messages fun pre m => ∃ tc ∈ earlierCalls pre, (nameOf tc).orElse (.str "") = answerName messages m := by
    rw [links, geminiParts, survives_iff oneResult_always usesOf_always]
    simp only [true_and]
  rw [← iff, whole]
  constructor
  · rintro ⟨out', system', same, survives⟩
    cases same
    exact survives
  · exact fun survives => ⟨out, system, rfl, survives⟩

theorem bedrock_survives_iff (each : ∀ m ∈ messages, IsMessage m) :
    (∃ out system, openaiMessagesToBedrock float (.arr messages) = .ok (out, system) ∧
        Survives messages bedrockContent (out.flatMap bedrockLinks)) ↔
      EachTool messages fun pre m =>
        (resultId m).truthy = true ∧ ∃ tc ∈ earlierCalls pre, (nameOf tc).truthy = true ∧ useId tc = resultId m := by
  obtain ⟨out, system, made, links⟩ := translate_links fun m mem => @bedrock_message float m (each m mem)
  have made' : openaiMessagesToBedrock float (.arr messages) = .ok (out, system) := made
  have iff : Survives messages bedrockContent (out.flatMap bedrockLinks) ↔
      EachTool messages fun pre m =>
        (resultId m).truthy = true ∧ ∃ tc ∈ earlierCalls pre, (nameOf tc).truthy = true ∧ useId tc = resultId m := by
    rw [links, bedrockParts]
    exact survives_iff ⟨fun _ => rfl⟩ ⟨fun _ => rfl⟩
  rw [← iff, made']
  constructor
  · rintro ⟨out', system', same, survives⟩
    cases same
    exact survives
  · exact fun survives => ⟨out, system, rfl, survives⟩

/-- Linkage survives the three translators exactly where each tool message can be tied to an earlier call. -/
theorem linkageSurvives_iff (each : ∀ m ∈ messages, IsMessage m) (refers : Refers messages) :
    LinkageSurvives float messages ↔ EachTool messages (Answers messages) := by
  constructor
  · intro survives pre m post split tool
    exact ⟨(bedrock_survives_iff each).mp survives.bedrock pre m post split tool,
      (gemini_survives_iff each refers).mp survives.gemini pre m post split tool⟩
  · intro answers
    refine ⟨anthropic_survives each refers, (gemini_survives_iff each refers).mpr ?_, (bedrock_survives_iff each).mpr ?_⟩
    · exact fun pre m post split tool => (answers pre m post split tool).gemini
    · exact fun pre m post split tool => (answers pre m post split tool).bedrock

section Examples

def call (id : String) (function : List (String × Json)) : Json := .obj [("id", .str id), ("function", .obj function)]

def calling (tc : Json) : Json := .obj [("role", .str "assistant"), ("content", .null), ("tool_calls", .arr [tc])]

def answer (id : String) : Json := .obj [("role", .str "tool"), ("tool_call_id", .str id), ("content", .str "ok")]

theorem isMessage_calling (id : String) (function : List (String × Json)) : IsMessage (calling (call id function)) := by
  have isCall : IsCall (call id function) := by
    refine ⟨rfl, ?_, .inr ⟨id, rfl⟩⟩
    unfold Json.dictish
    exact Bool.or_eq_true_iff.mpr (.inr rfl)
  refine ⟨rfl, rfl, rfl, fun tc mem => ?_⟩
  rw [List.mem_singleton.mp mem]
  exact isCall

theorem isMessage_answer (id : String) : IsMessage (answer id) := ⟨rfl, rfl, rfl, fun tc mem => by cases mem⟩

/-- A call and its result. -/
def answered (id : String) (function : List (String × Json)) : List Json := [calling (call id function), answer id]

theorem isMessage_answered {id : String} {function : List (String × Json)} : ∀ m ∈ answered id function, IsMessage m := by
  intro m mem
  rcases List.mem_pair.mp mem with rfl | rfl
  · exact isMessage_calling id function
  · exact isMessage_answer id

theorem refers_answered {before : List Json} (refers : Refers before) (id : String) (function : List (String × Json)) :
    Refers (before ++ answered id function) := by
  have first : Refers (before ++ [calling (call id function)]) := eachTool_append refers fun impossible => by cases impossible
  have both := @eachTool_append _ (answer id) _ first fun _ => ⟨id, rfl, calling (call id function),
    List.mem_append_right _ List.mem_cons_self, rfl, call id function, List.mem_cons_self, rfl⟩
  rw [List.append_assoc] at both
  exact both

/-- A call of the clock and one of the weather, each with its result. -/
def exchanges : List Json := answered "call_1" [("name", .str "clock")] ++ answered "call_2" [("name", .str "weather")]

theorem answers_exchanges : EachTool exchanges (Answers exchanges) := by
  refine @eachTool_append _ (answer "call_2") _ (@eachTool_append _ (calling (call "call_2" [("name", .str "weather")])) _
    (@eachTool_append _ (answer "call_1") _ (@eachTool_append _ (calling (call "call_1" [("name", .str "clock")])) _ (eachTool_nil _)
      fun impossible => by cases impossible) fun _ => ?_) fun impossible => by cases impossible) fun _ => ?_
  · have earlier : call "call_1" [("name", .str "clock")] ∈ earlierCalls [calling (call "call_1" [("name", .str "clock")])] :=
      List.mem_cons_self
    exact ⟨⟨rfl, _, earlier, rfl, rfl⟩, _, earlier, rfl⟩
  · have earlier : call "call_2" [("name", .str "weather")] ∈
        earlierCalls (answered "call_1" [("name", .str "clock")] ++ [calling (call "call_2" [("name", .str "weather")])]) :=
      List.mem_cons_of_mem _ List.mem_cons_self
    exact ⟨⟨rfl, _, earlier, rfl, rfl⟩, _, earlier, rfl⟩

/-- Each result is tied to its call, so no translator loses one. -/
theorem linkageSurvives_clock : LinkageSurvives (fun _ => .null) exchanges :=
  (linkageSurvives_iff (List.forall_mem_append.mpr ⟨isMessage_answered, isMessage_answered⟩)
    (refers_answered (refers_answered (eachTool_nil _) _ _) _ _)).mpr answers_exchanges

/-- Two calls of different names under one id, each with its result. -/
def reused : List Json := answered "call_0" [("name", .str "clock")] ++ answered "call_0" [("name", .str "weather")]

/-- Bedrock skips a call without a name but not its result; Gemini gives a result the name of the last call with its id. -/
theorem linkage_lost :
    ((∀ m ∈ answered "call_1" [], IsMessage m) ∧ Refers (answered "call_1" []) ∧
        ¬LinkageSurvives (fun _ => .null) (answered "call_1" [])) ∧
      (∀ m ∈ reused, IsMessage m) ∧ Refers reused ∧ ¬LinkageSurvives (fun _ => .null) reused := by
  have refers : Refers (answered "call_1" []) := refers_answered (eachTool_nil _) _ _
  have each : ∀ m ∈ reused, IsMessage m := List.forall_mem_append.mpr ⟨isMessage_answered, isMessage_answered⟩
  have refers' : Refers reused := refers_answered (refers_answered (eachTool_nil _) _ _) _ _
  refine ⟨⟨isMessage_answered, refers, fun survives => ?_⟩, each, refers', fun survives => ?_⟩
  · obtain ⟨-, tc, earlier, named, -⟩ := (bedrock_survives_iff isMessage_answered).mp survives.bedrock [calling (call "call_1" [])]
      (answer "call_1") [] rfl rfl
    have only : tc = call "call_1" [] := List.mem_singleton.mp earlier
    rw [only] at named
    cases named
  · obtain ⟨tc, earlier, same⟩ := (gemini_survives_iff each refers').mp survives.gemini
      [calling (call "call_0" [("name", .str "clock")])] (answer "call_0") (answered "call_0" [("name", .str "weather")]) rfl rfl
    have only : tc = call "call_0" [("name", .str "clock")] := List.mem_singleton.mp earlier
    rw [only] at same
    exact absurd same (by decide +kernel)

end Examples

end Translators

end Unhardcoded.Guarantees.ToolLinkage
