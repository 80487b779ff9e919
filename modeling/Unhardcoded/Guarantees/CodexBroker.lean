import Unhardcoded.Source.CodexBroker

/-!
# What the client of the Codex broker emits

However the broker's task and its generator take turns, wherever the body is cut and
however it ends, the client has emitted the texts of the first deltas, in order. It
returns the broker's result only behind all of them, and an error of its own says
whether anything was emitted.
-/

namespace Unhardcoded.Guarantees.CodexBroker

open Python Source.CodexBroker
open Source.Adapters (ErrorKind)
open Effects

section Lines

variable {env : Setting}

/-- The line of an event. -/
def lineOf (event : Event) : List Char := event.json.compact.toList

/-- The deltas that the client emits: texts that are not empty. -/
def texts (sent : List Json) : List String :=
  sent.filterMap fun d => match d with
    | .str text => if text = "" then none else some text
    | _ => none

/-- A signal, as the client replays it. -/
def replayed (env : Setting) (s : Signal) : Signal :=
  { s with
    headers := s.headers.foldl (fun d h => insert (clip 100 h.1) (clip 1000 h.2) d) []
    ts := if s.ts = 0 then env.time else s.ts }

/-- `int` and `str` of integers and of texts. -/
structure Plain (env : Setting) : Prop where
  int : ∀ n, env.int (.int n) = .ok n
  str : ∀ text, env.str (.str text) = text

theorem texts_append (first later : List Json) : texts (first ++ later) = texts first ++ texts later :=
  List.filterMap_append

theorem foldl_headers (plain : Plain env) (headers : List (String × String)) (d : List (String × String)) :
    (headers.map fun h => (h.1, Json.str h.2)).foldl (fun d e => insert (clip 100 e.1) (clip 1000 (env.str e.2)) d) d =
      headers.foldl (fun d h => insert (clip 100 h.1) (clip 1000 h.2) d) d := by
  rw [List.foldl_map]
  simp only [plain.str]

theorem replaySignal_json (plain : Plain env) (s : Signal) : replaySignal env s.json = .ok (replayed env s) := by
  have status : env.int ((s.json.field "status").orElse (.int 0)) = .ok s.status := by
    have : (s.json.field "status").orElse (.int 0) = .int s.status := by
      by_cases zero : s.status = 0 <;> simp [Signal.json, Json.field, Json.field?, Json.orElse, Json.truthy, zero]
    rw [this, plain.int]
  have ts : env.int ((s.json.field "ts").orElse (.int env.time)) = .ok (if s.ts = 0 then env.time else s.ts) := by
    have : (s.json.field "ts").orElse (.int env.time) = .int (if s.ts = 0 then env.time else s.ts) := by
      by_cases zero : s.ts = 0 <;> simp [Signal.json, Json.field, Json.field?, Json.orElse, Json.truthy, zero, List.lookup_cons]
    rw [this, plain.int]
  have headers : s.json.field "headers" = .obj (s.headers.map fun h => (h.1, .str h.2)) := by
    simp [Signal.json, Json.field, Json.field?, List.lookup_cons]
  unfold replaySignal
  rw [status, ts, headers]
  simp only [foldl_headers plain]
  rfl

theorem replaySignals_json (plain : Plain env) (signals : List Signal) :
    replaySignals env (.arr (signals.map Signal.json)) = .ok ((signals.take 16).map (replayed env)) := by
  have dicts : ((signals.map Signal.json).take 16).filter Json.isObj = (signals.take 16).map Signal.json := by
    rw [← List.map_take, List.filter_eq_self]
    intro v mem
    obtain ⟨s, -, rfl⟩ := List.mem_map.mp mem
    rfl
  unfold replaySignals
  dsimp only
  rw [dicts]
  induction signals.take 16 with
  | nil => rfl
  | cons s signals ih =>
    rw [List.map_cons, List.mapM_cons, replaySignal_json plain, ih]
    rfl

/-- A line that is read: not empty, and the value that it was written from. -/
theorem readable {event : Event} (sound : event.json.Sound env.float) :
    String.ofList (lineOf event) ≠ "" ∧ loads env.float (String.ofList (lineOf event)) = some event.json := by
  obtain ⟨c, cs, text, -⟩ := compact_opens sound
  constructor
  · intro empty
    have := congrArg String.toList empty
    rw [String.toList_ofList, lineOf, text] at this
    cases this
  · rw [lineOf, String.ofList_toList]
    exact loads_compact sound

theorem readLines_delta {d : Json} (sound : (Event.delta d).json.Sound env.float) (sent : List String) (lines : List String) :
    readLines env sent (String.ofList (lineOf (.delta d)) :: lines) = readLines env (sent ++ texts [d]) lines := by
  obtain ⟨full, read⟩ := readable sound
  have kind : (Event.delta d).json.field "event" = .str "delta" := rfl
  have value : (Event.delta d).json.field "delta" = d := rfl
  rw [readLines, if_neg full, read]
  dsimp only
  rw [kind, value, if_pos (by decide)]
  cases d with
  | str text =>
    by_cases empty : text = ""
    · simp [texts, empty]
    · simp [texts, empty]
  | _ => simp [texts]

theorem readLines_deltas {sent : List Json} (sound : ∀ d ∈ sent, (Event.delta d).json.Sound env.float) (before : List String)
    (lines : List String) :
    readLines env before ((sent.map fun d => String.ofList (lineOf (.delta d))) ++ lines) = readLines env (before ++ texts sent) lines := by
  induction sent generalizing before with
  | nil => rw [List.map_nil, List.nil_append, texts, List.filterMap_nil, List.append_nil]
  | cons d sent ih =>
    rw [List.map_cons, List.cons_append, readLines_delta (sound d List.mem_cons_self),
      ih fun e mem => sound e (List.mem_cons_of_mem _ mem), List.append_assoc, ← texts_append, List.singleton_append]

theorem readLines_result (plain : Plain env) {result : List (String × Json)} {signals : List Signal}
    (sound : (Event.result result signals).json.Sound env.float) (sent : List String) (lines : List String) :
    readLines env sent (String.ofList (lineOf (.result result signals)) :: lines) =
      (sent, some (.ok (.relayed result ((signals.take 16).map (replayed env))))) := by
  obtain ⟨full, read⟩ := readable sound
  have kind : (Event.result result signals).json.field "event" = .str "result" := rfl
  have value : (Event.result result signals).json.field "result" = .obj result := rfl
  have replay : (Event.result result signals).json.field "signals" = .arr (signals.map Signal.json) := rfl
  rw [readLines, if_neg full, read]
  dsimp only
  rw [kind, value, replay, if_neg (by decide), if_pos (by decide), replaySignals_json plain]
  rfl

/-- A line that was cut short ends the loop. -/
theorem readLines_cut {event : Event} (sound : event.json.Sound env.float) {part lost : List Char} (cut : lineOf event = part ++ lost)
    (full : part ≠ []) (missing : lost ≠ []) (sent : List String) (lines : List String) :
    readLines env sent (String.ofList part :: lines) = (sent, some (.ok (.err (cutKind sent .badResponse) 200))) := by
  have nonempty : String.ofList part ≠ "" := by
    intro empty
    have := congrArg String.toList empty
    rw [String.toList_ofList] at this
    exact full this
  have refused : loads env.float (String.ofList part) = none := by
    cases event with
    | delta d => exact loads_cut sound cut missing
    | result result signals => exact loads_cut sound cut missing
  rw [readLines, if_neg nonempty, refused]

end Lines

section Body

variable {env : Setting} {work : Work} {result : List (String × Json)} {signals : List Signal}

/-- The events of a request are values of Python. -/
def SoundEvents (env : Setting) (work : Work) (signals : List Signal) : Prop :=
  ∀ event ∈ events work signals, event.json.Sound env.float

/-- The lines of the body. -/
def bodyLines (work : Work) (signals : List Signal) : List (List Char) := (events work signals).map lineOf

theorem plain_line (sound : SoundEvents env work signals) : ∀ line ∈ bodyLines work signals, ∀ c ∈ line, isBreak c = false := by
  intro line mem
  obtain ⟨event, within, rfl⟩ := List.mem_map.mp mem
  exact plain_compact (sound event within)

/-- The lines that arrive of a body that was cut: the whole ones, and what is left of the next
where the body ends as if it were whole. -/
theorem linesOf_ended {whole : List (List Char)} {part : List Char} (plain : ∀ l ∈ whole, ∀ c ∈ l, isBreak c = false)
    (rest : ∀ c ∈ part, isBreak c = false) (ending : Ending) :
    linesOf ending (ended whole ++ part) =
      whole.map String.ofList ++ if part ≠ [] ∧ ending = .closed then [String.ofList part] else [] := by
  have lines := splitFrom_ended plain rest
  by_cases nothing : part = []
  · subst nothing
    rw [if_neg (by simp), List.append_nil, List.append_nil]
    rw [if_pos rfl, List.append_nil, List.append_nil] at lines
    have last : (ended whole).getLast? = if whole = [] then none else some '\n' := by
      cases whole using List.reverseRecOn with
      | nil => rfl
      | append_singleton whole line =>
        rw [ended_append, if_neg (by simp)]
        simp [ended]
    have feed : isBreak '\n' = true := by decide
    unfold linesOf
    rw [last, lines]
    cases ending with
    | closed => rfl
    | timedOut => cases whole <;> simp [feed]
    | broken => cases whole <;> simp [feed]
  · rw [if_neg nothing] at lines
    have last : ∃ c, (ended whole ++ part).getLast? = some c ∧ isBreak c = false := by
      refine ⟨part.getLast nothing, ?_, rest _ (List.getLast_mem nothing)⟩
      rw [List.getLast?_append_of_ne_nil _ nothing, List.getLast?_eq_some_getLast nothing]
    obtain ⟨c, last, inside⟩ := last
    unfold linesOf
    rw [last, lines]
    cases ending with
    | closed => simp [nothing]
    | timedOut => simp [inside]
    | broken => simp [inside]

/-- What a client that holds such a part of the body comes to. -/
structure Relayed (env : Setting) (work : Work) (signals : List Signal) (out : Outcome) : Prop where
  inOrder : out.sent <+: texts work.sent
  ended : (∃ result ∈ work.result, out.reply = .ok (.relayed result ((signals.take 16).map (replayed env))) ∧
      out.sent = texts work.sent) ∨
    ∃ kind status, out.reply = .ok (.err kind status) ∧ (kind = .streamInterrupted ↔ out.sent ≠ [])

theorem cutKind_iff (sent : List String) {kind : ErrorKind} (other : kind ≠ .streamInterrupted) :
    cutKind sent kind = .streamInterrupted ↔ sent ≠ [] := by
  unfold cutKind
  cases sent with
  | nil => simp [other]
  | cons text sent => simp

theorem events_answered (answers : work.result = some result) :
    events work signals = work.sent.map .delta ++ [.result result signals] := by
  rw [events, answers]
  rfl

/-- Where `select_account()` raises. -/
theorem events_failed (silent : work.result = none) : work.sent = [] ∧ events work signals = [] := by
  cases work with
  | failed => exact ⟨rfl, rfl⟩
  | noAccount => cases silent
  | returned => cases silent
  | raised => cases silent

/-- The whole lines are those of the first deltas, or all of them. -/
theorem split_events (answers : work.result = some result) {whole later : List (List Char)}
    (split : bodyLines work signals = whole ++ later) :
    (∃ first rest, work.sent = first ++ rest ∧ whole = first.map (fun d => lineOf (.delta d)) ∧
      later = rest.map (fun d => lineOf (.delta d)) ++ [lineOf (.result result signals)]) ∨
    (whole = bodyLines work signals ∧ later = []) := by
  have shape : bodyLines work signals = work.sent.map (fun d => lineOf (.delta d)) ++ [lineOf (.result result signals)] := by
    simp [bodyLines, events_answered answers]
  rcases later.eq_nil_or_concat with rfl | ⟨init, last, rfl⟩
  · exact .inr ⟨by rw [split, List.append_nil], rfl⟩
  · left
    rw [shape, List.concat_eq_append, ← List.append_assoc] at split
    obtain ⟨deltas, result⟩ := List.append_inj' split rfl
    obtain ⟨first, rest, sent, before, after⟩ := List.map_eq_append_iff.mp deltas
    exact ⟨first, rest, sent, before.symm, by rw [List.concat_eq_append, after, List.singleton_inj.mp result]⟩

theorem sound_delta (sound : SoundEvents env work signals) {d : Json} (mem : d ∈ work.sent) : (Event.delta d).json.Sound env.float :=
  sound _ (List.mem_append_left _ (List.mem_map_of_mem mem))

theorem sound_result (answers : work.result = some result) (sound : SoundEvents env work signals) :
    (Event.result result signals).json.Sound env.float := by
  apply sound
  rw [events_answered answers]
  exact List.mem_append_right _ (List.mem_singleton_self _)

theorem stream_returns {lines sent : List String} {text : List Char} {ending : Ending} {reply : Except Raised Reply}
    (arrived : linesOf ending text = lines) (read : readLines env [] lines = (sent, some reply)) :
    stream env (.status 200) text ending = ⟨sent, reply⟩ := by
  unfold stream
  dsimp only
  rw [if_neg (by simp), arrived, read]

theorem stream_ends {lines sent : List String} {text : List Char} {ending : Ending} (arrived : linesOf ending text = lines)
    (read : readLines env [] lines = (sent, none)) :
    stream env (.status 200) text ending = ⟨sent, .ok (unanswered sent ending)⟩ := by
  unfold stream
  dsimp only
  rw [if_neg (by simp), arrived, read]

/-- Behind the texts of the first deltas, an error of the client's own. -/
theorem relayed_err {first rest : List Json} (sent : work.sent = first ++ rest) {kind : ErrorKind} (other : kind ≠ .streamInterrupted)
    (status : Nat) : Relayed env work signals ⟨texts first, .ok (.err (cutKind (texts first) kind) status)⟩ := by
  refine ⟨?_, .inr ⟨_, _, rfl, cutKind_iff _ other⟩⟩
  rw [sent, texts_append]
  exact List.prefix_append _ _

theorem relayed_unanswered {first rest : List Json} (sent : work.sent = first ++ rest) (ending : Ending) :
    Relayed env work signals ⟨texts first, .ok (unanswered (texts first) ending)⟩ := by
  cases ending with
  | closed => exact relayed_err sent (by simp) 200
  | timedOut => exact relayed_err sent (by simp) 0
  | broken => exact relayed_err sent (by simp) 0

/-- A client that holds the whole body returns the broker's result. -/
theorem stream_whole (answers : work.result = some result) (plain : Plain env) (sound : SoundEvents env work signals)
    (ending : Ending) :
    stream env (.status 200) (ended (bodyLines work signals)) ending =
      ⟨texts work.sent, .ok (.relayed result ((signals.take 16).map (replayed env)))⟩ := by
  have nothing : ∀ c ∈ ([] : List Char), isBreak c = false := by simp
  have arrived := linesOf_ended (plain_line sound) nothing ending
  rw [List.append_nil, if_neg (by simp), List.append_nil] at arrived
  have lines : (bodyLines work signals).map String.ofList = (work.sent.map fun d => String.ofList (lineOf (.delta d))) ++
      [String.ofList (lineOf (.result result signals))] := by
    simp [bodyLines, events_answered answers]
  refine stream_returns (arrived.trans lines) ?_
  rw [readLines_deltas (fun d mem => sound_delta sound mem), List.nil_append, readLines_result plain (sound_result answers sound)]

/-- The next line, whole without its line feed or cut short, is the last that is read. -/
theorem relayed_part (answers : work.result = some result) (plain : Plain env) (sound : SoundEvents env work signals) {first rest : List Json}
    (sent : work.sent = first ++ rest) {part lost : List Char} {more : List (List Char)}
    (next : (part ++ lost) :: more = rest.map (fun d => lineOf (.delta d)) ++ [lineOf (.result result signals)])
    (full : part ≠ []) {out : Outcome} {ending : Ending} {lines : List String}
    (returns : ∀ {sent reply}, readLines env [] lines = (sent, some reply) → out = ⟨sent, reply⟩)
    (ends : ∀ {sent}, readLines env [] lines = (sent, none) → out = ⟨sent, .ok (unanswered sent ending)⟩)
    (before : readLines env [] lines = readLines env (texts first) [String.ofList part]) : Relayed env work signals out := by
  by_cases whole : lost = []
  · subst whole
    rw [List.append_nil] at next
    cases rest with
    | nil =>
      obtain ⟨rfl, -⟩ := List.cons.inj next
      rw [List.append_nil] at sent
      rw [returns (before.trans (readLines_result plain (sound_result answers sound) _ _)), ← sent]
      exact ⟨List.prefix_rfl, .inl ⟨result, answers, rfl, rfl⟩⟩
    | cons d rest =>
      obtain ⟨rfl, -⟩ := List.cons.inj next
      have mem : d ∈ work.sent := by
        rw [sent]
        simp
      have read := readLines_delta (sound_delta sound mem) (texts first) []
      rw [← texts_append] at read
      rw [ends (before.trans read)]
      have split : work.sent = (first ++ [d]) ++ rest := by rw [sent, List.append_assoc]; rfl
      exact relayed_unanswered split ending
  · have event : ∃ event : Event, event.json.Sound env.float ∧ lineOf event = part ++ lost := by
      cases rest with
      | nil => exact ⟨_, sound_result answers sound, (List.cons.inj next).1.symm⟩
      | cons d rest => exact ⟨_, sound_delta sound (by rw [sent]; simp), (List.cons.inj next).1.symm⟩
    obtain ⟨event, value, line⟩ := event
    rw [returns (before.trans (readLines_cut value line full whole _ _))]
    exact relayed_err sent (by simp) 200

/-- Of a body without lines nothing arrives. -/
theorem stream_failed (silent : work.result = none) {text : List Char} (held : text <+: ended (bodyLines work signals))
    (ending : Ending) : Relayed env work signals (stream env (.status 200) text ending) := by
  obtain ⟨nothing, empty⟩ := @events_failed _ signals silent
  obtain rfl : text = [] := by
    rw [bodyLines, empty] at held
    exact List.prefix_nil.mp held
  have arrived : linesOf ending [] = [] := by
    cases ending with
    | closed => rfl
    | timedOut => rfl
    | broken => rfl
  rw [stream_ends arrived rfl]
  exact @relayed_unanswered _ _ _ [] [] nothing ending

/-- Wherever the body is cut and however it ends. -/
theorem stream_cut (answers : work.result = some result) (plain : Plain env) (sound : SoundEvents env work signals) {text : List Char}
    (held : text <+: ended (bodyLines work signals)) (ending : Ending) :
    Relayed env work signals (stream env (.status 200) text ending) := by
  obtain ⟨whole, part, later, split, rfl, starts⟩ := exists_of_prefix_ended held
  rcases split_events answers split with ⟨first, rest, sent, rfl, behind⟩ | ⟨rfl, rfl⟩
  · have deltas : ∀ d ∈ first, (Event.delta d).json.Sound env.float := fun d mem =>
      sound_delta sound (sent ▸ List.mem_append_left _ mem)
    have inside : ∀ c ∈ part, isBreak c = false := by
      rcases starts with rfl | ⟨line, more, here, start⟩
      · simp
      · have mem : line ∈ bodyLines work signals := by
          rw [split, here]
          simp
        exact fun c within => plain_line sound line mem c (start.subset within)
    have arrived := linesOf_ended (fun l mem => plain_line sound l (by rw [split]; exact List.mem_append_left _ mem)) inside ending
    rw [List.map_map] at arrived
    by_cases flushed : part ≠ [] ∧ ending = .closed
    · rw [if_pos flushed] at arrived
      obtain ⟨line, more, here, lost, rfl⟩ := starts.resolve_left flushed.1
      have before := readLines_deltas deltas [] [String.ofList part]
      rw [List.nil_append] at before
      exact relayed_part answers plain sound sent (here.symm.trans behind) flushed.1 (stream_returns arrived) (stream_ends arrived) before
    · rw [if_neg flushed] at arrived
      have read := readLines_deltas deltas [] []
      rw [List.nil_append] at read
      rw [stream_ends arrived (read.trans rfl)]
      exact relayed_unanswered sent ending
  · rcases starts with rfl | ⟨line, more, impossible, -⟩
    · rw [List.append_nil, stream_whole answers plain sound]
      exact ⟨List.prefix_rfl, .inl ⟨result, answers, rfl, rfl⟩⟩
    · cases impossible

end Body

section Run

variable {env : Setting} {work : Work} {result : List (String × Json)} {signals : List Signal} {s t : Relay}
  {acts : List Step}

/-- Where a request stands: the items written, those on the queue and those to come are the
events, the queue keeps its bound, and `run` and the generator have taken a step for each. -/
structure Standing (work : Work) (signals : List Signal) (acts : List Step) (s : Relay) : Prop where
  split : ∃ written, events work signals = written ++ (s.queue ++ s.pending) ∧ s.wire = ended (written.map lineOf) ∧
    acts.count .yield = written.length ∧ s.finished = written.any Event.isResult
  puts : acts.count .put + s.pending.length = (events work signals).length
  bounded : s.queue.length ≤ queueMax
  arrived : s.arrived ≤ s.wire.length

theorem standing_start (work : Work) (signals : List Signal) : Standing work signals [] (Relay.start work signals) :=
  ⟨⟨[], rfl, rfl, rfl, rfl⟩, by simp [Relay.start], Nat.zero_le _, le_refl _⟩

theorem standing_step {a : Step} (h : Standing work signals acts s) (stepped : step s a = some t) :
    Standing work signals (acts ++ [a]) t := by
  obtain ⟨⟨written, split, wire, yields, finished⟩, puts, bounded, arrived⟩ := h
  cases a with
  | put =>
    simp only [step] at stepped
    cases pending : s.pending with
    | nil => simp [pending] at stepped
    | cons event rest =>
      simp only [pending] at stepped
      split_ifs at stepped with room
      obtain rfl := Option.some.inj stepped
      rw [pending] at split puts
      refine ⟨⟨written, by simpa using split, wire, by simpa using yields, finished⟩, ?_, ?_, arrived⟩
      · rw [List.length_cons] at puts
        rw [List.count_append, List.count_singleton_self]
        dsimp only
        omega
      · rw [List.length_append, List.length_singleton]
        omega
  | yield =>
    simp only [step] at stepped
    split_ifs at stepped with spent
    cases queue : s.queue with
    | nil => simp [queue] at stepped
    | cons event rest =>
      simp only [queue] at stepped
      obtain rfl := Option.some.inj stepped
      rw [queue] at split bounded
      refine ⟨⟨written ++ [event], by simpa using split, ?_, ?_, ?_⟩, ?_, ?_, ?_⟩
      · rw [List.map_append, ended_append, wire]
        simp [ended, lineOf]
      · rw [List.count_append, List.count_singleton_self, List.length_append, List.length_singleton, yields]
      · rw [List.any_append, ← finished, Bool.eq_false_iff.mpr spent]
        simp
      · simpa using puts
      · rw [List.length_cons] at bounded
        exact Nat.le_of_succ_le bounded
      · dsimp only
        rw [List.length_append]
        omega
  | deliver count =>
    simp only [step] at stepped
    split_ifs at stepped with enough
    obtain rfl := Option.some.inj stepped
    exact ⟨⟨written, split, wire, by simpa using yields, finished⟩, by simpa using puts, bounded, enough⟩

theorem standing_run (h : Machine.run step (Relay.start work signals) acts = some s) : Standing work signals acts s :=
  Machine.run_history (standing_start work signals) (fun _ _ _ _ kept stepped => standing_step kept stepped) h

/-- What has arrived is a part of the body from its start. -/
theorem Standing.held (h : Standing work signals acts s) : s.wire.take s.arrived <+: ended (bodyLines work signals) := by
  obtain ⟨written, split, wire, -, -⟩ := h.split
  refine (List.take_prefix _ _).trans ?_
  rw [wire, bodyLines, split, List.map_append, ended_append]
  exact List.prefix_append _ _

/-- The result is the last event, and the only one of its kind. -/
theorem finished_iff (answers : work.result = some result) (h : Standing work signals acts s) : s.finished = true ↔ s.queue = [] ∧ s.pending = [] := by
  obtain ⟨written, split, -, -, finished⟩ := h.split
  rw [finished, ← List.append_eq_nil_iff]
  rcases (s.queue ++ s.pending).eq_nil_or_concat with nothing | ⟨init, last, more⟩
  · rw [nothing, List.append_nil] at split
    rw [nothing, ← split, events_answered answers]
    simp [Event.isResult]
  · rw [more, List.concat_eq_append, ← List.append_assoc, events_answered answers] at split
    obtain ⟨deltas, -⟩ := List.append_inj' split rfl
    have noResult : written.any Event.isResult = false := by
      rw [List.any_eq_false]
      intro event mem
      have within : event ∈ work.sent.map Event.delta := by
        rw [deltas]
        exact List.mem_append_left _ mem
      obtain ⟨d, -, rfl⟩ := List.mem_map.mp within
      simp [Event.isResult]
    rw [noResult, more]
    simp

/-- Whatever the broker's task and its generator have done, wherever the body is cut and however
it ends, the client has emitted the texts of the first deltas in order; it returns the broker's
result only behind all of them, and an error of its own is `stream_interrupted` where
something was emitted. -/
theorem relay_safe (plain : Plain env) (sound : SoundEvents env work signals)
    (h : Machine.run step (Relay.start work signals) acts = some s) (ending : Ending) :
    Relayed env work signals (stream env (.status 200) (s.wire.take s.arrived) ending) := by
  have held := (standing_run h).held
  cases answers : work.result with
  | none => exact stream_failed answers held ending
  | some result => exact stream_cut answers plain sound held ending

section Example

/-- `int` of an integer, `str` of a text. -/
def plainSetting : Setting where
  float repr := .float 0 repr
  int
    | .int n => .ok n
    | _ => .error .typeError
  str
    | .str text => text
    | v => v.dumps
  time := 0

def twoDeltas : Work := .returned [.str "hi", .str "you"] [("ok", .bool true)]

theorem plain_plainSetting : Plain plainSetting := ⟨fun _ => rfl, fun _ => rfl⟩

theorem sound_twoDeltas : SoundEvents plainSetting twoDeltas [] := by
  intro event mem
  have each : event = .delta (.str "hi") ∨ event = .delta (.str "you") ∨ event = .result [("ok", .bool true)] [] := by
    simpa [events, twoDeltas, Work.sent, Work.result] using mem
  rcases each with rfl | rfl | rfl
  · simp [Event.json, Json.Sound, SoundFields]
  · simp [Event.json, Json.Sound, SoundFields]
  · simp [Event.json, Json.Sound, SoundFields, SoundItems]

/-- The connection breaks in the line of the second delta. -/
theorem relay_safe_cut : ∃ s, Machine.run step (Relay.start twoDeltas []) [.put, .put, .yield, .yield, .deliver 40] = some s ∧
    (stream plainSetting (.status 200) (s.wire.take s.arrived) .broken).sent = ["hi"] ∧
    Relayed plainSetting twoDeltas [] (stream plainSetting (.status 200) (s.wire.take s.arrived) .broken) := by
  have emits : (Machine.run step (Relay.start twoDeltas []) [.put, .put, .yield, .yield, .deliver 40]).map
      (fun s => (stream plainSetting (.status 200) (s.wire.take s.arrived) .broken).sent) = some ["hi"] := by
    decide +kernel
  obtain ⟨s, ran, sent⟩ := Option.map_eq_some_iff.mp emits
  exact ⟨s, ran, sent, relay_safe plain_plainSetting sound_twoDeltas ran .broken⟩

end Example

/-- A broker that can do no more before its end has nothing left: the bounded queue never holds it up for good. -/
theorem idle_of_stuck (put : step s .put = none) (takes : step s .yield = none)
    (unfinished : s.finished ≠ true) : s.queue = [] ∧ s.pending = [] := by
  have queue : s.queue = [] := by
    cases queue : s.queue with
    | nil => rfl
    | cons event rest => simp [step, queue, unfinished] at takes
  have pending : s.pending = [] := by
    cases pending : s.pending with
    | nil => rfl
    | cons event rest => simp [step, pending, queue, queueMax] at put
  exact ⟨queue, pending⟩

/-- A run that the broker cannot go on with has written every event, after one step of the task
and one of the generator for each; where all of it has arrived, the client has emitted
every text and returns the broker's result. Only where `select_account()` raised nothing is written
and the generator waits. -/
theorem relay_completes (plain : Plain env) (sound : SoundEvents env work signals)
    (h : Machine.run step (Relay.start work signals) acts = some s) (put : step s .put = none) (takes : step s .yield = none) :
    (∀ result ∈ work.result, acts.count .put = work.sent.length + 1 ∧ acts.count .yield = work.sent.length + 1 ∧
      s.finished = true ∧
      (s.arrived = s.wire.length → ∀ ending, stream env (.status 200) (s.wire.take s.arrived) ending =
        ⟨texts work.sent, .ok (.relayed result ((signals.take 16).map (replayed env)))⟩)) ∧
    (work.result = none → acts.count .put = 0 ∧ s.wire = [] ∧ s.finished = false) := by
  have standing := standing_run h
  obtain ⟨written, split, wire, yields, finished⟩ := standing.split
  have puts := standing.puts
  refine ⟨fun result answers => ?_, fun silent => ?_⟩
  · have done : s.finished = true := by
      by_contra unfinished
      exact unfinished ((finished_iff answers standing).mpr (idle_of_stuck put takes unfinished))
    obtain ⟨queue, pending⟩ := (finished_iff answers standing).mp done
    rw [queue, pending, List.append_nil, List.append_nil] at split
    have count : (events work signals).length = work.sent.length + 1 := by simp [events_answered answers]
    rw [pending, List.length_nil, Nat.add_zero, count] at puts
    refine ⟨puts, by rw [yields, ← split, count], done, fun all ending => ?_⟩
    rw [all, List.take_length, wire, ← split]
    exact stream_whole answers plain sound ending
  · obtain ⟨-, empty⟩ := @events_failed _ signals silent
    rw [empty] at split puts
    obtain ⟨nothing, -⟩ := List.append_eq_nil_iff.mp split.symm
    rw [nothing] at wire finished
    exact ⟨Nat.eq_zero_of_add_eq_zero_right puts, wire, finished⟩

/-- Both deltas and the result, delivered to the last character. -/
theorem relay_completes_one : ∃ s, Machine.run step (Relay.start twoDeltas [])
      [.put, .yield, .put, .deliver 10, .yield, .put, .yield, .deliver 106] = some s ∧
    ∀ ending, stream plainSetting (.status 200) (s.wire.take s.arrived) ending =
      ⟨["hi", "you"], .ok (.relayed [("ok", .bool true)] [])⟩ := by
  have whole : (Machine.run step (Relay.start twoDeltas [])
      [.put, .yield, .put, .deliver 10, .yield, .put, .yield, .deliver 106]).map
      (fun s => (s.pending.isEmpty, s.finished, decide (s.arrived = s.wire.length))) = some (true, true, true) := by
    decide +kernel
  obtain ⟨s, ran, all⟩ := Option.map_eq_some_iff.mp whole
  simp only [Prod.mk.injEq, List.isEmpty_iff, decide_eq_true_eq] at all
  obtain ⟨pending, finished, arrived⟩ := all
  have put : step s .put = none := by rw [step, pending]
  have takes : step s .yield = none := by rw [step, if_pos finished]
  have answered := (relay_completes plain_plainSetting sound_twoDeltas ran put takes).1 _ rfl
  exact ⟨s, ran, fun ending => answered.2.2.2 arrived ending⟩

end Run

end Unhardcoded.Guarantees.CodexBroker
