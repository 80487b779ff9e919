import Unhardcoded.Python.JsonRoundTrip
import Unhardcoded.Source.StreamTail

/-!
# Stream metering finds the final event

Whatever the chunks are, the trimmed tail is the stream without some first bytes, and these
all lie before the final event: behind it only two blank lines are left, and the event and
what follows it fit under the cap. Read from its end, the tail gives the usage and the
routing record of the final event first.
-/

namespace Unhardcoded.Guarantees.StreamTail

open Unhardcoded.Python Unhardcoded.Source.StreamTail

section Trim

/-- A blank line begins at this position. -/
def BlankAt (bytes : List UInt8) (j : Nat) : Prop := bytes[j]? = some LF ∧ bytes[j + 1]? = some LF

theorem rfindBlank_spec {tail : List UInt8} {idx j : Nat} (h : rfindBlank tail idx = some j) :
    j + 2 ≤ idx ∧ BlankAt tail j := by
  have mem := List.mem_of_find?_eq_some h
  have found := List.find?_some h
  rw [List.mem_reverse, List.mem_range] at mem
  refine ⟨by omega, ?_⟩
  simpa [BlankAt] using found

/-- The boundaries that are found do not overlap. -/
theorem thirdBoundary_spec {tail : List UInt8} {i : Nat} (h : thirdBoundary tail = some i) :
    ∃ j k, i + 2 ≤ j ∧ j + 2 ≤ k ∧ k + 2 ≤ tail.length ∧ BlankAt tail i ∧ BlankAt tail j ∧ BlankAt tail k := by
  unfold thirdBoundary at h
  obtain ⟨k, first, h⟩ := Option.bind_eq_some_iff.mp h
  obtain ⟨j, second, third⟩ := Option.bind_eq_some_iff.mp h
  obtain ⟨within, blankK⟩ := rfindBlank_spec first
  obtain ⟨apart, blankJ⟩ := rfindBlank_spec second
  obtain ⟨apart', blankI⟩ := rfindBlank_spec third
  exact ⟨j, k, apart', apart, within, blankI, blankJ, blankK⟩

/-- A stream with two blank lines at most from a position on, and under the cap from there. -/
structure Ends (stream : List UInt8) (start : Nat) : Prop where
  within : start ≤ stream.length
  short : stream.length ≤ start + sseTailHardCap
  few : ∀ i j k, i + 2 ≤ j → j + 2 ≤ k → BlankAt stream i → BlankAt stream j → BlankAt stream k → i + 2 ≤ start

theorem capped_drop {seen : List UInt8} {start n : Nat} (few : n ≤ start) (short : seen.length ≤ start + sseTailHardCap) :
    ∃ k ≤ start, capped (seen.drop n) = seen.drop k := by
  unfold capped
  split
  · rename_i long
    rw [List.length_drop] at long ⊢
    refine ⟨n + (seen.length - n - sseTailHardCap), by omega, ?_⟩
    rw [List.drop_drop]
  · exact ⟨n, few, rfl⟩

theorem blankAt_drop {stream seen later : List UInt8} (whole : stream = seen ++ later) {n i : Nat}
    (h : BlankAt (seen.drop n) i) : BlankAt stream (n + i) := by
  have read (j : Nat) (found : (seen.drop n)[j]? = some LF) : stream[n + j]? = some LF := by
    rw [List.getElem?_drop] at found
    have inside : n + j < seen.length := (List.getElem?_eq_some_iff.mp found).1
    rw [whole, List.getElem?_append_left inside, found]
  exact ⟨read i h.1, read (i + 1) h.2⟩

/-- One chunk: what is cut off lies before the position. -/
theorem trim_drop {stream seen later : List UInt8} {start n : Nat} (ends : Ends stream start) (whole : stream = seen ++ later)
    (few : n ≤ start) : ∃ k ≤ start, trimSseTail (seen.drop n) = seen.drop k := by
  have short : seen.length ≤ start + sseTailHardCap := by
    have := ends.short
    rw [whole, List.length_append] at this
    omega
  unfold trimSseTail
  split
  · rename_i i found
    obtain ⟨j, k, apart, apart', -, blankI, blankJ, blankK⟩ := thirdBoundary_spec found
    have cut := ends.few (n + i) (n + j) (n + k) (by omega) (by omega) (blankAt_drop whole blankI) (blankAt_drop whole blankJ)
      (blankAt_drop whole blankK)
    rw [List.drop_drop]
    exact capped_drop (by omega) short
  · exact capped_drop few short

theorem drop_min (seen : List UInt8) (k : Nat) : seen.drop (min k seen.length) = seen.drop k := by
  by_cases few : k ≤ seen.length
  · rw [min_eq_left few]
  · rw [min_eq_right (by omega), List.drop_length, List.drop_eq_nil_of_le (by omega)]

/-- The loop over the chunks: the tail lacks some bytes before the position at most. -/
theorem pumpTail_drop {start : Nat} {chunks : List (List UInt8)} (ends : Ends chunks.flatten start) :
    ∃ k ≤ start, pumpTail chunks = chunks.flatten.drop k := by
  have run (done rest : List (List UInt8)) (split : chunks = done ++ rest) :
      ∃ k ≤ start, done.foldl (fun tail chunk => trimSseTail (tail ++ chunk)) [] = done.flatten.drop k := by
    induction done using List.reverseRecOn generalizing rest with
    | nil => exact ⟨0, Nat.zero_le _, rfl⟩
    | append_singleton done chunk ih =>
      obtain ⟨k, few, tail⟩ := ih (chunk :: rest) (by rw [split, List.append_assoc]; rfl)
      have grown : done.flatten.drop k ++ chunk = (done ++ [chunk]).flatten.drop (min k done.flatten.length) := by
        rw [List.flatten_append, List.flatten_singleton, List.drop_append_of_le_length (min_le_right _ _), drop_min]
      have whole : chunks.flatten = (done ++ [chunk]).flatten ++ rest.flatten := by rw [split, List.flatten_append]
      rw [List.foldl_append, tail, List.foldl_cons, List.foldl_nil, grown]
      exact trim_drop ends whole (le_trans (min_le_left _ _) few)
  exact run chunks [] (List.append_nil _).symm

theorem pumpTail_concat (chunks : List (List UInt8)) (chunk : List UInt8) :
    pumpTail (chunks ++ [chunk]) = trimSseTail (pumpTail chunks ++ chunk) := by
  rw [pumpTail, List.foldl_append]
  rfl

theorem ends_length (stream : List UInt8) : Ends stream stream.length where
  within := le_refl _
  short := Nat.le_add_right _ _
  few _ _ _ _ _ blank _ _ := (List.getElem?_eq_some_iff.mp blank.2).1

theorem blankAt_behind {pre tail : List UInt8} {i : Nat} (h : BlankAt (pre ++ tail) (pre.length + i)) : BlankAt tail i := by
  obtain ⟨here, next⟩ := h
  rw [List.getElem?_append_right (by omega)] at here next
  rw [Nat.add_sub_cancel_left] at here
  rw [show pre.length + i + 1 - pre.length = i + 1 by omega] at next
  exact ⟨here, next⟩

theorem not_feed {text tail : List UInt8} {i : Nat} (plain : LF ∉ text) (inside : i < text.length) :
    (text ++ tail)[i]? ≠ some LF := by
  intro found
  rw [List.getElem?_append_left inside] at found
  exact plain (List.mem_of_getElem? found)

/-- The blank lines of two texts without line feeds, each with one behind it. -/
theorem blankAt_two {first second : List UInt8} {j : Nat} (plain : LF ∉ first) (plain' : LF ∉ second) (opened : second ≠ [])
    (h : BlankAt (first ++ LF :: LF :: (second ++ [LF, LF])) j) : j = first.length ∨ j = first.length + 2 + second.length := by
  have nonempty := List.length_pos_iff.mpr opened
  by_cases inFirst : j < first.length
  · exact absurd h.1 (not_feed plain inFirst)
  obtain ⟨i, rfl⟩ := Nat.exists_eq_add_of_le (Nat.le_of_not_lt inFirst)
  have behind := blankAt_behind h
  by_cases at_ : i = 0
  · exact .inl (by omega)
  by_cases between : i = 1
  · subst between
    exact absurd behind.2 (not_feed plain' nonempty)
  obtain ⟨m, rfl⟩ := Nat.exists_eq_add_of_le (show 2 ≤ i by omega)
  have rest : BlankAt (second ++ [LF, LF]) m := @blankAt_behind [LF, LF] _ m behind
  by_cases inSecond : m < second.length
  · exact absurd rest.1 (not_feed plain' inSecond)
  have last : m + 1 < (second ++ [LF, LF]).length := (List.getElem?_eq_some_iff.mp rest.2).1
  rw [List.length_append, List.length_cons, List.length_singleton] at last
  exact .inr (by omega)

/-- Behind whatever came first, two events leave no third blank line. -/
theorem ends_of_two {first second : List UInt8} (pre : List UInt8) (opened : first ≠ []) (opened' : second ≠ [])
    (plain : LF ∉ first) (plain' : LF ∉ second) (short : (first ++ LF :: LF :: (second ++ [LF, LF])).length ≤ sseTailHardCap) :
    Ends (pre ++ (first ++ LF :: LF :: (second ++ [LF, LF]))) pre.length := by
  constructor
  case within =>
    rw [List.length_append]
    omega
  case short =>
    rw [List.length_append]
    omega
  case few =>
    intro i j k apart apart' blankI blankJ blankK
    by_contra late
    have behind : pre.length ≤ i := by
      by_contra before
      have edge : i + 1 = pre.length + 0 := by omega
      have next := blankI.2
      rw [edge, List.getElem?_append_right (by omega), Nat.add_sub_cancel_left] at next
      exact not_feed plain (List.length_pos_iff.mpr opened) next
    obtain ⟨i, rfl⟩ := Nat.exists_eq_add_of_le behind
    obtain ⟨j, rfl⟩ := Nat.exists_eq_add_of_le (show pre.length ≤ j by omega)
    obtain ⟨k, rfl⟩ := Nat.exists_eq_add_of_le (show pre.length ≤ k by omega)
    have placeI := blankAt_two plain plain' opened' (blankAt_behind blankI)
    have placeJ := blankAt_two plain plain' opened' (blankAt_behind blankJ)
    have placeK := blankAt_two plain plain' opened' (blankAt_behind blankK)
    omega

end Trim

section Events

variable {float : String → Json}

theorem plain_of_printable {cs : List Char} (h : cs.all printable = true) :
    (∀ c ∈ cs, isBreak c = false) ∧ (∀ c ∈ cs, c.toNat < 0x80) ∧ LF ∉ ascii cs := by
  have each (c : Char) (mem : c ∈ cs) : 32 ≤ c.toNat ∧ c.toNat ≤ 126 := by
    have := List.all_eq_true.mp h c mem
    simpa [printable] using this
  refine ⟨fun c mem => ?_, fun c mem => ?_, fun mem => ?_⟩
  · have := each c mem
    unfold isBreak
    simp only [Bool.or_eq_false_iff, Bool.and_eq_false_iff, decide_eq_false_iff_not]
    omega
  · have := each c mem
    omega
  · obtain ⟨c, inside, same⟩ := List.mem_map.mp mem
    have := each c inside
    have value := congrArg UInt8.toNat same
    rw [UInt8.toNat_ofNat', show LF.toNat = 10 from rfl] at value
    omega

/-- An encoded chunk is a line of printable characters and an empty one. -/
theorem toList_chunk {streamId model : String} {created : Int} {choice extra : List (String × Json)}
    (sound : (payload streamId created model choice extra).Sound float) :
    ∃ line, (chunk streamId created model choice extra).toList = line ++ ['\n', '\n'] ∧
      line = "data: ".toList ++ (payload streamId created model choice extra).dumps.toList ∧ line.all printable = true := by
  refine ⟨_, ?_, rfl, ?_⟩
  · unfold chunk
    rw [String.toList_append, String.toList_append]
    rfl
  · rw [List.all_append, dumps_printable _ sound]
    decide

/-- A payload without usage and routing record. -/
theorem sound_early (float : String → Json) (streamId : String) (created : Int) (model : String) {delta : Json}
    (sound : delta.Sound float) :
    (payload streamId created model [("delta", delta), ("finish_reason", .null)] []).Sound float := by
  have fields : payload streamId created model [("delta", delta), ("finish_reason", .null)] [] =
      .obj [("id", .str streamId), ("object", .str "chat.completion.chunk"), ("created", .int created), ("model", .str model),
        ("choices", .arr [.obj [("delta", delta), ("finish_reason", .null), ("index", .int 0)]])] := rfl
  rw [fields]
  simp [Json.Sound, SoundFields, SoundItems, sound]

theorem chunk_text {float : String → Json} {streamId model : String} {created : Int} {choice extra : List (String × Json)}
    (sound : (payload streamId created model choice extra).Sound float) :
    (∀ c ∈ (chunk streamId created model choice extra).toList, c.toNat < 0x80) ∧
      ∃ before, (chunk streamId created model choice extra).toList = before ++ ['\n'] := by
  obtain ⟨line, text, -, plain⟩ := toList_chunk sound
  rw [text]
  refine ⟨fun c mem => ?_, line ++ ['\n'], by rw [List.append_assoc]; rfl⟩
  rcases List.mem_append.mp mem with inside | feed
  · exact (plain_of_printable plain).2.1 c inside
  · have : c = '\n' := by simpa using feed
    rw [this]
    decide

/-- What comes early is ASCII and ends a line. -/
theorem early_text {streamId text : String} (early : Early streamId text) :
    (∀ c ∈ text.toList, c.toNat < 0x80) ∧ ∃ before, text.toList = before ++ ['\n'] := by
  cases early with
  | role created model =>
    exact chunk_text (sound_early (fun _ => .null) streamId created model (by simp [Json.Sound, SoundFields]))
  | text created model text =>
    exact chunk_text (sound_early (fun _ => .null) streamId created model (by simp [Json.Sound, SoundFields]))
  | keepalive => exact ⟨forall_char (by decide), ": keepalive\n".toList, by decide⟩

theorem join_early {streamId : String} {events : List String} (early : ∀ e ∈ events, Early streamId e) :
    (∀ c ∈ (String.join events).toList, c.toNat < 0x80) ∧
      ((String.join events).toList = [] ∨ ∃ before, (String.join events).toList = before ++ ['\n']) := by
  induction events with
  | nil => exact ⟨forall_char (by decide), .inl rfl⟩
  | cons event events ih =>
    obtain ⟨plain, before, ends⟩ := early_text (early event List.mem_cons_self)
    obtain ⟨plain', later⟩ := ih fun e mem => early e (List.mem_cons_of_mem _ mem)
    rw [String.join_cons, String.toList_append]
    refine ⟨List.forall_mem_append.mpr ⟨plain, plain'⟩, .inr ?_⟩
    rcases later with none | ⟨before', ends'⟩
    · exact ⟨before, by rw [none, List.append_nil, ends]⟩
    · exact ⟨event.toList ++ before', by rw [ends', List.append_assoc]⟩

theorem final_fields {streamId model : String} {created : Int} {finishReason : Option String} {toolCalls usage xRouter : Json}
    (billed : usage.truthy = true) (routed : xRouter.truthy = true) :
    payload streamId created model (finalChoice finishReason toolCalls) (finalExtra usage xRouter) =
      .obj [("id", .str streamId), ("object", .str "chat.completion.chunk"), ("created", .int created), ("model", .str model),
        ("choices", .arr [.obj (insert "index" (.int 0) (finalChoice finishReason toolCalls))]), ("usage", usage),
        ("x_router", xRouter)] := by
  unfold payload finalExtra
  rw [if_pos billed, if_pos routed]
  rfl

theorem sound_final {streamId model : String} {created : Int} {finishReason : Option String} {toolCalls usage xRouter : Json}
    (billed : usage.truthy = true) (routed : xRouter.truthy = true) (soundCalls : toolCalls.Sound float)
    (soundUsage : usage.Sound float) (soundRouter : xRouter.Sound float) :
    (payload streamId created model (finalChoice finishReason toolCalls) (finalExtra usage xRouter)).Sound float := by
  have soundDelta : (Json.obj (if toolCalls.truthy then [("tool_calls", toolCalls)] else [])).Sound float := by
    split
    · simp [Json.Sound, SoundFields, soundCalls]
    · simp [Json.Sound, SoundFields]
  have choice : insert "index" (.int 0) (finalChoice finishReason toolCalls) =
      finalChoice finishReason toolCalls ++ [("index", .int 0)] := rfl
  rw [final_fields billed routed, choice, finalChoice]
  simp only [Json.Sound, SoundFields, SoundItems, List.map_cons, List.map_nil, List.cons_append, List.nil_append, and_true,
    true_and]
  exact ⟨by decide, ⟨by decide, soundDelta⟩, soundUsage, soundRouter⟩

end Events

section Parse

variable {float : String → Json}

theorem payloadOf_empty : payloadOf float "" = none := rfl

theorem payloadOf_done : payloadOf float "data: [DONE]" = none := by
  unfold payloadOf
  rw [if_pos (by decide +kernel), if_pos (by decide +kernel)]

/-- The line of an event gives back the payload. -/
theorem payloadOf_event {v : Json} (sound : v.Sound float) (isObj : v.isObj = true) :
    payloadOf float (String.ofList ("data: ".toList ++ v.dumps.toList)) = some v := by
  have braces : Trimmed v.dumps.toList ∧ v.dumps.toList ≠ [] := by
    cases v with
    | obj fields =>
      rw [toList_dumps_obj]
      refine ⟨⟨?_, ?_⟩, List.cons_ne_nil _ _⟩
      · simp [isSpace]
      · rw [← List.cons_append, List.getLast?_concat]
        simp [isSpace]
    | _ => cases isObj
  have line : Trimmed ("data:".toList ++ ' ' :: v.dumps.toList) :=
    trimmed_named (by decide) (by decide) braces.1 braces.2
  have dropped : ("data:".toList ++ ' ' :: v.dumps.toList).drop 5 = ' ' :: v.dumps.toList := rfl
  have read : "data: ".toList ++ v.dumps.toList = "data:".toList ++ ' ' :: v.dumps.toList := rfl
  have spoken : ¬(v.dumps = "" ∨ v.dumps = "[DONE]") := by
    rintro (none | done)
    · exact braces.2 (by rw [none]; rfl)
    · cases v with
      | obj fields =>
        have first := congrArg (fun text => text.toList.head?) done
        simp [toList_dumps_obj] at first
      | _ => cases isObj
  unfold payloadOf
  rw [read, strip_trimmed line, String.toList_ofList]
  simp only [dropped]
  rw [strip_space (by decide), strip_trimmed braces.1, String.ofList_toList, if_pos (List.isPrefixOf_iff_prefix.mpr
    (List.prefix_append _ _)), if_neg spoken, loads_dumps sound, Option.filter_some, if_pos isObj]

theorem parseLines_skip {line : String} (skipped : payloadOf float line = none) (lines : List String) (out : Parsed) :
    parseLines float (line :: lines) out = parseLines float lines out := by
  rw [parseLines, skipped]

/-- The search stops at a payload with a usage and a routing record. -/
theorem parseLines_final {line : String} {usage xRouter v : Json} (read : payloadOf float line = some v)
    (billed : v.field "usage" = usage) (routed : v.field "x_router" = xRouter) (fine : v.field "error" = .null)
    (isObj : usage.isObj = true) (isObj' : xRouter.isObj = true) (lines : List String) :
    parseLines float (line :: lines) ⟨none, none, none⟩ = ⟨some usage, some xRouter, none⟩ := by
  have keepUsage : keep none (v.field "usage") = some usage := by rw [billed, keep, if_pos isObj]
  have keepRouter : keep none (v.field "x_router") = some xRouter := by rw [routed, keep, if_pos isObj']
  have keepError : keep none (v.field "error") = none := by rw [fine]; rfl
  rw [parseLines, read]
  simp only [keepUsage, keepRouter, keepError]
  exact if_pos rfl

/-- A routing record that is found stays. -/
theorem parseLines_kept {v : Json} (lines : List String) {out : Parsed} (found : out.xRouter = some v) :
    (parseLines float lines out).xRouter = some v := by
  induction lines generalizing out with
  | nil => exact found
  | cons line lines ih =>
    have still (w : Json) : keep out.xRouter w = some v := by rw [found, keep]
    rw [parseLines]
    split
    · exact ih found
    · dsimp only
      split
      · exact still _
      · exact ih (still _)

/-- Older lines are not asked where a newer one has a routing record. -/
theorem parseLines_newer {newer older : List String} {out : Parsed} (routed : (parseLines float newer out).xRouter.isSome = true) :
    (parseLines float (newer ++ older) out).xRouter = (parseLines float newer out).xRouter := by
  induction newer generalizing out with
  | nil =>
    obtain ⟨v, found⟩ := Option.isSome_iff_exists.mp routed
    rw [parseLines] at found
    rw [List.nil_append, parseLines_kept older found, parseLines, found]
  | cons line newer ih =>
    rw [parseLines] at routed
    rw [List.cons_append, parseLines, parseLines]
    split
    · rename_i skipped
      rw [skipped] at routed
      exact ih routed
    · rename_i payload read
      rw [read] at routed
      dsimp only at routed ⊢
      split
      · rfl
      · rename_i open_
        rw [if_neg open_] at routed
        exact ih routed

/-- Behind a line feed the routing record is read as if nothing came before. -/
theorem xRouter_behind {before late : List UInt8} (edge : ∀ b ∈ before.getLast?, b = LF)
    (routed : (parseStreamTail float late).xRouter.isSome = true) :
    (parseStreamTail float (before ++ late)).xRouter = (parseStreamTail float late).xRouter := by
  rcases List.eq_nil_or_concat before with rfl | ⟨first, b, rfl⟩
  · rfl
  obtain rfl : b = LF := edge b (by simp)
  obtain ⟨chars, text⟩ := @decodeFrom_feed none (by simp) first
  obtain ⟨lines, split⟩ := @splitFrom_append [] false (by simp) chars (decodeFrom none late)
  have read : splitlines (decode (first ++ LF :: late)) = lines.map String.ofList ++ splitlines (decode late) := by
    unfold splitlines decode
    rw [String.toList_ofList, String.toList_ofList, LF, text, split, List.map_append]
  unfold parseStreamTail at routed ⊢
  rw [List.concat_eq_append, List.append_assoc, List.singleton_append, read, List.reverse_append]
  exact parseLines_newer routed

end Parse

/-- What is left of the early events ends a line, if anything is. -/
theorem drop_ends {joined : List Char} (ends : joined = [] ∨ ∃ before, joined = before ++ ['\n']) (k : Nat) :
    joined.drop k = [] ∨ ∃ before, joined.drop k = before ++ ['\n'] := by
  rcases ends with rfl | ⟨before, rfl⟩
  · exact .inl List.drop_nil
  by_cases few : k ≤ before.length
  · exact .inr ⟨before.drop k, List.drop_append_of_le_length few⟩
  · exact .inl (List.drop_eq_nil_of_le (by rw [List.length_append, List.length_singleton]; omega))

theorem ascii_drop (chars : List Char) (k : Nat) : ascii (chars.drop k) = (ascii chars).drop k := List.map_drop

/-- The lines of two events behind whole lines. -/
theorem splitFrom_events {joined first second : List Char} (ends : joined = [] ∨ ∃ before, joined = before ++ ['\n'])
    (plain : ∀ c ∈ first, isBreak c = false) (plain' : ∀ c ∈ second, isBreak c = false) :
    ∃ before, splitFrom [] false (joined ++ (first ++ '\n' :: '\n' :: (second ++ ['\n', '\n']))) =
      before ++ [first, [], second, []] := by
  have blank (rest : List Char) : splitFrom [] false ('\n' :: rest) = [] :: splitFrom [] false rest :=
    @splitFrom_line [] (by simp) rest
  have tail : splitFrom [] false (first ++ '\n' :: '\n' :: (second ++ ['\n', '\n'])) = [first, [], second, []] := by
    rw [splitFrom_line plain, blank, splitFrom_line plain', blank]
    rfl
  rcases ends with rfl | ⟨before, rfl⟩
  · exact ⟨[], by rw [List.nil_append, tail, List.nil_append]⟩
  · obtain ⟨lines, split⟩ := @splitFrom_append [] false (by simp) before
      (first ++ '\n' :: '\n' :: (second ++ ['\n', '\n']))
    exact ⟨lines, by rw [List.append_assoc, List.singleton_append, split, tail]⟩

theorem parseStreamTail_events {float : String → Json} {joined first : List Char} {usage xRouter v : Json}
    (ends : joined = [] ∨ ∃ before, joined = before ++ ['\n']) (plain : ∀ c ∈ joined, c.toNat < 0x80)
    (line : first.all printable = true) (read : payloadOf float (String.ofList first) = some v)
    (billed : v.field "usage" = usage) (routed : v.field "x_router" = xRouter) (fine : v.field "error" = .null)
    (isObj : usage.isObj = true) (isObj' : xRouter.isObj = true) :
    parseStreamTail float (ascii (joined ++ (first ++ '\n' :: '\n' :: ("data: [DONE]".toList ++ ['\n', '\n'])))) =
      ⟨some usage, some xRouter, none⟩ := by
  obtain ⟨before, split⟩ := @splitFrom_events joined first "data: [DONE]".toList ends (plain_of_printable line).1 (forall_char (by decide))
  have low : ∀ c ∈ joined ++ (first ++ '\n' :: '\n' :: ("data: [DONE]".toList ++ ['\n', '\n'])), c.toNat < 0x80 :=
    List.forall_mem_append.mpr ⟨plain, List.forall_mem_append.mpr ⟨(plain_of_printable line).2.1, forall_char (by decide)⟩⟩
  unfold parseStreamTail
  rw [decode_ascii low, splitlines, String.toList_ofList, split, List.map_append, List.reverse_append]
  change parseLines float ("" :: "data: [DONE]" :: "" :: String.ofList first :: _) _ = _
  rw [parseLines_skip payloadOf_empty, parseLines_skip payloadOf_done, parseLines_skip payloadOf_empty]
  exact parseLines_final read billed routed fine isObj isObj' _

/-- However the stream is cut, metering reads the usage and the routing record of the final event. -/
theorem metering_finds_final {float : String → Json} {streamId model : String} {created : Int} {finishReason : Option String}
    {toolCalls usage xRouter : Json} {events : List String} {chunks : List (List UInt8)}
    (early : ∀ e ∈ events, Early streamId e)
    (soundCalls : toolCalls.Sound float) (soundUsage : usage.Sound float) (soundRouter : xRouter.Sound float)
    (isObj : usage.isObj = true) (billed : usage.truthy = true) (isObj' : xRouter.isObj = true) (routed : xRouter.truthy = true)
    (short : (bytesOf (encodeFinalChunk streamId created model finishReason toolCalls usage xRouter ++ doneEvent)).length
      ≤ sseTailHardCap)
    (whole : chunks.flatten = bytesOf (String.join events ++
      encodeFinalChunk streamId created model finishReason toolCalls usage xRouter ++ doneEvent)) :
    parseStreamTail float (pumpTail chunks) = ⟨some usage, some xRouter, none⟩ := by
  have sound := @sound_final float streamId model created finishReason toolCalls usage xRouter billed routed soundCalls
    soundUsage soundRouter
  obtain ⟨line, text, event, plain⟩ := toList_chunk sound
  have read : payloadOf float (String.ofList line) =
      some (payload streamId created model (finalChoice finishReason toolCalls) (finalExtra usage xRouter)) := by
    rw [event]
    exact payloadOf_event sound (by rw [final_fields billed routed]; rfl)
  obtain ⟨low, ends⟩ := join_early early
  have done : doneEvent.toList = "data: [DONE]".toList ++ ['\n', '\n'] := by decide
  have last : (encodeFinalChunk streamId created model finishReason toolCalls usage xRouter ++ doneEvent).toList =
      line ++ '\n' :: '\n' :: ("data: [DONE]".toList ++ ['\n', '\n']) := by
    rw [String.toList_append, encodeFinalChunk, text, done, List.append_assoc]
    rfl
  have feeds (first second : List Char) : ascii (first ++ '\n' :: '\n' :: (second ++ ['\n', '\n'])) =
      ascii first ++ LF :: LF :: (ascii second ++ [LF, LF]) := by
    unfold ascii
    rw [List.map_append, List.map_cons, List.map_cons, List.map_append]
    rfl
  have stream : chunks.flatten = ascii (String.join events).toList ++
      (ascii line ++ LF :: LF :: (ascii "data: [DONE]".toList ++ [LF, LF])) := by
    rw [whole, bytesOf, String.append_assoc, String.toList_append, last, ascii_append, feeds]
  have nonempty : ascii line ≠ [] := by
    rw [event, ascii_append]
    exact List.append_ne_nil_of_left_ne_nil (by decide) _
  have fits : (ascii line ++ LF :: LF :: (ascii "data: [DONE]".toList ++ [LF, LF])).length ≤ sseTailHardCap := by
    rw [bytesOf, last, feeds] at short
    exact short
  have tail := ends_of_two (ascii (String.join events).toList) nonempty (by decide) (plain_of_printable plain).2.2 (by decide) fits
  rw [← stream] at tail
  obtain ⟨k, before, kept⟩ := pumpTail_drop tail
  rw [kept, stream, List.drop_append_of_le_length before, ← ascii_drop, ← feeds, ← ascii_append]
  refine parseStreamTail_events (drop_ends ends k) (fun c mem => low c (List.mem_of_mem_drop mem)) plain read ?_ ?_ ?_ isObj isObj'
  · rw [final_fields billed routed]
    rfl
  · rw [final_fields billed routed]
    rfl
  · rw [final_fields billed routed]
    rfl

theorem metering_finds_final_cut :
    (parseStreamTail (fun _ => .null) (pumpTail
      [(bytesOf (String.join [encodeTextChunk "s" 0 "m" "hi", heartbeat] ++ encodeFinalChunk "s" 1 "m" none .null
          (.obj [("total_tokens", .int 3)]) (.obj [("provider", .str "p")]) ++ doneEvent)).take 100,
        (bytesOf (String.join [encodeTextChunk "s" 0 "m" "hi", heartbeat] ++ encodeFinalChunk "s" 1 "m" none .null
          (.obj [("total_tokens", .int 3)]) (.obj [("provider", .str "p")]) ++ doneEvent)).drop 100])) =
      ⟨some (.obj [("total_tokens", .int 3)]), some (.obj [("provider", .str "p")]), none⟩ := by
  have early : ∀ e ∈ [encodeTextChunk "s" 0 "m" "hi", heartbeat], Early "s" e := by
    intro e mem
    rcases List.mem_pair.mp mem with rfl | rfl
    · exact .text 0 "m" "hi"
    · exact .keepalive
  refine @metering_finds_final _ "s" "m" 1 none .null _ _ _ _ early ?_ ?_ ?_ rfl rfl rfl rfl ?_ ?_
  · simp [Json.Sound]
  · simp [Json.Sound, SoundFields]
  · simp [Json.Sound, SoundFields]
  · decide +kernel
  · rw [List.flatten_cons, List.flatten_singleton, List.take_append_drop]

end Unhardcoded.Guarantees.StreamTail
