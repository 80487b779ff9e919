import Unhardcoded.Source.SseGen

/-!
# The SSE generator sends every delta once

A delta is in the queue, in the getter that has taken it, or in a text chunk, and in
that order the three make up what the task emitted (`Flowing`). A getter that is
cancelled has taken nothing, so neither a heartbeat nor the end of the task loses a
delta, and the drain sends what is left before the final chunk.
-/

namespace Unhardcoded.Guarantees.SseGen
open Effects Python Source Source.SseGen

def textOf : Frame → Option String
  | .text _ delta => some delta
  | _ => none

/-- The text that was sent. -/
def texts (frames : List Frame) : List String := frames.filterMap textOf

/-- The frames that come after the loop only. -/
def ends : Frame → Bool
  | .final .. => true
  | .error .. => true
  | .done => true
  | _ => false

/-- What a getter has taken and the generator has not seen. -/
def inHand : Phase → List String
  | .waiting (some delta) => [delta]
  | _ => []

structure Flowing (s : GenState) : Prop where
  exact : texts s.frames ++ inHand s.phase ++ s.queue = s.emitted
  streamed : s.streamedAny = !(texts s.frames).isEmpty
  unended : ∀ frame ∈ s.frames, ends frame = false

/-- The frames of a generator that has left its loop: the deltas, the full text where
there was none, and the end, of which `rest` is still to come. -/
def Closing (s : GenState) (rest : List Frame) : Prop :=
  ∃ r body, s.task = some (.result r) ∧
    s.frames ++ rest = body ++ GenState.owedText s.model (!s.emitted.isEmpty) r ++ GenState.ending s.model r ∧
    texts body = s.emitted ∧ ∀ frame ∈ body, ends frame = false

def Sound (s : GenState) : Prop :=
  match s.phase with
  | .draining => Flowing s ∧ s.task.isSome
  | .closing rest => Closing s rest
  | .failed => Flowing s ∧ s.queue = [] ∧ s.task.isSome
  | .closed => True
  | _ => Flowing s

section Frames

@[simp] theorem texts_append (front back : List Frame) : texts (front ++ back) = texts front ++ texts back :=
  List.filterMap_append

theorem texts_single (frame : Frame) : texts [frame] = (textOf frame).toList := by
  cases frame <;> rfl

theorem ending_ne_nil (model : String) (r : RunResult) : GenState.ending model r ≠ [] := by
  unfold GenState.ending
  split
  · exact List.cons_ne_nil _ _
  · exact List.cons_ne_nil _ _

/-- The full text is owed exactly where the result is good and nothing was streamed. -/
theorem texts_owedText (model : String) (streamedAny : Bool) (r : RunResult) :
    texts (GenState.owedText model streamedAny r) =
      if r.ok = true ∧ streamedAny = false ∧ r.text ≠ "" then [r.text] else [] := by
  unfold GenState.owedText
  split
  · rfl
  · rfl

theorem ends_owedText {model : String} {streamedAny : Bool} {r : RunResult} :
    ∀ frame ∈ GenState.owedText model streamedAny r, ends frame = false := by
  intro frame mem
  unfold GenState.owedText at mem
  split at mem
  · rw [List.mem_singleton.mp mem]
    rfl
  · cases mem

theorem ends_ending {model : String} {r : RunResult} : ∀ frame ∈ GenState.ending model r, ends frame = true := by
  intro frame mem
  unfold GenState.ending at mem
  split at mem
  · simp only [List.mem_cons, List.not_mem_nil, or_false] at mem
    rcases mem with rfl | rfl
    · rfl
    · rfl
  · simp only [List.mem_cons, List.not_mem_nil, or_false] at mem
    rcases mem with rfl | rfl | rfl
    · rfl
    · rfl
    · rfl

end Frames

section Steps

variable {s : GenState}

/-- A text chunk of the delta that is next. -/
theorem flowing_sendText (queue : List String) {delta : String} {phase : Phase}
    (exact : texts s.frames ++ delta :: queue = s.emitted) (unended : ∀ frame ∈ s.frames, ends frame = false)
    (empty : inHand phase = []) : Flowing ({ s with queue := queue }.sendText delta phase) where
  exact := by
    simp only [GenState.sendText, GenState.yieldFrame, texts_append, texts_single, textOf, Option.toList_some, empty,
      List.append_nil, List.append_assoc, List.singleton_append]
    exact exact
  streamed := by simp [GenState.sendText, GenState.yieldFrame, texts_single, textOf]
  unended frame mem := by
    rcases List.mem_append.mp mem with mem | mem
    · exact unended frame mem
    · rw [List.mem_singleton.mp mem]
      rfl

/-- A frame without text. -/
theorem flowing_yield (h : Flowing s) {frame : Frame} {phase : Phase} (silent : textOf frame = none)
    (open_frame : ends frame = false) (kept : inHand phase = inHand s.phase) :
    Flowing (s.yieldFrame frame phase) where
  exact := by
    simp only [GenState.yieldFrame, texts_append, texts_single, silent, Option.toList_none, List.append_nil, kept]
    exact h.exact
  streamed := by
    simp only [GenState.yieldFrame, texts_append, texts_single, silent, Option.toList_none, List.append_nil]
    exact h.streamed
  unended f mem := by
    rcases List.mem_append.mp mem with mem | mem
    · exact h.unended f mem
    · rw [List.mem_singleton.mp mem]
      exact open_frame

/-- The loop is left with every delta sent. -/
theorem sound_finishLoop {outcome : TaskEnd} (h : Flowing s) (ended : s.task = some outcome)
    (empty : s.queue = []) (free : inHand s.phase = []) : Sound (s.finishLoop outcome) := by
  have all : texts s.frames = s.emitted := by
    have exact := h.exact
    rwa [empty, free, List.append_nil, List.append_nil] at exact
  cases outcome with
  | raised =>
    refine ⟨⟨?_, h.streamed, h.unended⟩, empty, by simp [GenState.finishLoop, ended]⟩
    have exact := h.exact
    rwa [free] at exact
  | result r =>
    have streamed : s.streamedAny = !s.emitted.isEmpty := by rw [h.streamed, all]
    unfold GenState.finishLoop
    dsimp only
    split
    · rename_i nothing
      exact absurd (List.append_eq_nil_iff.mp nothing).2 (ending_ne_nil _ _)
    · rename_i frame rest frames
      refine ⟨r, s.frames, ended, ?_, all, h.unended⟩
      simp only [GenState.yieldFrame, List.append_assoc, List.singleton_append]
      rw [← frames, streamed]

theorem sound_drain {outcome : TaskEnd} (h : Flowing s) (ended : s.task = some outcome) (free : inHand s.phase = []) :
    Sound (s.drain outcome) := by
  unfold GenState.drain
  split
  · rename_i delta rest queue
    have exact := h.exact
    rw [queue, free, List.append_nil] at exact
    refine ⟨flowing_sendText rest exact h.unended rfl, ?_⟩
    simp [GenState.sendText, GenState.yieldFrame, ended]
  · rename_i queue
    exact sound_finishLoop h ended queue free

theorem sound_awake {getter : Option String} (h : Flowing s) (here : s.phase = .waiting getter) :
    Sound (s.awake getter) := by
  cases getter with
  | some delta =>
    have exact := h.exact
    rw [here, inHand, List.append_assoc, List.singleton_append] at exact
    exact flowing_sendText s.queue exact h.unended rfl
  | none =>
    cases ended : s.task with
    | some outcome =>
      simp only [GenState.awake, ended]
      exact sound_drain h ended (by rw [here]; rfl)
    | none =>
      simp only [GenState.awake, ended]
      exact flowing_yield h rfl rfl (by rw [here]; rfl)

theorem sound_next {t : GenState} (h : Sound s) (stepped : s.next = some t) : Sound t := by
  unfold GenState.next at stepped
  unfold Sound at h
  split at stepped
  · rename_i here
    cases stepped
    rw [here] at h
    exact flowing_yield h rfl rfl (by rw [here]; rfl)
  · rename_i here
    cases stepped
    rw [here] at h
    have exact := h.exact
    rw [here] at exact
    exact ⟨exact, h.streamed, h.unended⟩
  · rename_i here
    rw [here] at h
    obtain ⟨outcome, ended, rfl⟩ := Option.map_eq_some_iff.mp stepped
    exact sound_drain h.1 ended (by rw [here]; rfl)
  · rename_i frame rest here
    cases stepped
    rw [here] at h
    obtain ⟨r, body, ended, frames, deltas, unended⟩ := h
    refine ⟨r, body, ended, Eq.trans ?_ frames, deltas, unended⟩
    simp [GenState.yieldFrame]
  · cases stepped

/-- The task emits, or ends, while the generator stands still. -/
theorem sound_task (deltas : List String) (task : Option TaskEnd) (h : Sound s) (running : s.task = none) :
    Sound { s with queue := s.queue ++ deltas, emitted := s.emitted ++ deltas, task := task } := by
  have flowing (f : Flowing s) :
      Flowing { s with queue := s.queue ++ deltas, emitted := s.emitted ++ deltas, task := task } :=
    ⟨by rw [← List.append_assoc, f.exact], f.streamed, f.unended⟩
  unfold Sound at h ⊢
  dsimp only
  split at h
  · rw [running] at h
    cases h.2
  · obtain ⟨r, body, ended, -⟩ := h
    rw [running] at ended
    cases ended
  · rw [running] at h
    cases h.2.2
  · trivial
  · exact flowing h

theorem sound_take {t : GenState} (h : Sound s) (stepped : s.step .take = some t) : Sound t := by
  simp only [GenState.step] at stepped
  split at stepped
  · rename_i delta rest here queue
    cases stepped
    unfold Sound at h
    rw [here] at h
    have exact := h.exact
    rw [here, queue, show inHand (.waiting none) = [] from rfl, List.append_nil] at exact
    exact ⟨by simpa [inHand] using exact, h.streamed, h.unended⟩
  · cases stepped

theorem sound_step {t : GenState} {act : GenAct} (h : Sound s) (stepped : s.step act = some t) : Sound t := by
  cases act with
  | emit delta =>
    simp only [GenState.step] at stepped
    split at stepped
    · rename_i running
      cases stepped
      have emitted := sound_task [delta] s.task h running
      exact emitted
    · cases stepped
  | finish outcome =>
    simp only [GenState.step] at stepped
    split at stepped
    · rename_i running
      cases stepped
      have ended := sound_task [] (some outcome) h running
      simpa using ended
    · cases stepped
  | take => exact sound_take h stepped
  | wake =>
    simp only [GenState.step] at stepped
    split at stepped
    · rename_i getter here
      cases stepped
      unfold Sound at h
      rw [here] at h
      exact sound_awake h here
    · cases stepped
  | next => exact sound_next h stepped
  | close =>
    cases stepped
    trivial

theorem sound_start (model : String) : Sound (.start model) where
  exact := rfl
  streamed := rfl
  unended _ mem := by cases mem

end Steps

/-- Until the generator leaves its loop, the text sent, the delta its getter has taken
and the queue are the deltas emitted, in order. Where it then yields the frames of the
end, these come after a text chunk for every delta, and the full text of a good result
goes out, once and before them, exactly if no delta did. -/
theorem sse_gen_exact {model : String} {acts : List GenAct} {s : GenState} (ran : runGen model acts = some s) :
    ((∀ rest, s.phase ≠ .closing rest) → s.phase ≠ .closed →
      texts s.frames ++ inHand s.phase ++ s.queue = s.emitted) ∧
    (s.phase = .failed → texts s.frames = s.emitted) ∧
    ∀ rest, s.phase = .closing rest → ∃ r body owed ending,
      s.task = some (.result r) ∧ s.frames ++ rest = body ++ owed ++ ending ∧
      texts body = s.emitted ∧ (∀ frame ∈ body ++ owed, ends frame = false) ∧
      texts owed = (if r.ok = true ∧ s.emitted = [] ∧ r.text ≠ "" then [r.text] else []) ∧
      (∀ frame ∈ ending, ends frame = true) ∧ ending.getLast? = some .done := by
  have h : Sound s := Machine.run_invariant (sound_start model) (fun _ _ _ => sound_step) ran
  refine ⟨?_, ?_, ?_⟩
  · intro looping opened
    unfold Sound at h
    split at h
    · exact h.1.exact
    · rename_i rest here
      exact absurd here (looping rest)
    · exact h.1.exact
    · rename_i here
      exact absurd here opened
    · exact h.exact
  · intro here
    unfold Sound at h
    rw [here] at h
    have exact := h.1.exact
    rwa [here, h.2.1, show inHand .failed = [] from rfl, List.append_nil, List.append_nil] at exact
  · intro rest here
    unfold Sound at h
    rw [here] at h
    obtain ⟨r, body, ended, frames, deltas, unended⟩ := h
    refine ⟨r, body, _, _, ended, frames, deltas, ?_, ?_, ends_ending, ?_⟩
    · intro frame mem
      rcases List.mem_append.mp mem with mem | mem
      · exact unended frame mem
      · exact ends_owedText frame mem
    · rw [texts_owedText]
      simp
    · unfold GenState.ending
      split
      · rfl
      · rfl

def sampleResult (text : String) : RunResult := ⟨true, text, "m", some "stop", .null, .null, .null, ""⟩

/-- A delta is taken by the getter, a heartbeat cancels the next one, and the task ends
with a delta still in the queue. -/
def sampleActs : List GenAct :=
  [.next, .next, .emit "a", .take, .wake, .next, .wake, .emit "b", .next, .emit "c", .take,
    .finish (.result (sampleResult "abc")), .wake, .next, .wake, .next, .next]

theorem sse_gen_exact_sample : ∃ s, runGen "m" sampleActs = some s ∧ s.phase = .closing [] ∧
    texts s.frames = ["a", "b", "c"] ∧ ∃ r body owed ending, s.task = some (.result r) ∧
      s.frames ++ [] = body ++ owed ++ ending ∧ texts body = s.emitted := by
  have ran : ∃ s, runGen "m" sampleActs = some s ∧ s.phase = .closing [] ∧ texts s.frames = ["a", "b", "c"] :=
    ⟨_, rfl, rfl, rfl⟩
  obtain ⟨s, ran, here, sent⟩ := ran
  obtain ⟨-, -, closed⟩ := sse_gen_exact ran
  obtain ⟨r, body, owed, ending, ended, frames, deltas, -⟩ := closed [] here
  exact ⟨s, ran, here, sent, r, body, owed, ending, ended, frames, deltas⟩

end Unhardcoded.Guarantees.SseGen
