import Unhardcoded.Guarantees.ProxyStream

/-!
# Delivery of a proxied stream

The generator yields the chunks of the upstream in order. It is left waiting where no end
marker is put: after a put that timed out, or an error of the `aclose` behind a failure.
-/

namespace Unhardcoded.Guarantees.Passthrough

open Effects.Machine Source.ProxyStream
open Unhardcoded.Guarantees.ProxyStream

variable {config : Config} {req : Request} {s t : State}

def isChunk : Item → Bool
  | .chunk _ => true
  | .marker _ => false

/-- The chunks in the queue. -/
def chunksOf (queue : List Item) : List Bytes := queue.filterMap fun
  | .chunk bytes => some bytes
  | .marker _ => none

/-- The chunk that the pump is putting. -/
def pending : Pump → List Bytes
  | .putting chunk => [chunk]
  | _ => []

/-- The generator is not over. -/
def Live (s : State) : Prop := s.reader = .suspended ∨ s.reader = .waiting

/-- What has been delivered, and what is on its way. -/
structure Flow (s : State) : Prop where
  begun : s.yielded <+: s.received
  /-- Nothing is lost while the client counts as there. -/
  intact : s.clientGone = false → Live s → s.yielded ++ chunksOf s.queue ++ pending s.pump = s.received
  /-- After that the generator gets nothing. -/
  dry : s.clientGone = true → Live s → s.queue = [] ∧ ∀ chunk, s.pump ≠ .putting chunk
  /-- A marker is the last item, put when the pump ends. -/
  plain : s.pump ≠ .ended → ∀ item ∈ s.queue, isChunk item = true
  last : s.queue.Pairwise fun item _ => isChunk item = true
  /-- The marker without a failure tells of a normal end. -/
  honest : .marker false ∈ s.queue → s.upstreamEnded = true
  ends : s.clientGone = false → s.pump = .closing false ∨ s.pump = .ending false ∨ s.pump = .finishing → s.upstreamEnded = true
  whole : s.reader = .returned → s.pump = .ended ∧ s.yielded = s.received ∧ s.upstreamEnded = true
  /-- `pump_finished` is set between `aclose` and the put of the marker. -/
  unfinished : running s.pump = true → s.pumpFinished = false
  finished : ∀ failed, s.pump = .ending failed → s.pumpFinished = true ∧ s.clientGone = false
  armed : s.timer = true → s.clientGone = true

/-- What the delivery is made of. -/
def delivery (s : State) :=
  (s.queue, s.clientGone, s.timer, s.pump, s.reader, s.received, s.upstreamEnded, s.yielded, s.pumpFinished)

theorem flow_start : Flow .start := by
  constructor
  all_goals simp [State.start, chunksOf, pending, running]

theorem clientLeft_cases (s : State) :
    s.clientLeft = s ∧ (s.clientGone = true ∨ s.pumpFinished = true) ∨
      s.clientLeft = { s with clientGone := true, queue := [], timer := true } ∧ s.clientGone = false ∧ s.pumpFinished = false := by
  unfold State.clientLeft
  cases gone : s.clientGone with
  | true => simp
  | false =>
    cases finished : s.pumpFinished with
    | true => simp
    | false => simp

theorem chunksOf_append (queue : List Item) (item : Item) :
    chunksOf (queue ++ [item]) = chunksOf queue ++ chunksOf [item] := List.filterMap_append

theorem Flow.frame (h : Flow s) (same : delivery t = delivery s) : Flow t := by
  simp only [delivery, Prod.mk.injEq] at same
  obtain ⟨queue, gone, timer, pump, reader, received, upstream, yielded, finished⟩ := same
  constructor
  · rw [yielded, received]
    exact h.begun
  · rw [gone, yielded, queue, pump, received, Live, reader]
    exact h.intact
  · rw [gone, queue, pump, Live, reader]
    exact h.dry
  · rw [pump, queue]
    exact h.plain
  · rw [queue]
    exact h.last
  · rw [queue, upstream]
    exact h.honest
  · rw [gone, pump, upstream]
    exact h.ends
  · rw [reader, pump, yielded, received, upstream]
    exact h.whole
  · rw [pump, finished]
    exact h.unfinished
  · rw [pump, finished, gone]
    exact h.finished
  · rw [timer, gone]
    exact h.armed

/-- The generator goes on to another point. -/
theorem Flow.reader (h : Flow s) {reader : Reader} (live : Live { s with reader := reader } → Live s)
    (returned : reader = .returned → s.pump = .ended ∧ s.yielded = s.received ∧ s.upstreamEnded = true) :
    Flow { s with reader := reader } where
  begun := h.begun
  intact gone here := h.intact gone (live here)
  dry gone here := h.dry gone (live here)
  plain := h.plain
  last := h.last
  honest := h.honest
  ends := h.ends
  whole := returned
  unfinished := h.unfinished
  finished := h.finished
  armed := h.armed

theorem Flow.clientLeft (h : Flow s) (past : ¬ Live s) : Flow s.clientLeft := by
  rcases clientLeft_cases s with ⟨same, -⟩ | ⟨same, -, unfinished⟩
  · rw [same]
    exact h
  · rw [same]
    constructor
    · exact h.begun
    · intro gone
      cases gone
    · intro _ live
      exact absurd live past
    · intro _ item mem
      cases mem
    · exact List.Pairwise.nil
    · intro mem
      cases mem
    · intro gone
      cases gone
    · exact h.whole
    · exact h.unfinished
    · intro failed here
      rw [(h.finished failed here).1] at unfinished
      cases unfinished
    · intro _
      rfl

theorem Flow.yields (h : Flow s) (waits : s.reader = .waiting) {bytes : Bytes} {rest : List Item}
    (here : s.queue = .chunk bytes :: rest) :
    Flow { s with queue := rest, reader := .suspended, yielded := s.yielded ++ [bytes] } := by
  have there : s.clientGone = false := by
    cases gone : s.clientGone with
    | false => rfl
    | true =>
      have := (h.dry gone (Or.inr waits)).1
      rw [here] at this
      cases this
  have flow : s.yielded ++ [bytes] ++ (chunksOf rest ++ pending s.pump) = s.received := by
    rw [← h.intact there (Or.inr waits), here]
    simp [chunksOf]
  constructor
  · exact ⟨_, flow⟩
  · intro _ _
    rw [← List.append_assoc] at flow
    exact flow
  · intro gone
    rw [there] at gone
    cases gone
  · intro open_ item mem
    exact h.plain open_ item (here ▸ List.mem_cons_of_mem _ mem)
  · exact (List.pairwise_cons.mp (here ▸ h.last)).2
  · intro mem
    exact h.honest (here ▸ List.mem_cons_of_mem _ mem)
  · exact h.ends
  · intro returned
    cases returned
  · exact h.unfinished
  · exact h.finished
  · exact h.armed

theorem Flow.marked (h : Flow s) (waits : s.reader = .waiting) {failed : Bool} {rest : List Item}
    (here : s.queue = .marker failed :: rest) :
    Flow { s with queue := rest, reader := if failed = true then .raised else .returned } := by
  have alone : rest = [] := by
    refine List.eq_nil_iff_forall_not_mem.mpr fun item mem => ?_
    have := (List.pairwise_cons.mp (here ▸ h.last)).1 item mem
    cases this
  have ended : s.pump = .ended := by
    by_contra open_
    have := h.plain open_ (.marker failed) (here ▸ List.mem_cons_self)
    cases this
  have there : s.clientGone = false := by
    cases gone : s.clientGone with
    | false => rfl
    | true =>
      have := (h.dry gone (Or.inr waits)).1
      rw [here] at this
      cases this
  have all : s.yielded = s.received := by
    rw [← h.intact there (Or.inr waits), here, alone, ended]
    simp [chunksOf, pending]
  have past : ¬ Live { s with queue := rest, reader := if failed = true then .raised else .returned } := by
    cases failed <;> simp [Live]
  subst alone
  constructor
  · exact h.begun
  · intro _ live
    exact absurd live past
  · intro _ live
    exact absurd live past
  · intro _ item mem
    cases mem
  · exact List.Pairwise.nil
  · intro mem
    cases mem
  · exact h.ends
  · intro returned
    cases failed with
    | true => cases returned
    | false => exact ⟨ended, all, h.honest (here ▸ List.mem_cons_self)⟩
  · exact h.unfinished
  · exact h.finished
  · exact h.armed

theorem pairwise_concat {queue : List Item} (h : ∀ item ∈ queue, isChunk item = true) (item : Item) :
    (queue ++ [item]).Pairwise fun item _ => isChunk item = true := by
  refine List.pairwise_append.mpr ⟨?_, List.pairwise_singleton _ _, fun other mem _ _ => h other mem⟩
  exact List.pairwise_of_forall_mem_list fun other mem _ _ => h other mem

/-- A chunk is put into the queue while the pump goes on. -/
theorem Flow.put (h : Flow s) {bytes : Bytes} (opened : s.pump = .reading ∨ s.pump = .putting bytes)
    {received : List Bytes} (grows : s.received <+: received)
    (follows : s.clientGone = false → Live s → s.yielded ++ chunksOf s.queue ++ [bytes] = received)
    (dry : s.clientGone = true → ¬ Live s) :
    Flow { s with queue := s.queue ++ [.chunk bytes], pump := .reading, received := received } := by
  have open_ : s.pump ≠ .ended := by
    rcases opened with here | here
    · rw [here]
      simp
    · rw [here]
      simp
  have plain := h.plain open_
  constructor
  · exact h.begun.trans grows
  · intro gone live
    rw [chunksOf_append]
    simpa [chunksOf, pending] using follows gone live
  · intro gone live
    exact absurd live (dry gone)
  · intro _ item mem
    rcases List.mem_append.mp mem with earlier | new
    · exact plain item earlier
    · obtain rfl := List.mem_singleton.mp new
      rfl
  · exact pairwise_concat plain _
  · intro mem
    exact h.honest (by simpa using mem)
  · intro _ here
    rcases here with here | here | here
    · cases here
    · cases here
    · cases here
  · intro returned
    exact absurd (h.whole returned).1 open_
  · intro _
    apply h.unfinished
    rcases opened with here | here
    · rw [here]
      rfl
    · rw [here]
      rfl
  · intro failed here
    cases here
  · exact h.armed

/-- The pump goes to where it waits next, and nothing is put. -/
theorem Flow.moves (h : Flow s) (pump : Pump) (from_ : running s.pump = true) (runs : running pump = true)
    {received : List Bytes} (grows : s.received <+: received) (ended : Bool)
    (intact : s.clientGone = false → Live s → s.yielded ++ chunksOf s.queue ++ pending pump = received)
    (dry : s.clientGone = true → Live s → ∀ chunk, pump ≠ .putting chunk)
    (normal : s.clientGone = false → pump = .closing false ∨ pump = .finishing → ended = true) :
    Flow { s with pump := pump, received := received, upstreamEnded := ended } := by
  have open_ : s.pump ≠ .ended := by
    intro here
    rw [here] at from_
    cases from_
  constructor
  · exact h.begun.trans grows
  · exact intact
  · intro gone live
    exact ⟨(h.dry gone live).1, dry gone live⟩
  · intro _
    exact h.plain open_
  · exact h.last
  · intro mem
    have := h.plain open_ _ mem
    cases this
  · intro gone here
    rcases here with here | here | here
    · exact normal gone (Or.inl here)
    · obtain rfl : pump = .ending false := here
      cases runs
    · exact normal gone (Or.inr here)
  · intro returned
    exact absurd (h.whole returned).1 open_
  · intro _
    exact h.unfinished from_
  · intro failed here
    obtain rfl : pump = .ending failed := here
    cases runs
  · exact h.armed

theorem Flow.drain (h : Flow s) (from_ : running s.pump = true) (gone : s.clientGone = true) {received : List Bytes}
    (grows : s.received <+: received) (chunk : Bytes) : Flow ({ s with received := received }.drain config chunk) := by
  have still : s.clientGone = false → False := by simp [gone]
  have goes (pump : Pump) (simple : pump = .closing false ∨ pump = .reading) :
      Flow { s with pump := pump, received := received } := by
    refine h.moves pump from_ ?_ grows s.upstreamEnded (fun no => (still no).elim) ?_ fun no => (still no).elim
    · rcases simple with rfl | rfl
      · rfl
      · rfl
    · intro _ _ bytes
      rcases simple with rfl | rfl
      · simp
      · simp
  unfold State.drain
  dsimp only
  split
  · exact (goes (.closing false) (Or.inl rfl)).frame rfl
  · exact (goes .reading (Or.inr rfl)).frame rfl

theorem delivery_books (config : Config) (req : Request) (s : State) : delivery ((s.account config req).finish config req) = delivery s := by
  obtain ⟨cost, account⟩ := account_frame config req s
  rw [account]
  unfold State.finish State.settleReservation
  split
  · rfl
  · dsimp only
    split
    · rfl
    · rfl

/-- The upstream is closed: the marker follows, if the client counts as there. -/
theorem Flow.closed (h : Flow s) {failed : Bool} (runs : running s.pump = true) (quiet : pending s.pump = [])
    (normal : s.clientGone = false → failed = false → s.upstreamEnded = true) : Flow (s.closed config req failed) := by
  have same := delivery_books config req s
  have books : Flow ((s.account config req).finish config req) := h.frame same
  have pump : ((s.account config req).finish config req).pump = s.pump := congrArg (·.2.2.2.1) same
  have ended : ((s.account config req).finish config req).clientGone = false → failed = false →
      ((s.account config req).finish config req).upstreamEnded = true := by
    have gone : ((s.account config req).finish config req).clientGone = s.clientGone := congrArg (·.2.1) same
    have upstream : ((s.account config req).finish config req).upstreamEnded = s.upstreamEnded :=
      congrArg (·.2.2.2.2.2.2.1) same
    rw [gone, upstream]
    exact normal
  unfold State.closed
  generalize (s.account config req).finish config req = u at books pump ended
  have open_ : u.pump ≠ .ended := by
    intro here
    rw [← pump, here] at runs
    cases runs
  have flow (gone : u.clientGone = false) (live : Live u) : u.yielded ++ chunksOf u.queue = u.received := by
    have := books.intact gone live
    rw [pump, quiet] at this
    simpa using this
  have returned : u.reader ≠ .returned := fun returned => open_ (books.whole returned).1
  dsimp only
  split
  · rename_i gone
    constructor
    · exact books.begun
    · intro no
      exact absurd (gone.symm.trans no) (by decide)
    · intro _ live
      exact ⟨(books.dry gone live).1, by simp⟩
    · intro no
      exact absurd rfl no
    · exact books.last
    · exact books.honest
    · intro no
      exact absurd (gone.symm.trans no) (by decide)
    · intro no
      exact absurd no returned
    · intro no
      cases no
    · intro _ no
      cases no
    · exact books.armed
  · rename_i there
    have there : u.clientGone = false := Bool.not_eq_true _ ▸ there
    have plain := books.plain open_
    split
    · constructor
      · exact books.begun
      · intro gone live
        rw [chunksOf_append]
        simpa [chunksOf, pending] using flow gone live
      · intro gone
        exact absurd (there.symm.trans gone) (by decide)
      · intro no
        exact absurd rfl no
      · exact pairwise_concat plain _
      · intro mem
        rcases List.mem_append.mp mem with earlier | new
        · have := plain _ earlier
          cases this
        · obtain rfl : false = failed := by simpa using new
          exact ended there rfl
      · intro _ no
        rcases no with no | no | no
        · cases no
        · cases no
        · cases no
      · intro no
        exact absurd no returned
      · intro no
        cases no
      · intro _ no
        cases no
      · exact books.armed
    · constructor
      · exact books.begun
      · intro gone live
        simpa [pending] using flow gone live
      · intro gone
        exact absurd (there.symm.trans gone) (by decide)
      · intro _
        exact plain
      · exact books.last
      · exact books.honest
      · intro gone here
        rcases here with here | here | here
        · cases here
        · obtain rfl : failed = false := by simpa using here
          exact ended there rfl
        · cases here
      · intro no
        exact absurd no returned
      · intro no
        cases no
      · intro _ _
        exact ⟨rfl, there⟩
      · exact books.armed

/-- The pump's task ends without a marker, or with one that was on its way. -/
theorem Flow.stops (h : Flow s) (quiet : pending s.pump = []) (open_ : s.pump ≠ .ended) :
    Flow { s with pump := .ended } := by
  constructor
  · exact h.begun
  · intro gone live
    have := h.intact gone live
    rw [quiet] at this
    exact this
  · intro gone live
    exact ⟨(h.dry gone live).1, by simp⟩
  · intro no
    exact absurd rfl no
  · exact h.last
  · exact h.honest
  · intro _ no
    rcases no with no | no | no
    · cases no
    · cases no
    · cases no
  · intro returned
    exact absurd (h.whole returned).1 open_
  · intro no
    cases no
  · intro _ no
    cases no
  · exact h.armed

theorem Flow.marker (h : Flow s) {failed : Bool} (here : s.pump = .ending failed) :
    Flow { s with queue := s.queue ++ [.marker failed], pump := .ended } := by
  have open_ : s.pump ≠ .ended := by rw [here]; simp
  have plain := h.plain open_
  have there := (h.finished failed here).2
  constructor
  · exact h.begun
  · intro gone live
    have flow := h.intact gone live
    rw [here] at flow
    rw [chunksOf_append]
    simpa [chunksOf, pending] using flow
  · intro gone
    exact absurd (there.symm.trans gone) (by decide)
  · intro no
    exact absurd rfl no
  · exact pairwise_concat plain _
  · intro mem
    rcases List.mem_append.mp mem with earlier | new
    · have := plain _ earlier
      cases this
    · obtain rfl : false = failed := by simpa using new
      exact h.ends there (Or.inr (Or.inl here))
  · intro _ no
    rcases no with no | no | no
    · cases no
    · cases no
    · cases no
  · intro returned
    exact absurd (h.whole returned).1 open_
  · intro no
    cases no
  · intro _ no
    cases no
  · exact h.armed

theorem Flow.disarm (h : Flow s) : Flow { s with timer := false } :=
  ⟨h.begun, h.intact, h.dry, h.plain, h.last, h.honest, h.ends, h.whole, h.unfinished, h.finished, fun no => by cases no⟩

/-- A put timed out: the queue is dropped with the chunk. -/
theorem Flow.purge (h : Flow s) (from_ : running s.pump = true) {pump : Pump} (simple : pump = .closing false ∨ pump = .reading) :
    Flow { s with clientGone := true, queue := [], timer := true, pump := pump } := by
  have open_ : s.pump ≠ .ended := by
    intro here
    rw [here] at from_
    cases from_
  constructor
  · exact h.begun
  · intro no
    cases no
  · intro _ _
    refine ⟨rfl, ?_⟩
    rcases simple with rfl | rfl
    · simp
    · simp
  · intro _ item mem
    cases mem
  · exact List.Pairwise.nil
  · intro mem
    cases mem
  · intro no
    cases no
  · intro returned
    exact absurd (h.whole returned).1 open_
  · intro _
    exact h.unfinished from_
  · rintro failed rfl
    rcases simple with no | no
    · cases no
    · cases no
  · intro _
    rfl

theorem flow_step {a : Action} (h : Flow s) (stepped : Stepped config req s a t) : Flow t := by
  cases stepped with
  | next here => exact h.reader (fun _ => Or.inl here) fun no => by cases no
  | yields waits here => exact h.yields waits here
  | @ends failed _ waits here =>
    refine (h.marked waits here).clientLeft ?_
    cases failed <;> simp [Live]
  | leaves live =>
    refine (h.reader (fun _ => live) fun no => ?_).clientLeft (by simp [Live])
    cases no
  | late past => exact h.clientLeft past
  | chunk bytes reads =>
    have grows : s.received <+: s.received ++ [bytes] := List.prefix_append _ _
    have flow (gone : s.clientGone = false) (live : Live s) :
        s.yielded ++ chunksOf s.queue ++ [bytes] = s.received ++ [bytes] := by
      rw [← h.intact gone live, reads]
      simp [pending]
    unfold State.chunk
    dsimp only
    split
    · rename_i gone
      exact (h.drain (by rw [reads]; rfl) gone grows bytes).frame rfl
    · rename_i there
      split
      · have put := h.put (Or.inl reads) grows flow fun gone => absurd gone there
        exact put.frame (by simp [delivery, reads])
      · refine Flow.frame (h.moves (.putting bytes) (by rw [reads]; rfl) rfl grows s.upstreamEnded flow
          (fun gone => absurd gone there) fun _ no => ?_) rfl
        rcases no with no | no
        · cases no
        · cases no
  | upstreamEnds reads =>
    refine Flow.frame (h.moves .finishing (by rw [reads]; rfl) rfl (List.prefix_refl _) true ?_ (by simp)
      fun _ _ => rfl) rfl
    intro gone live
    have := h.intact gone live
    rw [reads] at this
    exact this
  | upstreamFails reads =>
    refine Flow.frame (h.moves (.closing true) (by rw [reads]; rfl) rfl (List.prefix_refl _) s.upstreamEnded ?_ (by simp)
      (by simp)) rfl
    intro gone live
    have := h.intact gone live
    rw [reads] at this
    exact this
  | @put chunk _ here =>
    refine Flow.frame (h.put (Or.inr here) (List.prefix_refl _) ?_ fun gone live => (h.dry gone live).2 chunk here) rfl
    intro gone live
    have := h.intact gone live
    rw [here] at this
    exact this
  | putMarker _ here => exact h.marker here
  | @putTimeout chunk here =>
    have unfinished := h.unfinished (by rw [here]; rfl)
    rcases clientLeft_cases s with ⟨same, gone | finished⟩ | ⟨same, -, -⟩
    · rw [same]
      exact (h.drain (by rw [here]; rfl) gone (List.prefix_refl _) chunk).frame rfl
    · rw [unfinished] at finished
      cases finished
    · rw [same]
      unfold State.drain
      dsimp only
      split
      · exact (h.purge (by rw [here]; rfl) (Or.inl rfl)).frame rfl
      · exact (h.purge (by rw [here]; rfl) (Or.inr rfl)).frame rfl
  | markerTimeout here => exact h.stops (by rw [here]; rfl) (by rw [here]; simp)
  | finished here =>
    have complete : Flow { s with drainComplete := true } := h.frame rfl
    exact complete.closed (by rw [here]; rfl) (by rw [here]; rfl) fun gone _ => h.ends gone (Or.inr (Or.inr here))
  | finishFails here => exact h.closed (by rw [here]; rfl) (by rw [here]; rfl) fun _ no => by cases no
  | closed here =>
    refine h.closed (by rw [here]; rfl) (by rw [here]; rfl) fun gone normal => h.ends gone (Or.inl ?_)
    rw [here, normal]
  | closeFails here => exact h.stops (by rw [here]; rfl) (by rw [here]; simp)
  | drainTimeout armed =>
    have gone := h.armed armed
    have still : s.clientGone = false → False := by simp [gone]
    refine Flow.disarm ?_
    have closes (from_ : running s.pump = true) : Flow { s with pump := .closing false } :=
      Flow.frame (h.moves (.closing false) from_ rfl (List.prefix_refl _) s.upstreamEnded (fun no => (still no).elim) (by simp)
        fun no => (still no).elim) rfl
    unfold State.cancelPump
    split
    · rename_i here
      exact closes (by rw [here]; rfl)
    · rename_i here
      exact closes (by rw [here]; rfl)
    · rename_i here
      exact h.closed (by rw [here]; rfl) (by rw [here]; rfl) fun no => (still no).elim
    · rename_i here
      exact h.stops (by rw [here]; rfl) (by rw [here]; simp)
    · rename_i here
      exact h.stops (by rw [here]; rfl) (by rw [here]; simp)
    · rename_i here
      exact h.frame (by simp [delivery, here])

theorem flow_run {acts : List Action} (ran : runStream config req acts = some s) : Flow s := by
  apply run_invariant (I := Flow) flow_start _ ran
  intro t a u flow stepped
  exact flow_step flow (stepped_of_step stepped)

/-- A generator that is not over has a marker to come. -/
def Fed (s : State) : Prop := Live s → s.clientGone = false ∧ (s.pump = .ended → ∃ failed, .marker failed ∈ s.queue)

/-- The client stays, no put waits for the whole timeout, and `aclose` does not raise. -/
def steady : Action → Bool
  | .leave | .putTimeout | .closeFails => false
  | _ => true

theorem reader_closed (config : Config) (req : Request) (s : State) (failed : Bool) :
    (s.closed config req failed).reader = s.reader := by
  have same := congrArg (·.2.2.2.2.1) (delivery_books config req s)
  unfold State.closed
  dsimp only
  split
  · exact same
  · split
    · exact same
    · exact same

theorem fed_closed (fed : Fed s) {failed : Bool} : Fed (s.closed config req failed) := by
  intro live
  have gone : ((s.account config req).finish config req).clientGone = s.clientGone :=
    congrArg (·.2.1) (delivery_books config req s)
  rw [Live, reader_closed] at live
  have there := (fed live).1
  unfold State.closed
  dsimp only
  rw [gone, there]
  split
  · rename_i no
    cases no
  · split
    · exact ⟨rfl, fun _ => ⟨failed, by simp⟩⟩
    · refine ⟨rfl, fun ended => ?_⟩
      cases ended

theorem fed_step {a : Action} (flow : Flow s) (fed : Fed s) (calm : steady a = true) (stepped : Stepped config req s a t) :
    Fed t := by
  cases stepped with
  | next here => exact fun _ => fed (Or.inl here)
  | yields waits here =>
    intro _
    obtain ⟨there, marker⟩ := fed (Or.inr waits)
    refine ⟨there, fun ended => ?_⟩
    obtain ⟨failed, mem⟩ := marker ended
    rw [here] at mem
    exact ⟨failed, by simpa using mem⟩
  | @ends failed _ waits here =>
    intro live
    have reader : ∀ u : State, u.clientLeft.reader = u.reader := by
      intro u
      rcases clientLeft_cases u with ⟨same, -⟩ | ⟨same, -⟩
      · rw [same]
      · rw [same]
    rw [Live, reader] at live
    cases failed <;> simp at live
  | leaves => cases calm
  | late => cases calm
  | chunk bytes reads =>
    have same (live : Live (s.chunk config bytes)) : Live s := by
      have reader : (s.chunk config bytes).reader = s.reader := by
        unfold State.chunk State.drain
        dsimp only
        split
        · rfl
        · split
          · rfl
          · rfl
      rwa [Live, reader] at live
    intro live
    obtain ⟨there, -⟩ := fed (same live)
    unfold State.chunk
    dsimp only
    rw [if_neg (by simp [there])]
    split
    · refine ⟨there, fun ended => ?_⟩
      rw [reads] at ended
      cases ended
    · refine ⟨there, fun ended => ?_⟩
      cases ended
  | upstreamEnds =>
    intro live
    refine ⟨(fed live).1, fun ended => ?_⟩
    cases ended
  | upstreamFails =>
    intro live
    refine ⟨(fed live).1, fun ended => ?_⟩
    cases ended
  | put =>
    intro live
    refine ⟨(fed live).1, fun ended => ?_⟩
    cases ended
  | @putMarker failed =>
    intro live
    exact ⟨(fed live).1, fun _ => ⟨failed, by simp⟩⟩
  | putTimeout => cases calm
  | markerTimeout => cases calm
  | finished => exact fed_closed (s := { s with drainComplete := true }) fed
  | finishFails => exact fed_closed fed
  | closed => exact fed_closed fed
  | closeFails => cases calm
  | drainTimeout armed =>
    intro live
    have reader : (s.cancelPump config req).reader = s.reader := by
      unfold State.cancelPump
      split
      any_goals rfl
      exact reader_closed config req s false
    have gone := flow.armed armed
    have live' : Live s := by
      have here : (s.cancelPump config req).reader = .suspended ∨ (s.cancelPump config req).reader = .waiting := live
      rwa [reader] at here
    have there := (fed live').1
    rw [gone] at there
    cases there

/-- The chunks yielded are the first of the upstream's, all of them where the generator returned, and a generator
that waits is not left behind. -/
structure Delivered (s : State) : Prop where
  begun : s.yielded <+: s.received
  whole : s.reader = .returned → s.yielded = s.received ∧ s.upstreamEnded = true
  served : ¬ (s.pump = .ended ∧ s.queue = [] ∧ s.reader = .waiting)

/-- While the client stays: if no put waited for its whole timeout and `aclose` did not raise, the stream is
delivered. -/
theorem passthrough_intact {acts : List Action} (stays : ∀ a ∈ acts, a ≠ .leave)
    (calm : ∀ a ∈ acts, a ≠ .putTimeout ∧ a ≠ .closeFails) (ran : runStream config req acts = some s) : Delivered s := by
  have flow := flow_run ran
  have steadily : ∀ a ∈ acts, steady a = true := by
    intro a mem
    cases a with
    | leave => exact absurd rfl (stays _ mem)
    | putTimeout => exact absurd rfl (calm _ mem).1
    | closeFails => exact absurd rfl (calm _ mem).2
    | _ => rfl
  have fed : Flow s ∧ ((∀ a ∈ acts, steady a = true) → Fed s) := by
    apply run_history (I := fun acts s => Flow s ∧ ((∀ a ∈ acts, steady a = true) → Fed s)) _ _ ran
    · refine ⟨flow_start, fun _ _ => ⟨rfl, fun ended => ?_⟩⟩
      cases ended
    · intro before t a u both stepped
      refine ⟨flow_step both.1 (stepped_of_step stepped), fun all => ?_⟩
      have earlier := both.2 fun b mem => all b (List.mem_append_left _ mem)
      exact fed_step both.1 earlier (all a (by simp)) (stepped_of_step stepped)
  refine ⟨flow.begun, fun returned => (flow.whole returned).2, ?_⟩
  rintro ⟨ended, empty, waits⟩
  obtain ⟨failed, mem⟩ := (fed.2 steadily (Or.inr waits)).2 ended
  rw [empty] at mem
  cases mem

/-- A slow reader that resumes. -/
theorem passthrough_intact_sample : ∃ s, runStream plainConfig budgeted
      [.next, .chunk [1], .take, .chunk [2], .upstreamEnds, .finished, .next, .take, .next, .take] = some s ∧
    s.reader = .returned ∧ s.yielded = [[1], [2]] ∧ Delivered s := by
  have ends : (runStream plainConfig budgeted
      [.next, .chunk [1], .take, .chunk [2], .upstreamEnds, .finished, .next, .take, .next, .take]).map
      (fun s => (s.reader, s.yielded)) = some (.returned, [[1], [2]]) := by
    decide +kernel
  obtain ⟨s, ran, both⟩ := Option.map_eq_some_iff.mp ends
  obtain ⟨reader, yielded⟩ := Prod.mk.inj both
  exact ⟨s, ran, reader, yielded, passthrough_intact (by decide) (by decide) ran⟩

/-- The reader stalls while the queue is full until the put times out, and resumes: the pump has ended and
nobody puts a marker. -/
def stalledActs : List Action :=
  [.next, .chunk [1], .take] ++ List.replicate 65 (.chunk [2]) ++ [.putTimeout, .upstreamEnds, .finished, .next]

theorem stalled_reader_hangs : ¬ ∀ (config : Config) (req : Request) (acts : List Action) (s : State),
    (∀ a ∈ acts, a ≠ .leave) → runStream config req acts = some s → Delivered s := by
  intro h
  have ends : (runStream plainConfig budgeted stalledActs).map (fun s => (s.pump, s.queue, s.reader)) =
      some (.ended, [], .waiting) := by
    decide +kernel
  obtain ⟨s, ran, all⟩ := Option.map_eq_some_iff.mp ends
  obtain ⟨pump, rest⟩ := Prod.mk.inj all
  obtain ⟨queue, reader⟩ := Prod.mk.inj rest
  exact (h plainConfig budgeted stalledActs s (by decide) ran).served ⟨pump, queue, reader⟩

end Unhardcoded.Guarantees.Passthrough
