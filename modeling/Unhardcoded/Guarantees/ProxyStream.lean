import Unhardcoded.Guarantees.StreamTail
import Unhardcoded.Source.ProxyStream

/-!
# Accounting of a proxied stream

The books of a request are closed by one step, once the response is closed, and by no other.
A cancellation or an error in the `aclose` of the `finally` skips it; at the normal end of
the upstream neither does. What is booked is read from the trimmed tail, which reports what
the stream did unless the trim took it off. `Stepped` lists what each step does.
-/

namespace Unhardcoded.Guarantees.ProxyStream

open Effects.Machine Python Source.ProxyStream
open Unhardcoded.Source.StreamTail (LF parseStreamTail pumpTail trimSseTail)
open Unhardcoded.Guarantees.StreamTail (Ends ends_length ends_of_two pumpTail_concat pumpTail_drop xRouter_behind)

variable {config : Config} {req : Request} {s t : State}

section Steps

/-- What each step does. -/
inductive Stepped (config : Config) (req : Request) (s : State) : Action → State → Prop where
  | next (h : s.reader = .suspended) : Stepped config req s .next { s with reader := .waiting }
  | yields {bytes : Bytes} {rest : List Item} (waits : s.reader = .waiting) (h : s.queue = .chunk bytes :: rest) :
      Stepped config req s .take { s with queue := rest, reader := .suspended, yielded := s.yielded ++ [bytes] }
  | ends {failed : Bool} {rest : List Item} (waits : s.reader = .waiting) (h : s.queue = .marker failed :: rest) :
      Stepped config req s .take
        { s with queue := rest, reader := if failed = true then .raised else .returned }.clientLeft
  | leaves (live : s.reader = .suspended ∨ s.reader = .waiting) : Stepped config req s .leave { s with reader := .left }.clientLeft
  | late (past : ¬ (s.reader = .suspended ∨ s.reader = .waiting)) : Stepped config req s .leave s.clientLeft
  | chunk (bytes : Bytes) (h : s.pump = .reading) : Stepped config req s (.chunk bytes) (s.chunk config bytes)
  | upstreamEnds (h : s.pump = .reading) :
      Stepped config req s .upstreamEnds { s with upstreamEnded := true, pump := .finishing }
  | upstreamFails (h : s.pump = .reading) : Stepped config req s .upstreamFails { s with pump := .closing true }
  | finished (h : s.pump = .finishing) :
      Stepped config req s .finished ({ s with drainComplete := true }.closed config req false)
  | finishFails (h : s.pump = .finishing) : Stepped config req s .finishFails (s.closed config req true)
  | put {chunk : Bytes} (room : s.queue.length < maxsize) (h : s.pump = .putting chunk) :
      Stepped config req s .put { s with queue := s.queue ++ [.chunk chunk], pump := .reading }
  | putMarker {failed : Bool} (room : s.queue.length < maxsize) (h : s.pump = .ending failed) :
      Stepped config req s .put { s with queue := s.queue ++ [.marker failed], pump := .ended }
  | putTimeout {chunk : Bytes} (h : s.pump = .putting chunk) : Stepped config req s .putTimeout (s.clientLeft.drain config chunk)
  | markerTimeout {failed : Bool} (h : s.pump = .ending failed) : Stepped config req s .putTimeout { s with pump := .ended }
  | closed {failed : Bool} (h : s.pump = .closing failed) : Stepped config req s .closed (s.closed config req failed)
  | closeFails {failed : Bool} (h : s.pump = .closing failed) : Stepped config req s .closeFails { s with pump := .ended }
  | drainTimeout (h : s.timer = true) : Stepped config req s .drainTimeout { s.cancelPump config req with timer := false }

theorem stepped_of_step {a : Action} (h : step config req s a = some t) : Stepped config req s a t := by
  cases a with
  | next =>
    simp only [step] at h
    split at h
    · rename_i here
      obtain rfl := Option.some.inj h
      exact .next here
    · cases h
  | take =>
    simp only [step] at h
    split at h
    · rename_i waits
      unfold State.take at h
      split at h
      · cases h
      · rename_i here
        obtain rfl := Option.some.inj h
        exact .yields waits here
      · rename_i here
        obtain rfl := Option.some.inj h
        exact .ends waits here
      · rename_i here
        obtain rfl := Option.some.inj h
        exact .ends waits here
    · cases h
  | leave =>
    simp only [step] at h
    split at h
    · rename_i live
      obtain rfl := Option.some.inj h
      exact .leaves live
    · rename_i past
      obtain rfl := Option.some.inj h
      exact .late past
  | chunk bytes =>
    simp only [step] at h
    split at h
    · rename_i here
      obtain rfl := Option.some.inj h
      exact .chunk bytes here
    · cases h
  | upstreamEnds =>
    simp only [step] at h
    split at h
    · rename_i here
      obtain rfl := Option.some.inj h
      exact .upstreamEnds here
    · cases h
  | upstreamFails =>
    simp only [step] at h
    split at h
    · rename_i here
      obtain rfl := Option.some.inj h
      exact .upstreamFails here
    · cases h
  | finished =>
    simp only [step] at h
    split at h
    · rename_i here
      obtain rfl := Option.some.inj h
      exact .finished here
    · cases h
  | finishFails =>
    simp only [step] at h
    split at h
    · rename_i here
      obtain rfl := Option.some.inj h
      exact .finishFails here
    · cases h
  | put =>
    simp only [step] at h
    split at h
    · rename_i room
      split at h
      · rename_i here
        obtain rfl := Option.some.inj h
        exact .put room here
      · rename_i here
        obtain rfl := Option.some.inj h
        exact .putMarker room here
      · cases h
    · cases h
  | putTimeout =>
    simp only [step] at h
    split at h
    · rename_i here
      obtain rfl := Option.some.inj h
      exact .putTimeout here
    · rename_i here
      obtain rfl := Option.some.inj h
      exact .markerTimeout here
    · cases h
  | closed =>
    simp only [step] at h
    split at h
    · rename_i here
      obtain rfl := Option.some.inj h
      exact .closed here
    · cases h
  | closeFails =>
    simp only [step] at h
    split at h
    · rename_i here
      obtain rfl := Option.some.inj h
      exact .closeFails here
    · cases h
  | drainTimeout =>
    simp only [step] at h
    split at h
    · rename_i armed
      obtain rfl := Option.some.inj h
      exact .drainTimeout armed
    · cases h

end Steps

section Accounting

/-- What the reservation is to be settled with; `None` books nothing. -/
def due (config : Config) (req : Request) (received : List Bytes) : List (Option ℚ) :=
  match req.amount config with
  | none => []
  | some amount =>
    match reportedCost config received.flatten with
    | some cost => [some cost]
    | none => if req.status < 400 then [some amount] else [none]

/-- The permit is back, the request is recorded and its reservation settled, each once. -/
structure Accounted (config : Config) (req : Request) (s : State) : Prop where
  released : s.released = 1
  recorded : s.recorded.length = 1
  settled : s.settled = due config req s.received

/-- The pump has not closed the upstream yet. -/
def running : Pump → Bool
  | .reading | .putting _ | .finishing | .closing _ => true
  | .ending _ | .ended => false

/-- The books before the pump has closed the upstream. -/
structure Blank (s : State) : Prop where
  costUsd : s.costUsd = none
  capacityReleased : s.capacityReleased = false
  reservationDone : s.reservationDone = false
  recorded : s.recorded = []
  settled : s.settled = []
  released : s.released = 0

structure Books (config : Config) (req : Request) (s : State) : Prop where
  tail : s.tail = pumpTail s.received
  before : running s.pump = true → Blank s
  after : running s.pump = false → Accounted config req s

/-- A served stream was cut off before its cost, on a budget below one reservation. -/
def CutShort (config : Config) (req : Request) (s : State) : Prop :=
  s.clientGone = true ∧ s.drainComplete = false ∧ reportedCost config s.received.flatten = none ∧ req.status < 400 ∧
    ∃ limit ∈ req.budgetLimit, limit < config.cloudBudgetReservationUsd

/-- From some line on, the end of the stream has its newest routing record, two blank lines at most and 4 MiB at most. Or
no end of it reports a cost. -/
def Kept (config : Config) (received : List Bytes) : Prop :=
  (∃ start, Ends received.flatten start ∧ (∀ b ∈ (received.flatten.take start).getLast?, b = LF) ∧
    (parseStreamTail config.float (received.flatten.drop start)).xRouter.isSome = true) ∨
  ∀ k, reportedCost config (received.flatten.drop k) = none

/-- What the books are closed with is what is due. -/
def Whole (config : Config) (req : Request) (s : State) : Prop := ¬ CutShort config req s ∧ Kept config s.received

/-- Neither an error nor the drain timeout meets the pump in `aclose`, and the books are closed on a whole report. -/
def Closes (config : Config) (req : Request) (s : State) : Action → Prop
  | .finished => Kept config s.received
  | .finishFails | .closed => Whole config req s
  | .closeFails => False
  | .drainTimeout => (∀ failed, s.pump ≠ .closing failed) ∧ (s.pump = .finishing → Whole config req s)
  | _ => True

/-- The trimmed tail reports what the stream does. -/
theorem reportedCost_tail {received : List Bytes} (kept : Kept config received) :
    reportedCost config (pumpTail received) = reportedCost config received.flatten := by
  rcases kept with ⟨start, ends, edge, routed⟩ | silent
  · obtain ⟨k, before, tail⟩ := pumpTail_drop ends
    -- what is left of the bytes before the line still ends a line
    have read (n : Nat) (few : n ≤ start) :
        (parseStreamTail config.float (received.flatten.drop n)).xRouter =
          (parseStreamTail config.float (received.flatten.drop start)).xRouter := by
      have split : received.flatten.drop n = (received.flatten.take start).drop n ++ received.flatten.drop start := by
        have within : n ≤ (received.flatten.take start).length := by
          rw [List.length_take_of_le ends.within]
          exact few
        rw [← List.drop_append_of_le_length within, List.take_append_drop]
      rw [split]
      refine xRouter_behind (fun b mem => ?_) routed
      rw [List.getLast?_drop] at mem
      split at mem
      · cases mem
      · exact edge b mem
    have whole := read 0 (Nat.zero_le _)
    rw [List.drop_zero] at whole
    rw [tail, reportedCost, reportedCost, read k before, whole]
  · obtain ⟨k, -, tail⟩ := pumpTail_drop (ends_length received.flatten)
    have whole := silent 0
    rw [List.drop_zero] at whole
    rw [tail, silent k, whole]

/-- What the books are made of. -/
def ledger (s : State) := (s.tail, s.received, s.costUsd, s.capacityReleased, s.reservationDone, s.recorded, s.settled, s.released)

theorem Books.frame (h : Books config req s) (same : ledger t = ledger s) (phase : running t.pump = running s.pump) :
    Books config req t := by
  simp only [ledger, Prod.mk.injEq] at same
  obtain ⟨tail, received, cost, released, done, recorded, settled, count⟩ := same
  constructor
  · rw [tail, received, h.tail]
  · intro open_
    have blank := h.before (phase ▸ open_)
    constructor
    · rw [cost, blank.costUsd]
    · rw [released, blank.capacityReleased]
    · rw [done, blank.reservationDone]
    · rw [recorded, blank.recorded]
    · rw [settled, blank.settled]
    · rw [count, blank.released]
  · intro shut
    have accounted := h.after (phase ▸ shut)
    constructor
    · rw [count, accounted.released]
    · rw [recorded, accounted.recorded]
    · rw [settled, received, accounted.settled]

theorem ledger_clientLeft (s : State) : ledger s.clientLeft = ledger s ∧ s.clientLeft.pump = s.pump := by
  unfold State.clientLeft
  split
  · exact ⟨rfl, rfl⟩
  · exact ⟨rfl, rfl⟩

theorem running_drain (config : Config) (s : State) (chunk : Bytes) :
    ledger (s.drain config chunk) = ledger s ∧ running (s.drain config chunk).pump = true := by
  unfold State.drain
  refine ⟨rfl, ?_⟩
  dsimp only
  split
  · rfl
  · rfl

/-- What `_account` leaves under `cost_usd`. -/
theorem costUsd_account (config : Config) (req : Request) (blank : Blank s) : (s.account config req).costUsd =
    match reportedCost config s.tail with
    | some cost => some cost
    | none => if s.clientGone && !s.drainComplete && decide (req.status < 400) then some config.cloudBudgetReservationUsd
      else none := by
  unfold State.account
  cases reportedCost config s.tail with
  | some cost => simp
  | none =>
    simp only [blank.costUsd, Option.isNone_none, Bool.and_true]
    split
    · rfl
    · exact blank.costUsd

theorem account_frame (config : Config) (req : Request) (s : State) : ∃ cost, s.account config req = { s with costUsd := cost } := by
  unfold State.account
  cases reportedCost config s.tail with
  | some cost => exact ⟨some cost, by simp⟩
  | none =>
    dsimp only
    split
    · exact ⟨_, rfl⟩
    · exact ⟨s.costUsd, rfl⟩

/-- What the first `_finish` does. -/
theorem finish_spec (config : Config) (req : Request) (unreleased : s.capacityReleased = false) (unsettled : s.reservationDone = false) :
    (s.finish config req).released = s.released + 1 ∧
    (s.finish config req).recorded = s.recorded ++ [(req.status, s.costUsd)] ∧
    (s.finish config req).settled = s.settled ++
      (match req.amount config with
        | none => []
        | some amount => [if s.costUsd.isSome || decide (400 ≤ req.status) then s.costUsd else some amount]) := by
  unfold State.finish State.settleReservation
  rw [unreleased]
  cases req.amount config with
  | none => simp
  | some amount => simp [unsettled]

theorem closed_frame (config : Config) (req : Request) (s : State) (failed : Bool) :
    (s.closed config req failed).released = ((s.account config req).finish config req).released ∧
    (s.closed config req failed).recorded = ((s.account config req).finish config req).recorded ∧
    (s.closed config req failed).settled = ((s.account config req).finish config req).settled ∧
    (s.closed config req failed).received = s.received ∧
    (s.closed config req failed).tail = s.tail ∧
    running (s.closed config req failed).pump = false := by
  obtain ⟨cost, account⟩ := account_frame config req s
  have finish : ((s.account config req).finish config req).received = s.received ∧
      ((s.account config req).finish config req).tail = s.tail := by
    rw [account]
    unfold State.finish State.settleReservation
    split
    · exact ⟨rfl, rfl⟩
    · dsimp only
      split
      · exact ⟨rfl, rfl⟩
      · exact ⟨rfl, rfl⟩
  unfold State.closed
  dsimp only
  split
  · exact ⟨rfl, rfl, rfl, finish.1, finish.2, rfl⟩
  · split
    · exact ⟨rfl, rfl, rfl, finish.1, finish.2, rfl⟩
    · exact ⟨rfl, rfl, rfl, finish.1, finish.2, rfl⟩

/-- The books after the response is closed. -/
theorem accounted_closed (books : Books config req s) (runs : running s.pump = true) (whole : Whole config req s)
    (failed : Bool) : Accounted config req (s.closed config req failed) := by
  have blank := books.before runs
  obtain ⟨cost, account⟩ := account_frame config req s
  have costUsd := costUsd_account config req blank
  have unreleased : (s.account config req).capacityReleased = false := by rw [account]; exact blank.capacityReleased
  have unsettled : (s.account config req).reservationDone = false := by rw [account]; exact blank.reservationDone
  obtain ⟨released, recorded, settled⟩ := finish_spec config req unreleased unsettled
  obtain ⟨released', recorded', settled', received', -, -⟩ := closed_frame config req s failed
  have reported_tail : reportedCost config s.tail = reportedCost config s.received.flatten := by
    rw [books.tail, reportedCost_tail whole.2]
  have kept : (s.account config req).released = 0 ∧ (s.account config req).recorded = [] ∧
      (s.account config req).settled = [] := by
    rw [account]
    exact ⟨blank.released, blank.recorded, blank.settled⟩
  constructor
  · rw [released', released, kept.1]
  · rw [recorded', recorded, kept.2.1]
    rfl
  · rw [settled', received', settled, kept.2.2, due, costUsd, reported_tail]
    cases amount : req.amount config with
    | none => rfl
    | some amount =>
      cases reported : reportedCost config s.received.flatten with
      | some cost => simp
      | none =>
        by_cases served : req.status < 400
        · have low : ¬ 400 ≤ req.status := by omega
          by_cases cut : s.clientGone = true ∧ s.drainComplete = false
          · obtain ⟨limit, budget, rfl⟩ := Option.map_eq_some_iff.mp amount
            have floor : config.cloudBudgetReservationUsd ≤ limit := by
              by_contra below
              exact whole.1 ⟨cut.1, cut.2, reported, served, limit, budget, not_le.mp below⟩
            simp [cut.1, cut.2, served, floor]
          · have open_ : (s.clientGone && !s.drainComplete) = false := by
              cases gone : s.clientGone
              · rfl
              · cases complete : s.drainComplete
                · exact absurd ⟨gone, complete⟩ cut
                · rfl
            simp [open_, served, low]
        · have high : 400 ≤ req.status := by omega
          simp [served, high]

theorem books_closed (books : Books config req s) (runs : running s.pump = true) (whole : Whole config req s)
    (failed : Bool) : Books config req (s.closed config req failed) := by
  have accounted := accounted_closed books runs whole failed
  obtain ⟨-, -, -, received, tail, past⟩ := closed_frame config req s failed
  exact ⟨by rw [tail, received, books.tail], fun open_ => absurd open_ (by rw [past]; decide), fun _ => accounted⟩

/-- One step keeps the books, unless it skips them. -/
theorem books_step {a : Action} (books : Books config req s) (closes : Closes config req s a)
    (h : Stepped config req s a t) : Books config req t := by
  cases h with
  | next => exact books.frame rfl rfl
  | yields => exact books.frame rfl rfl
  | ends waits here =>
    obtain ⟨same, pump⟩ := ledger_clientLeft _
    exact books.frame same (congrArg running pump)
  | leaves =>
    obtain ⟨same, pump⟩ := ledger_clientLeft _
    exact books.frame same (congrArg running pump)
  | late =>
    obtain ⟨same, pump⟩ := ledger_clientLeft s
    exact books.frame same (congrArg running pump)
  | chunk bytes reads =>
    have blank := books.before (by rw [reads]; rfl)
    have tail : trimSseTail (s.tail ++ bytes) = pumpTail (s.received ++ [bytes]) := by rw [pumpTail_concat, books.tail]
    have read : Books config req { s with received := s.received ++ [bytes], tail := trimSseTail (s.tail ++ bytes) } :=
      ⟨tail, fun _ => ⟨blank.costUsd, blank.capacityReleased, blank.reservationDone, blank.recorded, blank.settled, blank.released⟩,
        fun shut => by rw [reads] at shut; cases shut⟩
    unfold State.chunk
    dsimp only
    split
    · obtain ⟨same, pump⟩ := running_drain config { s with received := s.received ++ [bytes], tail := trimSseTail (s.tail ++ bytes) } bytes
      exact read.frame same (by rw [pump, reads]; rfl)
    · split
      · exact read.frame rfl rfl
      · exact read.frame rfl (by rw [reads]; rfl)
  | upstreamEnds reads => exact books.frame rfl (by rw [reads]; rfl)
  | upstreamFails reads => exact books.frame rfl (by rw [reads]; rfl)
  | finished here =>
    have complete : Books config req { s with drainComplete := true } := books.frame rfl rfl
    have whole : Whole config req { s with drainComplete := true } := by
      refine ⟨?_, closes⟩
      rintro ⟨-, cut, -⟩
      cases cut
    exact books_closed complete (by rw [here]; rfl) whole false
  | finishFails here => exact books_closed books (by rw [here]; rfl) closes true
  | put _ here => exact books.frame rfl (by rw [here]; rfl)
  | putMarker _ here => exact books.frame rfl (by rw [here]; rfl)
  | putTimeout here =>
    obtain ⟨same, pump⟩ := ledger_clientLeft s
    obtain ⟨same', pump'⟩ := running_drain config s.clientLeft _
    exact books.frame (same'.trans same) (by rw [pump', here]; rfl)
  | markerTimeout here => exact books.frame rfl (by rw [here]; rfl)
  | closed here => exact books_closed books (by rw [here]; rfl) closes _
  | closeFails => exact absurd closes id
  | drainTimeout armed =>
    unfold State.cancelPump
    split
    · rename_i here
      exact books.frame rfl (by rw [here]; rfl)
    · rename_i here
      exact books.frame rfl (by rw [here]; rfl)
    · rename_i here
      exact (books_closed books (by rw [here]; rfl) (closes.2 here) false).frame rfl rfl
    · rename_i here
      exact absurd here (closes.1 _)
    · rename_i here
      exact books.frame rfl (by rw [here]; rfl)
    · rename_i here
      exact books.frame rfl (by rw [here])

theorem books_start : Books config req .start :=
  ⟨rfl, fun _ => ⟨rfl, rfl, rfl, rfl, rfl, rfl⟩, fun shut => by cases shut⟩

/-- A stream is accounted once: when the pump has ended, the permit is back, the request recorded and the
reservation settled with what is due, if no step of the run skipped the books. -/
theorem stream_accounted_once {acts : List Action} (closes : Along (step config req) (Closes config req) .start acts)
    (ran : runStream config req acts = some s) (ended : s.pump = .ended) : Accounted config req s := by
  have books : Books config req s := by
    apply run_along (I := Books config req) books_start _ closes ran
    intro t a u books closes stepped
    exact books_step books closes (stepped_of_step stepped)
  exact books.after (by rw [ended]; rfl)

/-- The line of a call that cost a dollar. -/
def costLine : Bytes := ascii "data: \x7b\"x_router\": \x7b\"cost_usd\": 1\x7d\x7d".toList

def roleEvent : Bytes := ascii "data: \x7b\"choices\": []\x7d\n\n".toList

def errorEvent : Bytes := ascii "data: \x7b\"error\": \x7b\x7d\x7d\n\n".toList

def doneLine : Bytes := ascii "data: [DONE]".toList

def plainConfig : Config where
  streamDrainMaxBytes := 32
  cloudBudgetReservationUsd := 1 / 20
  float _ := .null

def budgeted : Request := ⟨200, some 10⟩

/-- A stream that fails after its cost: the trim keeps the error and the end. -/
example :
    let chunks := [costLine ++ [LF, LF], errorEvent, doneLine ++ [LF, LF]]
    reportedCost plainConfig (pumpTail chunks) = none ∧ reportedCost plainConfig chunks.flatten = some 1 := by
  decide +kernel

/-- The client disconnects before the end of the cost's event, and the pump drains the rest. -/
def leftActs : List Action :=
  [.chunk (roleEvent ++ costLine), .leave, .chunk (LF :: LF :: (doneLine ++ [LF, LF])), .upstreamEnds, .finished]

theorem stream_accounted_once_sample : ∃ s, runStream plainConfig budgeted leftActs = some s ∧
    s.settled = [some 1] ∧ Accounted plainConfig budgeted s := by
  have ends : (runStream plainConfig budgeted leftActs).map (fun s => (s.pump, s.settled)) = some (.ended, [some 1]) := by
    decide +kernel
  have kept : Kept plainConfig [roleEvent ++ costLine, LF :: LF :: (doneLine ++ [LF, LF])] := by
    have two := @ends_of_two costLine doneLine roleEvent (by decide) (by decide) (by decide) (by decide) (by decide)
    refine .inl ⟨roleEvent.length, ?_, by decide +kernel, by decide +kernel⟩
    simpa using two
  have closes : Along (step plainConfig budgeted) (Closes plainConfig budgeted) .start leftActs := by
    refine ⟨trivial, fun t first => ⟨trivial, fun u left => ⟨trivial, fun v rest => ⟨trivial, fun w ended => ?_⟩⟩⟩⟩
    obtain rfl := Option.some.inj first
    obtain rfl := Option.some.inj left
    obtain rfl := Option.some.inj rest
    obtain rfl := Option.some.inj ended
    exact ⟨kept, fun _ _ => trivial⟩
  obtain ⟨s, ran, both⟩ := Option.map_eq_some_iff.mp ends
  obtain ⟨ended, settled⟩ := Prod.mk.inj both
  exact ⟨s, ran, settled, stream_accounted_once closes ran ended⟩

/-- The client disconnects, the upstream sends more than is drained, and the drain timeout finds the pump in `aclose`:
it ends with the permit held. -/
theorem permit_kept_by_cancelled_close : ¬ ∀ (config : Config) (req : Request) (acts : List Action) (s : State),
    runStream config req acts = some s → s.pump = .ended → Accounted config req s := by
  intro h
  have ends : (runStream plainConfig budgeted [.leave, .chunk (List.replicate 33 0), .drainTimeout]).map
      (fun s => (s.pump, s.released)) = some (.ended, 0) := by
    decide +kernel
  obtain ⟨s, ran, both⟩ := Option.map_eq_some_iff.mp ends
  obtain ⟨ended, released⟩ := Prod.mk.inj both
  have accounted := h plainConfig budgeted _ s ran ended
  rw [accounted.released] at released
  exact absurd released (by decide)

end Accounting

end Unhardcoded.Guarantees.ProxyStream
