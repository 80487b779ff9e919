import Unhardcoded.Source.Adapters.Common

/-!
# Streams that commit

Once a non-empty text delta was passed to `emit`, bytes have reached the client: an
error returned after that has to be `stream_interrupted` (`CommitPoint`). A reader is
the event loop of a backend with what its events say: which it reads through, which
make it report an error, which deltas they pass on. Its runs keep to the commit point
exactly where its events do (`commitPoint_iff`).
-/

namespace Unhardcoded.Guarantees.StreamReader
open Python Python.Body Source Source.Adapters

/-- A non-empty text delta is among these. -/
def Committed (deltas : List Json) : Prop := ∃ text, text ≠ "" ∧ Json.str text ∈ deltas

/-- These are texts, all of them blank. -/
def Blank (deltas : List Json) : Prop := ∀ delta ∈ deltas, ∃ text, delta = .str text ∧ blank text = true

/-- An error returned after a text delta is `stream_interrupted`. -/
def CommitPoint (run : Run) : Prop :=
  Committed run.sent → ∀ kind status, run.outcome = .ok (.err kind status) → kind = .streamInterrupted

/-- An error after which the router may turn to another candidate. -/
def FallsOver (result : Result) : Prop := ∃ kind status, result = .err kind status ∧ kind ≠ .streamInterrupted

theorem not_committed_nil : ¬ Committed [] := by
  rintro ⟨text, -, mem⟩
  cases mem

theorem commitPoint_of_unsent {run : Run} (unsent : run.sent = []) : CommitPoint run :=
  fun committed => absurd (unsent ▸ committed) not_committed_nil

/-- An event loop and what its events say. -/
structure Reader (σ α : Type) where
  ledger : Ledger σ Json
  sawOutput : σ → Bool
  onEvent : α → Body σ Result Unit
  finish : Body σ Result Result
  handler : Raised → Body σ Result Unit
  readable : α → Bool
  reports : α → Bool
  deltas : α → List Json
  kept : α → Bool
  reads : ∀ ev, readable ev = true → Reads ledger (onEvent ev) (deltas ev) (kept ev)
  returns : ∀ ev, reports ev = true → Returns ledger (onEvent ev) [] FallsOver
  fails : ∀ ev, ¬ readable ev = true → ¬ reports ev = true → Fails ledger (onEvent ev)
  unreadable : ∀ ev, reports ev = true → readable ev = false
  saw : ∀ s, ledger.sound s → Committed (ledger.sent s) → sawOutput s = true
  /-- Only what is blank throughout makes no complete response. -/
  finishes : ∀ s, ledger.sound s → (finish.exec s).2 = s ∧
    (Blank (ledger.sent s) ∧ ledger.kept s = false → (finish.exec s).1 = .ok (.err .badResponse 200)) ∧
    (¬ (Blank (ledger.sent s) ∧ ledger.kept s = false) →
      (∃ response, (finish.exec s).1 = .ok (.ok response)) ∨ ∃ e, (finish.exec s).1 = .error (.raised e))
  /-- The handler of exceptions remembers what was sent. -/
  shields : ∀ e s, ledger.sound s → ∃ x t, (handler e).exec s = (.error x, t) ∧ ledger.sent t = ledger.sent s ∧
    (Committed (ledger.sent s) → ∀ kind status, x = .returned (.err kind status) → kind = .streamInterrupted)

/-- No report comes after a text delta, and a stream that ends in order after one
carries more than blank text. -/
structure Quiet {α : Type} (readable reports : α → Bool) (deltas : α → List Json) (kept : α → Bool)
    (events : List α) (ending : Ending) : Prop where
  unreported : ∀ pre ev post, events = pre ++ ev :: post → (∀ x ∈ pre, readable x = true) → reports ev = true →
    ¬ Committed (pre.flatMap deltas)
  substantial : ending = .closed → (∀ ev ∈ events, readable ev = true) → Committed (events.flatMap deltas) →
    ¬ (Blank (events.flatMap deltas) ∧ events.any kept = false)

section Stream

variable {σ : Type} {sent : σ → List Json} {start s : σ} {body : Body σ Result Result}

theorem stream_ok {result : Result} (h : body.exec start = (.ok result, s)) :
    stream sent start body = ⟨sent s, .ok result⟩ := by
  simp [stream, h]

theorem stream_returned {result : Result} (h : body.exec start = (.error (.returned result), s)) :
    stream sent start body = ⟨sent s, .ok result⟩ := by
  simp [stream, h]

theorem stream_raised {e : Raised} (h : body.exec start = (.error (.raised e), s)) :
    stream sent start body = ⟨sent s, .error e⟩ := by
  simp [stream, h]

theorem commitPoint_of_error {x : Exit Result} (h : body.exec start = (.error x, s))
    (shielded : Committed (sent s) → ∀ kind status, x = .returned (.err kind status) → kind = .streamInterrupted) :
    CommitPoint (stream sent start body) := by
  intro committed kind status outcome
  cases x with
  | raised e =>
    rw [stream_raised h] at outcome
    cases outcome
  | returned result =>
    rw [stream_returned h] at committed outcome
    exact shielded committed kind status (by rw [Except.ok.inj outcome])

end Stream

section Reader

variable {σ α : Type} (R : Reader σ α)

/-- The loop and the read that ends it, which an exception handler guards. -/
def Reader.loop (firstTokenTimeout : Bool) (ending : Ending) (events : List α) : Body σ Result Unit := do
  events.forM R.onEvent
  lastRead R.sawOutput firstTokenTimeout ending

/-- The loop over the events, what ends it, what is made of the state it leaves. -/
def Reader.body (firstTokenTimeout : Bool) (ending : Ending) (events : List α) : Body σ Result Result := do
  tryExcept (R.loop firstTokenTimeout ending events) R.handler
  R.finish

variable {R} {firstTokenTimeout : Bool} {ending : Ending} {events : List α} {start s : σ}

/-- An exception in the loop goes to the handler. -/
theorem exec_of_raised {e : Raised}
    (h : exec (R.loop firstTokenTimeout ending events) start = (.error (.raised e), s))
    (sound : R.ledger.sound s) : CommitPoint (stream R.ledger.sent start (R.body firstTokenTimeout ending events)) := by
  obtain ⟨x, t, handled, sent, shielded⟩ := R.shields e s sound
  have ran : exec (R.body firstTokenTimeout ending events) start = (.error x, t) := by
    apply exec_bind_error
    rw [exec_tryExcept, h]
    exact handled
  exact commitPoint_of_error ran (sent ▸ shielded)

/-- The first event that is not read through is at one place. -/
theorem first_unread {readable : α → Bool} {pre pre' post post' : List α} {x x' : α}
    (split : pre ++ x :: post = pre' ++ x' :: post') (before : ∀ y ∈ pre, readable y = true)
    (before' : ∀ y ∈ pre', readable y = true) (unread : readable x = false) (unread' : readable x' = false) :
    pre = pre' ∧ x = x' := by
  induction pre generalizing pre' with
  | nil =>
    cases pre' with
    | nil => exact ⟨rfl, (List.cons.inj split).1⟩
    | cons y pre' =>
      obtain ⟨rfl, -⟩ := List.cons.inj split
      rw [before' x List.mem_cons_self] at unread
      cases unread
  | cons y pre ih =>
    cases pre' with
    | nil =>
      obtain ⟨rfl, -⟩ := List.cons.inj split
      rw [before y List.mem_cons_self] at unread'
      cases unread'
    | cons y' pre' =>
      obtain ⟨rfl, rest⟩ := List.cons.inj split
      obtain ⟨rfl, rfl⟩ := ih rest (fun z hz => before z (List.mem_cons_of_mem _ hz))
        fun z hz => before' z (List.mem_cons_of_mem _ hz)
      exact ⟨rfl, rfl⟩

theorem exec_of_returned {result : Result}
    (h : exec (R.loop firstTokenTimeout ending events) start = (.error (.returned result), s)) :
    stream R.ledger.sent start (R.body firstTokenTimeout ending events) = ⟨R.ledger.sent s, .ok result⟩ := by
  apply stream_returned
  apply exec_bind_error
  rw [exec_tryExcept, h]

theorem exec_of_read (h : exec (R.loop firstTokenTimeout ending events) start = (.ok (), s)) :
    exec (R.body firstTokenTimeout ending events) start = exec R.finish s := by
  apply exec_bind_ok
  rw [exec_tryExcept, h]

theorem lastRead_timedOut (sawOutput : σ → Bool) (firstTokenTimeout : Bool) (s : σ) :
    (∃ e, exec (lastRead sawOutput firstTokenTimeout .timedOut) s = (.error (.raised e), s)) ∨
      exec (lastRead sawOutput firstTokenTimeout .timedOut) s = (.error (.returned (.err .timeout 0)), s) ∧
        sawOutput s = false := by
  have run : exec (lastRead sawOutput firstTokenTimeout .timedOut) s =
      exec (if sawOutput s then Body.raise .timeoutError else firstTokenTimeoutErr firstTokenTimeout) s :=
    exec_bind_ok rfl
  rw [run]
  cases saw : sawOutput s with
  | true => exact .inl ⟨_, rfl⟩
  | false =>
    cases firstTokenTimeout with
    | true => exact .inr ⟨rfl, rfl⟩
    | false => exact .inl ⟨_, rfl⟩

/-- A stream read through to its end in order. -/
theorem commitPoint_closed (h : exec (R.loop firstTokenTimeout ending events) start = (.ok (), s))
    (sound : R.ledger.sound s) :
    CommitPoint (stream R.ledger.sent start (R.body firstTokenTimeout ending events)) ↔
      (Committed (R.ledger.sent s) → ¬ (Blank (R.ledger.sent s) ∧ R.ledger.kept s = false)) := by
  obtain ⟨same, small, full⟩ := R.finishes s sound
  have ran : exec (R.body firstTokenTimeout ending events) start = ((exec R.finish s).1, s) := by
    rw [exec_of_read h]
    exact Prod.ext rfl same
  by_cases blank : Blank (R.ledger.sent s) ∧ R.ledger.kept s = false
  · rw [small blank] at ran
    rw [stream_ok ran]
    exact ⟨fun commits committed _ => ErrorKind.noConfusion (commits committed .badResponse 200 rfl),
      fun quiet committed => absurd blank (quiet committed)⟩
  · refine iff_of_true ?_ fun _ => blank
    rcases full blank with ⟨response, out⟩ | ⟨e, out⟩
    · rw [out] at ran
      rw [stream_ok ran]
      intro _ kind status outcome
      cases outcome
    · rw [out] at ran
      rw [stream_raised ran]
      intro _ kind status outcome
      cases outcome

/-- A reader keeps to the commit point exactly where its events do. -/
theorem commitPoint_iff (sound : R.ledger.sound start) (unsent : R.ledger.sent start = [])
    (bare : R.ledger.kept start = false) :
    CommitPoint (stream R.ledger.sent start (R.body firstTokenTimeout ending events)) ↔
      Quiet R.readable R.reports R.deltas R.kept events ending := by
  rcases forM_cases R.reads R.returns R.fails events with
    all | ⟨pre, x, post, split, before, stuck, ⟨report, returned⟩ | ⟨plain, failed⟩⟩
  · -- every event is read through: the ending decides
    have unreported : ∀ pre ev post, events = pre ++ ev :: post → (∀ x ∈ pre, R.readable x = true) →
        R.reports ev = true → ¬ Committed (pre.flatMap R.deltas) := by
      intro pre ev post split before report
      have := all ev (by simp [split])
      rw [R.unreadable ev report] at this
      cases this
    obtain ⟨_, mid, ran, sound', sent, kept⟩ := reads_forM (fun x hx => R.reads x (all x hx)) start sound
    rw [unsent, List.nil_append] at sent
    rw [bare, Bool.false_or] at kept
    cases ending with
    | closed =>
      rw [commitPoint_closed (s := mid) (by rw [Reader.loop, exec_bind_ok ran]; rfl) sound', sent, kept]
      exact ⟨fun substantial => ⟨unreported, fun _ _ => substantial⟩, fun quiet => quiet.substantial rfl all⟩
    | timedOut =>
      refine iff_of_true ?_ ⟨unreported, fun closed => nomatch closed⟩
      have loop : exec (R.loop firstTokenTimeout .timedOut events) start =
          exec (lastRead R.sawOutput firstTokenTimeout .timedOut) mid := exec_bind_ok ran
      rcases lastRead_timedOut R.sawOutput firstTokenTimeout mid with ⟨e, raised⟩ | ⟨returned, silent⟩
      · exact exec_of_raised (loop.trans raised) sound'
      · rw [exec_of_returned (loop.trans returned)]
        intro committed
        rw [R.saw mid sound' committed] at silent
        cases silent
    | raised e =>
      refine iff_of_true (exec_of_raised (by rw [Reader.loop, exec_bind_ok ran]; rfl) sound') ⟨unreported, ?_⟩
      intro closed
      cases closed
  · -- an event makes the reader return an error
    obtain ⟨r, t, ran, ⟨kind, status, rfl, plain⟩, -, sent⟩ := returned start sound
    rw [unsent, List.nil_append] at sent
    rw [exec_of_returned (exec_bind_error ran)]
    have alone : ∀ pre' ev post', events = pre' ++ ev :: post' → (∀ y ∈ pre', R.readable y = true) →
        R.reports ev = true → pre = pre' ∧ x = ev := fun pre' ev post' split' before' report' =>
      first_unread (split ▸ split') before before' (Bool.eq_false_iff.mpr stuck) (R.unreadable ev report')
    constructor
    · intro commits
      refine ⟨?_, fun _ all => absurd (all x (by simp [split])) stuck⟩
      intro pre' ev post' split' before' report'
      obtain ⟨rfl, rfl⟩ := alone pre' ev post' split' before' report'
      rw [← sent]
      exact fun committed => plain (commits committed kind status rfl)
    · intro quiet committed
      rw [sent] at committed
      exact absurd committed (quiet.unreported pre x post split before report)
  · -- an event cannot be read
    obtain ⟨e, t, ran, sound'⟩ := failed start sound
    refine iff_of_true (exec_of_raised (exec_bind_error ran) sound') ⟨?_, ?_⟩
    · intro pre' ev post' split' before' report
      obtain ⟨-, rfl⟩ := first_unread (split ▸ split') before before' (Bool.eq_false_iff.mpr stuck)
        (R.unreadable ev report)
      exact absurd report plain
    · intro _ all
      exact absurd (all x (by simp [split])) stuck

end Reader

end Unhardcoded.Guarantees.StreamReader
