import Mathlib.Algebra.Order.Group.Nat
import Mathlib.Data.Nat.Find
import Unhardcoded.Python.Lists
import Unhardcoded.Source.SerialQueue

/-!
# What the mutation queue promises its callers

A request is refused, served or still open (`Request.Coherent`), the links of the
chain settle in the order of the `serialize` calls (`InTurn`), and the log of
function calls follows that order (`LogInOrder`). Each callback keeps the three;
`serialize_serial` reads the promises off them for every interleaving.
-/

namespace Unhardcoded.Guarantees.SerialQueue
open Effects Source Source.SerialQueue

variable {V E : Type}

section Request

variable {r r' : Request V E} {e : Event V E}

/-- Answered by the timer, or locked to what `onTimeout` returned; `fn` never ran. -/
def Refused (r : Request V E) : Prop :=
  r.settled = true ∧ r.calls = 0 ∧
    (r.following = true ∧ r.answers = [] ∨
      r.following = false ∧ ∃ result, r.answers = [(.timer, result)])

/-- Answered with the result of `fn`, which ran once. -/
def Served (r : Request V E) : Prop :=
  r.settled = true ∧ r.calls = 1 ∧ r.following = false ∧ ∃ result, r.answers = [(.fn, result)]

/-- Not answered, `fn` called this often. -/
def Unanswered (r : Request V E) (settled : Bool) (calls : Nat) : Prop :=
  r.settled = settled ∧ r.calls = calls ∧ r.following = false ∧ r.answers = []

/-- What the variables of a `serialize` call can be at each stage of its link. -/
def Coherent (r : Request V E) : Prop :=
  match r.phase with
  | .waiting => Unanswered r false 0 ∨ Refused r
  | .skipped => Refused r
  | .admitted => Unanswered r true 0
  | .running => Unanswered r true 1
  | .finished _ => Unanswered r true 1
  | .reported => Served r
  | .linked => Refused r ∨ Served r

theorem timer_settled (h : r.settled = true) (now : Int) : r.timer now = r := by
  rw [Request.timer, if_pos h]

theorem timer_phase (now : Int) : (r.timer now).phase = r.phase := by
  unfold Request.timer
  split
  · rfl
  · dsimp only
    split <;> rfl

theorem timer_calls (now : Int) : (r.timer now).calls = r.calls := by
  unfold Request.timer
  split
  · rfl
  · dsimp only
    split <;> rfl

/-- The timer refuses a request that nothing has answered yet. -/
theorem timer_refuses (h : Unanswered r false 0) (now : Int) : Refused (r.timer now) := by
  obtain ⟨unsettled, uncalled, unlocked, unanswered⟩ := h
  unfold Request.timer
  rw [if_neg (by simp [unsettled])]
  dsimp only
  split
  · rename_i v _
    exact ⟨rfl, uncalled, .inr ⟨unlocked, .ok v, by simp [Request.answer, unanswered]⟩⟩
  · rename_i e _
    exact ⟨rfl, uncalled, .inr ⟨unlocked, .error e, by simp [Request.answer, unanswered]⟩⟩
  · exact ⟨rfl, uncalled, .inl ⟨rfl, unanswered⟩⟩

theorem Coherent.settled (h : Coherent r) (gone : r.phase ≠ .waiting) : r.settled = true := by
  unfold Coherent at h
  cases stage : r.phase with
  | waiting => exact absurd stage gone
  | linked =>
    rw [stage] at h
    rcases h with h | h
    · exact h.1
    · exact h.1
  | _ =>
    rw [stage] at h
    exact h.1

/-- A timer callback keeps a request coherent: past the gate it does nothing. -/
theorem timer_coherent (h : Coherent r) (now : Int) : Coherent (r.timer now) := by
  by_cases settled : r.settled = true
  · rw [timer_settled settled]
    exact h
  · have waiting : r.phase = .waiting := by
      by_contra gone
      exact settled (h.settled gone)
    have fresh : Unanswered r false 0 := by
      rw [Coherent, waiting] at h
      rcases h with h | h
      · exact h
      · exact absurd h.1 settled
    rw [Coherent, timer_phase, waiting]
    exact .inr (timer_refuses fresh now)

/-- Only a refused request is ever locked to another promise. -/
theorem Coherent.refused_of_following (h : Coherent r) (locked : r.following = true) : Refused r := by
  have free : ∀ settled calls, ¬ Unanswered r settled calls := by
    intro settled calls unanswered
    rw [unanswered.2.2.1] at locked
    cases locked
  have unserved : ¬ Served r := by
    intro served
    rw [served.2.2.1] at locked
    cases locked
  unfold Coherent at h
  cases stage : r.phase with
  | waiting =>
    rw [stage] at h
    exact h.resolve_left (free _ _)
  | linked =>
    rw [stage] at h
    exact h.resolve_right unserved
  | skipped =>
    rw [stage] at h
    exact h
  | reported =>
    rw [stage] at h
    exact absurd h unserved
  | _ =>
    rw [stage] at h
    exact absurd h (free _ _)

/-- What each callback does, and the stage it comes at. -/
inductive Moved (r : Request V E) : Event V E → Request V E → Prop where
  | timer (now : Int) : Moved r (.timer now) (r.timer now)
  | follow (result : Except E V) (locked : r.following = true) :
      Moved r (.follow result) ({ r with following := false }.answer .timer result)
  | gate (stage : r.phase = .waiting) : Moved r .gate r.gate
  | call (stage : r.phase = .admitted) : Moved r .call { r with phase := .running, calls := r.calls + 1 }
  | finish (result : Except E V) (stage : r.phase = .running) :
      Moved r (.finish result) { r with phase := .finished result }
  | report (result : Except E V) (stage : r.phase = .finished result) :
      Moved r .report ({ r with phase := .reported }.answer .fn result)
  | skip (stage : r.phase = .skipped) : Moved r .relay { r with phase := .linked }
  | relay (stage : r.phase = .reported) : Moved r .relay { r with phase := .linked }

theorem moved_of_step (stepped : r.step e = some r') : Moved r e r' := by
  cases e with
  | timer now =>
    obtain rfl := Option.some.inj stepped
    exact .timer now
  | follow result =>
    simp only [Request.step, Option.ite_none_right_eq_some, Option.some.injEq] at stepped
    obtain ⟨locked, rfl⟩ := stepped
    exact .follow result locked
  | gate =>
    cases stage : r.phase <;> simp only [Request.step, stage, Option.some.injEq, reduceCtorEq] at stepped
    exact stepped ▸ .gate stage
  | call =>
    cases stage : r.phase <;> simp only [Request.step, stage, Option.some.injEq, reduceCtorEq] at stepped
    exact stepped ▸ .call stage
  | finish result =>
    cases stage : r.phase <;> simp only [Request.step, stage, Option.some.injEq, reduceCtorEq] at stepped
    exact stepped ▸ .finish result stage
  | report =>
    cases stage : r.phase <;> simp only [Request.step, stage, Option.some.injEq, reduceCtorEq] at stepped
    exact stepped ▸ .report _ stage
  | relay =>
    cases stage : r.phase <;> simp only [Request.step, stage, Option.some.injEq, reduceCtorEq] at stepped
    · exact stepped ▸ .skip stage
    · exact stepped ▸ .relay stage

/-- The promise a refused request is locked to settles. -/
theorem follow_coherent (h : Coherent r) (locked : r.following = true) (result : Except E V) :
    Coherent ({ r with following := false }.answer .timer result) := by
  obtain ⟨settled, uncalled, answered⟩ := h.refused_of_following locked
  have unanswered : r.answers = [] := by
    rcases answered with answered | answered
    · exact answered.2
    · rw [answered.1] at locked
      cases locked
  have refused : Refused ({ r with following := false }.answer .timer result) :=
    ⟨settled, uncalled, .inr ⟨rfl, result, by simp [Request.answer, unanswered]⟩⟩
  unfold Coherent at h ⊢
  cases stage : r.phase with
  | waiting => simpa [Request.answer, stage] using .inr refused
  | skipped => simpa [Request.answer, stage] using refused
  | linked => simpa [Request.answer, stage] using .inl refused
  | _ =>
    rw [stage] at h
    have unlocked := h.2.2.1
    rw [locked] at unlocked
    cases unlocked

/-- Each callback keeps its request coherent. -/
theorem step_coherent (h : Coherent r) (stepped : r.step e = some r') : Coherent r' := by
  cases moved_of_step stepped with
  | timer now => exact timer_coherent h now
  | follow result locked => exact follow_coherent h locked result
  | gate stage =>
    rw [Coherent, stage] at h
    unfold Request.gate
    rcases h with fresh | refused
    · rw [if_neg (by simp [fresh.1])]
      exact ⟨rfl, fresh.2⟩
    · rw [if_pos refused.1]
      exact refused
  | call stage =>
    rw [Coherent, stage] at h
    exact ⟨h.1, by rw [h.2.1], h.2.2⟩
  | finish result stage =>
    rw [Coherent, stage] at h
    exact h
  | report result stage =>
    rw [Coherent, stage] at h
    exact ⟨h.1, h.2.1, h.2.2.1, result, by simp [Request.answer, h.2.2.2]⟩
  | skip stage =>
    rw [Coherent, stage] at h
    exact .inl h
  | relay stage =>
    rw [Coherent, stage] at h
    exact .inr h

/-- Only `gate` takes a link out of `waiting`, and nothing takes it back there. -/
theorem phase_of_step (stepped : r.step e = some r') :
    e = .gate ∧ r.phase = .waiting ∨ (r'.phase ≠ .waiting → r.phase ≠ .waiting) := by
  cases moved_of_step stepped with
  | timer now =>
    rw [timer_phase]
    exact .inr id
  | follow result locked => exact .inr id
  | gate stage => exact .inl ⟨rfl, stage⟩
  | call stage => exact .inr fun _ => by rw [stage]; nofun
  | finish result stage => exact .inr fun _ => by rw [stage]; nofun
  | report result stage => exact .inr fun _ => by rw [stage]; nofun
  | skip stage => exact .inr fun _ => by rw [stage]; nofun
  | relay stage => exact .inr fun _ => by rw [stage]; nofun

/-- A settled link stays settled. -/
theorem linked_of_step (stepped : r.step e = some r') (h : r.phase = .linked) : r'.phase = .linked := by
  cases moved_of_step stepped with
  | timer now => exact (timer_phase now).trans h
  | follow result locked => exact h
  | gate stage => exact absurd (h.symm.trans stage) nofun
  | call stage => exact absurd (h.symm.trans stage) nofun
  | finish result stage => exact absurd (h.symm.trans stage) nofun
  | report result stage => exact absurd (h.symm.trans stage) nofun
  | skip stage => rfl
  | relay stage => rfl

theorem calls_of_step (stepped : r.step e = some r') : 0 < r'.calls ↔ 0 < r.calls ∨ e = .call := by
  cases moved_of_step stepped with
  | timer now => simp [timer_calls]
  | gate stage =>
    unfold Request.gate
    split <;> simp
  | _ => simp [Request.answer]

theorem Coherent.uncalled (h : Coherent r) (waits : r.phase = .waiting ∨ r.phase = .admitted) :
    r.calls = 0 := by
  rcases waits with stage | stage
  · rw [Coherent, stage] at h
    rcases h with h | h
    · exact h.2.1
    · exact h.2.1
  · rw [Coherent, stage] at h
    exact h.2.1

end Request

section Queue

variable {q q' : Queue V E}

theorem isLinked_iff (phase : Phase V E) : phase.isLinked = true ↔ phase = .linked := by
  cases phase <;> simp [Phase.isLinked]

theorem turn_succ (i : Nat) : q.turn (i + 1) = true ↔ ∃ r, q.requests[i]? = some r ∧ r.phase = .linked := by
  rw [Queue.turn, Option.any_eq_true]
  simp only [isLinked_iff]

/-- What a step of the queue does. -/
theorem queue_step_cases {a : Act V E} (stepped : q.step a = some q') :
    (∃ now onTimeout, a = .serialize now onTimeout ∧
      q' = { q with requests := q.requests ++ [.queued now onTimeout] }) ∨
    ∃ i e r r', a = .event i e ∧ q.ready i e = true ∧ q.requests[i]? = some r ∧ r.step e = some r' ∧
      q' = ⟨q.requests.set i r', q.log i e⟩ := by
  cases a with
  | serialize now onTimeout => exact .inl ⟨now, onTimeout, rfl, (Option.some.inj stepped).symm⟩
  | event i e =>
    right
    simp only [Queue.step, Option.ite_none_right_eq_some, Option.bind_eq_bind, Option.bind_eq_some_iff,
      Option.pure_def, Option.some.injEq] at stepped
    obtain ⟨ready, r, at_i, r', moved, rfl⟩ := stepped
    exact ⟨i, e, r, r', rfl, ready, at_i, moved, rfl⟩

/-- Past its gate only where every earlier link has settled. -/
def InTurn (q : Queue V E) : Prop :=
  ∀ (i j : Nat) (ri rj : Request V E), q.requests[i]? = some ri → q.requests[j]? = some rj → i < j →
    rj.phase ≠ .waiting → ri.phase = .linked

/-- The log holds the requests whose function was called, in `serialize` order. -/
structure LogInOrder (q : Queue V E) : Prop where
  called : ∀ i, i ∈ q.started ↔ ∃ r, q.requests[i]? = some r ∧ 0 < r.calls
  ascending : q.started.Pairwise (· < ·)

/-- The state of the queue as any interleaving leaves it. -/
structure Sound (q : Queue V E) : Prop where
  coherent : ∀ r ∈ q.requests, Coherent r
  inTurn : InTurn q
  log : LogInOrder q

theorem inTurn_serialize (h : InTurn q) (now : Int) (onTimeout : Int → TimeoutReply V E) :
    InTurn { q with requests := q.requests ++ [.queued now onTimeout] } := by
  intro i j ri rj at_i at_j earlier gone
  have within : j < q.requests.length := by
    by_contra beyond
    have last : j = q.requests.length := by
      have := (List.getElem?_eq_some_iff.mp at_j).1
      simp only [List.length_append, List.length_singleton] at this
      omega
    subst last
    simp only [List.getElem?_concat_length, Option.some.injEq] at at_j
    subst at_j
    exact gone rfl
  rw [List.getElem?_append_left (by omega)] at at_i at_j
  exact h i j ri rj at_i at_j earlier gone

/-- A link whose gate may run has every earlier link settled before it. -/
theorem InTurn.before_turn (h : InTurn q) {i k : Nat} (turn : q.turn k = true) (earlier : i < k)
    {r : Request V E} (at_i : q.requests[i]? = some r) : r.phase = .linked := by
  cases k with
  | zero => omega
  | succ k =>
    obtain ⟨previous, at_k, linked⟩ := (turn_succ k).mp turn
    rcases Nat.lt_succ_iff_lt_or_eq.mp earlier with sooner | rfl
    · exact h i k r previous at_i at_k sooner (by rw [linked]; nofun)
    · obtain rfl := Option.some.inj (at_i.symm.trans at_k)
      exact linked

theorem inTurn_event (h : InTurn q) {k : Nat} {e : Event V E} {r r' : Request V E}
    (ready : q.ready k e = true) (at_k : q.requests[k]? = some r) (stepped : r.step e = some r')
    (log : List Nat) : InTurn ⟨q.requests.set k r', log⟩ := by
  intro i j ri rj at_i at_j earlier gone
  simp only [List.getElem?_set] at at_i at_j
  by_cases later : k = j
  · subst later
    rw [if_neg (by omega)] at at_i
    rw [if_pos rfl, if_pos (List.getElem?_eq_some_iff.mp at_k).1] at at_j
    obtain rfl := Option.some.inj at_j
    rcases phase_of_step stepped with ⟨rfl, -⟩ | stays
    · exact h.before_turn ready earlier at_i
    · exact h i k ri r at_i at_k earlier (stays gone)
  · rw [if_neg later] at at_j
    by_cases mine : k = i
    · subst mine
      rw [if_pos rfl, if_pos (List.getElem?_eq_some_iff.mp at_k).1] at at_i
      obtain rfl := Option.some.inj at_i
      exact linked_of_step stepped (h k j r rj at_k at_j earlier gone)
    · rw [if_neg mine] at at_i
      exact h i j ri rj at_i at_j earlier gone

/-- Who has called its function after an event at `k`. -/
theorem called_set {k i : Nat} {r r' : Request V E} (at_k : q.requests[k]? = some r) :
    (∃ ri, (q.requests.set k r')[i]? = some ri ∧ 0 < ri.calls) ↔
      if k = i then 0 < r'.calls else ∃ ri, q.requests[i]? = some ri ∧ 0 < ri.calls := by
  rw [List.getElem?_set]
  by_cases mine : k = i
  · simp [mine, (List.getElem?_eq_some_iff.mp (mine ▸ at_k)).1]
  · simp [mine]

theorem log_call (h : Sound q) {k : Nat} {r r' : Request V E} (at_k : q.requests[k]? = some r)
    (stepped : r.step .call = some r') : LogInOrder ⟨q.requests.set k r', q.started ++ [k]⟩ := by
  have admitted : r.phase = .admitted := by
    cases moved_of_step stepped with
    | call stage => exact stage
  have calls := (calls_of_step stepped).mpr (.inr rfl)
  constructor
  · intro i
    rw [called_set at_k, List.mem_append, List.mem_singleton, h.log.called]
    by_cases mine : k = i
    · simp [mine, calls]
    · simp [mine, Ne.symm mine]
  · refine List.pairwise_append.mpr ⟨h.log.ascending, List.pairwise_singleton _ _, ?_⟩
    intro i logged j last
    rw [List.mem_singleton.mp last]
    obtain ⟨ri, at_i, called⟩ := (h.log.called i).mp logged
    have coherent := h.coherent ri (List.mem_of_getElem? at_i)
    -- whoever was called before is past its gate, so it is neither `k` nor behind `k`
    rcases Nat.lt_trichotomy i k with earlier | rfl | later
    · exact earlier
    · obtain rfl := Option.some.inj (at_i.symm.trans at_k)
      have := coherent.uncalled (.inr admitted)
      omega
    · have gone : ri.phase ≠ .waiting := by
        intro waiting
        have := coherent.uncalled (.inl waiting)
        omega
      have linked := h.inTurn k i r ri at_k at_i later gone
      rw [admitted] at linked
      cases linked

theorem log_event (h : Sound q) {k : Nat} {e : Event V E} {r r' : Request V E}
    (at_k : q.requests[k]? = some r) (stepped : r.step e = some r') :
    LogInOrder ⟨q.requests.set k r', q.log k e⟩ := by
  by_cases call : e = .call
  · subst call
    exact log_call h at_k stepped
  · have same : q.log k e = q.started := by
      cases e <;> first | rfl | exact absurd rfl call
    have calls : 0 < r'.calls ↔ 0 < r.calls := by simp [calls_of_step stepped, call]
    rw [same]
    constructor
    · intro i
      rw [called_set at_k, h.log.called]
      by_cases mine : k = i
      · subst mine
        simp [at_k, calls]
      · simp [mine]
    · exact h.log.ascending

theorem log_serialize (h : LogInOrder q) (now : Int) (onTimeout : Int → TimeoutReply V E) :
    LogInOrder { q with requests := q.requests ++ [.queued now onTimeout] } := by
  constructor
  · intro i
    rw [h.called]
    constructor
    · rintro ⟨r, at_i, called⟩
      exact ⟨r, by rw [List.getElem?_append_left (List.getElem?_eq_some_iff.mp at_i).1, at_i], called⟩
    · rintro ⟨r, at_i, called⟩
      rw [List.getElem?_append] at at_i
      split at at_i
      · exact ⟨r, at_i, called⟩
      · have fresh := List.mem_singleton.mp (List.mem_of_getElem? at_i)
        rw [fresh] at called
        simp [Request.queued] at called
  · exact h.ascending

theorem sound_empty : Sound (Queue.empty : Queue V E) where
  coherent := List.forall_mem_nil _
  inTurn := fun i j ri rj at_i => by simp [Queue.empty] at at_i
  log := ⟨fun i => by simp [Queue.empty], List.Pairwise.nil⟩

/-- Each step keeps the queue sound. -/
theorem sound_step {a : Act V E} (h : Sound q) (stepped : q.step a = some q') : Sound q' := by
  rcases queue_step_cases stepped with ⟨now, onTimeout, rfl, rfl⟩ | ⟨k, e, r, r', rfl, ready, at_k, moved, rfl⟩
  · constructor
    · intro r hr
      rcases List.mem_append.mp hr with hr | hr
      · exact h.coherent r hr
      · rw [List.mem_singleton.mp hr]
        exact .inl ⟨rfl, rfl, rfl, rfl⟩
    · exact inTurn_serialize h.inTurn now onTimeout
    · exact log_serialize h.log now onTimeout
  · constructor
    · intro r hr
      rcases List.mem_or_eq_of_mem_set hr with hr | rfl
      · exact h.coherent r hr
      · exact step_coherent (h.coherent _ (List.mem_of_getElem? at_k)) moved
    · exact inTurn_event h.inTurn ready at_k moved _
    · exact log_event h at_k moved

/-- Every interleaving leaves the queue sound. -/
theorem sound_run {acts : List (Act V E)} (ran : runQueue acts = some q) : Sound q :=
  Machine.run_invariant sound_empty (fun _ _ _ => sound_step) ran

end Queue

section Promises

variable {q q' : Queue V E} {r r' : Request V E}

/-- The function of the `i`th call has been called and its promise is pending. -/
def Running (q : Queue V E) (i : Nat) : Prop := ∃ r, q.requests[i]? = some r ∧ r.phase = .running

/-- The budget timer answered, or locked the answer to what `onTimeout` returned. -/
def TimerTook (r : Request V E) : Prop := r.following = true ∨ ∃ result, (.timer, result) ∈ r.answers

/-- Not answered yet: before both the gate and the timer, between the gate and the
report, or locked to the promise `onTimeout` returned. -/
def Outstanding (r : Request V E) : Prop :=
  r.answers = [] ∧ (r.settled = false ∧ r.phase = .waiting ∨
    r.phase = .admitted ∨ r.phase = .running ∨ (∃ result, r.phase = .finished result) ∨ r.following = true)

theorem Coherent.cases (h : Coherent r) :
    (r.phase = .waiting ∧ Unanswered r false 0) ∨ Refused r ∨ Served r ∨ (r.phase = .admitted ∧ Unanswered r true 0) ∨
      ((r.phase = .running ∨ ∃ result, r.phase = .finished result) ∧ Unanswered r true 1) := by
  unfold Coherent at h
  cases stage : r.phase with
  | waiting =>
    rw [stage] at h
    rcases h with fresh | refused
    · exact .inl ⟨rfl, fresh⟩
    · exact .inr (.inl refused)
  | skipped =>
    rw [stage] at h
    exact .inr (.inl h)
  | admitted =>
    rw [stage] at h
    exact .inr (.inr (.inr (.inl ⟨rfl, h⟩)))
  | running =>
    rw [stage] at h
    exact .inr (.inr (.inr (.inr ⟨.inl rfl, h⟩)))
  | finished result =>
    rw [stage] at h
    exact .inr (.inr (.inr (.inr ⟨.inr ⟨result, rfl⟩, h⟩)))
  | reported =>
    rw [stage] at h
    exact .inr (.inr (.inl h))
  | linked =>
    rw [stage] at h
    rcases h with refused | served
    · exact .inr (.inl refused)
    · exact .inr (.inr (.inl served))

theorem Coherent.answered_once (h : Coherent r) : r.answers.length = 1 ∨ Outstanding r := by
  rcases h.cases with ⟨stage, fresh⟩ | refused | served | ⟨stage, busy⟩ | ⟨stage, busy⟩
  · exact .inr ⟨fresh.2.2.2, .inl ⟨fresh.1, stage⟩⟩
  · rcases refused.2.2 with locked | ⟨-, result, answered⟩
    · exact .inr ⟨locked.2, .inr (.inr (.inr (.inr locked.1)))⟩
    · exact .inl (by rw [answered]; rfl)
  · obtain ⟨result, answered⟩ := served.2.2.2
    exact .inl (by rw [answered]; rfl)
  · exact .inr ⟨busy.2.2.2, .inr (.inl stage)⟩
  · rcases stage with stage | stage
    · exact .inr ⟨busy.2.2.2, .inr (.inr (.inl stage))⟩
    · exact .inr ⟨busy.2.2.2, .inr (.inr (.inr (.inl stage)))⟩

/-- What the timer took was never called. -/
theorem Coherent.uncalled_of_took (h : Coherent r) (took : TimerTook r) : r.calls = 0 := by
  have unanswered : ∀ settled calls, ¬ Unanswered r settled calls := by
    rintro settled calls ⟨-, -, unlocked, unanswered⟩
    rcases took with locked | ⟨result, answered⟩
    · rw [unlocked] at locked
      cases locked
    · rw [unanswered] at answered
      cases answered
  rcases h.cases with ⟨-, fresh⟩ | refused | served | ⟨-, busy⟩ | ⟨-, busy⟩
  · exact fresh.2.1
  · exact refused.2.1
  · obtain ⟨-, -, unlocked, own, answer⟩ := served
    exfalso
    rcases took with locked | ⟨result, answered⟩
    · rw [unlocked] at locked
      cases locked
    · rw [answer, List.mem_singleton] at answered
      cases answered
  · exact absurd busy (unanswered _ _)
  · exact absurd busy (unanswered _ _)

/-- The timer took nothing without being fired. -/
theorem took_of_step {e : Event V E} (stepped : r.step e = some r') (took : TimerTook r') :
    TimerTook r ∨ ∃ now, e = .timer now := by
  cases moved_of_step stepped with
  | timer now => exact .inr ⟨now, rfl⟩
  | follow result locked => exact .inl (.inl locked)
  | gate stage =>
    left
    unfold Request.gate at took
    split at took
    · exact took
    · exact took
  | report result stage =>
    left
    rcases took with locked | ⟨own, answered⟩
    · exact .inl locked
    · exact .inr ⟨own, by simpa [Request.answer] using answered⟩
  | _ => exact .inl took

/-- Whatever the timer took, it was fired for. -/
theorem fired_of_took {acts : List (Act V E)} (ran : runQueue acts = some q) {i : Nat}
    (at_i : q.requests[i]? = some r) (took : TimerTook r) : ∃ now, .event i (.timer now) ∈ acts := by
  have fired : ∀ (i : Nat) (r : Request V E), q.requests[i]? = some r → TimerTook r →
      ∃ now, .event i (.timer now) ∈ acts := by
    refine Machine.run_history (I := fun acts q => ∀ (i : Nat) (r : Request V E),
      q.requests[i]? = some r → TimerTook r → ∃ now, .event i (.timer now) ∈ acts) ?_ ?_ ran
    · intro i r at_i
      simp [Queue.empty] at at_i
    · intro before q a q' earlier stepped i r at_i took
      have ago : ∀ r₀, q.requests[i]? = some r₀ → TimerTook r₀ →
          ∃ now, .event i (.timer now) ∈ before ++ [a] := by
        intro r₀ at_i took
        obtain ⟨now, fired⟩ := earlier i r₀ at_i took
        exact ⟨now, List.mem_append_left _ fired⟩
      rcases queue_step_cases stepped with ⟨now, onTimeout, rfl, rfl⟩ | ⟨k, e, rk, rk', rfl, -, at_k, moved, rfl⟩
      · rw [List.getElem?_append] at at_i
        split at at_i
        · exact ago r at_i took
        · rw [List.mem_singleton.mp (List.mem_of_getElem? at_i)] at took
          simp [TimerTook, Request.queued] at took
      · rw [List.getElem?_set] at at_i
        split at at_i
        · rename_i mine
          subst mine
          rw [if_pos (List.getElem?_eq_some_iff.mp at_k).1] at at_i
          obtain rfl := Option.some.inj at_i
          rcases took_of_step moved took with took | ⟨now, rfl⟩
          · exact ago rk at_k took
          · exact ⟨now, by simp⟩
        · exact ago r at_i took
  exact fired i r at_i took

theorem Sound.running_unique (h : Sound q) {i j : Nat} (hi : Running q i) (hj : Running q j) : i = j := by
  obtain ⟨ri, at_i, running_i⟩ := hi
  obtain ⟨rj, at_j, running_j⟩ := hj
  rcases Nat.lt_trichotomy i j with earlier | same | later
  · have linked := h.inTurn i j ri rj at_i at_j earlier (by rw [running_j]; nofun)
    rw [running_i] at linked
    cases linked
  · exact same
  · have linked := h.inTurn j i rj ri at_j at_i later (by rw [running_i]; nofun)
    rw [running_j] at linked
    cases linked

/-- A running function runs until its own promise settles. -/
theorem running_until_finish {i : Nat} (h : Running q i) {a : Act V E} (stepped : q.step a = some q') :
    Running q' i ∨ ∃ result, a = .event i (.finish result) := by
  obtain ⟨r, at_i, running⟩ := h
  have within := (List.getElem?_eq_some_iff.mp at_i).1
  rcases queue_step_cases stepped with ⟨now, onTimeout, rfl, rfl⟩ | ⟨k, e, rk, rk', rfl, -, at_k, moved, rfl⟩
  · exact .inl ⟨r, by rw [List.getElem?_append_left within, at_i], running⟩
  · by_cases mine : k = i
    · subst mine
      obtain rfl := Option.some.inj (at_k.symm.trans at_i)
      have there : (q.requests.set k rk')[k]? = some rk' := by simp [within]
      cases moved_of_step moved with
      | timer now => exact .inl ⟨_, there, (timer_phase now).trans running⟩
      | follow result locked => exact .inl ⟨_, there, running⟩
      | finish result stage => exact .inr ⟨result, rfl⟩
      | gate stage => exact absurd (running.symm.trans stage) nofun
      | call stage => exact absurd (running.symm.trans stage) nofun
      | report result stage => exact absurd (running.symm.trans stage) nofun
      | skip stage => exact absurd (running.symm.trans stage) nofun
      | relay stage => exact absurd (running.symm.trans stage) nofun
    · exact .inl ⟨r, by rw [List.getElem?_set, if_neg mine, at_i], running⟩

/-- The promise jobs of the queue itself; the environment owes the other events. -/
def IsJob (e : Event V E) : Prop := e = .gate ∨ e = .call ∨ e = .report ∨ e = .relay

/-- The first link that has not settled. -/
theorem exists_first_unlinked (h : ∃ r ∈ q.requests, r.phase ≠ .linked) :
    ∃ (i : Nat) (r : Request V E), q.requests[i]? = some r ∧ r.phase ≠ .linked ∧ q.turn i = true := by
  classical
  have unlinked : ∃ i : Nat, ∃ r : Request V E, q.requests[i]? = some r ∧ r.phase ≠ .linked := by
    obtain ⟨r, hr, stage⟩ := h
    obtain ⟨i, at_i⟩ := List.getElem?_of_mem hr
    exact ⟨i, r, at_i, stage⟩
  obtain ⟨r, at_i, stage⟩ := Nat.find_spec unlinked
  refine ⟨_, r, at_i, stage, ?_⟩
  cases first : Nat.find unlinked with
  | zero => rfl
  | succ i =>
    have sooner : ¬ ∃ r : Request V E, q.requests[i]? = some r ∧ r.phase ≠ .linked := by
      apply Nat.find_min unlinked
      omega
    have within : i < q.requests.length := by
      have := (List.getElem?_eq_some_iff.mp at_i).1
      omega
    refine (turn_succ i).mpr ⟨q.requests[i], List.getElem?_eq_getElem within, ?_⟩
    by_contra stuck
    exact sooner ⟨_, List.getElem?_eq_getElem within, stuck⟩

/-- While no function runs, the queue has a job to do or every link has settled. -/
theorem job_or_linked (idle : ∀ i, ¬ Running q i) :
    (∀ r ∈ q.requests, r.phase = .linked) ∨ ∃ i e, IsJob e ∧ (q.step (.event i e)).isSome := by
  by_cases done : ∀ r ∈ q.requests, r.phase = .linked
  · exact .inl done
  · right
    push Not at done
    obtain ⟨i, r, at_i, stage, turn⟩ := exists_first_unlinked done
    cases phase : r.phase with
    | waiting => exact ⟨i, .gate, .inl rfl, by simp [Queue.step, Queue.ready, turn, at_i, Request.step, phase]⟩
    | skipped =>
      exact ⟨i, .relay, .inr (.inr (.inr rfl)), by simp [Queue.step, Queue.ready, at_i, Request.step, phase]⟩
    | admitted => exact ⟨i, .call, .inr (.inl rfl), by simp [Queue.step, Queue.ready, at_i, Request.step, phase]⟩
    | running => exact absurd ⟨r, at_i, phase⟩ (idle i)
    | finished result =>
      exact ⟨i, .report, .inr (.inr (.inl rfl)), by simp [Queue.step, Queue.ready, at_i, Request.step, phase]⟩
    | reported =>
      exact ⟨i, .relay, .inr (.inr (.inr rfl)), by simp [Queue.step, Queue.ready, at_i, Request.step, phase]⟩
    | linked => exact absurd phase stage

/-- The events a link has before it: the gate, the call, `fn`'s end, the report, the
settling. -/
def eventsLeft : Phase V E → Nat
  | .waiting => 5
  | .admitted => 4
  | .running => 3
  | .finished _ => 2
  | .reported | .skipped => 1
  | .linked => 0

/-- One for an event that moves a link, none for the others. -/
def cost : Act V E → Nat
  | .event _ (.timer _) | .event _ (.follow _) | .serialize _ _ => 0
  | .event _ _ => 1

/-- Five for a `serialize` call. -/
def income : Act V E → Nat
  | .serialize _ _ => 5
  | .event _ _ => 0

theorem eventsLeft_of_step {e : Event V E} (stepped : r.step e = some r') (i : Nat) :
    eventsLeft r'.phase + cost (.event i e) ≤ eventsLeft r.phase := by
  cases moved_of_step stepped with
  | timer now => simp [timer_phase, cost]
  | follow result locked => simp [Request.answer, cost]
  | gate stage =>
    unfold Request.gate
    split <;> simp [eventsLeft, stage, cost]
  | call stage => simp [eventsLeft, stage, cost]
  | finish result stage => simp [eventsLeft, stage, cost]
  | report result stage => simp [eventsLeft, stage, cost, Request.answer]
  | skip stage => simp [eventsLeft, stage, cost]
  | relay stage => simp [eventsLeft, stage, cost]

/-- The queue never does more than five link events for a `serialize` call, so it
runs out of them unless a function never ends. -/
theorem link_events_bounded {acts : List (Act V E)} (ran : runQueue acts = some q) :
    (acts.map cost).sum ≤ (acts.map income).sum := by
  have paid := Machine.run_potential (I := fun _ => True)
    (fun q : Queue V E => (q.requests.map fun r => eventsLeft r.phase).sum) cost income trivial ?_ ran
  · simp only [Queue.empty, List.map_nil, List.sum_nil] at paid
    omega
  · intro q a q' _ stepped
    refine ⟨trivial, ?_⟩
    rcases queue_step_cases stepped with ⟨now, onTimeout, rfl, rfl⟩ | ⟨k, e, r, r', rfl, -, at_k, moved, rfl⟩
    · simp [cost, income, eventsLeft, Request.queued]
    · have less := eventsLeft_of_step moved k
      have replaced := Python.sum_map_set (fun r : Request V E => eventsLeft r.phase) q.requests (b := r') at_k
      simp only [income]
      omega

/-- What the queue promises in the state `q` an interleaving `acts` leads to. -/
structure Serial (acts : List (Act V E)) (q : Queue V E) : Prop where
  /-- At most one function runs at a time. -/
  one_at_a_time : ∀ i j, Running q i → Running q j → i = j
  /-- Functions are called in the order of the `serialize` calls, none twice. -/
  in_order : q.started.Pairwise (· < ·)
  /-- A promise settles once, and then only those still to be decided are open. -/
  settles_once : ∀ r ∈ q.requests, r.answers.length = 1 ∨ Outstanding r
  /-- A request the timer took is never run, and a run request never taken. -/
  refused_or_run : ∀ i r, q.requests[i]? = some r → TimerTook r → i ∉ q.started
  /-- A started function goes on until its own promise settles. -/
  not_cancelled : ∀ i a q', Running q i → q.step a = some q' →
    Running q' i ∨ ∃ result, a = .event i (.finish result)
  /-- However the functions ended, the queue only ever waits for a running one. -/
  not_wedged : (∀ i, ¬ Running q i) →
    (∀ r ∈ q.requests, r.phase = .linked) ∨ ∃ i e, IsJob e ∧ (q.step (.event i e)).isSome
  /-- A link that has settled without its timer fired has run its function. -/
  turn_runs : ∀ i r, q.requests[i]? = some r → r.phase = .linked →
    (∀ now, .event i (.timer now) ∉ acts) → i ∈ q.started
  /-- The link events of a run are bounded by its `serialize` calls. -/
  bounded : (acts.map cost).sum ≤ (acts.map income).sum

/-- For every interleaving of `serialize` calls, timer callbacks, promise jobs and
endings of the functions. -/
theorem serialize_serial {acts : List (Act V E)} (ran : runQueue acts = some q) : Serial acts q := by
  have sound := sound_run ran
  have called : ∀ i r, q.requests[i]? = some r → (i ∈ q.started ↔ 0 < r.calls) := by
    intro i r at_i
    rw [sound.log.called]
    simp [at_i]
  refine {
    one_at_a_time := fun i j => sound.running_unique
    in_order := sound.log.ascending
    settles_once := fun r hr => (sound.coherent r hr).answered_once
    refused_or_run := ?_
    not_cancelled := fun i a q' running => running_until_finish running
    not_wedged := job_or_linked
    turn_runs := ?_
    bounded := link_events_bounded ran }
  · intro i r at_i took
    have := (sound.coherent r (List.mem_of_getElem? at_i)).uncalled_of_took took
    rw [called i r at_i]
    omega
  · intro i r at_i linked unfired
    have coherent := sound.coherent r (List.mem_of_getElem? at_i)
    rw [Coherent, linked] at coherent
    rw [called i r at_i]
    rcases coherent with refused | served
    · exfalso
      have took : TimerTook r := by
        rcases refused.2.2 with locked | ⟨-, result, answered⟩
        · exact .inl locked.1
        · exact .inr ⟨result, by simp [answered]⟩
      obtain ⟨now, fired⟩ := fired_of_took ran at_i took
      exact unfired now fired
    · have := served.2.1
      omega

/-- Three requests: the first fails, the second is refused by an `onTimeout` that
throws, the third is served behind them. -/
def sampleActs : List (Act Nat String) :=
  [.serialize 0 fun _ => .value 0, .serialize 0 fun _ => .throws "refused", .serialize 0 fun _ => .value 0,
    .event 0 .gate, .event 0 .call, .event 1 (.timer 31), .event 0 (.finish (.error "cli blew up")),
    .event 0 .report, .event 0 .relay, .event 1 .gate, .event 1 .relay, .event 2 .gate, .event 2 .call,
    .event 2 (.finish (.ok 7)), .event 2 .report, .event 2 .relay]

theorem serialize_serial_sample : ∃ q, runQueue sampleActs = some q ∧ q.started = [0, 2] ∧
    q.requests.map (·.answers) =
      [[(.fn, .error "cli blew up")], [(.timer, .error "refused")], [(.fn, .ok 7)]] ∧
    Serial sampleActs q :=
  ⟨_, rfl, rfl, rfl, serialize_serial rfl⟩

end Promises

end Unhardcoded.Guarantees.SerialQueue
