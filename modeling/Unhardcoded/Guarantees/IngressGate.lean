import Unhardcoded.Source.IngressGate

/-!
# The ingress gate loses no capacity

The permits that no request holds and the requests that hold one add up to the
in-flight maximum, the active counter counts the requests that hold a permit, and the
pending counter the tasks inside a queued acquire (`Balanced`). Every exit of an
acquire keeps these sums, whether it has the permit, ran out of time or was
cancelled before or after the permit was given to it.
-/

namespace Unhardcoded.Guarantees.IngressGate
open Effects Source Source.IngressGate

/-- The two counters and the permits agree with the requests there are. -/
structure Balanced (config : Config) (s : GateState) : Prop where
  active : s.activeRequests = s.holding.length
  pending : s.pendingRequests = s.waiting.length
  bounded : s.pendingRequests ≤ config.maxPendingRequests
  unbounded : s.capacity = none → config.maxInflightRequests = 0 ∧ s.expiring = []
  permits : ∀ capacity, s.capacity = some capacity →
    0 < config.maxInflightRequests ∧ capacity.permits + s.holding.length = config.maxInflightRequests

variable {config : Config}

theorem balanced_start : Balanced config (.start config) := by
  have queued : (GateState.start config).queued = [] := by
    simp only [GateState.queued, GateState.start]
    split <;> rfl
  refine ⟨rfl, ?_, Nat.zero_le _, ?_, ?_⟩
  · rw [GateState.waiting, queued]
    rfl
  · intro none
    simpa [GateState.start] using none
  · intro capacity here
    simp only [GateState.start, Option.ite_none_right_eq_some, Option.some.injEq] at here
    rw [← here.2]
    exact ⟨here.1, rfl⟩

theorem queued_of_some {s : GateState} {capacity : Semaphore Nat} (h : s.capacity = some capacity) :
    s.queued = capacity.tasks := by
  simp [GateState.queued, h]

theorem balanced_enter {s : GateState} (h : Balanced config s) (task : Nat) : Balanced config (s.enter config task) := by
  unfold GateState.enter
  split
  · rename_i unbounded
    refine ⟨by simp [GateState.letIn, h.active], ?_, h.bounded, h.unbounded, ?_⟩
    · exact h.pending
    · intro capacity here
      rw [show (s.letIn task).capacity = s.capacity from rfl, unbounded] at here
      cases here
  · rename_i capacity here
    have queued := queued_of_some here
    obtain ⟨positive, permits⟩ := h.permits capacity here
    have pending := h.pending
    rw [GateState.waiting, queued, List.length_append] at pending
    split
    · rename_i locked
      obtain ⟨-, tasks, kept⟩ := Semaphore.acquire_waits locked task
      split
      · exact ⟨h.active, h.pending, h.bounded, h.unbounded, h.permits⟩
      · rename_i room
        dsimp only
        split
        · refine ⟨h.active, ?_, ?_, ?_, h.permits⟩
          · simp only [GateState.waiting, GateState.queued, here, Option.elim_some, List.length_append,
              List.length_singleton]
            omega
          · dsimp only
            omega
          · intro none
            rw [here] at none
            cases none
        · refine ⟨h.active, ?_, ?_, ?_, ?_⟩
          · simp only [GateState.waiting, GateState.queued, Option.elim_some, tasks, List.length_append,
              List.length_singleton]
            omega
          · dsimp only
            omega
          · rintro ⟨⟩
          · rintro _ ⟨⟩
            rw [kept]
            exact ⟨positive, permits⟩
    · rename_i free
      obtain ⟨-, tasks, kept⟩ := Semaphore.acquire_passes (Bool.eq_false_iff.mpr free) task
      refine ⟨by simp [GateState.letIn, h.active], ?_, h.bounded, ?_, ?_⟩
      · simp only [GateState.waiting, GateState.queued, GateState.letIn, Option.elim_some, tasks, List.length_append]
        exact pending
      · rintro ⟨⟩
      · rintro _ ⟨⟩
        simp only [GateState.letIn, List.length_append, List.length_singleton]
        exact ⟨positive, by omega⟩

theorem balanced_strike {s : GateState} (h : Balanced config s) (task : Nat) : Balanced config (s.strike task) := by
  cases here : s.capacity with
  | none =>
    have struck : (s.strike task).capacity = none := by simp [GateState.strike, here]
    have queued : (s.strike task).queued = s.queued := by simp [GateState.queued, struck, here]
    refine ⟨h.active, ?_, h.bounded, fun _ => h.unbounded here, ?_⟩
    · rw [GateState.waiting, queued]
      exact h.pending
    · rw [struck]
      rintro _ ⟨⟩
  | some capacity =>
    obtain ⟨tasks, kept⟩ := capacity.cancel_spec task
    have pending := h.pending
    have struck : (s.strike task).capacity = some (capacity.cancel task) := by simp [GateState.strike, here]
    refine ⟨h.active, ?_, h.bounded, ?_, ?_⟩
    · rw [GateState.waiting, queued_of_some struck, tasks, ← queued_of_some here]
      exact pending
    · rw [struck]
      rintro ⟨⟩
    · rw [struck]
      rintro _ ⟨⟩
      rw [kept]
      exact h.permits capacity here

theorem balanced_resume {s t : GateState} {task : Nat} (h : Balanced config s) (stepped : s.resume task = some t) :
    Balanced config t := by
  have pending := h.pending
  rw [GateState.waiting, List.length_append] at pending
  unfold GateState.resume at stepped
  split at stepped
  · rename_i expiring
    cases stepped
    have fewer := List.length_erase_of_mem expiring
    have one := List.length_pos_of_mem expiring
    refine ⟨h.active, ?_, le_trans (Nat.sub_le _ _) h.bounded, ?_, h.permits⟩
    · simp only [GateState.leave, GateState.dequeue, GateState.waiting, GateState.queued, List.length_append] at pending ⊢
      omega
    · intro unbounded
      rw [(h.unbounded unbounded).2] at expiring
      cases expiring
  · cases here : s.capacity with
    | none => simp [here] at stepped
    | some capacity =>
      obtain ⟨positive, permits⟩ := h.permits capacity here
      rw [queued_of_some here] at pending
      simp only [here, Option.bind_eq_bind, Option.bind_some, Option.bind_eq_some_iff, Prod.exists] at stepped
      obtain ⟨acquired, left, resumed, ended⟩ := stepped
      obtain ⟨mem, tasks, kept⟩ := Semaphore.resume_spec resumed
      have fewer := List.length_erase_of_mem mem
      have one := List.length_pos_of_mem mem
      cases ended
      cases acquired with
      | true =>
        simp only [if_true] at kept ⊢
        refine ⟨by simp [GateState.letIn, GateState.dequeue, h.active], ?_, le_trans (Nat.sub_le _ _) h.bounded, ?_, ?_⟩
        · simp only [GateState.letIn, GateState.dequeue, GateState.waiting, GateState.queued, Option.elim_some, tasks,
            List.length_append]
          omega
        · rintro ⟨⟩
        · rintro _ ⟨⟩
          simp only [GateState.letIn, GateState.dequeue, List.length_append, List.length_singleton]
          exact ⟨positive, by omega⟩
      | false =>
        simp only [Bool.false_eq_true, if_false, Nat.add_zero] at kept ⊢
        refine ⟨h.active, ?_, le_trans (Nat.sub_le _ _) h.bounded, ?_, ?_⟩
        · simp only [GateState.leave, GateState.dequeue, GateState.waiting, GateState.queued, Option.elim_some, tasks,
            List.length_append]
          omega
        · rintro ⟨⟩
        · rintro _ ⟨⟩
          rw [kept]
          exact ⟨positive, permits⟩

theorem balanced_finish {s : GateState} {task : Nat} (h : Balanced config s) (holds : task ∈ s.holding) :
    Balanced config { s.release with holding := s.holding.erase task } := by
  have fewer := List.length_erase_of_mem holds
  have one := List.length_pos_of_mem holds
  have active := h.active
  cases here : s.capacity with
  | none =>
    have none_left : s.release.capacity = none := by simp [GateState.release, here]
    refine ⟨?_, ?_, h.bounded, ?_, ?_⟩
    · simp only [GateState.release]
      omega
    · simpa [GateState.waiting, GateState.queued, GateState.release, here] using h.pending
    · exact fun _ => h.unbounded here
    · intro capacity some_left
      rw [show ({ s.release with holding := s.holding.erase task } : GateState).capacity = s.release.capacity from rfl,
        none_left] at some_left
      cases some_left
  | some capacity =>
    obtain ⟨tasks, more⟩ := capacity.release_spec
    obtain ⟨positive, permits⟩ := h.permits capacity here
    refine ⟨?_, ?_, h.bounded, ?_, ?_⟩
    · simp only [GateState.release]
      omega
    · simpa [GateState.waiting, GateState.queued, GateState.release, here, tasks] using h.pending
    · simp [GateState.release, here]
    · intro left same
      obtain rfl : capacity.release = left := by simpa [GateState.release, here] using same
      dsimp only
      exact ⟨positive, by omega⟩

theorem balanced_step {s t : GateState} {act : GateAct} (h : Balanced config s) (stepped : s.step config act = some t) :
    Balanced config t := by
  cases act with
  | enter task =>
    simp only [GateState.step] at stepped
    split at stepped
    · cases stepped
    · cases stepped
      exact balanced_enter h task
  | expire task =>
    simp only [GateState.step] at stepped
    split at stepped
    · cases stepped
      exact balanced_strike h task
    · cases stepped
  | cancel task =>
    simp only [GateState.step] at stepped
    split at stepped
    · cases stepped
      have marked : Balanced config { s with interrupted := s.interrupted ++ [task] } :=
        ⟨h.active, h.pending, h.bounded, h.unbounded, h.permits⟩
      exact balanced_strike marked task
    · cases stepped
  | resume task => exact balanced_resume h stepped
  | finish task =>
    simp only [GateState.step] at stepped
    split at stepped
    · rename_i holds
      cases stepped
      exact balanced_finish h holds
    · cases stepped
      exact h

/-- The active requests are within the maximum, where there is one, and the pending
ones within theirs; the permits at the semaphore and the requests that hold one are
together the maximum; and when the last request has left, the gate is as at the start. -/
theorem ingress_capacity_kept {config : Config} {acts : List GateAct} {s : GateState}
    (ran : runGate config acts = some s) :
    (config.maxInflightRequests ≠ 0 → s.activeRequests ≤ config.maxInflightRequests) ∧
    s.pendingRequests ≤ config.maxPendingRequests ∧
    s.activeRequests = s.holding.length ∧ s.pendingRequests = s.waiting.length ∧
    (∀ capacity, s.capacity = some capacity →
      capacity.permits + s.holding.length = config.maxInflightRequests) ∧
    (s.holding = [] → s.waiting = [] →
      s.activeRequests = 0 ∧ s.pendingRequests = 0 ∧ s.capacity = (GateState.start config).capacity) := by
  have h : Balanced config s := Machine.run_invariant balanced_start (fun _ _ _ => balanced_step) ran
  have active := h.active
  have pending := h.pending
  refine ⟨?_, h.bounded, active, pending, fun capacity here => (h.permits capacity here).2, ?_⟩
  · intro bounded
    cases here : s.capacity with
    | none => exact absurd (h.unbounded here).1 bounded
    | some capacity =>
      have permits := (h.permits capacity here).2
      omega
  · intro nobody_holds nobody_waits
    rw [nobody_holds] at active
    rw [nobody_waits] at pending
    refine ⟨active, pending, ?_⟩
    cases here : s.capacity with
    | none => simp [GateState.start, (h.unbounded here).1]
    | some capacity =>
      obtain ⟨value, waiters⟩ := capacity
      obtain ⟨positive, permits⟩ := h.permits _ here
      have nobody_queued : waiters = [] := by
        have : s.queued = [] := (List.append_eq_nil_iff.mp nobody_waits).1
        simpa [queued_of_some here, Semaphore.tasks] using this
      subst nobody_queued
      have full : value = config.maxInflightRequests := by
        simpa [Semaphore.permits, nobody_holds] using permits
      simp [GateState.start, Semaphore.create, full, positive]

/-- One request at a time, one waiting: the second is cancelled after the permit was
given to it, the third is shed, the fourth times out in the queue. -/
def sampleActs : List GateAct :=
  [.enter 0, .enter 1, .enter 2, .finish 0, .cancel 1, .finish 0, .resume 1, .enter 3, .enter 4, .expire 4,
    .resume 4, .finish 3]

theorem ingress_capacity_kept_sample : ∃ s, runGate ⟨1, 1, 2⟩ sampleActs = some s ∧
    s.answers = [(0, .admitted), (2, .refused), (1, .cancelled), (3, .admitted), (4, .refused)] ∧
    s.capacity = some (.create 1) := by
  have ends : (runGate ⟨1, 1, 2⟩ sampleActs).map (fun s => (s.answers, s.holding, s.waiting)) =
      some ([(0, .admitted), (2, .refused), (1, .cancelled), (3, .admitted), (4, .refused)], [], []) := by
    decide +kernel
  obtain ⟨s, ran, left⟩ := Option.map_eq_some_iff.mp ends
  obtain ⟨answered, nobody_holds, nobody_waits⟩ : s.answers = _ ∧ s.holding = [] ∧ s.waiting = [] := by
    simpa using left
  obtain ⟨-, -, -, -, -, emptied⟩ := ingress_capacity_kept ran
  exact ⟨s, ran, answered, (emptied nobody_holds nobody_waits).2.2⟩

end Unhardcoded.Guarantees.IngressGate
