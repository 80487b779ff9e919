import Mathlib.Data.List.Count
import Mathlib.Data.List.Basic
import Mathlib.Logic.Function.Iterate
import Mathlib.Order.Basic

/-!
# The semaphore of an event loop

`asyncio.Semaphore` of Python 3.12. An acquire that finds it locked queues a future.
A release, or a task that leaves the queue, gives permits to the first futures that
are pending. A task whose future has its result resumes later, and a cancellation
(of the task, or by a timeout around the acquire) may come before that: then the
permit goes back. `permits` counts the free permits and those given to tasks that
have not resumed, and each operation says what it does to that number.
-/

namespace Unhardcoded.Effects

inductive Future where
  | pending
  | result
  | cancelled
  deriving DecidableEq, Repr

/-- A task in the queue. -/
structure Waiter (ι : Type) where
  task : ι
  future : Future
  /-- `CancelledError` is thrown into the task when it resumes. -/
  cancelling : Bool
  deriving DecidableEq, Repr

structure Semaphore (ι : Type) where
  value : Nat
  waiters : List (Waiter ι)
  deriving DecidableEq, Repr

namespace Semaphore

variable {ι : Type}

def create (value : Nat) : Semaphore ι := ⟨value, []⟩

def locked (s : Semaphore ι) : Bool := s.value == 0 || s.waiters.any fun w => w.future ≠ .cancelled

/-- The first pending future gets its result. -/
def grantFirst : List (Waiter ι) → List (Waiter ι)
  | [] => []
  | w :: rest => if w.future = .pending then { w with future := .result } :: rest else w :: grantFirst rest

def wakeUpNext (s : Semaphore ι) : Semaphore ι :=
  if s.waiters.any fun w => w.future = .pending then ⟨s.value - 1, grantFirst s.waiters⟩ else s

/-- `while self._value > 0: if not self._wake_up_next(): break`. -/
def wakeUp (s : Semaphore ι) : Semaphore ι := wakeUpNext^[s.value] s

def release (s : Semaphore ι) : Semaphore ι := wakeUpNext { s with value := s.value + 1 }

/-- `acquire` up to where it returns or waits: whether it has the permit. -/
def acquire (s : Semaphore ι) (task : ι) : Bool × Semaphore ι :=
  if s.locked then (false, { s with waiters := s.waiters ++ [⟨task, .pending, false⟩] })
  else (true, { s with value := s.value - 1 })

def cancelWaiter (w : Waiter ι) : Waiter ι :=
  { w with future := if w.future = .pending then .cancelled else w.future, cancelling := true }

/-- A cancellation of a task in the queue. -/
def cancel [DecidableEq ι] (s : Semaphore ι) (task : ι) : Semaphore ι :=
  { s with waiters := s.waiters.map fun w => if w.task = task then cancelWaiter w else w }

/-- A task whose future is done goes on in `acquire`: whether it has the permit. -/
def resume [DecidableEq ι] (s : Semaphore ι) (task : ι) : Option (Bool × Semaphore ι) :=
  match s.waiters.find? fun w => w.task = task with
  | none => none
  | some w =>
    let left := s.waiters.eraseP fun w => w.task = task
    match w.future, w.cancelling with
    | .pending, _ => none
    | .result, false => some (true, wakeUp ⟨s.value, left⟩)
    | .result, true => some (false, wakeUp ⟨s.value + 1, left⟩)
    | .cancelled, _ => some (false, wakeUp ⟨s.value, left⟩)

/-- The tasks in the queue. -/
def tasks (s : Semaphore ι) : List ι := s.waiters.map (·.task)

/-- The permits no task holds: the free ones, and those given to tasks yet to resume. -/
def permits (s : Semaphore ι) : Nat := s.value + s.waiters.countP fun w => w.future = .result

@[simp] theorem permits_create (value : Nat) : (create value : Semaphore ι).permits = value := rfl

@[simp] theorem tasks_create (value : Nat) : (create value : Semaphore ι).tasks = [] := rfl

@[simp] theorem map_task_grantFirst (waiters : List (Waiter ι)) :
    (grantFirst waiters).map (·.task) = waiters.map (·.task) := by
  induction waiters with
  | nil => rfl
  | cons w rest ih =>
    rw [grantFirst]
    split
    · rfl
    · simp [ih]

theorem countP_grantFirst {waiters : List (Waiter ι)} (h : (waiters.any fun w => w.future = .pending) = true) :
    ((grantFirst waiters).countP fun w => w.future = .result) = (waiters.countP fun w => w.future = .result) + 1 := by
  induction waiters with
  | nil => cases h
  | cons w rest ih =>
    rw [grantFirst]
    split
    · rename_i pending
      simp [pending]
    · rename_i other
      have later : (rest.any fun w => w.future = .pending) = true := by simpa [other] using h
      rw [List.countP_cons, List.countP_cons, ih later]
      omega

@[simp] theorem tasks_wakeUpNext (s : Semaphore ι) : s.wakeUpNext.tasks = s.tasks := by
  unfold wakeUpNext tasks
  split
  · exact map_task_grantFirst s.waiters
  · rfl

theorem permits_wakeUpNext {s : Semaphore ι} (free : 0 < s.value) :
    s.wakeUpNext.permits = s.permits ∧ s.value - 1 ≤ s.wakeUpNext.value := by
  unfold wakeUpNext
  split
  · rename_i waiting
    have granted := countP_grantFirst waiting
    simp only [permits]
    omega
  · exact ⟨rfl, Nat.sub_le _ _⟩

theorem wakeUp_keeps (s : Semaphore ι) : s.wakeUp.tasks = s.tasks ∧ s.wakeUp.permits = s.permits := by
  have woken (n : Nat) (s : Semaphore ι) (enough : n ≤ s.value) :
      (wakeUpNext^[n] s).tasks = s.tasks ∧ (wakeUpNext^[n] s).permits = s.permits := by
    induction n generalizing s with
    | zero => exact ⟨rfl, rfl⟩
    | succ n ih =>
      obtain ⟨kept, left⟩ := permits_wakeUpNext (s := s) (by omega)
      obtain ⟨tasks, permits⟩ := ih s.wakeUpNext (by omega)
      rw [Function.iterate_succ_apply]
      exact ⟨tasks.trans (tasks_wakeUpNext s), permits.trans kept⟩
  exact woken s.value s (Nat.le_refl _)

theorem release_spec (s : Semaphore ι) : s.release.tasks = s.tasks ∧ s.release.permits = s.permits + 1 := by
  have woken := permits_wakeUpNext (s := { s with value := s.value + 1 }) (Nat.succ_pos _)
  refine ⟨tasks_wakeUpNext _, woken.1.trans ?_⟩
  simp only [permits]
  omega

theorem acquire_waits {s : Semaphore ι} (h : s.locked = true) (task : ι) :
    (s.acquire task).1 = false ∧ (s.acquire task).2.tasks = s.tasks ++ [task] ∧
      (s.acquire task).2.permits = s.permits := by
  simp [acquire, h, tasks, permits]

theorem acquire_passes {s : Semaphore ι} (h : s.locked = false) (task : ι) :
    (s.acquire task).1 = true ∧ (s.acquire task).2.tasks = s.tasks ∧
      (s.acquire task).2.permits + 1 = s.permits := by
  have free : s.value ≠ 0 := by
    intro none
    simp [locked, none] at h
  refine ⟨by simp [acquire, h], by simp [acquire, h, tasks], ?_⟩
  have taken : (s.acquire task).2 = { s with value := s.value - 1 } := by simp [acquire, h]
  rw [taken]
  simp only [permits]
  omega

theorem cancelWaiter_result (w : Waiter ι) : (cancelWaiter w).future = .result ↔ w.future = .result := by
  unfold cancelWaiter
  split
  · rename_i pending
    simp [pending]
  · rfl

theorem cancel_spec [DecidableEq ι] (s : Semaphore ι) (task : ι) :
    (s.cancel task).tasks = s.tasks ∧ (s.cancel task).permits = s.permits := by
  constructor
  · simp only [tasks, cancel, List.map_map]
    refine List.map_congr_left fun w _ => ?_
    simp only [Function.comp]
    split <;> rfl
  · simp only [permits, cancel, List.countP_map]
    congr 1
    refine List.countP_congr fun w _ => ?_
    simp only [Function.comp, decide_eq_true_eq]
    split
    · exact cancelWaiter_result w
    · rfl

/-- A task leaves the queue with a permit, or without one and no permit is lost. -/
theorem resume_spec [DecidableEq ι] {s t : Semaphore ι} {task : ι} {acquired : Bool} (h : s.resume task = some (acquired, t)) :
    task ∈ s.tasks ∧ t.tasks = s.tasks.erase task ∧
      t.permits + (if acquired then 1 else 0) = s.permits := by
  unfold resume at h
  split at h
  · cases h
  · rename_i w found
    obtain ⟨here, front, back, split_at, others⟩ := List.find?_eq_some_iff_append.mp found
    have here : w.task = task := by simpa using here
    have left : (s.waiters.eraseP fun w => w.task = task) = front ++ back := by
      rw [split_at, List.eraseP_append_right _ (by simpa using others), List.eraseP_cons_of_pos (by simpa using here)]
    have tasks_left : (front ++ back).map (·.task) = s.tasks.erase task := by
      rw [← left, tasks, List.erase_eq_eraseP', List.eraseP_map]
      rfl
    have granted : (s.waiters.countP fun w => w.future = .result) =
        ((front ++ back).countP fun w => w.future = .result) + if w.future = .result then 1 else 0 := by
      simp only [split_at, List.countP_append, List.countP_cons, decide_eq_true_eq]
      omega
    have mem : task ∈ s.tasks := by
      rw [← here, tasks, split_at]
      simp
    rw [left] at h
    split at h
    · cases h
    · rename_i done _
      cases h
      obtain ⟨kept, permits_kept⟩ := wakeUp_keeps ⟨s.value, front ++ back⟩
      refine ⟨mem, kept.trans tasks_left, ?_⟩
      rw [permits_kept, permits, permits, granted, done]
      simp only [if_true]
      omega
    · rename_i done _
      cases h
      obtain ⟨kept, permits_kept⟩ := wakeUp_keeps ⟨s.value + 1, front ++ back⟩
      refine ⟨mem, kept.trans tasks_left, ?_⟩
      rw [permits_kept, permits, permits, granted, done]
      simp only [if_true, Bool.false_eq_true, if_false]
      omega
    · rename_i done
      cases h
      obtain ⟨kept, permits_kept⟩ := wakeUp_keeps ⟨s.value, front ++ back⟩
      refine ⟨mem, kept.trans tasks_left, ?_⟩
      rw [permits_kept, permits, permits, granted, done]
      simp only [reduceCtorEq, Bool.false_eq_true, if_false]
      omega

end Semaphore

end Unhardcoded.Effects
