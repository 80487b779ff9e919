import Mathlib.Logic.Basic

/-!
# Effect programs, crashes and their weakest preconditions

A program performs operations one at a time, returns a value or raises an
error. The environment answers each operation through a handler, which also
moves the shared state, and may stop the program between any two operations: a
run is driven by a finite list of environment choices, and a program whose list
is used up has crashed where it stands. Every cut of a run is therefore a run,
so a statement about the final state of every run is a statement about every
intermediate state of every run.

`wp` is the crash-aware weakest precondition: the environment may be assumed to
meet `Assume` at each operation, the program owes `Guarantee` there, and the
postcondition is owed at every ending, a crash included (`run_sound`).
-/

namespace Unhardcoded.Effects

/-- A program over the operations `Op`, each answered at type `Ans op`. -/
inductive Program (Op : Type) (Ans : Op → Type) (ε α : Type) where
  | ret (value : α)
  | raise (error : ε)
  | perform (op : Op) (next : Ans op → Program Op Ans ε α)

/-- How a run of a program stops. -/
inductive Ending (ε α : Type) where
  | returned (value : α)
  | raised (error : ε)
  | crashed
  deriving DecidableEq, Repr

/-- One performed operation: the environment's choice and the state before it. -/
structure Performed (Op Env σ : Type) where
  op : Op
  env : Env
  before : σ

/-- A finished or cut run: its ending, the state it left, what it performed. -/
structure Outcome (Op Env σ ε α : Type) where
  ending : Ending ε α
  state : σ
  trace : List (Performed Op Env σ)

namespace Program

variable {Op : Type} {Ans : Op → Type} {ε α β : Type}

def bind : Program Op Ans ε α → (α → Program Op Ans ε β) → Program Op Ans ε β
  | .ret value, f => f value
  | .raise error, _ => .raise error
  | .perform op next, f => .perform op fun answer => (next answer).bind f

def tryCatch : Program Op Ans ε α → (ε → Program Op Ans ε α) → Program Op Ans ε α
  | .ret value, _ => .ret value
  | .raise error, g => g error
  | .perform op next, g => .perform op fun answer => (next answer).tryCatch g

instance : Monad (Program Op Ans ε) where
  pure := .ret
  bind := bind

instance : MonadExceptOf ε (Program Op Ans ε) where
  throw := .raise
  tryCatch := tryCatch

/-- Perform one operation and return its answer. -/
def call (op : Op) : Program Op Ans ε (Ans op) := .perform op .ret

section Run

variable {Env σ : Type} (handle : (op : Op) → Env → σ → Ans op × σ)

/-- Drive a program with the environment's choices; running out of them is a
crash in front of the next operation. -/
def run : Program Op Ans ε α → List Env → σ → Outcome Op Env σ ε α
  | .ret value, _, s => ⟨.returned value, s, []⟩
  | .raise error, _, s => ⟨.raised error, s, []⟩
  | .perform _ _, [], s => ⟨.crashed, s, []⟩
  | .perform op next, env :: rest, s =>
    let r := (next (handle op env s).1).run rest (handle op env s).2
    ⟨r.ending, r.state, ⟨op, env, s⟩ :: r.trace⟩

/-- Runs one after another, each from the state the previous one left. -/
def runs : List (Program Op Ans ε α × List Env) → σ → List (Outcome Op Env σ ε α)
  | [], _ => []
  | (p, envs) :: rest, s => p.run handle envs s :: runs rest (p.run handle envs s).state

/-- The state such runs leave. -/
def after : List (Program Op Ans ε α × List Env) → σ → σ
  | [], s => s
  | (p, envs) :: rest, s => after rest (p.run handle envs s).state

variable (Assume Guarantee : Op → Env → σ → Prop)

/-- Weakest precondition under the environment's `Assume`, with the program's
`Guarantee` at each operation and the postcondition at each ending. -/
def wp : Program Op Ans ε α → (Ending ε α → σ → Prop) → σ → Prop
  | .ret value, Q, s => Q (.returned value) s
  | .raise error, Q, s => Q (.raised error) s
  | .perform op next, Q, s =>
    Q .crashed s ∧ ∀ env, Assume op env s → Guarantee op env s ∧
      (next (handle op env s).1).wp Q (handle op env s).2

/-- What a continuation owes after each ending of the part before it. -/
def andThen (Q : Ending ε β → σ → Prop) (f : α → σ → Prop) : Ending ε α → σ → Prop
  | .returned value, s => f value s
  | .raised error, s => Q (.raised error) s
  | .crashed, s => Q .crashed s

/-- What an exception handler owes after each ending of the part it guards. -/
def orElse (Q : Ending ε α → σ → Prop) (g : ε → σ → Prop) : Ending ε α → σ → Prop
  | .returned value, s => Q (.returned value) s
  | .raised error, s => g error s
  | .crashed, s => Q .crashed s

end Run

section Rules

variable {Env σ : Type} {handle : (op : Op) → Env → σ → Ans op × σ}
variable {Assume Guarantee : Op → Env → σ → Prop}

@[simp] theorem wp_pure (value : α) (Q : Ending ε α → σ → Prop) (s : σ) :
    wp handle Assume Guarantee (pure value : Program Op Ans ε α) Q s = Q (.returned value) s := rfl

@[simp] theorem wp_throw (error : ε) (Q : Ending ε α → σ → Prop) (s : σ) :
    wp handle Assume Guarantee (throw error : Program Op Ans ε α) Q s = Q (.raised error) s := rfl

@[simp] theorem wp_call (op : Op) (Q : Ending ε (Ans op) → σ → Prop) (s : σ) :
    wp handle Assume Guarantee (call op : Program Op Ans ε (Ans op)) Q s =
      (Q .crashed s ∧ ∀ env, Assume op env s → Guarantee op env s ∧
        Q (.returned (handle op env s).1) (handle op env s).2) := rfl

theorem wp_mono {p : Program Op Ans ε α} {Q R : Ending ε α → σ → Prop} {s : σ}
    (h : wp handle Assume Guarantee p Q s) (imp : ∀ ending t, Q ending t → R ending t) :
    wp handle Assume Guarantee p R s := by
  induction p generalizing s with
  | ret value => exact imp _ _ h
  | raise error => exact imp _ _ h
  | perform op next ih =>
    exact ⟨imp _ _ h.1, fun env ha => ⟨(h.2 env ha).1, ih _ (h.2 env ha).2⟩⟩

theorem wp_and {Guarantee' : Op → Env → σ → Prop} {p : Program Op Ans ε α} {Q R : Ending ε α → σ → Prop}
    {s : σ} (hQ : wp handle Assume Guarantee p Q s) (hR : wp handle Assume Guarantee' p R s) :
    wp handle Assume Guarantee p (fun ending t => Q ending t ∧ R ending t) s := by
  induction p generalizing s with
  | ret value => exact ⟨hQ, hR⟩
  | raise error => exact ⟨hQ, hR⟩
  | perform op next ih =>
    refine ⟨⟨hQ.1, hR.1⟩, fun env ha => ⟨(hQ.2 env ha).1, ?_⟩⟩
    exact ih _ (hQ.2 env ha).2 (hR.2 env ha).2

@[simp] theorem wp_bind (p : Program Op Ans ε α) (f : α → Program Op Ans ε β)
    (Q : Ending ε β → σ → Prop) (s : σ) :
    wp handle Assume Guarantee (p >>= f) Q s ↔
      wp handle Assume Guarantee p
        (andThen Q fun value t => wp handle Assume Guarantee (f value) Q t) s := by
  induction p generalizing s with
  | ret value => exact Iff.rfl
  | raise error => exact Iff.rfl
  | perform op next ih =>
    refine and_congr Iff.rfl (forall_congr' fun env => imp_congr Iff.rfl (and_congr Iff.rfl ?_))
    exact ih _ _

/-- A part with a known postcondition, in front of a continuation that uses it. -/
theorem wp_bind_mono {p : Program Op Ans ε α} {f : α → Program Op Ans ε β}
    {Q : Ending ε α → σ → Prop} {R : Ending ε β → σ → Prop} {s : σ}
    (h : wp handle Assume Guarantee p Q s) (crashed : ∀ t, Q .crashed t → R .crashed t)
    (raised : ∀ error t, Q (.raised error) t → R (.raised error) t)
    (returned : ∀ value t, Q (.returned value) t → wp handle Assume Guarantee (f value) R t) :
    wp handle Assume Guarantee (p >>= f) R s := by
  rw [wp_bind]
  apply wp_mono h
  intro ending t ht
  cases ending with
  | returned value => exact returned value t ht
  | raised error => exact raised error t ht
  | crashed => exact crashed t ht

@[simp] theorem wp_tryCatch (p : Program Op Ans ε α) (g : ε → Program Op Ans ε α)
    (Q : Ending ε α → σ → Prop) (s : σ) :
    wp handle Assume Guarantee (tryCatch p g) Q s ↔
      wp handle Assume Guarantee p
        (orElse Q fun error t => wp handle Assume Guarantee (g error) Q t) s := by
  induction p generalizing s with
  | ret value => exact Iff.rfl
  | raise error => exact Iff.rfl
  | perform op next ih =>
    refine and_congr Iff.rfl (forall_congr' fun env => imp_congr Iff.rfl (and_congr Iff.rfl ?_))
    exact ih _ _

/-- A run performs operations with the choices it was given. -/
theorem env_mem_of_mem_trace {p : Program Op Ans ε α} {envs : List Env} {s : σ}
    {e : Performed Op Env σ} (he : e ∈ (run handle p envs s).trace) : e.env ∈ envs := by
  induction p generalizing envs s with
  | ret value => simp [run] at he
  | raise error => simp [run] at he
  | perform op next ih =>
    cases envs with
    | nil => simp [run] at he
    | cons env rest =>
      simp only [run, List.mem_cons] at he
      rcases he with rfl | he
      · exact List.mem_cons_self
      · exact List.mem_cons_of_mem _ (ih _ he)

/-- Soundness at one operation: it is guaranteed as soon as the environment met
`Assume` there and at every operation before it. -/
theorem run_sound_at {p : Program Op Ans ε α} {Q : Ending ε α → σ → Prop} {s : σ}
    (h : wp handle Assume Guarantee p Q s) (envs : List Env) {pre post : List (Performed Op Env σ)}
    {e : Performed Op Env σ} (split : (run handle p envs s).trace = pre ++ e :: post)
    (hpre : ∀ x ∈ pre, Assume x.op x.env x.before) (he : Assume e.op e.env e.before) :
    Guarantee e.op e.env e.before := by
  induction p generalizing envs s pre with
  | ret value => simp [run] at split
  | raise error => simp [run] at split
  | perform op next ih =>
    cases envs with
    | nil => simp [run] at split
    | cons env rest =>
      cases pre with
      | nil =>
        simp only [run, List.nil_append, List.cons.injEq] at split
        obtain ⟨rfl, -⟩ := split
        exact (h.2 env he).1
      | cons x pre =>
        simp only [run, List.cons_append, List.cons.injEq] at split
        obtain ⟨rfl, split⟩ := split
        have hstep := h.2 env (hpre _ List.mem_cons_self)
        exact ih _ hstep.2 rest split fun y hy => hpre y (List.mem_cons_of_mem _ hy)

/-- Soundness at the end: a run whose environment met `Assume` throughout ends,
crashed or not, in the postcondition. -/
theorem run_sound_end {p : Program Op Ans ε α} {Q : Ending ε α → σ → Prop} {s : σ}
    (h : wp handle Assume Guarantee p Q s) (envs : List Env)
    (ha : ∀ e ∈ (run handle p envs s).trace, Assume e.op e.env e.before) :
    Q (run handle p envs s).ending (run handle p envs s).state := by
  induction p generalizing envs s with
  | ret value => exact h
  | raise error => exact h
  | perform op next ih =>
    cases envs with
    | nil => exact h.1
    | cons env rest =>
      have hstep := h.2 env (ha ⟨op, env, s⟩ List.mem_cons_self)
      exact ih _ hstep.2 rest fun e he => ha e (List.mem_cons_of_mem _ he)

/-- Both halves for a run whose environment met `Assume` throughout. -/
theorem run_sound {p : Program Op Ans ε α} {Q : Ending ε α → σ → Prop} {s : σ}
    (h : wp handle Assume Guarantee p Q s) (envs : List Env)
    (ha : ∀ e ∈ (run handle p envs s).trace, Assume e.op e.env e.before) :
    (∀ e ∈ (run handle p envs s).trace, Guarantee e.op e.env e.before) ∧
      Q (run handle p envs s).ending (run handle p envs s).state := by
  refine ⟨fun e he => ?_, run_sound_end h envs ha⟩
  obtain ⟨pre, post, split⟩ := List.append_of_mem he
  have hpre : ∀ x ∈ pre, Assume x.op x.env x.before := by
    intro x hx
    apply ha
    rw [split]
    exact List.mem_append_left _ hx
  exact run_sound_at h envs split hpre (ha e he)

/-- `I` holds wherever a run of `p` from a state in `I` ends. -/
def Keeps (handle : (op : Op) → Env → σ → Ans op × σ) (Assume Guarantee : Op → Env → σ → Prop)
    (I : σ → Prop) (p : Program Op Ans ε α) : Prop :=
  ∀ s, I s → wp handle Assume Guarantee p (fun _ t => I t) s

section Keeps

variable {I : σ → Prop}

theorem keeps_pure (value : α) :
    Keeps handle Assume Guarantee I (pure value : Program Op Ans ε α) := fun _ h => h

theorem keeps_throw (error : ε) :
    Keeps handle Assume Guarantee I (throw error : Program Op Ans ε α) := fun _ h => h

theorem keeps_call {op : Op}
    (h : ∀ env s, I s → Assume op env s → Guarantee op env s ∧ I (handle op env s).2) :
    Keeps handle Assume Guarantee I (call op : Program Op Ans ε (Ans op)) :=
  fun s hs => ⟨hs, fun env ha => h env s hs ha⟩

/-- What every operation keeps, every program keeps. -/
theorem keeps_of_forall (h : ∀ op env s, I s → Assume op env s → Guarantee op env s ∧ I (handle op env s).2)
    (p : Program Op Ans ε α) : Keeps handle Assume Guarantee I p := by
  intro s hs
  induction p generalizing s with
  | ret value => exact hs
  | raise error => exact hs
  | perform op next ih =>
    exact ⟨hs, fun env ha => ⟨(h op env s hs ha).1, ih _ _ (h op env s hs ha).2⟩⟩

theorem keeps_bind {p : Program Op Ans ε α} {f : α → Program Op Ans ε β}
    (hp : Keeps handle Assume Guarantee I p) (hf : ∀ value, Keeps handle Assume Guarantee I (f value)) :
    Keeps handle Assume Guarantee I (p >>= f) := by
  intro s hs
  rw [wp_bind]
  apply wp_mono (hp s hs)
  intro ending t ht
  cases ending with
  | returned value => exact hf value t ht
  | raised error => exact ht
  | crashed => exact ht

theorem keeps_tryCatch {p : Program Op Ans ε α} {g : ε → Program Op Ans ε α}
    (hp : Keeps handle Assume Guarantee I p) (hg : ∀ error, Keeps handle Assume Guarantee I (g error)) :
    Keeps handle Assume Guarantee I (tryCatch p g) := by
  intro s hs
  rw [wp_tryCatch]
  apply wp_mono (hp s hs)
  intro ending t ht
  cases ending with
  | returned value => exact ht
  | raised error => exact hg error t ht
  | crashed => exact ht

end Keeps

theorem after_append (first rest : List (Program Op Ans ε α × List Env)) (s : σ) :
    after handle (first ++ rest) s = after handle rest (after handle first s) := by
  induction first generalizing s with
  | nil => rfl
  | cons session more ih => exact ih _

/-- The invariant rule for runs in succession: if each run whose outcome satisfies
`P` keeps `I`, then every outcome that follows such runs only is a run from a
state in `I`. -/
theorem runs_induct {I : σ → Prop} {P : Outcome Op Env σ ε α → Prop}
    {sessions : List (Program Op Ans ε α × List Env)}
    (step : ∀ session ∈ sessions, ∀ s, I s → P (session.1.run handle session.2 s) →
      I (session.1.run handle session.2 s).state)
    {s : σ} (init : I s) {before after : List (Outcome Op Env σ ε α)} {o : Outcome Op Env σ ε α}
    (split : runs handle sessions s = before ++ o :: after) (hP : ∀ x ∈ before, P x) :
    ∃ session ∈ sessions, ∃ t, I t ∧ o = session.1.run handle session.2 t := by
  induction sessions generalizing s before with
  | nil => simp [runs] at split
  | cons session rest ih =>
    cases before with
    | nil =>
      simp only [runs, List.nil_append, List.cons.injEq] at split
      exact ⟨session, List.mem_cons_self, s, init, split.1.symm⟩
    | cons x before =>
      simp only [runs, List.cons_append, List.cons.injEq] at split
      have hx : I (session.1.run handle session.2 s).state := by
        apply step session List.mem_cons_self s init
        rw [split.1]
        exact hP x List.mem_cons_self
      obtain ⟨next, hnext, t, ht⟩ := ih (fun q hq => step q (List.mem_cons_of_mem _ hq)) hx split.2
        fun y hy => hP y (List.mem_cons_of_mem _ hy)
      exact ⟨next, List.mem_cons_of_mem _ hnext, t, ht⟩

end Rules

end Program

end Unhardcoded.Effects
