import Unhardcoded.Effects.Program

/-!
# Footprints, ghost state and histories

`Performs` bounds the operations a program can ask for, whatever it is answered.
`observe` runs the same programs over the same states with a ghost beside them,
which each operation may move and no answer depends on: what `wp` proves of the
observed programs holds of the plain run, the ghost being read off the trace
(`observe_sound`). `Follows` is the chain a trace makes through the states.
-/

namespace Unhardcoded.Effects.Program

variable {Op Env σ γ : Type} {Ans : Op → Type} {ε α β : Type}

section Footprint

/-- Every operation the program can perform is `ok`. -/
def Performs (ok : Op → Prop) : Program Op Ans ε α → Prop
  | .ret _ => True
  | .raise _ => True
  | .perform op next => ok op ∧ ∀ answer, (next answer).Performs ok

variable {ok : Op → Prop}

@[simp] theorem performs_pure (value : α) : Performs ok (pure value : Program Op Ans ε α) := trivial

@[simp] theorem performs_throw (error : ε) : Performs ok (throw error : Program Op Ans ε α) := trivial

@[simp] theorem performs_call (op : Op) : Performs ok (call op : Program Op Ans ε (Ans op)) ↔ ok op :=
  and_iff_left fun _ => trivial

theorem performs_bind {p : Program Op Ans ε α} {f : α → Program Op Ans ε β} (hp : Performs ok p)
    (hf : ∀ value, Performs ok (f value)) : Performs ok (p >>= f) := by
  induction p with
  | ret value => exact hf value
  | raise error => exact trivial
  | perform op next ih => exact ⟨hp.1, fun answer => ih answer (hp.2 answer)⟩

theorem performs_tryCatch {p : Program Op Ans ε α} {g : ε → Program Op Ans ε α} (hp : Performs ok p)
    (hg : ∀ error, Performs ok (g error)) : Performs ok (tryCatch p g) := by
  induction p with
  | ret value => exact trivial
  | raise error => exact hg error
  | perform op next ih => exact ⟨hp.1, fun answer => ih answer (hp.2 answer)⟩

theorem Performs.mono {ok' : Op → Prop} {p : Program Op Ans ε α} (h : Performs ok p) (imp : ∀ op, ok op → ok' op) :
    Performs ok' p := by
  induction p with
  | ret value => exact trivial
  | raise error => exact trivial
  | perform op next ih => exact ⟨imp op h.1, fun answer => ih answer (h.2 answer)⟩

/-- What every operation of its footprint keeps, a program keeps. -/
theorem keeps_of_performs {handle : (op : Op) → Env → σ → Ans op × σ} {Assume Guarantee : Op → Env → σ → Prop}
    {I : σ → Prop} (step : ∀ op env s, ok op → I s → Assume op env s → Guarantee op env s ∧ I (handle op env s).2)
    {p : Program Op Ans ε α} (hp : Performs ok p) : Keeps handle Assume Guarantee I p := by
  intro s hs
  induction p generalizing s with
  | ret value => exact hs
  | raise error => exact hs
  | perform op next ih =>
    refine ⟨hs, fun env asked => ?_⟩
    have kept := step op env s hp.1 hs asked
    exact ⟨kept.1, ih _ (hp.2 _) _ kept.2⟩

end Footprint

section Ghost

variable {handle : (op : Op) → Env → σ → Ans op × σ} {tick : Op → Env → σ → γ → γ}

/-- The handler with a ghost beside the state. -/
def observe (handle : (op : Op) → Env → σ → Ans op × σ) (tick : Op → Env → σ → γ → γ) (op : Op) (env : Env)
    (s : σ × γ) : Ans op × (σ × γ) :=
  ((handle op env s.1).1, (handle op env s.1).2, tick op env s.1 s.2)

/-- The ghost that a trace leaves. -/
def remembered (tick : Op → Env → σ → γ → γ) (ghost : γ) (trace : List (Performed Op Env σ)) : γ :=
  trace.foldl (fun g e => tick e.op e.env e.before g) ghost

@[simp] theorem remembered_nil (ghost : γ) : remembered tick ghost ([] : List (Performed Op Env σ)) = ghost := rfl

@[simp] theorem remembered_cons (ghost : γ) (e : Performed Op Env σ) (rest : List (Performed Op Env σ)) :
    remembered tick ghost (e :: rest) = remembered tick (tick e.op e.env e.before ghost) rest := rfl

@[simp] theorem remembered_append (ghost : γ) (first rest : List (Performed Op Env σ)) :
    remembered tick ghost (first ++ rest) = remembered tick (remembered tick ghost first) rest :=
  List.foldl_append

/-- What holds of a program without the ghost holds beside it. -/
theorem wp_observe {Assume Guarantee : Op → Env → σ → Prop} {p : Program Op Ans ε α} {Q : Ending ε α → σ → Prop} {s : σ}
    (h : wp handle Assume Guarantee p Q s) (ghost : γ) :
    wp (observe handle tick) (fun op env t => Assume op env t.1) (fun op env t => Guarantee op env t.1) p
      (fun ending t => Q ending t.1) (s, ghost) := by
  induction p generalizing s ghost with
  | ret value => exact h
  | raise error => exact h
  | perform op next ih =>
    refine ⟨h.1, fun env asked => ⟨(h.2 env asked).1, ?_⟩⟩
    exact ih _ (h.2 env asked).2 (tick op env s ghost)

variable {Assume Guarantee : Op → Env → σ × γ → Prop}

/-- Soundness of an observed program for the plain run: the guarantee and the crash
postcondition at each operation, with the ghost of the trace up to it, and the
postcondition at the end. -/
theorem observe_sound {p : Program Op Ans ε α} {Q : Ending ε α → σ × γ → Prop} {s : σ} {ghost : γ}
    (h : wp (observe handle tick) Assume Guarantee p Q (s, ghost)) (envs : List Env)
    (ha : ∀ pre e post, (run handle p envs s).trace = pre ++ e :: post →
      Assume e.op e.env (e.before, remembered tick ghost pre)) :
    (∀ pre e post, (run handle p envs s).trace = pre ++ e :: post →
      Guarantee e.op e.env (e.before, remembered tick ghost pre) ∧ Q .crashed (e.before, remembered tick ghost pre)) ∧
    Q (run handle p envs s).ending ((run handle p envs s).state, remembered tick ghost (run handle p envs s).trace) := by
  induction p generalizing envs s ghost with
  | ret value => exact ⟨fun pre e post split => by simp [run] at split, h⟩
  | raise error => exact ⟨fun pre e post split => by simp [run] at split, h⟩
  | perform op next ih =>
    cases envs with
    | nil => exact ⟨fun pre e post split => by simp [run] at split, h.1⟩
    | cons env rest =>
      have here := h.2 env (ha [] ⟨op, env, s⟩ _ rfl)
      have later := ih _ here.2 rest fun pre e post split =>
        ha (⟨op, env, s⟩ :: pre) e post (congrArg (List.cons (⟨op, env, s⟩ : Performed Op Env σ)) split)
      refine ⟨fun pre e post split => ?_, later.2⟩
      cases pre with
      | nil =>
        simp only [run, List.nil_append, List.cons.injEq] at split
        obtain ⟨rfl, -⟩ := split
        exact ⟨here.1, h.1⟩
      | cons first pre =>
        simp only [run, List.cons_append, List.cons.injEq] at split
        obtain ⟨rfl, split⟩ := split
        exact later.1 pre e post split

end Ghost

section History

variable (handle : (op : Op) → Env → σ → Ans op × σ)

/-- Everything performed by runs in succession, oldest first. -/
def history (sessions : List (Program Op Ans ε α × List Env)) (s : σ) : List (Performed Op Env σ) :=
  (runs handle sessions s).flatMap (·.trace)

variable {handle}

theorem history_cons (session : Program Op Ans ε α × List Env) (rest : List (Program Op Ans ε α × List Env)) (s : σ) :
    history handle (session :: rest) s =
      (session.1.run handle session.2 s).trace ++ history handle rest (session.1.run handle session.2 s).state :=
  List.flatMap_cons

/-- An operation of the history belongs to one of the runs. -/
theorem history_split {sessions : List (Program Op Ans ε α × List Env)} {s : σ} {pre post : List (Performed Op Env σ)}
    {e : Performed Op Env σ} (split : history handle sessions s = pre ++ e :: post) :
    ∃ session ∈ sessions, ∃ t earlier own rest later, pre = earlier ++ own ∧ post = rest ++ later ∧
      (session.1.run handle session.2 t).trace = own ++ e :: rest := by
  induction sessions generalizing s pre with
  | nil => simp [history, runs] at split
  | cons session more ih =>
    rw [history_cons] at split
    have behind : ∀ mid, pre = (session.1.run handle session.2 s).trace ++ mid →
        history handle more (session.1.run handle session.2 s).state = mid ++ e :: post →
        ∃ session' ∈ session :: more, ∃ t earlier own rest later, pre = earlier ++ own ∧ post = rest ++ later ∧
          (session'.1.run handle session'.2 t).trace = own ++ e :: rest := by
      rintro mid rfl split'
      obtain ⟨session', mem, t, earlier, own, rest, later, rfl, same, trace⟩ := ih split'
      exact ⟨session', List.mem_cons_of_mem _ mem, t, _, own, rest, later, (List.append_assoc _ _ _).symm, same, trace⟩
    rcases List.append_eq_append_iff.mp split with ⟨mid, same, split'⟩ | ⟨mid, split', tail⟩
    · exact behind mid same split'
    · cases mid with
      | nil => exact behind [] (by simpa using split'.symm) tail.symm
      | cons first mid =>
        obtain ⟨rfl, rfl⟩ := List.cons.inj tail
        exact ⟨session, List.mem_cons_self, s, [], pre, mid, _, rfl, rfl, split'⟩

/-- What every run guarantees from any state, runs in succession guarantee. -/
theorem history_sound {Assume Guarantee : Op → Env → σ → Prop} {sessions : List (Program Op Ans ε α × List Env)}
    (sound : ∀ session ∈ sessions, ∀ s, wp handle Assume Guarantee session.1 (fun _ _ => True) s) {s : σ}
    (ha : ∀ e ∈ history handle sessions s, Assume e.op e.env e.before) :
    ∀ e ∈ history handle sessions s, Guarantee e.op e.env e.before := by
  induction sessions generalizing s with
  | nil => exact fun e mem => absurd mem List.not_mem_nil
  | cons session rest ih =>
    rw [history_cons] at ha ⊢
    intro e mem
    rcases List.mem_append.mp mem with mem | mem
    · exact (run_sound (sound session List.mem_cons_self s) session.2
        fun x hx => ha x (List.mem_append_left _ hx)).1 e mem
    · exact ih (fun next there => sound next (List.mem_cons_of_mem _ there))
        (fun x hx => ha x (List.mem_append_right _ hx)) e mem

/-- What observed programs keep, a history of them keeps, with the ghost of what came before. -/
theorem history_observed {tick : Op → Env → σ → γ → γ} {Assume Guarantee : Op → Env → σ × γ → Prop} {I : σ × γ → Prop}
    {sessions : List (Program Op Ans ε α × List Env)}
    (keeps : ∀ session ∈ sessions, Keeps (observe handle tick) Assume Guarantee I session.1) {s : σ} {ghost : γ}
    (init : I (s, ghost))
    (ha : ∀ pre e post, history handle sessions s = pre ++ e :: post →
      Assume e.op e.env (e.before, remembered tick ghost pre)) :
    ∀ pre e post, history handle sessions s = pre ++ e :: post →
      Guarantee e.op e.env (e.before, remembered tick ghost pre) ∧ I (e.before, remembered tick ghost pre) := by
  induction sessions generalizing s ghost with
  | nil => exact fun pre e post split => by simp [history, runs] at split
  | cons session rest ih =>
    rw [history_cons] at ha ⊢
    obtain ⟨here, ended⟩ := observe_sound (keeps session List.mem_cons_self _ init) session.2 fun pre e post split =>
      ha pre e _ (by rw [split, List.append_assoc, List.cons_append])
    have later := ih (fun next mem => keeps next (List.mem_cons_of_mem _ mem)) ended fun pre e post split => by
      have := ha ((session.1.run handle session.2 s).trace ++ pre) e post (by rw [split, List.append_assoc])
      rwa [remembered_append] at this
    intro pre e post split
    rcases List.append_eq_append_iff.mp split with ⟨mid, rfl, split'⟩ | ⟨mid, split', tail⟩
    · rw [remembered_append]
      exact later mid e post split'
    · cases mid with
      | nil =>
        rw [List.append_nil] at split'
        rw [← split', ← List.append_nil (session.1.run handle session.2 s).trace, remembered_append]
        exact later [] e post tail.symm
      | cons first mid =>
        obtain ⟨rfl, -⟩ := List.cons.inj tail
        exact here pre e mid split'

end History

section Follows

variable (handle : (op : Op) → Env → σ → Ans op × σ)

/-- The trace leads from `s` to `t`, each operation from the state the one before it left. -/
def Follows : σ → List (Performed Op Env σ) → σ → Prop
  | s, [], t => s = t
  | s, e :: rest, t => e.before = s ∧ Follows (handle e.op e.env s).2 rest t

variable {handle}

theorem follows_append {s t u : σ} {first rest : List (Performed Op Env σ)} (h : Follows handle s first t)
    (h' : Follows handle t rest u) : Follows handle s (first ++ rest) u := by
  induction first generalizing s with
  | nil =>
    obtain rfl : s = t := h
    exact h'
  | cons e first ih => exact ⟨h.1, ih h.2⟩

theorem follows_run (p : Program Op Ans ε α) (envs : List Env) (s : σ) :
    Follows handle s (run handle p envs s).trace (run handle p envs s).state := by
  induction p generalizing envs s with
  | ret value => exact rfl
  | raise error => exact rfl
  | perform op next ih =>
    cases envs with
    | nil => exact rfl
    | cons env rest => exact ⟨rfl, ih _ rest _⟩

theorem follows_history (sessions : List (Program Op Ans ε α × List Env)) (s : σ) :
    Follows handle s (history handle sessions s) (after handle sessions s) := by
  induction sessions generalizing s with
  | nil => exact rfl
  | cons session rest ih =>
    rw [history_cons]
    exact follows_append (follows_run session.1 session.2 s) (ih _)

/-- What holds of a state still holds, operations that keep it later. -/
theorem Follows.keeps {I : σ → Prop} {s t : σ} {trace : List (Performed Op Env σ)} (h : Follows handle s trace t)
    (init : I s) (step : ∀ e ∈ trace, I e.before → I (handle e.op e.env e.before).2) : I t := by
  induction trace generalizing s with
  | nil =>
    obtain rfl : s = t := h
    exact init
  | cons e rest ih =>
    obtain ⟨rfl, tail⟩ := h
    exact ih tail (step e List.mem_cons_self init) fun x hx => step x (List.mem_cons_of_mem _ hx)

/-- The part of a trace up to one of its operations. -/
theorem Follows.reaches {s t : σ} {pre post : List (Performed Op Env σ)} {e : Performed Op Env σ}
    (h : Follows handle s (pre ++ e :: post) t) :
    Follows handle s pre e.before ∧ Follows handle (handle e.op e.env e.before).2 post t := by
  induction pre generalizing s with
  | nil =>
    obtain ⟨rfl, tail⟩ := h
    exact ⟨rfl, tail⟩
  | cons x pre ih =>
    obtain ⟨rfl, tail⟩ := h
    exact ⟨⟨rfl, (ih tail).1⟩, (ih tail).2⟩

/-- The part of a trace from one operation up to a later one. -/
theorem Follows.between {s t : σ} {pre mid post : List (Performed Op Env σ)} {first last : Performed Op Env σ}
    (h : Follows handle s (pre ++ first :: mid ++ last :: post) t) :
    Follows handle (handle first.op first.env first.before).2 mid last.before := by
  rw [List.append_assoc, List.cons_append] at h
  exact h.reaches.2.reaches.1

end Follows

end Unhardcoded.Effects.Program
