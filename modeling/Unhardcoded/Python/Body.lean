import Unhardcoded.Python.Json

/-!
# Function bodies that move a state and may leave early

A body runs on a state `σ` and ends with a value, by an exception or by a `return`;
the state it reached is kept in each case. A ledger says what of the state is
watched: a history that only grows, and whether anything else was kept. Bodies that
read their input through, fail on it or return early are put together by the rules
below, up to a loop over a list (`forM_cases`). A body follows a partial step of an
abstract state where it simulates it (`Follows`).
-/

namespace Unhardcoded.Python

/-- How a body is left early. -/
inductive Exit (ρ : Type) where
  | raised (error : Raised)
  | returned (value : ρ)

/-- A body with state `σ` in a function that returns a `ρ`. -/
abbrev Body (σ ρ : Type) := ExceptT (Exit ρ) (StateM σ)

namespace Body

variable {σ ρ α β : Type}

/-- Where a body ends from a state, and the state it leaves. -/
def exec (body : Body σ ρ α) (s : σ) : Except (Exit ρ) α × σ := (body.run.run s).run

def raise (error : Raised) : Body σ ρ α := throw (.raised error)

/-- `return value`. -/
def ret (value : ρ) : Body σ ρ α := throw (.returned value)

/-- An expression that may raise. -/
def eval : Except Raised α → Body σ ρ α
  | .ok a => pure a
  | .error e => raise e

instance : MonadLift (Except Raised) (Body σ ρ) := ⟨eval⟩

/-- `try: body except Exception as error: handler`. -/
def tryExcept (body : Body σ ρ α) (handler : Raised → Body σ ρ α) : Body σ ρ α :=
  tryCatch body fun
    | .raised e => handler e
    | .returned r => ret r

section Exec

@[simp] theorem exec_pure (a : α) (s : σ) : exec (pure a : Body σ ρ α) s = (.ok a, s) := rfl

@[simp] theorem exec_ret (r : ρ) (s : σ) : exec (ret r : Body σ ρ α) s = (.error (.returned r), s) := rfl

@[simp] theorem exec_raise (e : Raised) (s : σ) : exec (raise e : Body σ ρ α) s = (.error (.raised e), s) := rfl

@[simp] theorem exec_get (s : σ) : exec (get : Body σ ρ σ) s = (.ok s, s) := rfl

@[simp] theorem exec_set (t s : σ) : exec (set t : Body σ ρ PUnit) s = (.ok ⟨⟩, t) := rfl

@[simp] theorem exec_modify (f : σ → σ) (s : σ) : exec (modify f : Body σ ρ PUnit) s = (.ok ⟨⟩, f s) := rfl

@[simp] theorem lift_ok (a : α) : (liftM (.ok a : Except Raised α) : Body σ ρ α) = pure a := rfl

@[simp] theorem lift_error (e : Raised) : (liftM (.error e : Except Raised α) : Body σ ρ α) = raise e := rfl

@[simp] theorem raise_bind (e : Raised) (next : α → Body σ ρ β) : (raise e >>= next) = raise e := rfl

@[simp] theorem ret_bind (r : ρ) (next : α → Body σ ρ β) : (ret r >>= next) = ret r := rfl

theorem exec_bind (body : Body σ ρ α) (next : α → Body σ ρ β) (s : σ) :
    exec (body >>= next) s = match exec body s with
      | (.ok a, t) => exec (next a) t
      | (.error e, t) => (.error e, t) := by
  simp only [exec, ExceptT.run_bind, StateT.run_bind, Id.run_bind]
  cases (StateT.run (ExceptT.run body) s).run with
  | mk result t => cases result <;> rfl

theorem exec_bind_ok {body : Body σ ρ α} {next : α → Body σ ρ β} {s t : σ} {a : α}
    (h : exec body s = (.ok a, t)) : exec (body >>= next) s = exec (next a) t := by
  rw [exec_bind, h]

theorem exec_bind_error {body : Body σ ρ α} {next : α → Body σ ρ β} {s t : σ} {e : Exit ρ}
    (h : exec body s = (.error e, t)) : exec (body >>= next) s = (.error e, t) := by
  rw [exec_bind, h]

theorem exec_tryExcept (body : Body σ ρ α) (handler : Raised → Body σ ρ α) (s : σ) :
    exec (tryExcept body handler) s = match exec body s with
      | (.ok a, t) => (.ok a, t)
      | (.error (.raised e), t) => exec (handler e) t
      | (.error (.returned r), t) => (.error (.returned r), t) := by
  change (StateT.run (ExceptT.run (tryCatch body _)) s).run = _
  rw [ExceptT.run_tryCatch, StateT.run_bind, Id.run_bind, exec]
  cases (StateT.run (ExceptT.run body) s).run with
  | mk result t =>
    cases result with
    | ok a => rfl
    | error e => cases e <;> rfl

end Exec

/-- What is watched of a state: a history, whether anything was kept beside it, and
what holds throughout. -/
structure Ledger (σ δ : Type) where
  sent : σ → List δ
  kept : σ → Bool
  sound : σ → Prop

section Rules

variable {δ : Type} (L : Ledger σ δ)

/-- The body reads its input through and adds these deltas to the history. -/
def Reads (body : Body σ ρ α) (deltas : List δ) (kept : Bool) : Prop :=
  ∀ s, L.sound s → ∃ a t, exec body s = (.ok a, t) ∧ L.sound t ∧ L.sent t = L.sent s ++ deltas ∧
    L.kept t = (L.kept s || kept)

/-- The body adds these deltas and then returns early, with such a value. -/
def Returns (body : Body σ ρ α) (deltas : List δ) (Q : ρ → Prop) : Prop :=
  ∀ s, L.sound s → ∃ r t, exec body s = (.error (.returned r), t) ∧ Q r ∧ L.sound t ∧
    L.sent t = L.sent s ++ deltas

def Fails (body : Body σ ρ α) : Prop :=
  ∀ s, L.sound s → ∃ e t, exec body s = (.error (.raised e), t) ∧ L.sound t

variable {L} {body : Body σ ρ α} {next : α → Body σ ρ β} {deltas more : List δ} {kept also : Bool} {Q : ρ → Prop}

theorem reads_pure (a : α) : Reads L (pure a : Body σ ρ α) [] false :=
  fun s sound => ⟨a, s, rfl, sound, by simp, by simp⟩

theorem reads_modify {f : σ → σ}
    (h : ∀ s, L.sound s → L.sound (f s) ∧ L.sent (f s) = L.sent s ++ deltas ∧ L.kept (f s) = (L.kept s || kept)) :
    Reads L (modify f : Body σ ρ PUnit) deltas kept :=
  fun s sound => ⟨⟨⟩, f s, rfl, h s sound⟩

theorem reads_bind (first : Reads L body deltas kept) (then_ : ∀ a, Reads L (next a) more also) :
    Reads L (body >>= next) (deltas ++ more) (kept || also) := by
  intro s sound
  obtain ⟨a, mid, ran, sound', sent, keep⟩ := first s sound
  obtain ⟨b, t, ran', sound'', sent', keep'⟩ := then_ a mid sound'
  refine ⟨b, t, ?_, sound'', ?_, ?_⟩
  · rw [exec_bind_ok ran, ran']
  · rw [sent', sent, List.append_assoc]
  · rw [keep', keep, Bool.or_assoc]

theorem returns_bind (first : Reads L body deltas kept) (then_ : ∀ a, Returns L (next a) more Q) :
    Returns L (body >>= next) (deltas ++ more) Q := by
  intro s sound
  obtain ⟨a, mid, ran, sound', sent, -⟩ := first s sound
  obtain ⟨r, t, ran', holds, sound'', sent'⟩ := then_ a mid sound'
  refine ⟨r, t, ?_, holds, sound'', ?_⟩
  · rw [exec_bind_ok ran, ran']
  · rw [sent', sent, List.append_assoc]

theorem returns_left (first : Returns L body deltas Q) : Returns L (body >>= next) deltas Q := by
  intro s sound
  obtain ⟨r, t, ran, rest⟩ := first s sound
  exact ⟨r, t, exec_bind_error ran, rest⟩

theorem fails_raise (e : Raised) : Fails L (raise e : Body σ ρ α) := fun s sound => ⟨e, s, rfl, sound⟩

theorem fails_bind (first : Reads L body deltas kept) (then_ : ∀ a, Fails L (next a)) : Fails L (body >>= next) := by
  intro s sound
  obtain ⟨a, mid, ran, sound', -⟩ := first s sound
  obtain ⟨e, t, ran', sound''⟩ := then_ a mid sound'
  exact ⟨e, t, by rw [exec_bind_ok ran, ran'], sound''⟩

theorem fails_left (first : Fails L body) : Fails L (body >>= next) := by
  intro s sound
  obtain ⟨e, t, ran, sound'⟩ := first s sound
  exact ⟨e, t, exec_bind_error ran, sound'⟩

variable {f : α → Body σ ρ PUnit} {readable : α → Prop} {deltasOf : α → List δ} {keptOf : α → Bool}

theorem loop_cons (x : α) (xs : List α) : (x :: xs).forM f = (f x >>= fun _ => xs.forM f) := rfl

theorem reads_forM {xs : List α} (reads : ∀ x ∈ xs, Reads L (f x) (deltasOf x) (keptOf x)) :
    Reads L (xs.forM f) (xs.flatMap deltasOf) (xs.any keptOf) := by
  induction xs with
  | nil => exact reads_pure _
  | cons x xs ih =>
    rw [loop_cons, List.flatMap_cons, List.any_cons]
    exact reads_bind (reads x List.mem_cons_self) fun _ => ih fun y hy => reads y (List.mem_cons_of_mem _ hy)

/-- A loop that reads some elements through and stands at another. -/
theorem reads_then (x : α) (post : List α) {pre : List α} (reads : ∀ y ∈ pre, Reads L (f y) (deltasOf y) (keptOf y)) :
    (Returns L (f x) [] Q → Returns L ((pre ++ x :: post).forM f) (pre.flatMap deltasOf) Q) ∧
      (Fails L (f x) → Fails L ((pre ++ x :: post).forM f)) := by
  induction pre with
  | nil =>
    rw [List.nil_append, loop_cons]
    exact ⟨returns_left, fails_left⟩
  | cons y pre ih =>
    obtain ⟨returned, failed⟩ := ih fun z hz => reads z (List.mem_cons_of_mem _ hz)
    rw [List.cons_append, loop_cons, List.flatMap_cons]
    have head := reads y List.mem_cons_self
    exact ⟨fun h => returns_bind head fun _ => returned h, fun h => fails_bind head fun _ => failed h⟩

/-- A loop reads every element through, or returns at the first that makes it return,
or fails at the first it cannot read. -/
theorem forM_cases {reports : α → Prop} (reads : ∀ x, readable x → Reads L (f x) (deltasOf x) (keptOf x))
    (returns : ∀ x, reports x → Returns L (f x) [] Q)
    (fails : ∀ x, ¬ readable x → ¬ reports x → Fails L (f x)) (xs : List α) :
    (∀ x ∈ xs, readable x) ∨ ∃ pre x post, xs = pre ++ x :: post ∧ (∀ y ∈ pre, readable y) ∧ ¬ readable x ∧
      (reports x ∧ Returns L (xs.forM f) (pre.flatMap deltasOf) Q ∨ ¬ reports x ∧ Fails L (xs.forM f)) := by
  by_cases all : ∀ x ∈ xs, readable x
  · exact .inl all
  · obtain ⟨pre, x, post, split, before, stuck⟩ : ∃ pre x post, xs = pre ++ x :: post ∧ (∀ y ∈ pre, readable y) ∧
        ¬ readable x := by
      induction xs with
      | nil => exact absurd (by simp) all
      | cons y xs ih =>
        by_cases first : readable y
        · have later : ¬ ∀ x ∈ xs, readable x := fun rest => all (by simpa [first] using rest)
          obtain ⟨pre, x, post, rfl, before, stuck⟩ := ih later
          exact ⟨y :: pre, x, post, rfl, by simpa [first] using before, stuck⟩
        · exact ⟨[], y, xs, rfl, by simp, first⟩
    have at_x := reads_then (Q := Q) x post fun y hy => reads y (before y hy)
    refine .inr ⟨pre, x, post, split, before, stuck, ?_⟩
    by_cases report : reports x
    · exact .inl ⟨report, split ▸ at_x.1 (returns x report)⟩
    · exact .inr ⟨report, split ▸ at_x.2 (fails x stuck report)⟩

/-- A loop over elements one of which it cannot read. -/
theorem fails_forM (reads : ∀ x, readable x → Reads L (f x) (deltasOf x) (keptOf x))
    (fails : ∀ x, ¬ readable x → Fails L (f x)) {xs : List α} (some_unread : ¬ ∀ x ∈ xs, readable x) :
    Fails L (xs.forM f) := by
  rcases forM_cases (Q := fun _ => True) reads (fun _ (h : False) => h.elim) (fun x h _ => fails x h) xs with
    all | ⟨_, _, _, _, _, _, ⟨no, _⟩ | ⟨_, failed⟩⟩
  · exact absurd all some_unread
  · exact no.elim
  · exact failed

variable {p : Json → Bool} {g : Json → Body σ ρ PUnit} {deltasIn : Json → List δ} {keptIn : Json → Bool} {v : Json}

/-- `for x in v or []` over a list of elements it reads through. -/
theorem reads_iterOr (reads : ∀ x, p x = true → Reads L (g x) (deltasIn x) (keptIn x)) (h : v.listOf p = true) :
    Reads L (do let items ← v.iterOr; items.forM g : Body σ ρ PUnit) (v.elems.flatMap deltasIn)
      (v.elems.any keptIn) := by
  obtain ⟨items, all⟩ := Json.iterOr_of_listOf h
  simp only [items, lift_ok, pure_bind]
  exact reads_forM fun x hx => reads x (all x hx)

theorem fails_iterOr (strings : ∀ t, p (.str t) = false)
    (reads : ∀ x, p x = true → Reads L (g x) (deltasIn x) (keptIn x)) (fails : ∀ x, ¬ p x = true → Fails L (g x))
    (h : v.listOf p = false) : Fails L (do let items ← v.iterOr; items.forM g : Body σ ρ PUnit) := by
  rcases Json.iterOr_of_not_listOf strings h with ⟨e, raised⟩ | ⟨items, read, odd⟩
  · simp only [raised, lift_error, raise_bind]
    exact fails_raise _
  · simp only [read, lift_ok, pure_bind]
    exact fails_forM reads fails odd

end Rules

section Simulation

variable {ν δ : Type} (R : σ → ν → Prop)

/-- From related states the body goes through where the step is defined, to related states. -/
def Follows (body : Body σ ρ PUnit) (step : ν → Option ν) : Prop :=
  ∀ s v w, R s v → step v = some w → ∃ t, exec body s = (.ok ⟨⟩, t) ∧ R t w

variable {R} {f : α → Body σ ρ PUnit} {told : α → Option (List δ)} {add : ν → δ → Option ν}

/-- A loop follows what its elements tell, one after the other. -/
theorem follows_forM (follows : ∀ x ds, told x = some ds → Follows R (f x) fun v => ds.foldlM add v) {xs : List α}
    {found : List (List δ)} (h : xs.mapM told = some found) :
    Follows R (xs.forM f) fun v => found.flatten.foldlM add v := by
  induction xs generalizing found with
  | nil =>
    rw [List.mapM_nil] at h
    obtain rfl := Option.some.inj h
    intro s v w related stepped
    obtain rfl := Option.some.inj stepped
    exact ⟨s, rfl, related⟩
  | cons x xs ih =>
    rw [List.mapM_cons] at h
    obtain ⟨ds, first, h⟩ := Option.bind_eq_some_iff.mp h
    obtain ⟨rest, others, h⟩ := Option.bind_eq_some_iff.mp h
    obtain rfl := Option.some.inj h
    intro s v w related stepped
    simp only [List.flatten_cons, List.foldlM_append] at stepped
    obtain ⟨mid, head, tail⟩ := Option.bind_eq_some_iff.mp stepped
    obtain ⟨t, ran, related'⟩ := follows x ds first s v mid related head
    obtain ⟨t', ran', related''⟩ := ih others t mid w related' tail
    exact ⟨t', by rw [loop_cons, exec_bind_ok ran, ran'], related''⟩

end Simulation

end Body

end Unhardcoded.Python
