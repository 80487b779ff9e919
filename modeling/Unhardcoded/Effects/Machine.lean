import Mathlib.Algebra.BigOperators.Group.List.Basic
import Mathlib.Algebra.Order.Monoid.Defs
import Mathlib.Data.List.Induction
import Mathlib.Tactic.Abel

/-!
# Runs of a labelled machine

A machine is a partial step function: the label is the environment's choice of
what happens next, and a label that cannot happen has no successor. A run takes
a list of labels, so the lists that have a successor are the interleavings. An
invariant of one step holds along every run (`run_invariant`), also one that
speaks of the labels so far (`run_history`), and a potential that pays for the
cost of each step bounds the cost of a run (`run_potential`).
-/

namespace Unhardcoded.Effects.Machine

variable {σ α : Type}

/-- The state after these labels, if each can happen where it stands. -/
def run (step : σ → α → Option σ) : σ → List α → Option σ
  | s, [] => some s
  | s, a :: rest => (step s a).bind fun t => run step t rest

variable {step : σ → α → Option σ}

@[simp] theorem run_nil (s : σ) : run step s [] = some s := rfl

theorem run_cons {s u : σ} {a : α} {rest : List α} :
    run step s (a :: rest) = some u ↔ ∃ t, step s a = some t ∧ run step t rest = some u := by
  simp only [run, Option.bind_eq_some_iff]

theorem run_append {s u : σ} {first rest : List α} :
    run step s (first ++ rest) = some u ↔ ∃ t, run step s first = some t ∧ run step t rest = some u := by
  induction first generalizing s with
  | nil => simp
  | cons a more ih =>
    simp only [List.cons_append, run_cons, ih]
    constructor
    · rintro ⟨v, stepped, t, before, after⟩
      exact ⟨t, ⟨v, stepped, before⟩, after⟩
    · rintro ⟨t, ⟨v, stepped, before⟩, after⟩
      exact ⟨v, stepped, t, before, after⟩

theorem run_concat {s u : σ} {first : List α} {a : α} :
    run step s (first ++ [a]) = some u ↔ ∃ t, run step s first = some t ∧ step t a = some u := by
  simp only [run_append, run_cons, run_nil, Option.some.injEq, exists_eq_right]

/-- What holds of the labels so far and the state they led to. -/
theorem run_history {I : List α → σ → Prop} {s : σ} (init : I [] s)
    (keep : ∀ before t a u, I before t → step t a = some u → I (before ++ [a]) u)
    {acts : List α} {t : σ} (h : run step s acts = some t) : I acts t := by
  induction acts using List.reverseRecOn generalizing t with
  | nil =>
    obtain rfl := Option.some.inj h
    exact init
  | append_singleton before a ih =>
    obtain ⟨mid, first, last⟩ := run_concat.mp h
    exact keep before mid a t (ih first) last

theorem run_invariant {I : σ → Prop} {s : σ} (init : I s) (keep : ∀ t a u, I t → step t a = some u → I u)
    {acts : List α} {t : σ} (h : run step s acts = some t) : I t := by
  have along : (fun _ u => I u) acts t := by
    apply run_history (I := fun _ u => I u) init _ h
    intro _ t a u
    exact keep t a u
  exact along

/-- Every step of this run is taken under the condition `C`. -/
def Along (step : σ → α → Option σ) (C : σ → α → Prop) : σ → List α → Prop
  | _, [] => True
  | s, a :: rest => C s a ∧ ∀ t, step s a = some t → Along step C t rest

instance decidableAlong {C : σ → α → Prop} [∀ s a, Decidable (C s a)] :
    ∀ s acts, Decidable (Along step C s acts)
  | _, [] => isTrue trivial
  | s, a :: rest =>
    match stepped : step s a with
    | none => decidable_of_iff (C s a) ⟨fun h => ⟨h, by simp [stepped]⟩, fun h => h.1⟩
    | some t =>
      have := decidableAlong (C := C) t rest
      decidable_of_iff (C s a ∧ Along step C t rest)
        ⟨fun h => ⟨h.1, fun u same => Option.some.inj (stepped.symm.trans same) ▸ h.2⟩,
          fun h => ⟨h.1, h.2 t stepped⟩⟩

/-- The invariant rule for steps that keep `I` under a condition. -/
theorem run_along {I : σ → Prop} {C : σ → α → Prop} {s : σ} (init : I s)
    (keep : ∀ t a u, I t → C t a → step t a = some u → I u) {acts : List α} (along : Along step C s acts)
    {t : σ} (h : run step s acts = some t) : I t := by
  induction acts generalizing s with
  | nil =>
    obtain rfl := Option.some.inj h
    exact init
  | cons a rest ih =>
    obtain ⟨mid, first, last⟩ := run_cons.mp h
    exact ih (keep s a mid init along.1 first) (along.2 mid first) last

theorem Along.mono {C D : σ → α → Prop} (weaker : ∀ s a, C s a → D s a) {s : σ} {acts : List α}
    (h : Along step C s acts) : Along step D s acts := by
  induction acts generalizing s with
  | nil => trivial
  | cons a rest ih =>
    constructor
    · exact weaker s a h.1
    · intro t stepped
      exact ih (h.2 t stepped)

theorem along_concat {C : σ → α → Prop} {s : σ} {first : List α} {a : α} (h : Along step C s (first ++ [a])) :
    Along step C s first ∧ ∀ t, run step s first = some t → C t a := by
  induction first generalizing s with
  | nil =>
    refine ⟨trivial, fun t here => ?_⟩
    obtain rfl := Option.some.inj here
    exact h.1
  | cons b rest ih =>
    refine ⟨⟨h.1, fun t stepped => (ih (h.2 t stepped)).1⟩, fun t ran => ?_⟩
    obtain ⟨mid, stepped, ran⟩ := run_cons.mp ran
    exact (ih (h.2 mid stepped)).2 t ran

theorem along_of_append {C : σ → α → Prop} {s : σ} {first rest : List α} (h : Along step C s first)
    (later : ∀ t, run step s first = some t → Along step C t rest) : Along step C s (first ++ rest) := by
  induction first generalizing s with
  | nil => exact later s rfl
  | cons a more ih =>
    refine ⟨h.1, fun mid stepped => ih (h.2 mid stepped) fun t ran => later t ?_⟩
    exact run_cons.mpr ⟨mid, stepped, ran⟩

theorem along_of_concat {C : σ → α → Prop} {s : σ} {first : List α} {a : α} (h : Along step C s first)
    (last : ∀ t, run step s first = some t → C t a) : Along step C s (first ++ [a]) :=
  along_of_append h fun t ran => ⟨last t ran, fun _ _ => trivial⟩

/-- The rule of `run_history` for steps that keep `I` under a condition. -/
theorem run_history_along {I : List α → σ → Prop} {C : σ → α → Prop} {s : σ} (init : I [] s)
    (keep : ∀ before t a u, I before t → C t a → step t a = some u → I (before ++ [a]) u)
    {acts : List α} (along : Along step C s acts) {t : σ} (h : run step s acts = some t) : I acts t := by
  induction acts using List.reverseRecOn generalizing t with
  | nil =>
    obtain rfl := Option.some.inj h
    exact init
  | append_singleton before a ih =>
    obtain ⟨mid, first, last⟩ := run_concat.mp h
    obtain ⟨earlier, here⟩ := along_concat along
    exact keep before mid a t (ih earlier first) (here mid first) last

/-- A potential that never falls by less than a step costs, beyond what the step
itself brings in. -/
theorem run_potential {M : Type} [AddCommMonoid M] [PartialOrder M] [IsOrderedAddMonoid M] {I : σ → Prop}
    (potential : σ → M) (cost income : α → M) {s : σ} (init : I s)
    (keep : ∀ t a u, I t → step t a = some u → I u ∧ potential u + cost a ≤ potential t + income a)
    {acts : List α} {t : σ} (h : run step s acts = some t) :
    potential t + (acts.map cost).sum ≤ potential s + (acts.map income).sum := by
  induction acts generalizing s with
  | nil =>
    obtain rfl := Option.some.inj h
    simp
  | cons a rest ih =>
    obtain ⟨mid, first, last⟩ := run_cons.mp h
    obtain ⟨kept, paid⟩ := keep s a mid init first
    have later := ih kept last
    calc potential t + ((a :: rest).map cost).sum
        = potential t + (rest.map cost).sum + cost a := by
          simp only [List.map_cons, List.sum_cons]
          abel
      _ ≤ potential mid + (rest.map income).sum + cost a := add_le_add_left later _
      _ = potential mid + cost a + (rest.map income).sum := by abel
      _ ≤ potential s + income a + (rest.map income).sum := add_le_add_left paid _
      _ = potential s + ((a :: rest).map income).sum := by
          simp only [List.map_cons, List.sum_cons]
          abel

end Unhardcoded.Effects.Machine
