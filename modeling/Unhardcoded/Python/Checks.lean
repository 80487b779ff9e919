import Unhardcoded.Python.Json

/-!
# What a chain of checks raises

A computation that may raise is followed by another. The chain raises what its first
part raises, or what the rest raises on its value (`bind_error_iff`), and only exceptions
that all of its parts may raise (`OnlyRaises.bind`).
-/

namespace Unhardcoded.Python

variable {α β : Type} {x : Except Raised α} {k : α → Except Raised β}

theorem bind_error_iff {e : Raised} : (x >>= k) = .error e ↔ x = .error e ∨ ∃ a, x = .ok a ∧ k a = .error e := by
  cases x with
  | error e' =>
    constructor
    · intro raised
      cases raised
      exact .inl rfl
    · rintro (raised | ⟨a, ok, -⟩)
      · cases raised
        rfl
      · cases ok
  | ok a =>
    constructor
    · exact fun raised => .inr ⟨a, rfl, raised⟩
    · rintro (raised | ⟨a', ok, raised⟩)
      · cases raised
      · cases ok
        exact raised

theorem bind_ok_iff {b : β} : (x >>= k) = .ok b ↔ ∃ a, x = .ok a ∧ k a = .ok b := by
  constructor
  · exact ok_of_bind
  · rintro ⟨a, rfl, ok⟩
    exact ok

/-- Every exception of the computation is one of these. -/
def OnlyRaises (P : Raised → Prop) (x : Except Raised α) : Prop := ∀ e, x = .error e → P e

variable {P : Raised → Prop}

theorem OnlyRaises.ok (a : α) : OnlyRaises P (.ok a : Except Raised α) := fun e raised => by cases raised

theorem OnlyRaises.error {e : Raised} (h : P e) : OnlyRaises P (.error e : Except Raised α) := by
  intro e' raised
  cases raised
  exact h

theorem OnlyRaises.bind (first : OnlyRaises P x) (rest : ∀ a, x = .ok a → OnlyRaises P (k a)) : OnlyRaises P (x >>= k) := by
  intro e raised
  rcases bind_error_iff.mp raised with raised | ⟨a, ok, raised⟩
  · exact first e raised
  · exact rest a ok e raised

theorem OnlyRaises.mono {Q : Raised → Prop} (first : OnlyRaises P x) (le : ∀ e, P e → Q e) : OnlyRaises Q x :=
  fun e raised => le e (first e raised)

end Unhardcoded.Python
