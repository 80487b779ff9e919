import Mathlib.Algebra.Order.Field.Basic
import Mathlib.Data.Rat.Floor
import Mathlib.Tactic.Linarith
import Mathlib.Tactic.Positivity
import Unhardcoded.Python.Json

/-!
# Floats with infinities and NaN

Where code meets the special floats: the comparisons (all false on NaN), `max` and
`min` (which keep their first argument unless a later one compares), and the
conversions that raise. Arithmetic of finite floats is exact; the sign of zero is
left out. An integer becomes the nearest double, ties to even, or overflows.
-/

namespace Unhardcoded.Python

inductive Flt where
  | fin (value : ℚ)
  | posInf
  | negInf
  | nan
  deriving DecidableEq

def overflowError (message : String) : Raised := .other "OverflowError" message

/-- `int(q)`: truncation toward zero. -/
def towardZero (q : ℚ) : Int := if 0 ≤ q then ⌊q⌋ else ⌈q⌉

namespace Flt

/-- `a < b`. -/
def lt : Flt → Flt → Bool
  | .fin a, .fin b => a < b
  | .fin _, .posInf | .negInf, .fin _ | .negInf, .posInf => true
  | _, _ => false

/-- `a <= b`. -/
def le : Flt → Flt → Bool
  | .fin a, .fin b => a ≤ b
  | .fin _, .posInf | .negInf, .fin _ | .negInf, .posInf | .posInf, .posInf | .negInf, .negInf => true
  | _, _ => false

/-- `max(a, b)`. -/
def max (a b : Flt) : Flt := if a.lt b then b else a

/-- `min(a, b)`. -/
def min (a b : Flt) : Flt := if b.lt a then b else a

/-- `a - b`. -/
def sub : Flt → Flt → Flt
  | .fin a, .fin b => .fin (a - b)
  | .nan, _ | _, .nan | .posInf, .posInf | .negInf, .negInf => .nan
  | .posInf, _ | _, .negInf => .posInf
  | .negInf, _ | _, .posInf => .negInf

/-- `a + b`. -/
def add : Flt → Flt → Flt
  | .fin a, .fin b => .fin (a + b)
  | .nan, _ | _, .nan | .posInf, .negInf | .negInf, .posInf => .nan
  | .posInf, _ | _, .posInf => .posInf
  | .negInf, _ | _, .negInf => .negInf

/-- `a * b`. -/
def mul : Flt → Flt → Flt
  | .fin a, .fin b => .fin (a * b)
  | .nan, _ | _, .nan => .nan
  | .posInf, .posInf | .negInf, .negInf => .posInf
  | .posInf, .negInf | .negInf, .posInf => .negInf
  | .fin a, .posInf | .posInf, .fin a => if a = 0 then .nan else if 0 < a then .posInf else .negInf
  | .fin a, .negInf | .negInf, .fin a => if a = 0 then .nan else if 0 < a then .negInf else .posInf

/-- `a / b`. -/
def div : Flt → Flt → Except Raised Flt
  | _, .fin 0 => .error (.other "ZeroDivisionError" "float division by zero")
  | .fin a, .fin b => .ok (.fin (a / b))
  | .posInf, .fin b => .ok (if 0 < b then .posInf else .negInf)
  | .negInf, .fin b => .ok (if 0 < b then .negInf else .posInf)
  | .fin _, .posInf | .fin _, .negInf => .ok (.fin 0)
  | _, _ => .ok .nan

/-- `math.isfinite(x)`. -/
def isFinite : Flt → Bool
  | .fin _ => true
  | _ => false

/-- `int(x)`. -/
def toInt : Flt → Except Raised Int
  | .fin q => .ok (towardZero q)
  | .nan => .error .valueError
  | _ => .error (overflowError "cannot convert float infinity to integer")

/-- The nearest double of a natural number, ties to even. -/
def nearest (n : Nat) : Nat :=
  let unit := 2 ^ (n.log2 - 52)
  let below := n / unit
  if unit < 2 * (n % unit) ∨ (unit = 2 * (n % unit) ∧ below % 2 = 1) then (below + 1) * unit else below * unit

/-- An integer from here on, of either sign, rounds past the largest double. -/
@[irreducible] def tooLarge : Nat := 2 ^ 1024 - 2 ^ 970

def intTooLarge : Raised := overflowError "int too large to convert to float"

/-- `float(n)`. -/
def ofInt (n : Int) : Except Raised Flt :=
  if n.natAbs < tooLarge then .ok (.fin (n.sign * nearest n.natAbs : Int)) else .error intTooLarge

end Flt

/-- A number: an integer, which a `bool` is too, or a float. -/
inductive Operand where
  | int (n : Int)
  | float (x : Flt)
  deriving DecidableEq

namespace Operand

def toFlt : Operand → Except Raised Flt
  | .int n => Flt.ofInt n
  | .float x => .ok x

/-- Two integers stay integers; otherwise both are converted. -/
def lift (ints : Int → Int → Int) (floats : Flt → Flt → Flt) : Operand → Operand → Except Raised Operand
  | .int a, .int b => .ok (.int (ints a b))
  | a, b => do
    let x ← a.toFlt
    let y ← b.toFlt
    pure (.float (floats x y))

def add : Operand → Operand → Except Raised Operand := lift (· + ·) Flt.add

def sub : Operand → Operand → Except Raised Operand := lift (· - ·) Flt.sub

def mul : Operand → Operand → Except Raised Operand := lift (· * ·) Flt.mul

/-- `a / b`. -/
def div : Operand → Operand → Except Raised Operand
  | .int a, .int b =>
    if b = 0 then .error (.other "ZeroDivisionError" "division by zero")
    else if |(a : ℚ) / b| < Flt.tooLarge then .ok (.float (.fin (a / b)))
    else .error (overflowError "integer division result too large for a float")
  | a, b => do
    let x ← a.toFlt
    let y ← b.toFlt
    (x.div y).map .float

/-- `max(0, a)`. -/
def orZero : Operand → Operand
  | .int n => .int (if 0 < n then n else 0)
  | .float x => if (Flt.fin 0).lt x then .float x else .int 0

end Operand

namespace Flt

/-- The infinities and NaN stay what they are. -/
def scale (k : ℚ) : Flt → Flt
  | .fin a => .fin (a / k)
  | x => x

theorem div_of_pos {k : ℚ} (pos : 0 < k) (x : Flt) : x.div (.fin k) = .ok (x.scale k) := by
  have nonzero := ne_of_gt pos
  cases x <;> simp [div, scale, pos, nonzero]

section Order

variable {a b c : Flt}

@[simp] theorem lt_nan : a.lt .nan = false := by
  cases a <;> rfl

@[simp] theorem fin_lt_fin (p q : ℚ) : (fin p).lt (fin q) = decide (p < q) := rfl

@[simp] theorem fin_le_fin (p q : ℚ) : (fin p).le (fin q) = decide (p ≤ q) := rfl

theorem max_ne_nan (h : a ≠ .nan) : a.max b ≠ .nan := by
  unfold max
  split
  · intro same
    subst same
    simp_all
  · exact h

/-- Unless it is NaN, a float is below another or not. -/
theorem le_of_not_lt (ha : a ≠ .nan) (hb : b ≠ .nan) (h : a.lt b = false) : b.le a = true := by
  cases a <;> cases b <;> simp_all [lt, le]

theorem le_max_iff (ha : a ≠ .nan) : c.le (a.max b) = true ↔ c.le a = true ∨ c.le b = true := by
  unfold max
  split
  · rename_i below
    constructor
    · exact .inr
    · rintro (left | right)
      · cases a <;> cases b <;> cases c <;> simp_all [lt, le]
        linarith
      · exact right
  · rename_i above
    constructor
    · exact .inl
    · rintro (left | right)
      · exact left
      · cases a <;> cases b <;> cases c <;> simp_all [lt, le]
        linarith

end Order

/-- `max(0.0, min(1.0, x))` lies between the bounds whatever `x` is. -/
theorem clamp_mem (x : Flt) : ∃ q : ℚ, max (fin 0) (min (fin 1) x) = fin q ∧ 0 ≤ q ∧ q ≤ 1 := by
  cases x with
  | fin q =>
    by_cases below : q < 1
    · by_cases above : 0 < q
      · exact ⟨q, by simp [max, min, below, above], le_of_lt above, le_of_lt below⟩
      · exact ⟨0, by simp [max, min, below, above], le_refl 0, zero_le_one⟩
    · exact ⟨1, by simp [max, min, below], zero_le_one, le_refl 1⟩
  | posInf => exact ⟨1, by simp [max, min, lt], zero_le_one, le_refl 1⟩
  | negInf => exact ⟨0, by simp [max, min, lt], le_refl 0, zero_le_one⟩
  | nan => exact ⟨1, by simp [max, min, lt], zero_le_one, le_refl 1⟩

theorem clamp_eq_one_iff {x : Flt} (h : x ≠ .nan) : max (fin 0) (min (fin 1) x) = fin 1 ↔ (fin 1).le x = true := by
  cases x with
  | fin q =>
    by_cases below : q < 1
    · by_cases above : 0 < q
      · simp [max, min, below, above, ne_of_lt below]
      · simp [max, min, below, above]
    · simp [max, min, below, not_lt.mp below]
  | posInf => simp [max, min, lt, le]
  | negInf => simp [max, min, lt, le]
  | nan => exact absurd rfl h

theorem clamp_spec {x : Flt} (h : x ≠ .nan) :
    ∃ q : ℚ, max (fin 0) (min (fin 1) x) = fin q ∧ 0 ≤ q ∧ q ≤ 1 ∧ (q = 1 ↔ (fin 1).le x = true) := by
  obtain ⟨q, clamped, low, high⟩ := clamp_mem x
  refine ⟨q, clamped, low, high, ?_⟩
  rw [← fin.injEq, ← clamped]
  exact clamp_eq_one_iff h

end Flt

end Unhardcoded.Python
