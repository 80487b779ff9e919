import Mathlib.Data.List.DropRight
import Unhardcoded.Python.Number

/-!
# JSON values with the special floats

What `json.loads` returns where the tokens `NaN` and `Infinity`, or a literal past the
largest double, may occur, and what `int` and `float` make of it. How the two read a
text, with a `ValueError` where they do not, is a parameter.
-/

namespace Unhardcoded.Python

inductive Value where
  | null
  | bool (b : Bool)
  | int (n : Int)
  | float (x : Flt)
  | str (text : String)
  | arr (items : List Value)
  | obj (fields : List (String × Value))

/-- How `int` and `float` read a text. -/
structure Literals where
  int : String → Option Int
  float : String → Option Flt

namespace Value

/-- `int(v)`. -/
def toInt (literals : Literals) : Value → Except Raised Int
  | .int n => .ok n
  | .bool b => .ok (if b then 1 else 0)
  | .float x => x.toInt
  | .str text => match literals.int text with
    | some n => .ok n
    | none => .error .valueError
  | _ => .error .typeError

/-- `float(v)`. -/
def toFloat (literals : Literals) : Value → Except Raised Flt
  | .int n => Flt.ofInt n
  | .bool b => .ok (.fin (if b then 1 else 0))
  | .float x => .ok x
  | .str text => match literals.float text with
    | some x => .ok x
    | none => .error .valueError
  | _ => .error .typeError

def isNull : Value → Bool
  | .null => true
  | _ => false

def isObj : Value → Bool
  | .obj _ => true
  | _ => false

/-- `v == text`. -/
def isText (v : Value) (text : String) : Bool :=
  match v with
  | .str s => s = text
  | _ => false

def truthy : Value → Bool
  | .null => false
  | .bool b => b
  | .int n => n ≠ 0
  | .float x => x ≠ .fin 0
  | .str text => text ≠ ""
  | .arr items => !items.isEmpty
  | .obj fields => !fields.isEmpty

/-- The entries of a dictionary. -/
def fields : Value → List (String × Value)
  | .obj fields => fields
  | _ => []

/-- The value under a key, `None` where there is none. -/
def field (v : Value) (key : String) : Value := (v.fields.lookup key).getD .null

/-- `v.get(key)`. -/
def get (v : Value) (key : String) : Except Raised Value :=
  if v.isObj then .ok (v.field key) else .error .attributeError

/-- `v or w`. -/
def orElse (v w : Value) : Value := if v.truthy then v else w

/-- `v or {}`. -/
def orDict (v : Value) : Value := v.orElse (.obj [])

end Value

def Operand.value : Operand → Value
  | .int n => .int n
  | .float x => .float x

namespace Value

/-- `v` as an operand of arithmetic. -/
def num : Value → Except Raised Operand
  | .int n => .ok (.int n)
  | .bool b => .ok (.int (if b then 1 else 0))
  | .float x => .ok (.float x)
  | _ => .error .typeError

end Value

namespace Value

section Equal

/-- The number a value is. -/
def number? : Value → Option Flt
  | .bool b => some (.fin (if b then 1 else 0))
  | .int n => some (.fin n)
  | .float x => some x
  | _ => none

mutual

/-- `v == w`: numbers by value, dictionaries in any order. -/
def equal : Value → Value → Bool
  | .null, .null => true
  | .str s, .str t => s = t
  | .arr v, .arr w => equalItems v w
  | .obj v, .obj w => v.length = w.length && equalFields v w
  | v, w => match number? v, number? w with
    | some p, some q => p.le q && q.le p
    | _, _ => false

def equalItems : List Value → List Value → Bool
  | [], [] => true
  | v :: vs, w :: ws => equal v w && equalItems vs ws
  | _, _ => false

def equalFields : List (String × Value) → List (String × Value) → Bool
  | [], _ => true
  | (key, v) :: fields, others => (match others.lookup key with
    | some w => equal v w
    | none => false) && equalFields fields others

end

end Equal

section Finite

mutual

/-- `json.dumps(v, allow_nan=False)` writes the value. -/
def isFinite : Value → Bool
  | .float x => x.isFinite
  | .arr items => finiteItems items
  | .obj fields => finiteFields fields
  | _ => true

def finiteItems : List Value → Bool
  | [] => true
  | v :: items => isFinite v && finiteItems items

def finiteFields : List (String × Value) → Bool
  | [] => true
  | (_, v) :: fields => isFinite v && finiteFields fields

end

end Finite

end Value

/-- Stripping leaves nothing to strip. -/
theorem strip_strip (text : String) : strip (strip text) = strip text := by
  have trailing : ∀ l : List Char, (l.reverse.dropWhile isSpace).reverse = l.rdropWhile isSpace := fun _ => rfl
  unfold strip
  rw [String.toList_ofList, trailing, trailing]
  have leading : ((text.toList.dropWhile isSpace).rdropWhile isSpace).dropWhile isSpace =
      (text.toList.dropWhile isSpace).rdropWhile isSpace := by
    rw [List.dropWhile_eq_self_iff]
    intro nonempty
    have front := List.rdropWhile_prefix isSpace (text.toList.dropWhile isSpace)
    have nonempty' : 0 < (text.toList.dropWhile isSpace).length := lt_of_lt_of_le nonempty front.length_le
    rw [front.getElem nonempty]
    exact List.dropWhile_get_zero_not isSpace text.toList nonempty'
  rw [leading, List.rdropWhile_idempotent]

end Unhardcoded.Python
