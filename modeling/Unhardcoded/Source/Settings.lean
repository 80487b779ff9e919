import Unhardcoded.Python.Dict
import Unhardcoded.Python.Value

/-!
# Operator settings

Source: `_coerce_list`, `_coerce`, `reload`, `get` and `validate_and_write` of
settings.py with `get_overrides` and `set_overrides` of host_store.py. The schema is a
dictionary of knobs; labels and help texts are left out. The table holds decoded values:
`json.loads` reads back what `json.dumps` wrote, and a row it cannot read is no row. A
store access may fail. How `str` writes a value that is no text is a parameter.
-/

namespace Unhardcoded.Source.Settings

open Unhardcoded.Python

inductive KnobType where
  | int
  | float
  | list
  deriving DecidableEq

structure Knob where
  type : KnobType
  default : Value
  min : ℚ
  max : ℚ

abbrev Schema := List (String × Knob)

abbrev Dict := List (String × Value)

/-- The built-ins that read and write texts. -/
structure Texts extends Literals where
  str : Value → String

variable (texts : Texts)

/-- `str(it)`. -/
def strOf : Value → String
  | .str text => text
  | v => texts.str v

/-- `if s and s not in out: out.append(s)`. -/
def addToken (out : List String) (s : String) : List String := if s ≠ "" ∧ s ∉ out then out ++ [s] else out

def tokens (items : List Value) : List String := items.foldl (fun out it => addToken out (strip (strOf texts it))) []

/-- `d["min"] <= n <= d["max"]`. -/
def Knob.admits (d : Knob) (n : ℚ) : Bool := d.min ≤ n ∧ n ≤ d.max

/-- `_coerce_list`. -/
def coerceList (value : Value) (d : Knob) : Option (List String) :=
  let items : Option (List Value) := match value with
    | .str text => some ((text.toList.splitOn ',').map fun item => .str (String.ofList item))
    | .arr items => some items
    | _ => none
  items.bind fun items =>
    let out := tokens texts items
    if d.admits out.length then some out else none

/-- `except (TypeError, ValueError): return None`. -/
def guarded {α : Type} : Except Raised α → Except Raised (Option α)
  | .ok a => .ok (some a)
  | .error .typeError => .ok none
  | .error .valueError => .ok none
  | .error raised => .error raised

/-- `_coerce`. -/
def coerce (d : Knob) (value : Value) : Except Raised (Option Value) :=
  match d.type with
  | .list => .ok ((coerceList texts value d).map fun out => .arr (out.map .str))
  | .int => do
    let v ← guarded (value.toInt texts.toLiterals)
    pure (v.bind fun v => if d.admits v then some (.int v) else none)
  | .float => do
    let v ← guarded (value.toFloat texts.toLiterals)
    pure (v.bind fun v => if (Flt.fin d.min).le v && v.le (.fin d.max) then some (.float v) else none)

/-- The `settings_overrides` table, and `_overrides` of the process. -/
structure State where
  store : Dict
  overrides : Dict

def State.empty : State := ⟨[], []⟩

/-- `reload`: a read that fails leaves no override. -/
def reload (schema : Schema) (readOk : Bool) (s : State) : State :=
  { s with overrides := if readOk then s.store.filter fun row => (schema.lookup row.1).isSome else [] }

/-- `get` of a registered knob. -/
def get (s : State) (key : String) (d : Knob) : Except Raised Value :=
  match s.overrides.lookup key with
  | none => .ok d.default
  | some .null => .ok d.default
  | some ov => do
    let c ← coerce texts d ov
    pure (c.getD d.default)

/-- The error texts, by what they print. -/
inductive Refusal where
  | unknownKnob (key : String)
  | notAList (key : String) (max : ℚ)
  | notInRange (key : String) (type : KnobType) (min max : ℚ)
  | notPersisted
  deriving DecidableEq

def refusal (key : String) (d : Knob) : Refusal :=
  match d.type with
  | .list => .notAList key d.max
  | type => .notInRange key type d.min d.max

/-- One entry of the updates. -/
def validateOne (schema : Schema) (done : Dict × List Refusal) (update : String × Value) :
    Except Raised (Dict × List Refusal) :=
  match schema.lookup update.1 with
  | none => .ok (done.1, done.2 ++ [.unknownKnob update.1])
  | some d =>
    if update.2.isNull then .ok (done.1.filter fun entry => entry.1 ≠ update.1, done.2)
    else do
      match ← coerce texts d update.2 with
      | none => pure (done.1, done.2 ++ [refusal update.1 d])
      | some c => pure (insert update.1 c done.1, done.2)

/-- Which store accesses of one call succeed. -/
structure Faults where
  firstReadOk : Bool
  writeOk : Bool
  secondReadOk : Bool

/-- `validate_and_write`: the state it leaves, and what it returns or raises. -/
def validateAndWrite (schema : Schema) (s : State) (updates : Dict) (faults : Faults) :
    State × Except Raised (Dict × List Refusal) :=
  let s := reload schema faults.firstReadOk s
  match updates.foldlM (validateOne texts schema) (s.overrides, []) with
  | .error raised => (s, .error raised)
  | .ok (new, errors) =>
    if errors ≠ [] then (s, .ok ([], errors))
    else if !faults.writeOk then (s, .ok ([], [.notPersisted]))
    else (reload schema faults.secondReadOk { s with store := new }, .ok (new, []))

/-- A call of the settings, with the fate of its store accesses. -/
inductive Call where
  | write (updates : Dict) (faults : Faults)
  | reload (readOk : Bool)

def step (schema : Schema) (s : State) : Call → State
  | .write updates faults => (validateAndWrite texts schema s updates faults).1
  | .reload readOk => reload schema readOk s

/-- The state after these calls, from an empty table. -/
def stateAfter (schema : Schema) (calls : List Call) : State := calls.foldl (step texts schema) .empty

end Unhardcoded.Source.Settings
