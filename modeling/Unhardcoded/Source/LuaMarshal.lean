import Unhardcoded.Python.Dict

/-!
# Python values as Lua tables

`_to_lua` and `_to_py` of llm_router_host.py. In a table, a value of None is the same as
no entry; numbers and strings pass unchanged. The order in which lupa iterates a table is
arbitrary. Input comes from JSON, so the keys of a dictionary are strings; `_to_py` can
also return a dictionary with numbers for keys.
-/

namespace Unhardcoded.Source.LuaMarshal

open Python

inductive LuaKey where
  | int (n : Nat)
  | str (text : String)
  deriving DecidableEq

inductive Lua where
  | nil
  | bool (b : Bool)
  | int (n : Int)
  | float (value : ℚ) (repr : String)
  | str (text : String)
  | table (entries : List (LuaKey × Lua))

/-- A Python value, as `_to_py` returns it. -/
inductive Value where
  | none
  | bool (b : Bool)
  | int (n : Int)
  | float (value : ℚ) (repr : String)
  | str (text : String)
  | list (items : List Value)
  | dict (entries : List (LuaKey × Value))

section Tables

def Lua.isNil : Lua → Bool
  | .nil => true
  | _ => false

/-- The order in which the entries of a table come. -/
structure Order where
  apply : List (LuaKey × Lua) → List (LuaKey × Lua)
  perm : ∀ entries, (apply entries).Perm entries

/-- `table[key] = value` -/
def setEntry (table : List (LuaKey × Lua)) (entry : LuaKey × Lua) : List (LuaKey × Lua) :=
  if entry.2.isNil then table.filter fun old => old.1 ≠ entry.1 else insert entry.1 entry.2 table

/-- `lua.table_from` of a dictionary. -/
def tableFrom (entries : List (LuaKey × Lua)) : List (LuaKey × Lua) := entries.foldl setEntry []

/-- `lua.table_from` of a list numbers its items. -/
def numbered {α : Type} (items : List α) : List (LuaKey × α) :=
  (items.zipIdx 1).map fun item => (.int item.2, item.1)

mutual

/-- `_to_lua` -/
def toLua (order : Order) : Json → Lua
  | .null => .nil
  | .bool b => .bool b
  | .int n => .int n
  | .float value repr => .float value repr
  | .str text => .str text
  | .arr items => .table (order.apply (tableFrom (numbered (toLuaItems order items))))
  | .obj fields => .table (order.apply (tableFrom (toLuaFields order fields)))

def toLuaItems (order : Order) : List Json → List Lua
  | [] => []
  | item :: items => toLua order item :: toLuaItems order items

def toLuaFields (order : Order) : List (String × Json) → List (LuaKey × Lua)
  | [] => []
  | (key, value) :: fields => (.str key, toLua order value) :: toLuaFields order fields

end

def LuaKey.isInt : LuaKey → Bool
  | .int _ => true
  | .str _ => false

/-- `range(1, n + 1)` -/
def indices (n : Nat) : List LuaKey := (List.range' 1 n).map .int

/-- A table whose keys are the numbers from 1 is a list. -/
def ofTable (entries : List (LuaKey × Value)) : Value :=
  let keys := entries.map (·.1)
  let range := indices keys.length
  if !keys.isEmpty && keys.all LuaKey.isInt && keys.all range.contains && range.all keys.contains then
    .list (range.map fun i => (entries.lookup i).getD .none)
  else .dict entries

mutual

/-- `_to_py` -/
def toPy : Lua → Value
  | .nil => .none
  | .bool b => .bool b
  | .int n => .int n
  | .float value repr => .float value repr
  | .str text => .str text
  | .table entries => ofTable (toPyEntries entries)

def toPyEntries : List (LuaKey × Lua) → List (LuaKey × Value)
  | [] => []
  | (key, value) :: entries => (key, toPy value) :: toPyEntries entries

end

end Tables

section Values

mutual

/-- A decoded JSON value, as the Python value it is. -/
def ofJson : Json → Value
  | .null => .none
  | .bool b => .bool b
  | .int n => .int n
  | .float value repr => .float value repr
  | .str text => .str text
  | .arr items => .list (ofItems items)
  | .obj fields => .dict (ofFields fields)

def ofItems : List Json → List Value
  | [] => []
  | item :: items => ofJson item :: ofItems items

def ofFields : List (String × Json) → List (LuaKey × Value)
  | [] => []
  | (key, value) :: fields => (.str key, ofJson value) :: ofFields fields

end

def number? : Value → Option ℚ
  | .bool b => some (if b then 1 else 0)
  | .int n => some n
  | .float value _ => some value
  | _ => none

mutual

/-- `v == w` -/
def equal : Value → Value → Bool
  | .none, .none => true
  | .str s, .str t => s = t
  | .list v, .list w => equalItems v w
  | .dict v, .dict w => v.length = w.length && equalEntries v w
  | v, w => match number? v, number? w with
    | some p, some q => p = q
    | _, _ => false

def equalItems : List Value → List Value → Bool
  | [], [] => true
  | v :: vs, w :: ws => equal v w && equalItems vs ws
  | _, _ => false

def equalEntries : List (LuaKey × Value) → List (LuaKey × Value) → Bool
  | [], _ => true
  | (key, v) :: entries, others => (match others.lookup key with
    | some w => equal v w
    | none => false) && equalEntries entries others

end

end Values

/-- What a decision node asks: its questions have been to Lua and back. -/
def nodeQuestions (order : Order) (questions : Json) : Value := toPy (toLua order questions)

end Unhardcoded.Source.LuaMarshal
