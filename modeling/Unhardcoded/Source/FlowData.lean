import Unhardcoded.Python.Json

/-!
# Bounded JSON operations of flows

`flow_data.py`: the compact text of a value, the limits on its depth and size, and the
operations of a data node on the values of its inputs (`union`, `project`, `select`,
`overlay`). `loads` stands for `json.loads` with the hook that refuses duplicate keys.
-/

namespace Unhardcoded.Source.FlowData

open Unhardcoded.Python

def MAX_BYTES : Nat := 1048576

def valueError (message : String) : Raised := .other "ValueError" message

section Encode

/-- A character inside a string of `json.dumps(.., ensure_ascii=False)`. -/
def plainChar (c : Char) : String :=
  let n := c.toNat
  if c = '"' then "\\\"" else if c = '\\' then "\\\\"
  else if n = 8 then "\\b" else if n = 9 then "\\t" else if n = 10 then "\\n"
  else if n = 12 then "\\f" else if n = 13 then "\\r"
  else if n < 32 then unicodeEscape n
  else String.singleton c

def plainQuote (text : String) : String := "\"" ++ String.join (text.toList.map plainChar) ++ "\""

mutual

/-- `json.dumps(value, ensure_ascii=False, separators=(',', ':'), allow_nan=False)`. -/
def encode : Json → String
  | .null => "null"
  | .bool b => if b then "true" else "false"
  | .int n => toString n
  | .float _ repr => repr
  | .str text => plainQuote text
  | .arr items => "[" ++ String.intercalate "," (encodeItems items) ++ "]"
  | .obj fields => "\x7b" ++ String.intercalate "," (encodeFields fields) ++ "\x7d"

def encodeItems : List Json → List String
  | [] => []
  | item :: items => encode item :: encodeItems items

def encodeFields : List (String × Json) → List String
  | [] => []
  | (key, value) :: fields => (plainQuote key ++ ":" ++ encode value) :: encodeFields fields

end

example : encode (.obj [("a", .arr [.int 1, .null]), ("b", .str "é\n")]) =
    "\x7b\"a\":[1,null],\"b\":\"é\\n\"\x7d" := by decide +kernel

/-- `len(text.encode())`. -/
def bytes (text : String) : Nat := text.utf8ByteSize

end Encode

section Bounded

mutual

/-- `depth(v, level)` goes through: no level is above 32. -/
def shallow (level : Nat) : Json → Bool
  | .arr items => level ≤ 32 && shallowItems (level + 1) items
  | .obj fields => level ≤ 32 && shallowFields (level + 1) fields
  | _ => level ≤ 32

def shallowItems (level : Nat) : List Json → Bool
  | [] => true
  | item :: items => shallow level item && shallowItems level items

def shallowFields (level : Nat) : List (String × Json) → Bool
  | [] => true
  | (_, value) :: fields => shallow level value && shallowFields level fields

end

def bounded (value : Json) : Except Raised Json :=
  if !shallow 0 value then .error (valueError "flow data exceeds depth limit")
  else if bytes (encode value) > MAX_BYTES then .error (valueError "flow data exceeds 1 MiB")
  else .ok value

def decode (loads : String → Except Raised Json) (text : String) : Except Raised Json := do
  bounded (← loads text)

end Bounded

section Equal

def number? : Json → Option ℚ
  | .bool b => some (if b then 1 else 0)
  | .int n => some n
  | .float value _ => some value
  | _ => none

mutual

/-- `v == w`. -/
def equal : Json → Json → Bool
  | .null, .null => true
  | .str s, .str t => s = t
  | .arr v, .arr w => equalItems v w
  | .obj v, .obj w => v.length = w.length && equalFields v w
  | v, w => match number? v, number? w with
    | some p, some q => p = q
    | _, _ => false

def equalItems : List Json → List Json → Bool
  | [], [] => true
  | v :: vs, w :: ws => equal v w && equalItems vs ws
  | _, _ => false

def equalFields : List (String × Json) → List (String × Json) → Bool
  | [], _ => true
  | (key, v) :: fields, others => (match others.lookup key with
    | some w => equal v w
    | none => false) && equalFields fields others

end

end Equal

/-- The operation of a data node, with the fields it reads. -/
inductive Operation where
  | union
  | project (path : List String)
  | select (field : String) (equals : Json)
  | overlay (maxStringBytes minStringBytes : Option Int) (onlyShrink : Bool)
  | unknown
  deriving Inhabited

abbrev Fields := List (String × Json)

/-- A dictionary of at most 128 keys of 1 to 128 bytes. -/
def records : Json → Except Raised Fields
  | .obj fields =>
    if fields.length > 128 || fields.any fun entry => !(1 ≤ bytes entry.1 && bytes entry.1 ≤ 128) then
      .error (valueError "expected at most 128 keyed records")
    else .ok fields
  | _ => .error (valueError "expected at most 128 keyed records")

/-- `parts[i]`. -/
def nth (parts : List Json) (i : Nat) : Except Raised Json :=
  match parts[i]? with
  | some part => .ok part
  | none => .error (.other "IndexError" "list index out of range")

/-- `key in fields`. -/
def has (fields : Fields) (key : String) : Bool := (fields.lookup key).isSome

def union : Fields → List Json → Except Raised Fields
  | result, [] => records (.obj result)
  | result, part :: parts => do
    let part ← records part
    if part.any fun entry => has result entry.1 then .error (valueError "duplicate union key")
    else union (part.foldl (fun d entry => insert entry.1 entry.2 d) result) parts

def project : Json → List String → Except Raised Json
  | value, [] => .ok value
  | value, key :: path => match value.field? key with
    | some value => project value path
    | none => .error (valueError "missing projection key")

def selected (other : Fields) (field : String) (equals : Json) (key : String) : Bool :=
  match other.lookup key with
  | some (.obj entry) => equal ((Json.obj entry).field field) equals
  | _ => false

/-- Whether the replacement of a value keeps to the node's limits. -/
def accepted (maxStringBytes minStringBytes : Option Int) (onlyShrink : Bool) (replacement value : Json) : Bool :=
  (maxStringBytes.all fun limit => match replacement with
    | .str text => (bytes text : Int) ≤ limit
    | _ => false) &&
  (minStringBytes.all fun limit => match replacement with
    | .str text => (bytes text : Int) ≥ limit
    | _ => false) &&
  (!onlyShrink || match replacement, value with
    | .str text, .str old => bytes text < bytes old
    | _, _ => false)

def overlay (maxStringBytes minStringBytes : Option Int) (onlyShrink : Bool) (base other removed : Fields) :
    Except Raised Fields :=
  if !(other.all fun entry => has base entry.1) || !(removed.all fun entry => has base entry.1) then
    .error (valueError "unknown overlay key")
  else .ok ((base.filter fun entry => !has removed entry.1).map fun entry =>
    match other.lookup entry.1 with
    | some replacement =>
      if accepted maxStringBytes minStringBytes onlyShrink replacement entry.2 then (entry.1, replacement) else entry
    | none => entry)

def run (operation : Operation) (parts : List Json) : Except Raised Json :=
  match operation with
  | .union => (union [] parts).map .obj
  | .project path => do project (← nth parts 0) path
  | .select field equals => do
    let base ← records (← nth parts 0)
    let other ← records (← nth parts 1)
    pure (.obj (base.filter fun entry => selected other field equals entry.1))
  | .overlay maxStringBytes minStringBytes onlyShrink => do
    let base ← records (← nth parts 0)
    let other ← records (← nth parts 1)
    let removed ← if parts.length = 3 then records (← nth parts 2) else pure []
    (overlay maxStringBytes minStringBytes onlyShrink base other removed).map .obj
  | .unknown => do
    let _ ← records (← nth parts 0)
    let _ ← records (← nth parts 1)
    .error (valueError "unknown data operation")

end Unhardcoded.Source.FlowData
