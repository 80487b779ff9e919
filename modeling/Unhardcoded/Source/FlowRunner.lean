import Unhardcoded.Effects.Kahn
import Unhardcoded.Source.FlowData

/-!
# The flow scheduler

`flow_runner.py`: `topo_order`, the assembly of a node's message, and the loop of
`run_flow`. A flow is the dictionary of its nodes, in listing order. `run_node`,
`json.loads` and `str` of a value that is not a string are fields of `Env`; no deadline
is set. The log of the nodes visited, with what each found under its inputs, is not a
value of the program; it records the order of evaluation.
-/

namespace Unhardcoded.Source.FlowRunner

open Unhardcoded.Python Unhardcoded.Effects
open Unhardcoded.Source.FlowData (Operation Fields encode bounded decode valueError)

/-- A kind of `node.get("kind")`; every other kind is called like `llm`. -/
inductive Kind where
  | input
  | output
  | data
  | decision
  | llm
  deriving DecidableEq, Repr, Inhabited

def Kind.name : Kind → String
  | .input => "input"
  | .output => "output"
  | .data => "data"
  | .decision => "decision"
  | .llm => "llm"

/-- The fields of a node that the scheduler reads. -/
structure Node where
  kind : Kind
  /-- `node.get("inputs") or []`. -/
  inputs : List String
  skipEmpty : Bool
  onError : Option String
  outputFormat : Option String
  /-- `""` where there is none. -/
  template : String
  operation : Operation
  deriving Inhabited

abbrev Nodes := List (String × Node)

/-- An entry of `out`. -/
structure Output where
  text : String
  /-- `[]` for `None`. -/
  toolCalls : List Json
  data : Option Json

/-- `_EMPTY`. -/
def Output.empty : Output := ⟨"", [], none⟩

/-- The result of a node: absent keys and `None` are one, but for `data`. -/
structure Result where
  ok : Bool
  text : String
  toolCalls : List Json
  finishReason : Option String
  data : Option Json
  error : Json
  nodeTrace : Fields

def Result.none : Result := ⟨false, "", [], Option.none, Option.none, .null, []⟩

structure Env where
  runNode : String → Node → Json → Except Raised Result
  loads : String → Except Raised Json
  /-- `str(v)` of a value that is not a string. -/
  str : Json → String

section TopoOrder

/-- Kahn's pull-edges: `(pre, id)` for `pre` in the inputs of `id`. -/
def edges (nodes : Nodes) : List (String × String) :=
  nodes.flatMap fun entry => entry.2.inputs.map fun pre => (pre, entry.1)

def ids (nodes : Nodes) : List String := nodes.map (·.1)

def sorted (l : List String) : List String := l.insertionSort (· ≤ ·)

/-- `topo_order`; `succ[pre]` raises where `pre` is no node. -/
def topoOrder (nodes : Nodes) : Except Raised (List String) :=
  match (edges nodes).find? fun e => (nodes.lookup e.1).isNone with
  | some e => .error (.other "KeyError" ("'" ++ e.1 ++ "'"))
  | none => match Kahn.schedule (edges nodes) (ids nodes) sorted with
    | some order => .ok order
    | none => .error (.other "RecursionError" "out of fuel")

end TopoOrder

section Assemble

/-- The characters `\d` matches with value zero; nine more follow each. -/
def zeros : List Nat :=
  [0x30, 0x660, 0x6F0, 0x7C0, 0x966, 0x9E6, 0xA66, 0xAE6, 0xB66, 0xBE6, 0xC66, 0xCE6, 0xD66, 0xDE6, 0xE50,
    0xED0, 0xF20, 0x1040, 0x1090, 0x17E0, 0x1810, 0x1946, 0x19D0, 0x1A80, 0x1A90, 0x1B50, 0x1BB0, 0x1C40,
    0x1C50, 0xA620, 0xA8D0, 0xA900, 0xA9D0, 0xA9F0, 0xAA50, 0xABF0, 0xFF10, 0x104A0, 0x10D30, 0x11066, 0x110F0,
    0x11136, 0x111D0, 0x112F0, 0x11450, 0x114D0, 0x11650, 0x116C0, 0x11730, 0x118E0, 0x11950, 0x11C50, 0x11D50,
    0x11DA0, 0x11F50, 0x16A60, 0x16AC0, 0x16B50, 0x1D7CE, 0x1D7D8, 0x1D7E2, 0x1D7EC, 0x1D7F6, 0x1E140, 0x1E2F0,
    0x1E4F0, 0x1E950, 0x1FBF0]

def digit? (c : Char) : Option Nat :=
  (zeros.find? fun z => z ≤ c.toNat ∧ c.toNat < z + 10).map (c.toNat - ·)

/-- `int(digits)`, which takes no more than 4300 digits. -/
def intOf (digits : List Nat) : Except Raised Nat :=
  if digits.length > 4300 then
    .error (valueError ("Exceeds the limit (4300 digits) for integer string conversion: value has " ++
      toString digits.length ++ " digits; use sys.set_int_max_str_digits() to increase the limit"))
  else .ok (digits.foldl (fun n d => 10 * n + d) 0)

/-- An f-string field. -/
def Env.format (env : Env) : Json → String
  | .str text => text
  | v => env.str v

/-- One proposed call in `_part_view`. -/
def Env.callLine (env : Env) (tc : Json) : Except Raised String := do
  let fn := (← tc.get "function").orDict
  pure ("- " ++ env.format (← fn.get "name") ++ "(" ++ env.format (← fn.get "arguments") ++ ")")

/-- `_part_view`. -/
def Env.partView (env : Env) (part : Output) : Except Raised String := do
  let text := match part.data with
    | some data => encode data
    | none => part.text
  if part.toolCalls.isEmpty then pure text
  else
    let lines ← part.toolCalls.mapM env.callLine
    let block := "[proposed tool calls]\n" ++ String.intercalate "\n" lines
    pure (if text ≠ "" then text ++ "\n\n" ++ block else block)

/-- What replaces `$n`. -/
def Env.reference (env : Env) (parts : List Output) (digits : List Nat) : Except Raised String := do
  let n ← intOf digits
  if 0 < n then
    match parts[n - 1]? with
    | some part => env.partView part
    | none => pure ""
  else pure ""

/-- `re.sub(r"\$(\d+)", ..)` from a place of the template; `seen` holds the digits after a `$`
that has just been read. -/
def Env.substitute (env : Env) (parts : List Output) : Option (List Nat) → List Char → Except Raised String
  | none, [] => pure ""
  | some [], [] => pure "$"
  | some digits, [] => env.reference parts digits
  | seen, c :: rest => do
    match seen, digit? c with
    | some digits, some d => env.substitute parts (some (digits ++ [d])) rest
    | _, _ =>
      let before ← match seen with
        | none => pure ""
        | some [] => pure "$"
        | some digits => env.reference parts digits
      if c = '$' then pure (before ++ (← env.substitute parts (some []) rest))
      else pure (before ++ String.singleton c ++ (← env.substitute parts none rest))

def Env.assemble (env : Env) (node : Node) (parts : List Output) : Except Raised String := do
  if node.template ≠ "" then env.substitute parts none node.template.toList
  else match parts with
    | [part] => env.partView part
    | _ =>
      let sections ← parts.zipIdx.mapM fun (part, i) => do
        pure ("[input " ++ toString (i + 1) ++ "]\n" ++ (← env.partView part))
      pure (String.intercalate "\n\n" sections)

end Assemble

section NodeResult

/-- `p['data'] if 'data' in p else p.get('text', '')`. -/
def Output.value (part : Output) : Json := part.data.getD (.str part.text)

/-- `values[0]`. -/
def head (values : List Json) : Except Raised Json := FlowData.nth values 0

/-- `isinstance(v, (dict, list)) and not v`. -/
def emptyContainer : Json → Bool
  | .arr items => items.isEmpty
  | .obj fields => fields.isEmpty
  | _ => false

def skips (node : Node) (values : List Json) : Except Raised Bool :=
  if node.skipEmpty then (head values).map emptyContainer else .ok false

/-- The classes the handler of the loop names. -/
def caught : Raised → Bool
  | .attributeError => false
  | .typeError => true
  | .valueError => true
  | .timeoutError => true
  | .other name _ => name ∈ ["ValueError", "TypeError", "KeyError", "RecursionError", "TimeoutError"]

/-- `str(exc) or type(exc).__name__`. -/
def describe : Raised → String
  | .attributeError => "AttributeError"
  | .typeError => "TypeError"
  | .valueError => "ValueError"
  | .timeoutError => "TimeoutError"
  | .other name message => if message ≠ "" then message else name

/-- The handler, with the result the body had reached. -/
def handle (result : Result) (e : Raised) : Except Raised Result :=
  if caught e then .ok { result with ok := false, error := .str (describe e) } else .error e

def cost0 : Fields := [("cost_reported", .int 0)]

def Env.callNode (env : Env) (nid : String) (node : Node) (parts : List Output) (skipped : Bool) :
    Except Raised Result := do
  let values := parts.map Output.value
  if skipped then
    pure { Result.none with ok := true, data := some (← head values), nodeTrace := ("skipped", .bool true) :: cost0 }
  else match node.kind with
    | .data =>
      pure { Result.none with ok := true, data := some (← FlowData.run node.operation values), nodeTrace := cost0 }
    | .decision => env.runNode nid node (match values with
      | [value] => value
      | _ => .arr values)
    | _ => env.runNode nid node (.str (← env.assemble node parts))

/-- The output of a node with `output_format: json` is decoded. -/
def Env.typed (env : Env) (node : Node) (skipped : Bool) (result : Result) : Except Raised Result :=
  if result.ok && node.outputFormat = some "json" && !skipped then
    if !result.toolCalls.isEmpty || result.finishReason = some "length" then
      .error (valueError "typed generation must return complete JSON without tool calls")
    else do pure { result with data := some (← decode env.loads result.text) }
  else .ok result

def sized (result : Result) : Except Raised Result :=
  match result.data with
  | some data => do
    let _ ← bounded data
    pure { result with text := encode data }
  | none => .ok result

/-- `try: .. except (..)`: the result before `on_error` is looked at. -/
def Env.tried (env : Env) (nid : String) (node : Node) (parts : List Output) (skipped : Bool) :
    Except Raised Result :=
  match env.callNode nid node parts skipped with
  | .error e => handle { Result.none with nodeTrace := if node.kind = .data then cost0 else [] } e
  | .ok called => match env.typed node skipped called with
    | .error e => handle called e
    | .ok typed => match sized typed with
      | .error e => handle typed e
      | .ok result => .ok result

/-- A result that is not ok gives way to the first input, with `on_error: input`. -/
def fallback (node : Node) (values : List Json) (result : Result) : Except Raised Result :=
  if !result.ok && node.onError = some "input" then do
    let value ← head values
    pure { result with
      ok := true
      data := some value
      text := encode value
      toolCalls := []
      nodeTrace := insert "error" result.error (insert "fallback" (.str "input") result.nodeTrace) }
  else .ok result

/-- The result of a node that is no endpoint, from the outputs of its inputs. -/
def Env.evaluate (env : Env) (nid : String) (node : Node) (parts : List Output) : Except Raised Result := do
  let values := parts.map Output.value
  let skipped ← skips node values
  fallback node values (← env.tried nid node parts skipped)

def Result.output (result : Result) : Output := ⟨result.text, result.toolCalls, result.data⟩

/-- `{"node": .., "kind": .., "inputs": .., **node_trace}`. -/
def traceEntry (nid : String) (node : Node) (result : Result) : Fields :=
  result.nodeTrace.foldl (fun d entry => insert entry.1 entry.2 d)
    [("node", .str nid), ("kind", .str node.kind.name), ("inputs", .arr (node.inputs.map .str))]

end NodeResult

section RunFlow

structure Input where
  text : String
  data : Option Json

/-- A visited node, with what `out` had under its inputs. -/
structure Visit where
  nid : String
  read : List (Option Output)

structure Run where
  out : List (String × Output)
  trace : List Fields
  log : List Visit

inductive Stop where
  | raised (e : Raised)
  | failed (nid : String) (error : Json)

inductive Outcome where
  | done (final : Output)
  | raised (e : Raised)
  | failed (nid : String) (error : Json)

/-- `_endpoints`. -/
def endpoint (kind : Kind) (nodes : Nodes) : Option String :=
  (nodes.reverse.find? fun entry => entry.2.kind = kind).map (·.1)

def inputOutput (input : Input) : Except Raised Output :=
  match input.data with
  | some data => do
    let _ ← bounded data
    pure ⟨encode data, [], some data⟩
  | none => .ok ⟨input.text, [], none⟩

/-- One turn of the loop. -/
def Env.visit (env : Env) (nodes : Nodes) (run : Run) (nid : String) : Run × Option Stop :=
  match nodes.lookup nid with
  | none => (run, some (.raised (.other "KeyError" ("'" ++ nid ++ "'"))))
  | some node => match node.kind with
    | .input => ({ run with log := run.log ++ [⟨nid, []⟩] }, none)
    | .output => match node.inputs with
      | [] => (run, some (.raised (.other "IndexError" "list index out of range")))
      | pre :: _ =>
        let found := run.out.lookup pre
        ({ run with
          out := insert nid (found.getD .empty) run.out
          log := run.log ++ [⟨nid, [found]⟩] }, none)
    | _ =>
      let found := node.inputs.map fun pre => run.out.lookup pre
      let run := { run with log := run.log ++ [⟨nid, found⟩] }
      match env.evaluate nid node (found.map (·.getD .empty)) with
      | .error e => (run, some (.raised e))
      | .ok result =>
        let run := { run with trace := run.trace ++ [traceEntry nid node result] }
        if result.ok then ({ run with out := insert nid result.output run.out }, none)
        else (run, some (.failed nid result.error))

/-- The loop over an order of the nodes. -/
def Env.loop (env : Env) (nodes : Nodes) : Run → List String → Run × Option Stop
  | run, [] => (run, none)
  | run, nid :: order => match env.visit nodes run nid with
    | (run, none) => env.loop nodes run order
    | stopped => stopped

/-- `out = {src: ..}`; without an input node the key is `None`, which is no node. -/
def start (nodes : Nodes) (source : Output) : Run :=
  ⟨match endpoint .input nodes with
    | some src => [(src, source)]
    | none => [], [], []⟩

/-- `run_flow` with the nodes taken in a given order: what it returns, the trace, and the log. -/
def Env.runOrder (env : Env) (nodes : Nodes) (order : List String) (input : Input) : Outcome × Run :=
  match inputOutput input with
  | .error e => (.raised e, ⟨[], [], []⟩)
  | .ok source => match env.loop nodes (start nodes source) order with
    | (run, some (.raised e)) => (.raised e, run)
    | (run, some (.failed nid error)) => (.failed nid error, run)
    | (run, none) => (.done (((endpoint .output nodes).bind fun sink => run.out.lookup sink).getD .empty), run)

def Env.runFlow (env : Env) (nodes : Nodes) (input : Input) : Outcome × Run :=
  match inputOutput input, topoOrder nodes with
  | .error e, _ => (.raised e, ⟨[], [], []⟩)
  | _, .error e => (.raised e, ⟨[], [], []⟩)
  | _, .ok order => env.runOrder nodes order input

end RunFlow

section Denote

/-- The plain recursive evaluation of a node over its inputs, for a recursion of bounded depth. -/
def Env.denote (env : Env) (nodes : Nodes) (source : Output) : Nat → String → Except Stop Output
  | 0, _ => .error (.raised (.other "RecursionError" "maximum recursion depth exceeded"))
  | depth + 1, nid => match nodes.lookup nid with
    | none => .error (.raised (.other "KeyError" ("'" ++ nid ++ "'")))
    | some node => match node.kind with
      | .input => .ok source
      | .output => match node.inputs with
        | [] => .error (.raised (.other "IndexError" "list index out of range"))
        | pre :: _ => env.denote nodes source depth pre
      | _ => do
        let parts ← node.inputs.mapM (env.denote nodes source depth)
        match env.evaluate nid node parts with
        | .error e => .error (.raised e)
        | .ok result => if result.ok then .ok result.output else .error (.failed nid result.error)

end Denote

end Unhardcoded.Source.FlowRunner
