import Unhardcoded.Python.Dict
import Unhardcoded.Source.FlowRunner

/-!
# A flow is its recursive evaluation

The scheduler visits the nodes of an admitted flow in a topological order. At each node
the entries it reads are the values of its inputs in the recursive evaluation, so the
visit ends as the recursive evaluation of the node does: with its value, or stopping the
flow. The value returned is that of the output node, whichever legal order is taken.
-/

namespace Unhardcoded.Guarantees.FlowRunner

open Unhardcoded.Python Unhardcoded.Effects
open Unhardcoded.Source.FlowRunner

/-- What `flow.check` of the core grants the scheduler. -/
structure Admitted (nodes : Nodes) : Prop where
  distinct : (ids nodes).Nodup
  closed : ∀ e ∈ edges nodes, e.1 ∈ ids nodes
  acyclic : Kahn.Acyclic (edges nodes)
  oneInput : ∃ entry, nodes.filter (fun e => e.2.kind = .input) = [entry]
  oneOutput : ∃ entry, nodes.filter (fun e => e.2.kind = .output) = [entry]

/-- An order of the nodes in which every edge goes forward. -/
structure Legal (nodes : Nodes) (order : List String) : Prop where
  perm : order.Perm (ids nodes)
  forward : Kahn.Forward (edges nodes) order

/-- The inputs a visit reads. -/
def consumed (node : Node) : List String :=
  match node.kind with
  | .input => []
  | .output => node.inputs.take 1
  | _ => node.inputs

/-- A visit found, under each input it reads, the value of the recursive evaluation. -/
def Reads (env : Env) (nodes : Nodes) (source : Output) (visit : Visit) : Prop :=
  ∃ node, nodes.lookup visit.nid = some node ∧
    List.Forall₂ (fun pre found => ∃ value, env.denote nodes source nodes.length pre = .ok value ∧ found = some value)
      (consumed node) visit.read

/-- A node that is no endpoint and has no `on_error`, and whose evaluation from what was read fails. -/
def Fails (env : Env) (nodes : Nodes) (visit : Visit) (error : Json) : Prop :=
  ∃ node skipped result, nodes.lookup visit.nid = some node ∧ node.kind ≠ .input ∧ node.kind ≠ .output ∧
    node.onError ≠ some "input" ∧
    skips node ((visit.read.map (·.getD .empty)).map Output.value) = .ok skipped ∧
    env.tried visit.nid node (visit.read.map (·.getD .empty)) skipped = .ok result ∧
    result.ok = false ∧ result.error = error

section Graph

variable {nodes : Nodes}

theorem mem_edges {pre nid : String} (distinct : (ids nodes).Nodup) {node : Node}
    (found : nodes.lookup nid = some node) : (pre, nid) ∈ edges nodes ↔ pre ∈ node.inputs := by
  constructor
  · intro edge
    obtain ⟨⟨other, node'⟩, mem, here⟩ := List.mem_flatMap.mp edge
    obtain ⟨pre', within, same⟩ := List.mem_map.mp here
    obtain ⟨rfl, rfl⟩ := Prod.mk.inj same
    obtain rfl := Option.some.inj ((lookup_of_mem distinct mem).symm.trans found)
    exact within
  · intro within
    exact List.mem_flatMap.mpr ⟨(nid, node), mem_of_lookup found, List.mem_map_of_mem within⟩

theorem target_mem {e : String × String} (mem : e ∈ edges nodes) : e.2 ∈ ids nodes := by
  obtain ⟨entry, within, here⟩ := List.mem_flatMap.mp mem
  obtain ⟨pre, -, rfl⟩ := List.mem_map.mp here
  exact List.mem_map_of_mem (f := Prod.fst) within

theorem topoOrder_legal (admitted : Admitted nodes) : ∃ order, topoOrder nodes = .ok order ∧ Legal nodes order := by
  obtain ⟨order, ended, perm, forward⟩ := Kahn.schedule_spec
    (fun l : List String => List.perm_insertionSort (· ≤ ·) l) admitted.distinct
    (fun e mem => ⟨admitted.closed e mem, target_mem mem⟩) admitted.acyclic
  refine ⟨order, ?_, perm, forward⟩
  have known : (edges nodes).find? (fun e => (nodes.lookup e.1).isNone) = none := by
    rw [List.find?_eq_none]
    intro e mem
    obtain ⟨node, found⟩ := exists_lookup (admitted.closed e mem)
    simp [found]
  rw [topoOrder, known]
  dsimp only
  rw [show Kahn.schedule (edges nodes) (ids nodes) sorted = some order from ended]

end Graph

section Visit

variable {env : Env} {nodes : Nodes} {source : Output}

/-- The visited nodes have their values, which the recursive evaluation reaches within as many calls. -/
structure Sound (env : Env) (nodes : Nodes) (source : Output) (visited : List String) (run : Run) : Prop where
  logged : run.log.map (·.nid) = visited
  values : ∀ nid ∈ visited, ∃ value, run.out.lookup nid = some value ∧
    ∀ depth, visited.length ≤ depth → env.denote nodes source depth nid = .ok value
  reads : ∀ visit ∈ run.log, Reads env nodes source visit
  passed : ∀ visit ∈ run.log, ∀ error, ¬ Fails env nodes visit error
  given : ∀ nid node, nodes.lookup nid = some node → node.kind = .input → run.out.lookup nid = some source

/-- A run that stopped at `nid`: the recursive evaluation of that node stops in the same way, and
where it is a failure, no node was visited after it. -/
structure Stopped (env : Env) (nodes : Nodes) (source : Output) (visited : List String) (nid : String)
    (stop : Stop) (run : Run) : Prop where
  value : ∀ depth, visited.length < depth → env.denote nodes source depth nid = .error stop
  last : match stop with
    | .raised _ => ∀ visit ∈ run.log, ∀ error, ¬ Fails env nodes visit error
    | .failed culprit error => culprit = nid ∧ ∃ before visit, run.log = before ++ [visit] ∧ visit.nid = nid ∧
        Fails env nodes visit error ∧ ∀ other ∈ before, ∀ error, ¬ Fails env nodes other error

theorem evaluate_of_tried {nid : String} {node : Node} {parts : List Output} {skipped : Bool} {result : Result}
    (skip : skips node (parts.map Output.value) = .ok skipped) (tried : env.tried nid node parts skipped = .ok result)
    (failed : result.ok = false) (plain : node.onError ≠ some "input") :
    env.evaluate nid node parts = .ok result := by
  simp only [Env.evaluate, skip, tried, fallback, failed, plain, bind, Except.bind]
  rfl

theorem Fails.evaluate {visit : Visit} {error : Json} (h : Fails env nodes visit error) {node : Node}
    (found : nodes.lookup visit.nid = some node) : ∃ result, result.ok = false ∧ result.error = error ∧
      env.evaluate visit.nid node (visit.read.map (·.getD .empty)) = .ok result := by
  obtain ⟨node', skipped, result, found', -, -, plain, skip, tried, failed, same⟩ := h
  obtain rfl := Option.some.inj (found'.symm.trans found)
  exact ⟨result, failed, same, evaluate_of_tried skip tried failed plain⟩

theorem Fails.unique {visit : Visit} {error error' : Json} (h : Fails env nodes visit error)
    (h' : Fails env nodes visit error') : error = error' := by
  have found := h.choose_spec.choose_spec.choose_spec.1
  obtain ⟨result, -, rfl, evaluates⟩ := h.evaluate found
  obtain ⟨result', -, rfl, evaluates'⟩ := h'.evaluate found
  rw [Except.ok.inj (evaluates.symm.trans evaluates')]

/-- A result that is not ok comes from the node itself, without `on_error`. -/
theorem evaluate_failed {nid : String} {node : Node} {parts : List Output} {result : Result}
    (h : env.evaluate nid node parts = .ok result) (failed : result.ok = false) :
    node.onError ≠ some "input" ∧ ∃ skipped, skips node (parts.map Output.value) = .ok skipped ∧
      env.tried nid node parts skipped = .ok result := by
  unfold Env.evaluate at h
  cases skip : skips node (parts.map Output.value) with
  | error e => simp [skip, bind, Except.bind] at h
  | ok skipped =>
    cases tried : env.tried nid node parts skipped with
    | error e => simp [skip, tried, bind, Except.bind] at h
    | ok first =>
      simp only [skip, tried, bind, Except.bind, fallback] at h
      split at h
      · cases value : head (parts.map Output.value) with
        | error e => simp [value] at h
        | ok value' =>
          simp only [value] at h
          obtain rfl := Except.ok.inj h
          cases failed
      · rename_i kept
        obtain rfl := Except.ok.inj h
        refine ⟨fun plain => kept ?_, skipped, rfl, tried⟩
        simp [failed, plain]

/-- What a sound run finds under visited inputs. -/
theorem Sound.reads_values {visited : List String} {run : Run} (h : Sound env nodes source visited run)
    (fits : visited.length ≤ nodes.length) {pres : List String} (known : ∀ pre ∈ pres, pre ∈ visited) :
    ∃ parts : List Output, pres.map (fun pre => run.out.lookup pre) = parts.map some ∧
      (∀ depth, visited.length ≤ depth → pres.mapM (env.denote nodes source depth) = .ok parts) ∧
      List.Forall₂ (fun pre found => ∃ value, env.denote nodes source nodes.length pre = .ok value ∧ found = some value)
        pres (pres.map fun pre => run.out.lookup pre) := by
  induction pres with
  | nil => exact ⟨[], rfl, fun _ _ => rfl, .nil⟩
  | cons pre pres ih =>
    obtain ⟨parts, outs, evaluated, reads⟩ := ih fun other mem => known other (List.mem_cons_of_mem _ mem)
    obtain ⟨value, out, evaluates⟩ := h.values pre (known pre List.mem_cons_self)
    refine ⟨value :: parts, ?_, fun depth enough => ?_, ?_⟩
    · rw [List.map_cons, List.map_cons, out, outs]
    · rw [List.mapM_cons, evaluates depth enough, evaluated depth enough]
      rfl
    · rw [List.map_cons, out]
      exact .cons ⟨value, evaluates _ fits, rfl⟩ reads

/-- A visit that gives its node the value of the recursive evaluation. -/
theorem Sound.snoc {visited : List String} {run run' : Run} {nid : String} {node : Node}
    {read : List (Option Output)} (h : Sound env nodes source visited run) (value : Output) (found : nodes.lookup nid = some node)
    (log : run'.log = run.log ++ [⟨nid, read⟩])
    (outs : ∀ key, run'.out.lookup key = if key = nid then some value else run.out.lookup key)
    (denotes : ∀ depth, visited.length < depth → env.denote nodes source depth nid = .ok value)
    (reads : List.Forall₂
      (fun pre found => ∃ value, env.denote nodes source nodes.length pre = .ok value ∧ found = some value)
      (consumed node) read)
    (passed : ∀ error, ¬ Fails env nodes ⟨nid, read⟩ error) (given : node.kind = .input → value = source) :
    Sound env nodes source (visited ++ [nid]) run' := by
  refine ⟨?_, fun other mem => ?_, fun visit mem => ?_, fun visit mem => ?_, fun other node' found' kind => ?_⟩
  · rw [log, List.map_append, h.logged]
    rfl
  · rw [List.length_append, List.length_singleton]
    by_cases same : other = nid
    · subst same
      exact ⟨value, by rw [outs, if_pos rfl], fun depth enough => denotes depth (by omega)⟩
    · have old : other ∈ visited := by
        rcases List.mem_append.mp mem with old | new
        · exact old
        · exact absurd (List.mem_singleton.mp new) same
      obtain ⟨value', out, evaluates⟩ := h.values other old
      exact ⟨value', by rw [outs, if_neg same, out], fun depth enough => evaluates depth (by omega)⟩
  · rw [log] at mem
    rcases List.mem_append.mp mem with old | new
    · exact h.reads visit old
    · obtain rfl := List.mem_singleton.mp new
      exact ⟨node, found, reads⟩
  · rw [log] at mem
    rcases List.mem_append.mp mem with old | new
    · exact h.passed visit old
    · obtain rfl := List.mem_singleton.mp new
      exact passed
  · rw [outs]
    split
    · rename_i same
      subst same
      obtain rfl := Option.some.inj (found'.symm.trans found)
      rw [given kind]
    · exact h.given other node' found' kind

theorem visit_call {run : Run} {nid : String} {node : Node} (found : nodes.lookup nid = some node)
    (notInput : node.kind ≠ .input) (notOutput : node.kind ≠ .output) :
    env.visit nodes run nid =
      let read := node.inputs.map fun pre => run.out.lookup pre
      let logged := { run with log := run.log ++ [⟨nid, read⟩] }
      match env.evaluate nid node (read.map (·.getD .empty)) with
      | .error e => (logged, some (.raised e))
      | .ok result =>
        let traced := { logged with trace := run.trace ++ [traceEntry nid node result] }
        if result.ok then ({ traced with out := insert nid result.output run.out }, none)
        else (traced, some (.failed nid result.error)) := by
  cases kind : node.kind with
  | input => exact absurd kind notInput
  | output => exact absurd kind notOutput
  | _ =>
    unfold Env.visit
    rw [found]
    dsimp only
    rewrite [kind]
    rfl

theorem denote_call {nid : String} {node : Node} (found : nodes.lookup nid = some node)
    (notInput : node.kind ≠ .input) (notOutput : node.kind ≠ .output) {depth : Nat} {parts : List Output}
    (evaluated : node.inputs.mapM (env.denote nodes source depth) = .ok parts) :
    env.denote nodes source (depth + 1) nid = match env.evaluate nid node parts with
      | .error e => .error (.raised e)
      | .ok result => if result.ok then .ok result.output else .error (.failed nid result.error) := by
  cases kind : node.kind with
  | input => exact absurd kind notInput
  | output => exact absurd kind notOutput
  | _ =>
    unfold Env.denote
    rw [found]
    dsimp only
    rw [kind, evaluated]
    rfl

theorem consumed_call {node : Node} (notInput : node.kind ≠ .input) (notOutput : node.kind ≠ .output) :
    consumed node = node.inputs := by
  unfold consumed
  cases kind : node.kind with
  | input => exact absurd kind notInput
  | output => exact absurd kind notOutput
  | _ => rfl

/-- A visit goes on with a sound run, or stops as the recursive evaluation does. -/
def Visits (env : Env) (nodes : Nodes) (source : Output) (visited : List String) (nid : String)
    (visit : Run × Option Stop) : Prop :=
  match visit with
  | (run, none) => Sound env nodes source (visited ++ [nid]) run
  | (run, some stop) => Stopped env nodes source visited nid stop run

section Kinds

variable {visited : List String} {run : Run} {nid : String} {node : Node}

theorem visit_input (h : Sound env nodes source visited run) (found : nodes.lookup nid = some node)
    (input : node.kind = .input) : Visits env nodes source visited nid (env.visit nodes run nid) := by
  have visits : env.visit nodes run nid = ({ run with log := run.log ++ [⟨nid, []⟩] }, none) := by
    simp only [Env.visit, found, input]
  rw [visits]
  refine h.snoc source found rfl (fun key => ?_) (fun depth enough => ?_) ?_ ?_ fun _ => rfl
  · split
    · rename_i same
      rw [same, h.given nid node found input]
    · rfl
  · obtain ⟨depth, rfl⟩ := Nat.exists_eq_succ_of_ne_zero (by omega : depth ≠ 0)
    simp only [Env.denote, found, input]
  · simp only [consumed, input]
    exact .nil
  · rintro error ⟨node', _, _, found', notInput, -⟩
    exact notInput (Option.some.inj (found.symm.trans found') ▸ input)

theorem visit_output (h : Sound env nodes source visited run) (fits : visited.length ≤ nodes.length)
    (found : nodes.lookup nid = some node) (output : node.kind = .output)
    (ready : ∀ pre ∈ node.inputs, pre ∈ visited) :
    Visits env nodes source visited nid (env.visit nodes run nid) := by
  cases inputs : node.inputs with
  | nil =>
    have visits : env.visit nodes run nid =
        (run, some (.raised (.other "IndexError" "list index out of range"))) := by
      simp only [Env.visit, found, output, inputs]
    rw [visits]
    refine ⟨fun depth enough => ?_, h.passed⟩
    obtain ⟨depth, rfl⟩ := Nat.exists_eq_succ_of_ne_zero (by omega : depth ≠ 0)
    simp only [Env.denote, found, output, inputs]
  | cons pre rest =>
    obtain ⟨value, out, evaluates⟩ := h.values pre (ready pre (by simp [inputs]))
    have visits : env.visit nodes run nid =
        ({ run with out := insert nid value run.out, log := run.log ++ [⟨nid, [some value]⟩] }, none) := by
      simp only [Env.visit, found, output, inputs, out, Option.getD_some]
    rw [visits]
    refine h.snoc value found rfl (fun key => lookup_insert nid key value run.out)
      (fun depth enough => ?_) ?_ ?_ fun kind => ?_
    · obtain ⟨depth, rfl⟩ := Nat.exists_eq_succ_of_ne_zero (by omega : depth ≠ 0)
      simp only [Env.denote, found, output, inputs]
      exact evaluates depth (by omega)
    · simp only [consumed, output, inputs, List.take_succ_cons, List.take_zero]
      exact .cons ⟨value, evaluates _ fits, rfl⟩ .nil
    · rintro error ⟨node', _, _, found', -, notOutput, -⟩
      exact notOutput (Option.some.inj (found.symm.trans found') ▸ output)
    · rw [output] at kind
      cases kind

theorem visit_inner (h : Sound env nodes source visited run) (fits : visited.length ≤ nodes.length)
    (found : nodes.lookup nid = some node) (notInput : node.kind ≠ .input) (notOutput : node.kind ≠ .output)
    (ready : ∀ pre ∈ node.inputs, pre ∈ visited) :
    Visits env nodes source visited nid (env.visit nodes run nid) := by
  obtain ⟨parts, outs, evaluated, reads⟩ := h.reads_values fits ready
  have back : (node.inputs.map fun pre => run.out.lookup pre).map (·.getD .empty) = parts := by
    rw [outs, List.map_map]
    exact List.map_id parts
  have denotes : ∀ depth, visited.length < depth → env.denote nodes source depth nid =
      match env.evaluate nid node parts with
      | .error e => .error (.raised e)
      | .ok result => if result.ok then .ok result.output else .error (.failed nid result.error) := by
    intro depth enough
    obtain ⟨depth, rfl⟩ := Nat.exists_eq_succ_of_ne_zero (by omega : depth ≠ 0)
    exact denote_call found notInput notOutput (evaluated depth (by omega))
  rw [visit_call found notInput notOutput]
  simp only [back]
  cases evaluates : env.evaluate nid node parts with
  | error e =>
    refine ⟨fun depth enough => by rw [denotes depth enough, evaluates], fun visit mem error fails => ?_⟩
    rcases List.mem_append.mp mem with old | new
    · exact h.passed visit old error fails
    · obtain rfl := List.mem_singleton.mp new
      obtain ⟨result, -, -, same⟩ := fails.evaluate found
      rw [back, evaluates] at same
      cases same
  | ok result =>
    cases ok : result.ok with
    | true =>
      simp only [ok, if_true]
      show Sound env nodes source (visited ++ [nid]) _
      refine h.snoc result.output found rfl (fun key => lookup_insert nid key result.output run.out)
        (fun depth enough => by simp only [denotes depth enough, evaluates, ok, if_true]) ?_ ?_ fun kind => absurd kind notInput
      · rw [consumed_call notInput notOutput]
        exact reads
      · intro error fails
        obtain ⟨result', failed, -, same⟩ := fails.evaluate found
        rw [back, evaluates] at same
        obtain rfl := Except.ok.inj same
        rw [ok] at failed
        cases failed
    | false =>
      simp only [ok, Bool.false_eq_true, if_false]
      show Stopped env nodes source visited nid _ _
      refine ⟨fun depth enough => by simp only [denotes depth enough, evaluates, ok, Bool.false_eq_true, if_false], rfl,
        run.log, ⟨nid, _⟩, rfl, rfl, ?_, h.passed⟩
      obtain ⟨plain, skipped, skip, tried⟩ := evaluate_failed evaluates ok
      refine ⟨node, skipped, result, found, notInput, notOutput, plain, ?_, ?_, ok, rfl⟩
      · rw [back]
        exact skip
      · rw [back]
        exact tried

theorem visit_spec (h : Sound env nodes source visited run) (fits : visited.length ≤ nodes.length)
    (found : nodes.lookup nid = some node) (ready : ∀ pre ∈ node.inputs, pre ∈ visited) :
    Visits env nodes source visited nid (env.visit nodes run nid) := by
  by_cases input : node.kind = .input
  · exact visit_input h found input
  by_cases output : node.kind = .output
  · exact visit_output h fits found output ready
  · exact visit_inner h fits found input output ready

end Kinds

end Visit

section Loop

variable {env : Env} {nodes : Nodes} {source : Output} {order : List String}

theorem endpoint_eq {kind : Kind} {entry : String × Node} (one : nodes.filter (fun e => e.2.kind = kind) = [entry]) :
    endpoint kind nodes = some entry.1 := by
  have last : nodes.reverse.find? (fun e => e.2.kind = kind) = some entry := by
    rw [← List.head?_filter, List.filter_reverse, one]
    rfl
  rw [endpoint, last]
  rfl

theorem sound_start (admitted : Admitted nodes) : Sound env nodes source [] (start nodes source) := by
  obtain ⟨entry, one⟩ := admitted.oneInput
  have first : start nodes source = ⟨[(entry.1, source)], [], []⟩ := by
    rw [start, endpoint_eq one]
  rw [first]
  refine ⟨rfl, fun _ mem => ?_, fun _ mem => ?_, fun _ mem => ?_, fun nid node found kind => ?_⟩
  · cases mem
  · cases mem
  · cases mem
  · have mem : (nid, node) ∈ nodes.filter fun e => e.2.kind = .input :=
      List.mem_filter.mpr ⟨mem_of_lookup found, by simpa using kind⟩
    rw [one, List.mem_singleton] at mem
    subst mem
    exact List.lookup_cons_self

/-- A run over an order ends sound, or stopped at a node of it. -/
def Ends (env : Env) (nodes : Nodes) (source : Output) (order : List String) (ended : Run × Option Stop) : Prop :=
  match ended with
  | (run, none) => Sound env nodes source order run
  | (run, some stop) => ∃ visited nid after, order = visited ++ nid :: after ∧
      Stopped env nodes source visited nid stop run

theorem loop_spec (distinct : (ids nodes).Nodup) (legal : Legal nodes order) (rest : List String) :
    ∀ {visited : List String} {run : Run}, order = visited ++ rest → Sound env nodes source visited run →
      Ends env nodes source order (env.loop nodes run rest) := by
  induction rest with
  | nil =>
    intro visited run split h
    rw [List.append_nil] at split
    subst split
    exact h
  | cons nid rest ih =>
    intro visited run split h
    have listed : nid ∈ ids nodes := legal.perm.mem_iff.mp (by simp [split])
    obtain ⟨node, found⟩ := exists_lookup listed
    have size := legal.perm.length_eq
    rw [split, ids, List.length_map, List.length_append, List.length_cons] at size
    have step := visit_spec h (by omega) found fun pre within =>
      legal.forward visited nid rest split pre (Kahn.mem_preds.mpr ((mem_edges distinct found).mpr within))
    unfold Env.loop
    cases ended : env.visit nodes run nid with
    | mk run' stop =>
      rw [ended] at step
      cases stop with
      | none => exact ih (by rw [split, List.append_assoc]; rfl) step
      | some stop => exact ⟨visited, nid, rest, split, step⟩

/-- The value the recursive evaluation gives an output node. -/
def SinkValue (env : Env) (nodes : Nodes) (source : Output) (final : Output) : Prop :=
  ∃ sink node, nodes.lookup sink = some node ∧ node.kind = .output ∧
    env.denote nodes source nodes.length sink = .ok final

/-- What a run over an order returns. -/
def Returns (env : Env) (nodes : Nodes) (source : Output) (order : List String) (returned : Outcome × Run) : Prop :=
  match returned.1 with
  | .done final => Sound env nodes source order returned.2 ∧ SinkValue env nodes source final
  | .raised e => Ends env nodes source order (returned.2, some (.raised e))
  | .failed nid error => Ends env nodes source order (returned.2, some (.failed nid error))

theorem runOrder_spec (admitted : Admitted nodes) (legal : Legal nodes order) {input : Input}
    (given : inputOutput input = .ok source) : Returns env nodes source order (env.runOrder nodes order input) := by
  have first : Sound env nodes source [] (start nodes source) := sound_start admitted
  have ends := loop_spec admitted.distinct legal order rfl first
  unfold Env.runOrder
  rw [given]
  dsimp only
  cases ended : env.loop nodes (start nodes source) order with
  | mk run stop =>
    rw [ended] at ends
    cases stop with
    | some stop =>
      cases stop with
      | raised e => exact ends
      | failed nid error => exact ends
    | none =>
      obtain ⟨⟨sink, node⟩, one⟩ := admitted.oneOutput
      have within : (sink, node) ∈ nodes.filter fun e => e.2.kind = .output := by rw [one]; exact List.mem_singleton_self _
      obtain ⟨listed, kind⟩ := List.mem_filter.mp within
      have visited : sink ∈ order := legal.perm.mem_iff.mpr (List.mem_map_of_mem (f := Prod.fst) listed)
      obtain ⟨value, out, evaluates⟩ := ends.values sink visited
      have size : order.length ≤ nodes.length := by
        rw [legal.perm.length_eq, ids, List.length_map]
      refine ⟨ends, sink, node, lookup_of_mem admitted.distinct listed, by simpa using kind, ?_⟩
      rw [endpoint_eq one, Option.bind_some, out]
      exact evaluates _ size

/-- A run that is done leaves no node whose recursive evaluation stops. -/
theorem ends_of_values {run : Run} {stop : Stop} (all : ∀ nid ∈ order, ∃ value, env.denote nodes source nodes.length nid = .ok value)
    (size : order.length = nodes.length) : ¬ Ends env nodes source order (run, some stop) := by
  rintro ⟨visited, nid, after, split, stopped⟩
  obtain ⟨value, evaluates⟩ := all nid (by simp [split])
  rw [split, List.length_append, List.length_cons] at size
  rw [stopped.value nodes.length (by omega)] at evaluates
  cases evaluates

end Loop

section Listing

variable {env : Env} {nodes nodes' : Nodes}

/-- The order in which the nodes are listed does not matter to the recursive evaluation. -/
theorem denote_perm (distinct : (ids nodes).Nodup) (perm : nodes'.Perm nodes) (source : Output) (depth : Nat) :
    env.denote nodes' source depth = env.denote nodes source depth := by
  induction depth with
  | zero => rfl
  | succ depth ih =>
    funext nid
    rw [Env.denote, Env.denote, lookup_perm distinct perm, ih]

theorem Admitted.perm (h : Admitted nodes) (perm : nodes'.Perm nodes) : Admitted nodes' := by
  have same : ∀ e, e ∈ edges nodes' ↔ e ∈ edges nodes := fun e => (perm.flatMap_right _).mem_iff
  have listed : ∀ nid, nid ∈ ids nodes' ↔ nid ∈ ids nodes := fun nid => (perm.map _).mem_iff
  obtain ⟨input, oneInput⟩ := h.oneInput
  obtain ⟨output, oneOutput⟩ := h.oneOutput
  refine ⟨(perm.map _).nodup_iff.mpr h.distinct, fun e mem => ?_, fun a cycle => h.acyclic a ?_,
    ⟨input, ?_⟩, ⟨output, ?_⟩⟩
  · rw [listed]
    exact h.closed e ((same e).mp mem)
  · exact Relation.TransGen.mono (fun a b edge => (same (a, b)).mp edge) a a cycle
  · exact List.perm_singleton.mp (oneInput ▸ perm.filter _)
  · exact List.perm_singleton.mp (oneOutput ▸ perm.filter _)

theorem SinkValue.unique (h : Admitted nodes) {source final final' : Output} (value : SinkValue env nodes source final)
    (value' : SinkValue env nodes source final') : final = final' := by
  obtain ⟨sink, node, found, kind, evaluates⟩ := value
  obtain ⟨sink', node', found', kind', evaluates'⟩ := value'
  obtain ⟨entry, one⟩ := h.oneOutput
  have only : ∀ {sink node}, nodes.lookup sink = some node → node.kind = .output → (sink, node) = entry := by
    intro sink node found kind
    have mem : (sink, node) ∈ nodes.filter fun e => e.2.kind = .output :=
      List.mem_filter.mpr ⟨mem_of_lookup found, by simpa using kind⟩
    rw [one] at mem
    exact List.mem_singleton.mp mem
  obtain ⟨rfl, -⟩ := Prod.mk.inj ((only found kind).trans (only found' kind').symm)
  exact Except.ok.inj (evaluates.symm.trans evaluates')

/-- Any legal order of any listing of the nodes is done with the same value. -/
theorem done_of_done {order : List String} {source final : Output} {run : Run} {input : Input} (h : Admitted nodes)
    (legal : Legal nodes order) (given : inputOutput input = .ok source) (sound : Sound env nodes source order run)
    (value : SinkValue env nodes source final) (perm : nodes'.Perm nodes) {order' : List String}
    (legal' : Legal nodes' order') : (env.runOrder nodes' order' input).1 = .done final := by
  have size : ∀ {nodes : Nodes} {order : List String}, Legal nodes order → order.length = nodes.length :=
    fun legal => by rw [legal.perm.length_eq, ids, List.length_map]
  have denotes : env.denote nodes' source nodes'.length = env.denote nodes source nodes'.length :=
    denote_perm h.distinct perm source nodes'.length
  have all : ∀ nid ∈ order', ∃ value, env.denote nodes' source nodes'.length nid = .ok value := by
    intro nid mem
    have listed : nid ∈ order := legal.perm.mem_iff.mpr ((perm.map _).mem_iff.mp (legal'.perm.mem_iff.mp mem))
    obtain ⟨value, -, evaluates⟩ := sound.values nid listed
    exact ⟨value, by rw [denotes]; exact evaluates _ (by rw [size legal, perm.length_eq])⟩
  have returns : Returns env nodes' source order' _ := runOrder_spec (h.perm perm) legal' given
  cases returned : env.runOrder nodes' order' input with
  | mk outcome run' =>
    rw [returned] at returns
    cases outcome with
    | raised e => exact absurd returns (ends_of_values all (size legal'))
    | failed nid error => exact absurd returns (ends_of_values all (size legal'))
    | done final' =>
      obtain ⟨sink, node, found, kind, evaluates⟩ := returns.2
      rw [denotes, perm.length_eq] at evaluates
      rw [lookup_perm h.distinct perm] at found
      rw [value.unique h ⟨sink, node, found, kind, evaluates⟩]

end Listing

section Built

/-- A listing in which every node comes after its inputs. -/
inductive Built : Nodes → Prop where
  | nil : Built []
  | snoc {nodes : Nodes} {nid : String} {node : Node} (before : Built nodes) (new : nid ∉ ids nodes)
      (inputs : ∀ pre ∈ node.inputs, pre ∈ ids nodes) : Built (nodes ++ [(nid, node)])

variable {nodes : Nodes}

theorem ids_append (nodes nodes' : Nodes) : ids (nodes ++ nodes') = ids nodes ++ ids nodes' := List.map_append

theorem edges_snoc (nodes : Nodes) (nid : String) (node : Node) :
    edges (nodes ++ [(nid, node)]) = edges nodes ++ node.inputs.map fun pre => (pre, nid) := by
  rw [edges, List.flatMap_append]
  simp [edges]

theorem Built.distinct (h : Built nodes) : (ids nodes).Nodup := by
  induction h with
  | nil => exact List.nodup_nil
  | snoc before new inputs ih =>
    rw [ids_append]
    refine List.nodup_append.mpr ⟨ih, List.nodup_singleton _, fun old mem fresh here same => new ?_⟩
    rw [List.mem_singleton.mp here] at same
    rwa [same] at mem

/-- Along an edge the place in the listing rises. -/
theorem Built.rising (h : Built nodes) : ∀ e ∈ edges nodes, e.1 ∈ ids nodes ∧
    (ids nodes).idxOf e.1 < (ids nodes).idxOf e.2 := by
  induction h with
  | nil =>
    intro e mem
    cases mem
  | @snoc nodes nid node before new inputs ih =>
    intro e mem
    rw [edges_snoc] at mem
    rw [ids_append]
    rcases List.mem_append.mp mem with old | fresh
    · obtain ⟨source, rises⟩ := ih e old
      have target : e.2 ∈ ids nodes := target_mem old
      rw [List.idxOf_append_of_mem source, List.idxOf_append_of_mem target]
      exact ⟨List.mem_append_left _ source, rises⟩
    · obtain ⟨pre, within, rfl⟩ := List.mem_map.mp fresh
      have source := inputs pre within
      rw [List.idxOf_append_of_mem source, List.idxOf_append_of_notMem new]
      exact ⟨List.mem_append_left _ source, lt_of_lt_of_le (List.idxOf_lt_length_of_mem source) (Nat.le_add_right _ _)⟩

theorem Built.acyclic (h : Built nodes) : Kahn.Acyclic (edges nodes) :=
  Kahn.acyclic_of_rank (fun nid => (ids nodes).idxOf nid) fun e mem => (h.rising e mem).2

theorem Built.admitted (h : Built nodes) (oneInput : ∃ entry, nodes.filter (fun e => e.2.kind = .input) = [entry])
    (oneOutput : ∃ entry, nodes.filter (fun e => e.2.kind = .output) = [entry]) : Admitted nodes :=
  ⟨h.distinct, fun e mem => (h.rising e mem).1, h.acyclic, oneInput, oneOutput⟩

end Built

/-- A flow's order is a topological order of its nodes. A run that succeeds visits each node once in
that order, finds the value of the recursive evaluation under every input it reads, and returns the
value of the output node, as does any legal order of any listing. After a node without `on_error`
fails no node is visited, and what the run reports is that failure. -/
theorem flow_scheduled (env : Env) {nodes : Nodes} (admitted : Admitted nodes) (input : Input) :
    ∃ order, topoOrder nodes = .ok order ∧ Legal nodes order ∧
      (∀ final run, env.runFlow nodes input = (.done final, run) →
        run.log.map (·.nid) = order ∧
        (∃ source, inputOutput input = .ok source ∧ SinkValue env nodes source final ∧
          ∀ visit ∈ run.log, Reads env nodes source visit) ∧
        ∀ nodes' order', nodes'.Perm nodes → Legal nodes' order' →
          (env.runOrder nodes' order' input).1 = .done final) ∧
      (∀ before visit after error, (env.runFlow nodes input).2.log = before ++ visit :: after →
        Fails env nodes visit error → after = [] ∧ (env.runFlow nodes input).1 = .failed visit.nid error) ∧
      (∀ nid error, (env.runFlow nodes input).1 = .failed nid error →
        ∃ before visit, (env.runFlow nodes input).2.log = before ++ [visit] ∧ visit.nid = nid ∧
          Fails env nodes visit error) := by
  obtain ⟨order, ordered, legal⟩ := topoOrder_legal admitted
  refine ⟨order, ordered, legal, ?_⟩
  cases given : inputOutput input with
  | error e =>
    have flow : env.runFlow nodes input = (.raised e, ⟨[], [], []⟩) := by rw [Env.runFlow, given]
    rw [flow]
    refine ⟨fun final run done => ?_, fun before visit after error log => ?_, fun nid error failed => ?_⟩
    · cases done
    · simp at log
    · cases failed
  | ok source =>
    have flow : env.runFlow nodes input = env.runOrder nodes order input := by rw [Env.runFlow, given, ordered]
    have returns : Returns env nodes source order _ := runOrder_spec admitted legal given
    rw [flow]
    cases returned : env.runOrder nodes order input with
    | mk outcome run =>
      rw [returned] at returns
      cases outcome with
      | done final =>
        refine ⟨fun final' run' done => ?_, fun before visit after error log fails => ?_, fun nid error failed => ?_⟩
        · obtain ⟨same, rfl⟩ := Prod.mk.inj done
          obtain rfl := Outcome.done.inj same
          exact ⟨returns.1.logged, ⟨source, rfl, returns.2, returns.1.reads⟩, fun nodes' order' perm legal' =>
            done_of_done admitted legal given returns.1 returns.2 perm legal'⟩
        · exact absurd fails (returns.1.passed visit (by rw [log]; simp) error)
        · cases failed
      | raised e =>
        obtain ⟨visited, culprit, rest, split, stopped⟩ := returns
        refine ⟨fun final' run' done => ?_, fun before visit after error log fails => ?_, fun nid error failed => ?_⟩
        · cases done
        · exact absurd fails (stopped.last visit (by rw [log]; simp) error)
        · cases failed
      | failed culprit error' =>
        obtain ⟨visited, nid', rest, split, stopped⟩ := returns
        obtain ⟨rfl, first, last, log', here, lastFails, passed⟩ := stopped.last
        refine ⟨fun final' run' done => ?_, fun before visit after error log fails => ?_, fun nid error failed => ?_⟩
        · cases done
        · rcases List.eq_nil_or_concat after with rfl | ⟨init, other, rfl⟩
          · obtain ⟨rfl, same⟩ := List.append_inj' (log'.symm.trans log) rfl
            obtain rfl := List.singleton_inj.mp same
            rw [here, lastFails.unique fails]
            exact ⟨rfl, rfl⟩
          · rw [List.concat_eq_append, ← List.cons_append, ← List.append_assoc] at log
            obtain ⟨rfl, -⟩ := List.append_inj' (log'.symm.trans log) rfl
            exact absurd fails (passed visit (by simp) error)
        · obtain ⟨rfl, rfl⟩ := Outcome.failed.inj failed
          exact ⟨first, last, log', here, lastFails⟩

/-- Two drafts of one question, the list of its open points, and their synthesis. The second draft
fails and falls back to its input; the list is typed and comes back empty, so its review is skipped. -/
def mixture : Nodes :=
  [("out", ⟨.output, ["f"], false, none, none, "", .unknown⟩),
    ("f", ⟨.llm, ["b", "a", "s"], false, none, none, "$2 / $1 / $3", .unknown⟩),
    ("a", ⟨.llm, ["u"], false, none, none, "", .unknown⟩),
    ("s", ⟨.llm, ["c"], true, none, none, "", .unknown⟩),
    ("c", ⟨.llm, ["u"], false, none, some "json", "", .unknown⟩),
    ("b", ⟨.llm, ["u"], false, some "input", none, "", .unknown⟩),
    ("u", ⟨.input, [], false, none, none, "", .unknown⟩)]

def mixtureEnv : Env where
  runNode nid _ prompt := .ok { Result.none with
    ok := nid ≠ "b"
    text := if nid = "c" then "[]" else nid ++ ":" ++ match prompt with
      | .str text => text
      | _ => "" }
  loads text := if text = "[]" then .ok (.arr []) else .error .valueError
  str _ := ""

theorem mixture_admitted : Admitted mixture where
  distinct := by decide
  closed := by decide
  acyclic := Kahn.acyclic_of_rank (fun nid => if nid = "u" then 0 else if nid = "s" then 2 else if nid = "f" then 3
    else if nid = "out" then 4 else 1) (by decide)
  oneInput := ⟨("u", ⟨.input, [], false, none, none, "", .unknown⟩), rfl⟩
  oneOutput := ⟨("out", ⟨.output, ["f"], false, none, none, "", .unknown⟩), rfl⟩

/-- The text a run comes back with. -/
def returnedText : Outcome → Option String
  | .done final => some final.text
  | _ => none

theorem flow_scheduled_mixture :
    ∃ order, topoOrder mixture = .ok order ∧ Legal mixture order ∧
      ∀ nodes' order', nodes'.Perm mixture → Legal nodes' order' →
        returnedText (mixtureEnv.runOrder nodes' order' ⟨"Q", none⟩).1 = some "f:a:Q / \"Q\" / []" := by
  obtain ⟨order, ordered, legal, done, -⟩ := flow_scheduled mixtureEnv mixture_admitted ⟨"Q", none⟩
  refine ⟨order, ordered, legal, fun nodes' order' perm legal' => ?_⟩
  have ran : returnedText (mixtureEnv.runFlow mixture ⟨"Q", none⟩).1 = some "f:a:Q / \"Q\" / []" := by decide +kernel
  generalize flow : mixtureEnv.runFlow mixture ⟨"Q", none⟩ = ended at ran
  obtain ⟨outcome, run⟩ := ended
  cases outcome with
  | done final =>
    rw [(done final run flow).2.2 nodes' order' perm legal']
    exact ran
  | raised e => cases ran
  | failed nid error => cases ran

end Unhardcoded.Guarantees.FlowRunner
