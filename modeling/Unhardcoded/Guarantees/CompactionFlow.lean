import Unhardcoded.Python.Lists
import Unhardcoded.Guarantees.FlowRunner
import Unhardcoded.Source.Compaction

/-!
# The flow of a compaction

`prepare` lists the nodes of its flow inputs first, so the flow is admitted and its
result is the recursive evaluation of its output. From that evaluation: a fragment that
was offered and is missing from the result was classified `archive` by a valid answer to
a question that offers it, and such a question comes with the whole evidence.
-/

namespace Unhardcoded.Guarantees.Compaction

open Unhardcoded.Python
open Unhardcoded.Source.Compaction
open Unhardcoded.Source
open Unhardcoded.Source.FlowData (Fields Operation has records)
open Unhardcoded.Source.FlowRunner
open Unhardcoded.Source.DecisionProtocol
open Unhardcoded.Guarantees.FlowRunner

section Names

/-- The id of a node of the preset in a batch. -/
def nodeId (index : Nat) (name : String) : String := batchKey index ++ "_" ++ name

theorem split_at_mark {mark : Char} {xs xs' ys ys' : List Char} (h : mark ∉ xs) (h' : mark ∉ xs')
    (same : xs ++ mark :: ys = xs' ++ mark :: ys') : xs = xs' ∧ ys = ys' := by
  induction xs generalizing xs' with
  | nil =>
    cases xs' with
    | nil => exact ⟨rfl, (List.cons.inj same).2⟩
    | cons c xs' =>
      obtain ⟨first, -⟩ := List.cons.inj same
      exact absurd (first ▸ List.mem_cons_self) h'
  | cons c xs ih =>
    cases xs' with
    | nil =>
      obtain ⟨first, -⟩ := List.cons.inj same
      exact absurd (first ▸ List.mem_cons_self) h
    | cons c' xs' =>
      obtain ⟨rfl, rest⟩ := List.cons.inj same
      obtain ⟨rfl, rfl⟩ := ih (fun mem => h (List.mem_cons_of_mem _ mem)) (fun mem => h' (List.mem_cons_of_mem _ mem)) rest
      exact ⟨rfl, rfl⟩

theorem toList_nodeId (index : Nat) (name : String) :
    (nodeId index name).toList = "batch_".toList ++ (Nat.toDigits 10 index ++ '_' :: name.toList) := by
  rw [nodeId, batchKey, String.toList_append, String.toList_append, String.toList_append, Nat.toString_eq_repr,
    Nat.toList_repr, List.append_assoc, List.append_assoc]
  rfl

theorem mark_notMem_digits (index : Nat) : '_' ∉ Nat.toDigits 10 index := by
  intro mem
  have := Nat.isDigit_of_mem_toDigits (by decide) (by decide) mem
  revert this
  decide

theorem nodeId_inj {index index' : Nat} {name name' : String} (same : nodeId index name = nodeId index' name') :
    index = index' ∧ name = name' := by
  have chars := congrArg String.toList same
  rw [toList_nodeId, toList_nodeId] at chars
  obtain ⟨digits, names⟩ := split_at_mark (mark_notMem_digits index) (mark_notMem_digits index')
    (List.append_cancel_left chars)
  refine ⟨?_, String.toList_inj.mp names⟩
  calc
    index = Nat.ofDigitChars 10 (Nat.toDigits 10 index) 0 := Nat.ofDigitChars_ten_toDigits.symm
    _ = index' := by rw [digits, Nat.ofDigitChars_ten_toDigits]

theorem batchKey_inj {index index' : Nat} (same : batchKey index = batchKey index') : index = index' := by
  have : nodeId index "" = nodeId index' "" := by rw [nodeId, nodeId, same]
  exact (nodeId_inj this).1

/-- The other nodes of a flow start with another letter. -/
theorem nodeId_ne (index : Nat) (name : String) {other : String} (h : other.toList.head? ≠ some 'b') :
    nodeId index name ≠ other := by
  intro same
  refine h ?_
  rw [← same, toList_nodeId]
  rfl

end Names

section Assembly

variable {settings : Settings} {budget : Int} {instructions : List Json} {recent : List String}

/-- The nodes of a batch at its index. -/
def batchNodes (settings : Settings) (budget : Int) (entry : List Fragment × Nat) : Flow :=
  (template settings budget (questions entry.1)).map (localize (batchKey entry.2))

/-- An assembly of these batches. -/
structure Assembled (settings : Settings) (budget : Int) (instructions : List Json) (recent : List String)
    (batches : List (List Fragment)) (assembly : Assembly) : Prop where
  listing : assembly.nodes = ("input", inputNode) :: batches.zipIdx.flatMap (batchNodes settings budget)
  inputs : ∀ i batch, batches[i]? = some batch →
    assembly.inputs.lookup (batchKey i) = some (data instructions recent batch)
  included : assembly.included = batches.flatMap fun batch => batch.map Fragment.id
  patches : assembly.patches = (List.range batches.length).map fun i => nodeId i "patch"

theorem materialize_eq {items : List Fragment} {material : Json × Fields}
    (h : materialize instructions recent items = .ok material) :
    material = (data instructions recent items, questions items) := by
  unfold materialize at h
  dsimp only at h
  cases valid : validatePayload (.obj [("state", (data instructions recent items).field "state"),
      ("questions", .obj (questions items))]) with
  | error e =>
    rw [valid] at h
    cases h
  | ok payload =>
    simp only [valid, bind, Except.bind] at h
    split at h
    · cases h
    · exact (Except.ok.inj h).symm

theorem Assembled.snoc {batches : List (List Fragment)} {assembly : Assembly} {batch : List Fragment}
    (h : Assembled settings budget instructions recent batches assembly) :
    Assembled settings budget instructions recent (batches ++ [batch])
      { nodes := assembly.nodes ++ (template settings budget (questions batch)).map (localize (batchKey batches.length))
        inputs := insert (batchKey batches.length) (data instructions recent batch) assembly.inputs
        included := assembly.included ++ batch.map Fragment.id
        patches := assembly.patches ++ [batchKey batches.length ++ "_" ++ "patch"]
        reasons := assembly.reasons } := by
  refine ⟨?_, fun i other found => ?_, ?_, ?_⟩
  · rw [h.listing, List.zipIdx_append, List.flatMap_append, List.cons_append]
    simp [batchNodes]
  · rw [lookup_insert]
    by_cases same : i = batches.length
    · subst same
      rw [List.getElem?_append_right (le_refl _), Nat.sub_self] at found
      obtain rfl := Option.some.inj found
      exact if_pos rfl
    · rw [if_neg fun keys => same (batchKey_inj keys)]
      have bound : i < (batches ++ [batch]).length := (List.getElem?_eq_some_iff.mp found).1
      rw [List.length_append, List.length_singleton] at bound
      rw [List.getElem?_append_left (by omega)] at found
      exact h.inputs i other found
  · rw [h.included, List.flatMap_append]
    simp
  · rw [h.patches, List.length_append, List.length_singleton, List.range_succ, List.map_append]
    rfl

/-- The batches that are taken are the first ones. -/
theorem addBatches_spec (rest : List (List Fragment)) :
    ∀ {batches : List (List Fragment)} {assembly assembly' : Assembly},
      Assembled settings budget instructions recent batches assembly →
      addBatches settings budget instructions recent batches.length rest assembly = .ok assembly' →
      ∃ taken, taken <+: rest ∧ Assembled settings budget instructions recent (batches ++ taken) assembly' := by
  induction rest with
  | nil =>
    intro batches assembly assembly' h ended
    obtain rfl := Except.ok.inj ended
    exact ⟨[], List.nil_prefix, by rwa [List.append_nil]⟩
  | cons batch rest ih =>
    intro batches assembly assembly' h ended
    unfold addBatches at ended
    dsimp only at ended
    cases made : materialize instructions recent batch with
    | error e =>
      rw [made] at ended
      cases ended
    | ok material =>
      obtain rfl := materialize_eq made
      simp only [made, bind, Except.bind] at ended
      split at ended
      · obtain rfl := Except.ok.inj ended
        refine ⟨[], List.nil_prefix, ?_⟩
        rw [List.append_nil]
        exact ⟨h.listing, h.inputs, h.included, h.patches⟩
      · have next : batches.length + 1 = (batches ++ [batch]).length := by
          rw [List.length_append, List.length_singleton]
        rw [next] at ended
        obtain ⟨taken, before, assembled⟩ := ih h.snoc ended
        refine ⟨batch :: taken, (List.prefix_cons_inj batch).mpr before, ?_⟩
        rwa [List.append_assoc] at assembled

end Assembly

section Listing

/-- The names of a preset, each after the names of its inputs. -/
def listed : List String → Flow → Bool
  | _, [] => true
  | known, (name, preset) :: rest =>
    name ∉ known && preset.node.inputs.all (· ∈ known) && listed (known ++ [name]) rest

theorem listed_template (settings : Settings) (budget : Int) (questions : Fields) :
    listed ["input"] (template settings budget questions) = true := rfl

theorem ids_nodes (flow : Flow) : ids (nodes flow) = flow.map (·.1) := by
  rw [ids, nodes, List.map_map]
  rfl

theorem nodes_append (flow flow' : Flow) : nodes (flow ++ flow') = nodes flow ++ nodes flow' := List.map_append

/-- A preset listed inputs first stays so inside a batch. -/
theorem built_localize (index : Nat) (rest : Flow) :
    ∀ {known : List String} {ns : Nodes}, Built ns → "input" ∈ known →
      (∀ name ∈ known, localId (batchKey index) name ∈ ids ns) → (∀ name, name ∉ known → nodeId index name ∉ ids ns) →
      listed known rest = true → Built (ns ++ nodes (rest.map (localize (batchKey index)))) := by
  induction rest with
  | nil =>
    intro known ns built _ _ _ _
    simpa [nodes] using built
  | cons entry rest ih =>
    obtain ⟨name, preset⟩ := entry
    intro known ns built input there fresh h
    rw [listed, Bool.and_eq_true, Bool.and_eq_true, decide_eq_true_eq, List.all_eq_true] at h
    obtain ⟨⟨new, inputs⟩, later⟩ := h
    have other : name ≠ "input" := fun same => new (same ▸ input)
    have here : localId (batchKey index) name = nodeId index name := if_neg other
    have first : Built (ns ++ [(nodeId index name, ((localize (batchKey index)) (name, preset)).2.node)]) := by
      refine .snoc built (fresh name new) fun pre mem => ?_
      obtain ⟨source, within, rfl⟩ := List.mem_map.mp mem
      exact there source (by simpa using inputs source within)
    have rest' := ih first (List.mem_append_left _ input) (fun known' mem => ?_) (fun known' absent mem => ?_) later
    · rw [List.append_assoc] at rest'
      exact rest'
    · rw [ids_append]
      rcases List.mem_append.mp mem with old | last
      · exact List.mem_append_left _ (there known' old)
      · rw [List.mem_singleton.mp last, here]
        exact List.mem_append_right _ List.mem_cons_self
    · rw [ids_append] at mem
      rcases List.mem_append.mp mem with old | last
      · exact fresh known' (fun within => absent (List.mem_append_left _ within)) old
      · have same : nodeId index known' = nodeId index name := List.mem_singleton.mp last
        rw [(nodeId_inj same).2] at absent
        exact absent (List.mem_append_right _ List.mem_cons_self)

variable {settings : Settings} {budget : Int}

theorem mem_ids_batchNodes {entry : List Fragment × Nat} {nid : String}
    (mem : nid ∈ ids (nodes (batchNodes settings budget entry))) : ∃ name, nid = nodeId entry.2 name := by
  rw [ids_nodes] at mem
  obtain ⟨item, within, rfl⟩ := List.mem_map.mp mem
  obtain ⟨source, -, rfl⟩ := List.mem_map.mp within
  exact ⟨source.1, rfl⟩

/-- Batches added one after the other. -/
theorem built_batches (batches : List (List Fragment)) :
    ∀ {start : Nat} {ns : Nodes}, Built ns → "input" ∈ ids ns →
      (∀ index name, start ≤ index → nodeId index name ∉ ids ns) →
      Built (ns ++ nodes ((batches.zipIdx start).flatMap (batchNodes settings budget))) := by
  induction batches with
  | nil =>
    intro start ns built _ _
    simpa [nodes] using built
  | cons batch batches ih =>
    intro start ns built input fresh
    have first : Built (ns ++ nodes (batchNodes settings budget (batch, start))) := by
      refine built_localize start _ built (List.mem_singleton_self _) (fun name mem => ?_) (fun name _ => fresh start name (le_refl _))
        (listed_template settings budget _)
      rw [List.mem_singleton.mp mem]
      exact input
    rw [List.zipIdx_cons, List.flatMap_cons, nodes_append, ← List.append_assoc]
    refine ih first ?_ fun index name le mem => ?_
    · rw [ids_append]
      exact List.mem_append_left _ input
    · rw [ids_append] at mem
      rcases List.mem_append.mp mem with old | new
      · exact fresh index name (by omega) old
      · obtain ⟨name', same⟩ := mem_ids_batchNodes new
        have := (nodeId_inj same).1
        dsimp only at this
        omega

variable {instructions : List Json} {recent : List String} {batches : List (List Fragment)} {assembly : Assembly}

theorem mem_batchNodes {entry : List Fragment × Nat} {name : String} {preset : PresetNode}
    (mem : (name, preset) ∈ template settings budget (questions entry.1)) :
    localize (batchKey entry.2) (name, preset) ∈ batchNodes settings budget entry := List.mem_map_of_mem mem

/-- A node of the preset in a batch that is there. -/
theorem Assembled.mem_nodes (h : Assembled settings budget instructions recent batches assembly) {i : Nat}
    {batch : List Fragment} (found : batches[i]? = some batch) {name : String} {preset : PresetNode}
    (mem : (name, preset) ∈ template settings budget (questions batch)) :
    localize (batchKey i) (name, preset) ∈ assembly.nodes := by
  have entry : (batch, i) ∈ batches.zipIdx := List.mem_zipIdx_iff_getElem?.mpr found
  rw [h.listing]
  exact List.mem_cons_of_mem _ (List.mem_flatMap.mpr ⟨(batch, i), entry, mem_batchNodes mem⟩)

theorem Assembled.built (h : Assembled settings budget instructions recent batches assembly) :
    Built (nodes assembly.nodes) := by
  have input : Built (nodes [("input", inputNode)]) := by
    refine Built.snoc .nil List.not_mem_nil fun pre mem => ?_
    cases mem
  rw [h.listing]
  refine built_batches batches input (List.mem_singleton_self _) fun index name _ mem => ?_
  exact nodeId_ne index name (by decide) (List.mem_singleton.mp mem)

theorem Assembled.mem_ids (h : Assembled settings budget instructions recent batches assembly) {nid : String}
    (mem : nid ∈ ids (nodes assembly.nodes)) : nid = "input" ∨ ∃ index name, nid = nodeId index name := by
  rw [ids_nodes, h.listing, List.map_cons] at mem
  rcases List.mem_cons.mp mem with here | later
  · exact .inl here
  · obtain ⟨item, within, rfl⟩ := List.mem_map.mp later
    obtain ⟨entry, -, within⟩ := List.mem_flatMap.mp within
    have listed : item.1 ∈ ids (nodes (batchNodes settings budget entry)) := by
      rw [ids_nodes]
      exact List.mem_map_of_mem within
    obtain ⟨name, same⟩ := mem_ids_batchNodes listed
    exact .inr ⟨entry.2, name, same⟩

theorem Assembled.notMem_ids (h : Assembled settings budget instructions recent batches assembly) {nid : String}
    (letter : nid.toList.head? ≠ some 'b') (other : nid ≠ "input") : nid ∉ ids (nodes assembly.nodes) := by
  intro mem
  rcases h.mem_ids mem with same | ⟨index, name, same⟩
  · exact other same
  · exact nodeId_ne index name letter same.symm

theorem Assembled.patch_mem (h : Assembled settings budget instructions recent batches assembly) {pre : String}
    (mem : pre ∈ assembly.patches) : pre ∈ ids (nodes assembly.nodes) := by
  rw [h.patches] at mem
  obtain ⟨i, bound, rfl⟩ := List.mem_map.mp mem
  obtain ⟨batch, found⟩ : ∃ batch, batches[i]? = some batch :=
    ⟨_, List.getElem?_eq_getElem (List.mem_range.mp bound)⟩
  have patch : ("patch", patchNode budget) ∈ template settings budget (questions batch) := by simp [template]
  rw [ids_nodes]
  exact List.mem_map_of_mem (f := Prod.fst) (h.mem_nodes found patch)

theorem kind_batchNodes {entry : List Fragment × Nat} {item : String × PresetNode}
    (mem : item ∈ batchNodes settings budget entry) : item.2.node.kind ≠ .input ∧ item.2.node.kind ≠ .output := by
  obtain ⟨source, within, rfl⟩ := List.mem_map.mp mem
  have kinds : (template settings budget (questions entry.1)).all
      (fun e => decide (e.2.node.kind ≠ .input ∧ e.2.node.kind ≠ .output)) = true := rfl
  exact of_decide_eq_true (List.all_eq_true.mp kinds source within)

/-- The nodes between the input and the end of the flow are no endpoints. -/
theorem filter_batches (kind : Kind) (endpoint : kind = .input ∨ kind = .output) (entries : List (List Fragment × Nat)) :
    (nodes (entries.flatMap (batchNodes settings budget))).filter (fun e => e.2.kind = kind) = [] := by
  rw [List.filter_eq_nil_iff]
  intro e mem
  obtain ⟨item, within, rfl⟩ := List.mem_map.mp mem
  obtain ⟨entry, -, within⟩ := List.mem_flatMap.mp within
  obtain ⟨notInput, notOutput⟩ := kind_batchNodes within
  rcases endpoint with rfl | rfl
  · simpa using notInput
  · simpa using notOutput

/-- What comes after the batches. -/
def ending (assembly : Assembly) : Flow :=
  if assembly.patches.isEmpty then [("output", outputNode "input")]
  else [("merged", dataNode .union assembly.patches), ("output", outputNode "merged")]

theorem flow_eq (assembly : Assembly) : assembly.flow = assembly.nodes ++ ending assembly := by
  unfold Assembly.flow ending
  split <;> rfl

theorem Assembled.filter (h : Assembled settings budget instructions recent batches assembly) (kind : Kind)
    (endpoint : kind = .input ∨ kind = .output) : (nodes assembly.flow).filter (fun e => e.2.kind = kind) =
      (nodes [("input", inputNode)] ++ nodes (ending assembly)).filter (fun e => e.2.kind = kind) := by
  rw [flow_eq, nodes_append, h.listing, ← List.singleton_append, nodes_append, List.filter_append, List.filter_append,
    filter_batches kind endpoint, List.append_nil, List.filter_append]

theorem Assembled.admitted (h : Assembled settings budget instructions recent batches assembly) :
    Admitted (nodes assembly.flow) := by
  have input : "input" ∈ ids (nodes assembly.nodes) := by
    rw [ids_nodes, h.listing]
    exact List.mem_cons_self
  have built : Built (nodes assembly.flow) := by
    unfold Assembly.flow
    split
    · rw [nodes_append]
      refine h.built.snoc (h.notMem_ids (by decide) (by decide)) fun pre mem => ?_
      rw [List.mem_singleton.mp mem]
      exact input
    · have merged : Built (nodes assembly.nodes ++ [("merged", (dataNode .union assembly.patches).node)]) :=
        h.built.snoc (h.notMem_ids (by decide) (by decide)) fun pre mem => h.patch_mem mem
      have output : Built (nodes assembly.nodes ++ [("merged", (dataNode .union assembly.patches).node)] ++
          [("output", (outputNode "merged").node)]) := by
        refine merged.snoc (fun mem => ?_) fun pre mem => ?_
        · rw [ids_append] at mem
          rcases List.mem_append.mp mem with old | last
          · exact h.notMem_ids (by decide) (by decide) old
          · have same : "output" = "merged" := List.mem_singleton.mp last
            revert same
            decide
        · rw [List.mem_singleton.mp mem, ids_append]
          exact List.mem_append_right _ (List.mem_singleton_self _)
      rw [nodes_append]
      rwa [List.append_assoc] at output
  refine built.admitted ?_ ?_
  · rw [h.filter .input (.inl rfl)]
    unfold ending
    split <;> exact ⟨_, rfl⟩
  · rw [h.filter .output (.inr rfl)]
    unfold ending
    split <;> exact ⟨_, rfl⟩

/-- The listing has one entry under each id. -/
theorem Assembled.lookup_nodes (h : Assembled settings budget instructions recent batches assembly) {nid : String}
    {preset : PresetNode} (mem : (nid, preset) ∈ assembly.flow) : (nodes assembly.flow).lookup nid = some preset.node :=
  lookup_of_mem h.admitted.distinct (List.mem_map_of_mem (f := fun e : String × PresetNode => (e.1, e.2.node)) mem)

theorem Assembled.lookup_flow (h : Assembled settings budget instructions recent batches assembly) {nid : String}
    {preset : PresetNode} (mem : (nid, preset) ∈ assembly.flow) : assembly.flow.lookup nid = some preset := by
  have distinct := h.admitted.distinct
  rw [ids_nodes] at distinct
  exact lookup_of_mem distinct mem

variable (assembly) in
theorem output_mem_flow : ∃ pre, ("output", outputNode pre) ∈ assembly.flow := by
  rw [flow_eq, ending]
  split
  · exact ⟨_, List.mem_append_right _ List.mem_cons_self⟩
  · exact ⟨_, List.mem_append_right _ (List.mem_cons_of_mem _ List.mem_cons_self)⟩

/-- The one output node. -/
theorem Assembled.sink (h : Assembled settings budget instructions recent batches assembly) {nid : String} {node : Node}
    (found : (nodes assembly.flow).lookup nid = some node) (output : node.kind = .output) : nid = "output" := by
  obtain ⟨pre, last⟩ := output_mem_flow assembly
  obtain ⟨entry, one⟩ := h.admitted.oneOutput
  have mem : (nid, node) ∈ (nodes assembly.flow).filter fun e => e.2.kind = .output :=
    List.mem_filter.mpr ⟨mem_of_lookup found, by simpa using output⟩
  have mem' : ("output", (outputNode pre).node) ∈ (nodes assembly.flow).filter fun e => e.2.kind = .output :=
    List.mem_filter.mpr ⟨mem_of_lookup (h.lookup_nodes last), rfl⟩
  rw [one, List.mem_singleton] at mem mem'
  exact congrArg Prod.fst (mem.trans mem'.symm)

end Listing

section Values

variable {env : Env} {ns : Nodes} {source out : Output} {depth : Nat} {nid : String} {node : Node}

theorem denote_input (found : ns.lookup nid = some node) (input : node.kind = .input)
    (h : env.denote ns source depth nid = .ok out) : out = source := by
  cases depth with
  | zero => cases h
  | succ depth =>
    simp only [Env.denote, found, input] at h
    exact (Except.ok.inj h).symm

theorem denote_output {pre : String} {rest : List String} (found : ns.lookup nid = some node) (output : node.kind = .output)
    (inputs : node.inputs = pre :: rest) (h : env.denote ns source depth nid = .ok out) :
    ∃ depth', env.denote ns source depth' pre = .ok out := by
  cases depth with
  | zero => cases h
  | succ depth =>
    simp only [Env.denote, found, output, inputs] at h
    exact ⟨depth, h⟩

/-- The value of a node between the endpoints comes from the values of its inputs. -/
theorem denote_inner (found : ns.lookup nid = some node) (notInput : node.kind ≠ .input) (notOutput : node.kind ≠ .output)
    (h : env.denote ns source depth nid = .ok out) :
    ∃ depth' parts result, List.Forall₂ (fun pre part => env.denote ns source depth' pre = .ok part) node.inputs parts ∧
      env.evaluate nid node parts = .ok result ∧ result.ok = true ∧ out = result.output := by
  cases depth with
  | zero => cases h
  | succ depth =>
    cases evaluated : node.inputs.mapM (env.denote ns source depth) with
    | error e =>
      cases kind : node.kind with
      | input => exact absurd kind notInput
      | output => exact absurd kind notOutput
      | _ => simp [Env.denote, found, kind, evaluated, bind, Except.bind] at h
    | ok parts =>
      rw [denote_call found notInput notOutput evaluated] at h
      split at h
      · cases h
      · rename_i result evaluates
        split at h
        · rename_i ok
          exact ⟨depth, parts, result, forall₂_of_mapM evaluated, evaluates, ok, (Except.ok.inj h).symm⟩
        · cases h

/-- The result of a node that is neither skipped nor decoded: that of its call, or its first input. -/
theorem evaluate_plain {parts : List Output} {result : Result} (plain : node.skipEmpty = false)
    (untyped : node.outputFormat = none) (h : env.evaluate nid node parts = .ok result) (ok : result.ok = true) :
    (∃ called, env.callNode nid node parts false = .ok called ∧ called.ok = true ∧ result.data = called.data) ∨
      node.onError = some "input" ∧ ∃ v, head (parts.map Output.value) = .ok v ∧ result.data = some v := by
  have skip : skips node (parts.map Output.value) = .ok false := by simp [skips, plain]
  unfold Env.evaluate at h
  simp only [skip, bind, Except.bind] at h
  cases tried : env.tried nid node parts false with
  | error e =>
    rw [tried] at h
    cases h
  | ok first =>
    simp only [tried, fallback] at h
    split at h
    · rename_i fell
      rw [Bool.and_eq_true, decide_eq_true_eq] at fell
      refine .inr ⟨fell.2, ?_⟩
      simp only [bind, Except.bind] at h
      split at h
      · cases h
      · rename_i v value
        obtain rfl := Except.ok.inj h
        exact ⟨v, value, rfl⟩
    · obtain rfl := Except.ok.inj h
      refine .inl ?_
      unfold Env.tried at tried
      split at tried
      · unfold handle at tried
        split at tried
        · obtain rfl := Except.ok.inj tried
          cases ok
        · cases tried
      · rename_i called calls
        have typed : env.typed node false called = .ok called := by
          rw [Env.typed, untyped]
          simp
        simp only [typed] at tried
        split at tried
        · unfold handle at tried
          split at tried
          · obtain rfl := Except.ok.inj tried
            cases ok
          · cases tried
        · rename_i last bounded
          obtain rfl := Except.ok.inj tried
          refine ⟨called, calls, ?_⟩
          unfold sized at bounded
          split at bounded
          · rename_i v data
            simp only [bind, Except.bind] at bounded
            split at bounded
            · cases bounded
            · obtain rfl := Except.ok.inj bounded
              exact ⟨ok, rfl⟩
          · obtain rfl := Except.ok.inj bounded
            exact ⟨ok, rfl⟩

/-- The value of a data node. -/
theorem denote_data (found : ns.lookup nid = some node) (data : node.kind = .data) (plain : node.skipEmpty = false)
    (untyped : node.outputFormat = none) (h : env.denote ns source depth nid = .ok out) :
    ∃ depth' parts v, List.Forall₂ (fun pre part => env.denote ns source depth' pre = .ok part) node.inputs parts ∧
      out.data = some v ∧ (FlowData.run node.operation (parts.map Output.value) = .ok v ∨
        node.onError = some "input" ∧ head (parts.map Output.value) = .ok v) := by
  obtain ⟨depth', parts, result, inputs, evaluates, ok, rfl⟩ :=
    denote_inner found (by rw [data]; decide) (by rw [data]; decide) h
  rcases evaluate_plain plain untyped evaluates ok with ⟨called, calls, -, same⟩ | ⟨falls, v, first, same⟩
  · unfold Env.callNode at calls
    simp only [Bool.false_eq_true, if_false, data, bind, Except.bind] at calls
    split at calls
    · cases calls
    · rename_i v ran
      obtain rfl := Except.ok.inj calls
      exact ⟨depth', parts, v, inputs, same, .inl ran⟩
  · exact ⟨depth', parts, v, inputs, same, .inr ⟨falls, first⟩⟩

end Values

section Classified

variable {floats : Floats} {model : String}

theorem validateReplies_of_mem {answers questions : Fields} {u : Unit}
    (h : validateReplies floats model answers questions = .ok u) {entry : String × Json} (mem : entry ∈ questions) :
    validateReply floats model entry.2 ((answers.lookup entry.1).getD .null) = .ok () := by
  induction questions with
  | nil => cases mem
  | cons first questions ih =>
    obtain ⟨_, reply, rest⟩ := ok_of_bind h
    rcases List.mem_cons.mp mem with rfl | later
    · exact reply
    · exact ih rest later

theorem validateAnswer_choice {answer : Json} {choices : List String} {selected : String}
    (h : validateAnswer floats model answer choices = .ok selected) :
    answer.field "choice" = .str selected ∧ selected ∈ choices := by
  obtain ⟨_, -, h⟩ := ok_of_bind h
  obtain ⟨_, string, h⟩ := ok_of_bind h
  obtain ⟨text, same⟩ := Json.text_of_isStr (of_require string)
  rw [same] at h ⊢
  obtain ⟨_, read, h⟩ := ok_of_bind h
  obtain rfl := Except.ok.inj read
  obtain ⟨_, among, h⟩ := ok_of_bind h
  obtain ⟨_, -, h⟩ := ok_of_bind h
  obtain ⟨_, -, h⟩ := ok_of_bind h
  obtain rfl := Except.ok.inj h
  exact ⟨rfl, by simpa using of_require among⟩

/-- A valid answer to a choice question is one of its criteria. -/
theorem validateReply_choice {question answer : Json} {u : Unit} (choice : question.field "type" = .str "choice")
    (h : validateReply floats model question answer = .ok u) :
    ∃ selected, answer.field "choice" = .str selected ∧ selected ∈ names (question.field "criteria") := by
  unfold validateReply at h
  rw [choice] at h
  obtain ⟨_, -, h⟩ := ok_of_bind h
  obtain ⟨_, -, h⟩ := ok_of_bind h
  cases valid : validateAnswer floats model answer (names (question.field "criteria")) with
  | error e =>
    simp only [valid] at h
    cases h
  | ok selected => exact ⟨selected, validateAnswer_choice valid⟩

theorem validateResponse_choice {decision valid : Json} {questions : Fields}
    (h : validateResponse floats decision questions = .ok valid) {entry : String × Json} (mem : entry ∈ questions)
    (choice : entry.2.field "type" = .str "choice") :
    ∃ selected, ((valid.field "answers").field entry.1).field "choice" = .str selected ∧
      selected ∈ names (entry.2.field "criteria") := by
  obtain ⟨_, -, h⟩ := ok_of_bind h
  obtain ⟨model, -, h⟩ := ok_of_bind h
  obtain ⟨_, dict, h⟩ := ok_of_bind h
  obtain ⟨_, replies, h⟩ := ok_of_bind h
  obtain ⟨_, -, h⟩ := ok_of_bind h
  obtain rfl := Except.ok.inj h
  have answered := validateReplies_of_mem replies mem
  have isObj : (decision.field "answers").isObj = true := (Bool.and_eq_true _ _ ▸ of_require dict).1
  have read : ((Json.obj [("model", .str model), ("answers", decision.field "answers"),
      ("usage", (decision.field "usage").orDict)]).field "answers").field entry.1 =
      ((fields (decision.field "answers")).lookup entry.1).getD .null := by
    cases shape : decision.field "answers" with
    | obj fields => rfl
    | _ =>
      rw [shape] at isObj
      cases isObj
  rw [read]
  exact validateReply_choice choice answered

/-- A call of a decision node that is ok had a valid answer. -/
theorem runNode_decision {models : Models} {flow : Flow} {nid : String} {node : Node} {preset : PresetNode} {prompt : Json}
    {result : Result} (found : flow.lookup nid = some preset) (decision : preset.node.kind = .decision)
    (h : (models.host flow).env.runNode nid node prompt = .ok result) (ok : result.ok = true) :
    ∃ returned decision valid, models.call nid preset prompt = .returned returned decision ∧ returned.ok = true ∧
      validateResponse models.floats decision preset.questions = .ok valid ∧
      result.data = some (valid.field "answers") := by
  have call : (models.host flow).call nid node prompt = models.callNode nid preset prompt := by
    simp only [Models.host, found]
  change FlowCost.Host.runNode _ nid node prompt = _ at h
  unfold FlowCost.Host.runNode at h
  split at h
  · obtain rfl := Except.ok.inj h
    cases ok
  · cases h
  · rw [call] at h
    unfold Models.callNode at h
    rw [if_pos decision] at h
    cases payload : validatePayload (.obj [("state", prompt), ("questions", .obj preset.questions)]) with
    | error e =>
      simp only [payload] at h
      obtain rfl := Except.ok.inj h
      cases ok
    | ok _ =>
      cases reply : models.call nid preset prompt with
      | raised name text =>
        simp only [payload, reply] at h
        obtain rfl := Except.ok.inj h
        cases ok
      | returned returned answers =>
        cases passed : returned.ok with
        | false =>
          simp only [payload, reply, passed, Bool.false_eq_true, if_false] at h
          obtain rfl := Except.ok.inj h
          cases ok
        | true =>
          cases valid : validateResponse models.floats answers preset.questions with
          | error e =>
            simp only [payload, reply, passed, if_true, valid] at h
            obtain rfl := Except.ok.inj h
            cases ok
          | ok value =>
            simp only [payload, reply, passed, if_true, valid] at h
            obtain rfl := Except.ok.inj h
            exact ⟨returned, answers, value, rfl, passed, valid, rfl⟩

end Classified

section Operations

theorem has_of_mem {fields : Fields} {key : String} {value : Json} (mem : (key, value) ∈ fields) : has fields key = true := by
  obtain ⟨value', found⟩ := exists_lookup (List.mem_map_of_mem (f := Prod.fst) mem)
  rw [has, found]
  rfl

theorem mem_of_has {fields : Fields} {key : String} (h : has fields key = true) : ∃ value, (key, value) ∈ fields := by
  obtain ⟨value, found⟩ := Option.isSome_iff_exists.mp h
  exact ⟨value, mem_of_lookup found⟩

/-- A map that keeps the keys. -/
theorem has_map {g : String × Json → String × Json} (same : ∀ entry, (g entry).1 = entry.1) (fields : Fields)
    (key : String) : has (fields.map g) key = has fields key := by
  have keys : (fields.map g).map (·.1) = fields.map (·.1) := by
    rw [List.map_map]
    exact List.map_congr_left fun entry _ => same entry
  have iff : has (fields.map g) key = true ↔ has fields key = true := by
    constructor
    · intro there
      obtain ⟨value, mem⟩ := mem_of_has there
      have listed : key ∈ fields.map (·.1) := keys ▸ List.mem_map_of_mem (f := Prod.fst) mem
      obtain ⟨entry, within, rfl⟩ := List.mem_map.mp listed
      exact has_of_mem within
    · intro there
      obtain ⟨value, mem⟩ := mem_of_has there
      have listed : key ∈ (fields.map g).map (·.1) := keys ▸ List.mem_map_of_mem (f := Prod.fst) mem
      obtain ⟨entry, within, rfl⟩ := List.mem_map.mp listed
      exact has_of_mem within
  exact Bool.eq_iff_iff.mpr iff

theorem records_obj {v : Json} {fields : Fields} (h : records v = .ok fields) : v = .obj fields := by
  cases v with
  | obj entries =>
    simp only [records] at h
    split at h
    · cases h
    · rw [Except.ok.inj h]
  | _ => cases h

theorem equal_str {v : Json} {text : String} (h : FlowData.equal v (.str text) = true) : v = .str text := by
  cases v with
  | str s => simpa [FlowData.equal] using h
  | _ => simp [FlowData.equal, FlowData.number?] at h

/-- What `select` takes from its first input. -/
theorem run_select {field : String} {equals base other v : Json}
    (h : FlowData.run (.select field equals) [base, other] = .ok v) :
    ∃ fields others, base = .obj fields ∧ other = .obj others ∧
      v = .obj (fields.filter fun entry => FlowData.selected others field equals entry.1) := by
  obtain ⟨base', first, h⟩ := ok_of_bind h
  obtain rfl := Except.ok.inj first
  obtain ⟨fields, read, h⟩ := ok_of_bind h
  obtain ⟨other', second, h⟩ := ok_of_bind h
  obtain rfl := Except.ok.inj second
  obtain ⟨others, read', h⟩ := ok_of_bind h
  exact ⟨fields, others, records_obj read, records_obj read', (Except.ok.inj h).symm⟩

/-- What `overlay` leaves out was removed. -/
theorem run_overlay {limit least : Option Int} {shrink : Bool} {base other removed v : Json}
    (h : FlowData.run (.overlay limit least shrink) [base, other, removed] = .ok v) :
    ∃ fields removals result, base = .obj fields ∧ removed = .obj removals ∧ v = .obj result ∧
      ∀ key, has fields key = true → has result key = false → has removals key = true := by
  obtain ⟨base', first, h⟩ := ok_of_bind h
  obtain rfl := Except.ok.inj first
  obtain ⟨fields, read, h⟩ := ok_of_bind h
  obtain ⟨other', second, h⟩ := ok_of_bind h
  obtain ⟨others, -, h⟩ := ok_of_bind h
  obtain ⟨removed', third, h⟩ := ok_of_bind h
  obtain rfl := Except.ok.inj third
  obtain ⟨removals, read', h⟩ := ok_of_bind h
  dsimp only at h
  unfold FlowData.overlay at h
  split at h
  · cases h
  · obtain rfl := Except.ok.inj h
    refine ⟨fields, removals, _, records_obj read, records_obj read', rfl, fun key there gone => ?_⟩
    by_contra stays
    obtain ⟨value, mem⟩ := mem_of_has there
    have kept : (key, value) ∈ fields.filter fun entry => !has removals entry.1 :=
      List.mem_filter.mpr ⟨mem, by simpa using stays⟩
    rw [has_map fun entry => ?_, has_of_mem kept] at gone
    · cases gone
    · split
      · split <;> rfl
      · rfl

theorem has_insert (key other : String) (value : Json) (d : Fields) :
    has (insert key value d) other = true ↔ other = key ∨ has d other = true := by
  unfold has
  rw [lookup_insert]
  split
  · rename_i same
    simp [same]
  · rename_i different
    simp [different]

theorem has_update (fields : Fields) :
    ∀ (d : Fields) (key : String), has (fields.foldl (fun d entry => insert entry.1 entry.2 d) d) key = true ↔
      has fields key = true ∨ has d key = true := by
  induction fields with
  | nil =>
    intro d key
    simp [has]
  | cons entry fields ih =>
    intro d key
    rw [List.foldl_cons, ih, has_insert]
    by_cases same : key = entry.1
    · simp [has, same]
    · have tail : has (entry :: fields) key = has fields key := by
        unfold has
        rw [List.lookup_cons, beq_eq_false_iff_ne.mpr same]
      rw [tail]
      simp [same]

/-- A union has the keys of its parts. -/
theorem union_keys (parts : List Json) :
    ∀ {result out : Fields}, FlowData.union result parts = .ok out →
      (∀ key, has result key = true → has out key = true) ∧
      ∀ part ∈ parts, ∃ fields, part = .obj fields ∧ ∀ key, has fields key = true → has out key = true := by
  induction parts with
  | nil =>
    intro result out h
    have same := records_obj h
    obtain rfl := Json.obj.inj same
    refine ⟨fun key there => there, fun part mem => ?_⟩
    cases mem
  | cons part parts ih =>
    intro result out h
    unfold FlowData.union at h
    obtain ⟨fields, read, h⟩ := ok_of_bind h
    split at h
    · cases h
    · obtain ⟨kept, each⟩ := ih h
      refine ⟨fun key there => kept key ((has_update fields result key).mpr (.inr there)), fun other mem => ?_⟩
      rcases List.mem_cons.mp mem with rfl | later
      · exact ⟨fields, records_obj read, fun key there => kept key ((has_update fields result key).mpr (.inl there))⟩
      · exact each other later

end Operations

section Chain

variable {models : Models} {settings : Settings} {budget : Int} {instructions : List Json} {recent : List String}
  {batches : List (List Fragment)} {assembly : Assembly} {source out : Output} {depth i : Nat} {batch : List Fragment}

/-- The state a batch is classified by. -/
def stateOf (instructions : List Json) (recent : List String) (batch : List Fragment) : Json :=
  .obj [("instructions", .arr instructions), ("recent_evidence", .arr (recent.map .str)),
    ("fragments", .arr (batch.map shown))]

/-- The texts of a batch. -/
def itemsOf (batch : List Fragment) : Fields := batch.map fun f => (f.id, .str (FlowData.encode (.arr f.messages)))

/-- The node that classifies a batch. -/
def classifier (settings : Settings) (i : Nat) (batch : List Fragment) : PresetNode :=
  (localize (batchKey i) ("classify", classifyNode settings (questions batch))).2

/-- A fragment of a batch was classified `archive` by a valid answer. -/
def ArchivedBy (models : Models) (settings : Settings) (instructions : List Json) (recent : List String) (i : Nat)
    (batch : List Fragment) (id : String) : Prop :=
  ∃ returned decision valid,
    models.call (nodeId i "classify") (classifier settings i batch) (stateOf instructions recent batch) =
      .returned returned decision ∧
    returned.ok = true ∧ validateResponse models.floats decision (questions batch) = .ok valid ∧
    ((valid.field "answers").field id).field "choice" = .str "archive"

theorem Assembled.mem_flow (h : Assembled settings budget instructions recent batches assembly)
    (found : batches[i]? = some batch) {name : String} {preset : PresetNode}
    (mem : (name, preset) ∈ template settings budget (questions batch)) :
    (nodeId i name, (localize (batchKey i) (name, preset)).2) ∈ assembly.flow := by
  rw [flow_eq]
  exact List.mem_append_left _ (h.mem_nodes found mem)

theorem mem_flow_of_ending (entry : String × PresetNode) (mem : entry ∈ ending assembly) : entry ∈ assembly.flow := by
  rw [flow_eq]
  exact List.mem_append_right _ mem

theorem Assembled.mem_input (h : Assembled settings budget instructions recent batches assembly) :
    ("input", inputNode) ∈ assembly.flow := by
  rw [flow_eq, h.listing]
  exact List.mem_cons_self

/-- What `project` takes from the flow's input. -/
theorem value_project (h : Assembled settings budget instructions recent batches assembly)
    (given : source.data = some (.obj assembly.inputs)) (found : batches[i]? = some batch) {name : String} {w : Json}
    (mem : (name, dataNode (.project [name]) ["input"]) ∈ template settings budget (questions batch))
    (there : (data instructions recent batch).field? name = some w)
    (value : (models.host assembly.flow).env.denote (nodes assembly.flow) source depth (nodeId i name) = .ok out) :
    out.value = w := by
  have listed := h.mem_flow found mem
  obtain ⟨depth', parts, v, inputs, same, ran | ⟨falls, -⟩⟩ := denote_data (h.lookup_nodes listed) rfl rfl rfl value
  · obtain ⟨part, rfl, first⟩ := forall₂_one inputs
    have part' : part = source := denote_input (h.lookup_nodes h.mem_input) rfl first
    have batch' : (Json.obj assembly.inputs).field? (batchKey i) = some (data instructions recent batch) := h.inputs i batch found
    have input : part.value = .obj assembly.inputs := by
      rw [part', Output.value, given]
      rfl
    rw [List.map_cons, List.map_nil, input] at ran
    have projected : FlowData.project (.obj assembly.inputs) [batchKey i, name] = .ok v := ran
    rw [FlowData.project, batch'] at projected
    dsimp only at projected
    rw [FlowData.project, there] at projected
    dsimp only at projected
    rw [Output.value, same]
    exact (Except.ok.inj projected).symm
  · cases falls

theorem value_items (h : Assembled settings budget instructions recent batches assembly)
    (given : source.data = some (.obj assembly.inputs)) (found : batches[i]? = some batch)
    (value : (models.host assembly.flow).env.denote (nodes assembly.flow) source depth (nodeId i "items") = .ok out) :
    out.value = .obj (itemsOf batch) :=
  value_project h given found (by simp [template]) rfl value

theorem value_state (h : Assembled settings budget instructions recent batches assembly)
    (given : source.data = some (.obj assembly.inputs)) (found : batches[i]? = some batch)
    (value : (models.host assembly.flow).env.denote (nodes assembly.flow) source depth (nodeId i "state") = .ok out) :
    out.value = stateOf instructions recent batch :=
  value_project h given found (by simp [template]) rfl value

/-- The classification of a batch is its state again, or comes from a valid answer. -/
theorem value_classify (h : Assembled settings budget instructions recent batches assembly)
    (given : source.data = some (.obj assembly.inputs)) (found : batches[i]? = some batch)
    (value : (models.host assembly.flow).env.denote (nodes assembly.flow) source depth (nodeId i "classify") = .ok out) :
    out.value = stateOf instructions recent batch ∨ ∃ returned decision valid,
      models.call (nodeId i "classify") (classifier settings i batch) (stateOf instructions recent batch) =
        .returned returned decision ∧
      returned.ok = true ∧ validateResponse models.floats decision (questions batch) = .ok valid ∧
      out.value = valid.field "answers" := by
  have preset : ("classify", classifyNode settings (questions batch)) ∈ template settings budget (questions batch) := by
    simp [template]
  have listed := h.mem_flow found preset
  obtain ⟨depth', parts, result, inputs, evaluates, ok, rfl⟩ :=
    denote_inner (h.lookup_nodes listed) (fun same => by cases same) (fun same => by cases same) value
  obtain ⟨part, rfl, first⟩ := forall₂_one inputs
  have state : part.value = stateOf instructions recent batch := value_state h given found first
  rcases evaluate_plain rfl rfl evaluates ok with ⟨called, calls, calledOk, same⟩ | ⟨-, v, first, same⟩
  · have ran : (models.host assembly.flow).env.runNode (nodeId i "classify") (classifier settings i batch).node
        (stateOf instructions recent batch) = .ok called := by
      rw [← state]
      exact calls
    obtain ⟨returned, decision, valid, reply, passed, validated, data⟩ :=
      runNode_decision (h.lookup_flow listed) rfl ran calledOk
    refine .inr ⟨returned, decision, valid, reply, passed, validated, ?_⟩
    rw [Output.value, Result.output, same, data]
    rfl
  · left
    have input : v = part.value := (Except.ok.inj first).symm
    rw [Output.value, Result.output, same, ← state, input]
    rfl

/-- What is removed was classified `archive`. -/
theorem value_removed (h : Assembled settings budget instructions recent batches assembly)
    (given : source.data = some (.obj assembly.inputs)) (found : batches[i]? = some batch)
    (value : (models.host assembly.flow).env.denote (nodes assembly.flow) source depth (nodeId i "removed") = .ok out)
    {removals : Fields} (shape : out.value = .obj removals) {id : String} (there : has removals id = true)
    (plain : id ∉ ["instructions", "recent_evidence", "fragments"]) :
    ArchivedBy models settings instructions recent i batch id := by
  have preset : ("removed", dataNode (.select "choice" (.str "archive")) ["items", "classify"]) ∈
      template settings budget (questions batch) := by simp [template]
  have listed := h.mem_flow found preset
  obtain ⟨depth', parts, v, inputs, same, ran | ⟨falls, -⟩⟩ := denote_data (h.lookup_nodes listed) rfl rfl rfl value
  · cases inputs with
    | @cons _ items _ _ first rest =>
      obtain ⟨classified, rfl, second⟩ := forall₂_one rest
      obtain ⟨fields, others, base, other, rfl⟩ := run_select ran
      rw [Output.value, same] at shape
      obtain rfl := Json.obj.inj shape
      obtain ⟨value', mem⟩ := mem_of_has there
      have selects : FlowData.selected others "choice" (.str "archive") id = true := (List.mem_filter.mp mem).2
      rcases value_classify h given found second with fell | ⟨returned, decision, valid, reply, passed, validated, answers⟩
      · rw [fell] at other
        obtain rfl := Json.obj.inj other
        have absent : ([("instructions", Json.arr instructions), ("recent_evidence", .arr (recent.map .str)),
            ("fragments", .arr (batch.map shown))] : Fields).lookup id = none := by
          rw [List.lookup_eq_none_iff]
          intro entry within
          have key : entry.1 ∈ ["instructions", "recent_evidence", "fragments"] := List.mem_map_of_mem (f := Prod.fst) within
          exact bne_iff_ne.mpr fun equal => plain (equal ▸ key)
        rw [FlowData.selected, absent] at selects
        cases selects
      · rw [answers] at other
        unfold FlowData.selected at selects
        split at selects
        · rename_i entry at_id
          refine ⟨returned, decision, valid, reply, passed, validated, ?_⟩
          have answer : (Json.obj others).field id = .obj entry := by rw [Json.field, Json.field?, at_id, Option.getD_some]
          rw [other, answer]
          exact equal_str selects
        · cases selects
  · cases falls

/-- A fragment of a batch that is missing from its patch was classified `archive`. -/
theorem value_patch (h : Assembled settings budget instructions recent batches assembly)
    (given : source.data = some (.obj assembly.inputs)) (found : batches[i]? = some batch)
    (value : (models.host assembly.flow).env.denote (nodes assembly.flow) source depth (nodeId i "patch") = .ok out)
    {fields : Fields} (shape : out.value = .obj fields) {f : Fragment} (mem : f ∈ batch)
    (gone : has fields f.id = false) (plain : f.id ∉ ["instructions", "recent_evidence", "fragments"]) :
    ArchivedBy models settings instructions recent i batch f.id := by
  have preset : ("patch", patchNode budget) ∈ template settings budget (questions batch) := by simp [template]
  have listed := h.mem_flow found preset
  have offered : has (itemsOf batch) f.id = true :=
    has_of_mem (List.mem_map_of_mem (f := fun f : Fragment => (f.id, Json.str (FlowData.encode (.arr f.messages)))) mem)
  obtain ⟨depth', parts, v, inputs, same, from_⟩ := denote_data (h.lookup_nodes listed) rfl rfl rfl value
  cases inputs with
  | @cons _ items _ _ first rest =>
    cases rest with
    | @cons _ generated _ _ _ rest =>
      obtain ⟨removed, rfl, third⟩ := forall₂_one rest
      have base := value_items h given found first
      rw [Output.value, same] at shape
      rcases from_ with ran | ⟨-, fell⟩
      · obtain ⟨fields', removals, result, base', removed', rfl, gone'⟩ := run_overlay ran
        rw [base] at base'
        obtain rfl := Json.obj.inj base'
        obtain rfl := Json.obj.inj shape
        exact value_removed h given found third removed' (gone' f.id offered gone) plain
      · have input : v = items.value := (Except.ok.inj fell).symm
        rw [input, base] at shape
        obtain rfl := Json.obj.inj shape
        rw [gone] at offered
        cases offered

/-- A fragment of a batch that is missing from what the flow returns was classified `archive`. -/
theorem value_output (h : Assembled settings budget instructions recent batches assembly)
    (given : source.data = some (.obj assembly.inputs))
    (value : (models.host assembly.flow).env.denote (nodes assembly.flow) source depth "output" = .ok out)
    {fields : Fields} (shape : out.data = some (.obj fields)) (found : batches[i]? = some batch) {f : Fragment} (mem : f ∈ batch)
    (gone : fields.lookup f.id = none) (plain : f.id ∉ ["instructions", "recent_evidence", "fragments"]) :
    ArchivedBy models settings instructions recent i batch f.id := by
  have bound : i < batches.length := (List.getElem?_eq_some_iff.mp found).1
  have patch : nodeId i "patch" ∈ assembly.patches := by
    rw [h.patches]
    exact List.mem_map_of_mem (List.mem_range.mpr bound)
  have some_ : assembly.patches.isEmpty = false := List.isEmpty_eq_false_iff.mpr (List.ne_nil_of_mem patch)
  have last : ending assembly = [("merged", dataNode .union assembly.patches), ("output", outputNode "merged")] := by
    rw [ending, some_]
    rfl
  have merged : ("merged", dataNode .union assembly.patches) ∈ assembly.flow :=
    mem_flow_of_ending _ (by rw [last]; exact List.mem_cons_self)
  have output : ("output", outputNode "merged") ∈ assembly.flow :=
    mem_flow_of_ending _ (by rw [last]; exact List.mem_cons_of_mem _ List.mem_cons_self)
  obtain ⟨depth', value⟩ := denote_output (h.lookup_nodes output) rfl rfl value
  obtain ⟨depth', parts, v, inputs, same, ran | ⟨falls, -⟩⟩ := denote_data (h.lookup_nodes merged) rfl rfl rfl value
  · obtain ⟨part, mem', patched⟩ : ∃ part ∈ parts,
        (models.host assembly.flow).env.denote (nodes assembly.flow) source depth' (nodeId i "patch") = .ok part :=
      forall₂_left inputs patch
    rw [same] at shape
    obtain rfl := Option.some.inj shape
    cases united : FlowData.union [] (parts.map Output.value) with
    | error e =>
      have raised : FlowData.run .union (parts.map Output.value) = .error e := by rw [FlowData.run, united]; rfl
      rw [show FlowData.run .union (parts.map Output.value) = .ok (.obj fields) from ran] at raised
      cases raised
    | ok result =>
      have returned : FlowData.run .union (parts.map Output.value) = .ok (.obj result) := by rw [FlowData.run, united]; rfl
      rw [show FlowData.run .union (parts.map Output.value) = .ok (.obj fields) from ran] at returned
      obtain rfl := Json.obj.inj (Except.ok.inj returned)
      obtain ⟨patchFields, shape', keys⟩ := (union_keys _ united).2 part.value (List.mem_map_of_mem mem')
      refine value_patch h given found patched shape' mem ?_ plain
      refine Bool.eq_false_iff.mpr fun there => ?_
      have := keys f.id there
      rw [has, gone] at this
      cases this
  · cases falls

end Chain

end Unhardcoded.Guarantees.Compaction
