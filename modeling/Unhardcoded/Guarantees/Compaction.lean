import Unhardcoded.Guarantees.CompactionFlow
import Unhardcoded.Guarantees.CompactionUnits

/-!
# Compaction keeps a conversation whole

Whatever the models behind the flow do, the fragments of the conversation are kept,
summarised or archived as wholes, in order; a protected fragment is kept; only what was
seen in full and validly classified is archived; and the result is smaller, or the
conversation itself.
-/

namespace Unhardcoded.Guarantees.Compaction

open Unhardcoded.Python
open Unhardcoded.Source
open Unhardcoded.Source.Compaction
open Unhardcoded.Source.DecisionProtocol
open Unhardcoded.Source.FlowData (Fields)
open Unhardcoded.Source.FlowRunner
open Unhardcoded.Guarantees.FlowRunner

/-- A message that stays: pinned, of the system or the developer, or recent. -/
def Protected (settings : Settings) (messages : List Json) (i : Nat) : Prop :=
  (i : Int) ∈ settings.pinnedIndices.getD (withRole messages ["user"]) ∨
    (∃ m, messages[i]? = some m ∧ (m.field "role" = .str "system" ∨ m.field "role" = .str "developer")) ∨
    (messages.length : Int) - settings.keepRecent ≤ i

/-- What stands for a fragment under an action. -/
inductive Renders (f : Fragment) : Action → List Json → Prop where
  | keep : Renders f .keep f.messages
  | summarize (text : String) : Renders f .summarize [summary f text]
  | archive : Renders f .archive []

/-- A fragment offered with its whole evidence and validly classified `archive`. -/
structure Archived (models : Models) (prepared : Prepared) (f : Fragment) : Prop where
  included : f.id ∈ prepared.included
  classified : ∃ i preset returned decision valid,
    .obj [("id", .str f.id), ("evidence", .str (view f))] ∈
      (((prepared.flowInput.field (batchKey i)).field "state").field "fragments").elems ∧
    prepared.flow.lookup (nodeId i "classify") = some preset ∧ (f.id, question criteria) ∈ preset.questions ∧
    models.call (nodeId i "classify") preset ((prepared.flowInput.field (batchKey i)).field "state") =
      .returned returned decision ∧
    returned.ok = true ∧ validateResponse models.floats decision preset.questions = .ok valid ∧
    ((valid.field "answers").field f.id).field "choice" = .str "archive"

/-- The guarantees of a compaction. -/
structure Safe (models : Models) (settings : Settings) (messages : List Json) (prepared : Prepared) (report : Report) :
    Prop where
  partition : prepared.fragments.flatMap Fragment.indices = List.range messages.length
  slices : ∀ f ∈ prepared.fragments, f.indices ≠ [] ∧ f.messages.map some = f.indices.map (messages[·]?)
  order : report.manifest.map (·.1) = prepared.fragments ∧ ∃ pieces : List (List Json),
    List.Forall₂ (fun entry piece => Renders entry.1 entry.2 piece) report.manifest pieces ∧
    report.messages = pieces.flatten
  protects : ∀ entry ∈ report.manifest, ∀ i ∈ entry.1.indices, Protected settings messages i → entry.2 = .keep
  tools : Answered messages → Answered report.messages ∧
    ∀ entry ∈ report.manifest, ∀ j ∈ entry.1.indices, ∀ a, Answers messages a j → a ∈ entry.1.indices
  archives : ∀ entry ∈ report.manifest, entry.2 = .archive → Archived models prepared entry.1
  size : size (.arr report.messages) < size (.arr messages) ∨
    report.messages = messages ∧ ∀ entry ∈ report.manifest, entry.2 = .keep

section Prepare

variable {settings : Settings} {messages : List Json} {instructions : List Json} {texts : List String}

/-- Every fragment of a batching is of a kind. -/
def Only (P : Fragment → Prop) (b : Batching) : Prop :=
  (∀ batch ∈ b.batches, ∀ f ∈ batch, P f) ∧ ∀ f ∈ b.batch, P f

theorem only_flush {P : Fragment → Prop} {b : Batching} (h : Only P b) : Only P (flush b) := by
  unfold flush
  split
  · exact h
  · refine ⟨fun batch mem => ?_, fun f mem => by cases mem⟩
    rcases List.mem_append.mp mem with old | last
    · exact h.1 batch old
    · rw [List.mem_singleton.mp last]
      exact h.2

theorem only_add {P : Fragment → Prop} {b : Batching} (h : Only P b) {f : Fragment} (new : P f) :
    Only P { b with batch := b.batch ++ [f] } := by
  refine ⟨h.1, fun g mem => ?_⟩
  rcases List.mem_append.mp mem with old | last
  · exact h.2 g old
  · rwa [List.mem_singleton.mp last]

theorem only_place {P : Fragment → Prop} {b : Batching} (h : Only P b) {f : Fragment} (new : P f) :
    Only P (place instructions texts b f) := by
  have full : Only P (if b.batch.length = 8 then flush b else b) := by
    split
    · exact only_flush h
    · exact h
  unfold place
  dsimp only
  split
  · exact only_add full new
  · split
    · exact only_add (only_flush full) new
    · exact ⟨(only_flush full).1, (only_flush full).2⟩

theorem mem_batching {candidates : List Fragment} {batch : List Fragment} {f : Fragment}
    (mem : batch ∈ (batching instructions texts candidates).batches) (within : f ∈ batch) : f ∈ candidates := by
  have all : ∀ l : List Fragment, (∀ f ∈ l, f ∈ candidates) → ∀ b, Only (· ∈ candidates) b →
      Only (· ∈ candidates) (l.foldl (place instructions texts) b) := by
    intro l
    induction l with
    | nil => exact fun _ b h => h
    | cons f l ih =>
      intro sub b h
      exact ih (fun g mem => sub g (List.mem_cons_of_mem _ mem)) _ (only_place h (sub f List.mem_cons_self))
  have empty : Only (· ∈ candidates) (⟨[], [], []⟩ : Batching) := by
    constructor
    · intro batch mem
      cases mem
    · intro f mem
      cases mem
  exact (only_flush (all _ (fun f mem => List.mem_of_mem_take mem) _ empty)).1 batch mem f within

/-- What `prepare` returns. -/
structure PreparedBy (settings : Settings) (messages instructions : List Json) (batches : List (List Fragment))
    (assembly : Assembly) (prepared : Prepared) : Prop where
  assembled : Assembled settings (budget settings messages) instructions (recent settings messages) batches assembly
  candidates : ∀ batch ∈ batches, ∀ f ∈ batch, f ∈ candidates settings messages
  flow : prepared.flow = assembly.flow
  flowInput : prepared.flowInput = .obj assembly.inputs
  included : prepared.included = assembly.included
  fragments : prepared.fragments = units messages
  messages : prepared.messages = messages

theorem prepare_spec {prepared : Prepared} (h : prepare settings messages = .ok prepared) :
    ∃ instructions batches assembly, PreparedBy settings messages instructions batches assembly prepared := by
  obtain ⟨instructions, -, h⟩ := ok_of_bind h
  obtain ⟨assembly, added, h⟩ := ok_of_bind h
  obtain ⟨_, -, h⟩ := ok_of_bind h
  obtain rfl := Except.ok.inj h
  have empty (reasons : List String) : Assembled settings (budget settings messages) instructions
      (recent settings messages) [] ⟨[("input", inputNode)], [], [], [], reasons⟩ :=
    ⟨rfl, fun i batch found => by simp at found, rfl, rfl⟩
  obtain ⟨taken, before, assembled⟩ := addBatches_spec _ (empty _) added
  refine ⟨instructions, taken, assembly, assembled, fun batch mem f within => ?_, rfl, rfl, rfl, rfl, rfl⟩
  exact mem_batching (List.mem_of_mem_take (before.subset mem)) within

end Prepare

section Execute

variable {models : Models} {settings : Settings} {messages instructions : List Json} {batches : List (List Fragment)}
  {assembly : Assembly} {prepared : Prepared}

/-- What `execute` returns is the recursive evaluation of the flow's output. -/
theorem execute_spec (h : PreparedBy settings messages instructions batches assembly prepared)
    (admits : ∀ ns ns', models.flowAdmit ns = .ok ns' → ns'.Perm ns) {values : Json}
    (ran : models.execute prepared = .ok (some values)) :
    ∃ source out depth, source.data = some (.obj assembly.inputs) ∧
      (models.host assembly.flow).env.denote (nodes assembly.flow) source depth "output" = .ok out ∧
      out.data = some values := by
  obtain ⟨admitted, accepted, ran⟩ := ok_of_bind ran
  rw [h.flow] at accepted ran
  rw [h.flowInput] at ran
  have perm : admitted.Perm (nodes assembly.flow) := admits _ _ accepted
  have here : Admitted (nodes assembly.flow) := h.assembled.admitted
  have there : Admitted admitted := here.perm perm
  obtain ⟨order, ordered, legal⟩ := topoOrder_legal there
  cases given : inputOutput ⟨"", some (.obj assembly.inputs)⟩ with
  | error e =>
    simp only [Env.runFlow, given] at ran
    cases ran
  | ok source =>
    have data : source.data = some (.obj assembly.inputs) := by
      obtain ⟨_, -, given⟩ := ok_of_bind given
      obtain rfl := Except.ok.inj given
      rfl
    have returns : Returns (models.host assembly.flow).env admitted source order _ := runOrder_spec there legal given
    simp only [Env.runFlow, given, ordered] at ran
    cases ended : (models.host assembly.flow).env.runOrder admitted order ⟨"", some (.obj assembly.inputs)⟩ with
    | mk outcome run =>
      rw [ended] at ran returns
      cases outcome with
      | raised e => cases ran
      | failed nid error => cases ran
      | done final =>
        obtain ⟨-, sink, node, found, kind, evaluates⟩ := returns
        refine ⟨source, final, admitted.length, data, ?_, Except.ok.inj ran⟩
        rw [lookup_perm here.distinct perm] at found
        rw [denote_perm here.distinct perm, h.assembled.sink found kind] at evaluates
        exact evaluates

end Execute

section Finish

variable {models : Models} {settings : Settings} {messages instructions : List Json} {batches : List (List Fragment)}
  {assembly : Assembly} {prepared : Prepared} {included : List String} {values : Option Json} {f : Fragment}

theorem renders_render (included : List String) (values : Option Json) (f : Fragment) :
    Renders f (render included values f).1 (render included values f).2 := by
  unfold render
  split
  · split
    · split
      · exact .archive
      · split
        · exact .summarize _
        · exact .keep
      · exact .keep
    · exact .keep
  · exact .keep

theorem Renders.answered {action : Action} {piece : List Json} (h : Renders f action piece)
    (fragment : Answered f.messages) : Answered piece := by
  cases h with
  | keep => exact fragment
  | summarize text => exact answered_singleton rfl
  | archive => exact answered_nil

theorem render_archive (h : (render included values f).1 = .archive) :
    ∃ fields, values = some (.obj fields) ∧ f.id ∈ included ∧ fields.lookup f.id = none := by
  unfold render at h
  split at h
  · rename_i fields
    split at h
    · rename_i offered
      split at h
      · rename_i gone
        exact ⟨fields, rfl, offered, gone⟩
      · split at h <;> cases h
      · cases h
    · cases h
  · cases h

theorem render_excluded (h : f.id ∉ included) : (render included values f).1 = .keep := by
  unfold render
  split
  · rw [if_neg h]
  · rfl

/-- The manifest and the messages of a compaction: as rendered, or as they were. -/
theorem finish_cases (prepared : Prepared) (values : Option Json) :
    (size (.arr (finish prepared values).messages) < size (.arr prepared.messages) ∧
      (finish prepared values).manifest =
        prepared.fragments.map (fun f => (f, (render prepared.included values f).1)) ∧
      (finish prepared values).messages =
        (prepared.fragments.map fun f => (render prepared.included values f).2).flatten) ∨
    (finish prepared values).manifest = prepared.fragments.map (fun f => (f, .keep)) ∧
      (finish prepared values).messages = prepared.messages := by
  have zipped (g : Fragment → Action) (l : List Fragment) : l.zip (l.map g) = l.map fun f => (f, g f) := by
    induction l with
    | nil => rfl
    | cons f l ih => rw [List.map_cons, List.zip_cons_cons, List.map_cons, ih]
  unfold finish
  dsimp only
  split
  · right
    rw [List.map_map]
    exact ⟨zipped _ _, rfl⟩
  · rename_i smaller
    left
    rw [List.map_map]
    refine ⟨not_le.mp smaller, zipped _ _, ?_⟩
    rw [List.flatMap_map]
    rfl

/-- An included fragment is a candidate of a batch. -/
theorem PreparedBy.offered (h : PreparedBy settings messages instructions batches assembly prepared)
    (mem : f ∈ units messages) (offered : f.id ∈ prepared.included) :
    candidate settings messages f = true ∧ ∃ (i : Nat) (batch : List Fragment), batches[i]? = some batch ∧ f ∈ batch := by
  rw [h.included, h.assembled.included] at offered
  obtain ⟨batch, within, listed⟩ := List.mem_flatMap.mp offered
  obtain ⟨g, there, same⟩ := List.mem_map.mp listed
  obtain ⟨unit, kept⟩ := List.mem_filter.mp (h.candidates batch within g there)
  obtain rfl : g = f := (units_spec messages).eq_of_id unit mem same
  obtain ⟨i, found⟩ := List.mem_iff_getElem?.mp within
  exact ⟨kept, i, batch, found, there⟩

theorem mem_pins {i : Nat} (bound : i < messages.length) (h : Protected settings messages i) :
    (i : Int) ∈ pins settings messages := by
  rcases h with pin | ⟨m, found, role⟩ | last
  · exact List.mem_append_left _ (List.mem_append_left _ pin)
  · refine List.mem_append_left _ (List.mem_append_right _ (List.mem_filterMap.mpr ⟨(m, i), ?_, ?_⟩))
    · exact List.mem_zipIdx_iff_getElem?.mpr found
    · rcases role with role | role <;> simp [role, Json.isText]
  · refine List.mem_append_right _ (List.mem_filter.mpr ⟨?_, ?_⟩)
    · exact List.mem_map_of_mem (List.mem_range.mpr bound)
    · have : max 0 (recentFrom settings messages) ≤ (i : Int) := max_le (by omega) last
      simpa using this

/-- A protected fragment is not offered. -/
theorem PreparedBy.not_offered (h : PreparedBy settings messages instructions batches assembly prepared)
    (mem : f ∈ units messages) {i : Nat} (inside : i ∈ f.indices) (protect : Protected settings messages i) :
    f.id ∉ prepared.included := by
  intro offered
  have unit := (units_spec messages).isUnit mem
  have bound : i < messages.length := by
    have := unit.within
    have := (mem_indices unit).mp inside
    omega
  have free := (h.offered mem offered).1
  have pinned : (f.indices.any fun i => (i : Int) ∈ pins settings messages) = true :=
    List.any_eq_true.mpr ⟨i, inside, by simpa using mem_pins bound protect⟩
  rw [candidate, pinned] at free
  cases free

/-- The id of a fragment is no key of a state. -/
theorem IsUnit.id_plain (unit : IsUnit messages f) : f.id ∉ ["instructions", "recent_evidence", "fragments"] := by
  have mark : f.id.toList[8]? = some '_' := by
    rw [unit.id, String.toList_append]
    rfl
  intro mem
  rcases List.mem_cons.mp mem with same | mem
  · rw [same] at mark
    revert mark
    decide
  rcases List.mem_cons.mp mem with same | mem
  · rw [same] at mark
    revert mark
    decide
  · rw [List.mem_singleton.mp mem] at mark
    revert mark
    decide

/-- The state a batch is classified by stands in the input of the flow. -/
theorem PreparedBy.state (h : PreparedBy settings messages instructions batches assembly prepared) {i : Nat}
    {batch : List Fragment} (found : batches[i]? = some batch) :
    (prepared.flowInput.field (batchKey i)).field "state" = stateOf instructions (recent settings messages) batch := by
  have data : prepared.flowInput.field (batchKey i) = data instructions (recent settings messages) batch := by
    rw [h.flowInput, Json.field, Json.field?, h.assembled.inputs i batch found, Option.getD_some]
  rw [data]
  rfl

/-- The question on an excerpt offers no `archive`. -/
theorem whole_of_offers {f : Fragment} (h : "archive" ∈ names ((questionOf f).field "criteria")) : excerpted f = false := by
  by_contra cut
  have shows : excerpted f = true := by simpa using cut
  have rest : names ((questionOf f).field "criteria") = ["keep", "summarize"] := by
    rw [questionOf, shows]
    rfl
  rw [rest] at h
  simp at h

/-- A fragment rendered as archived was seen in full and classified `archive`. -/
theorem PreparedBy.archived (h : PreparedBy settings messages instructions batches assembly prepared)
    (admits : ∀ ns ns', models.flowAdmit ns = .ok ns' → ns'.Perm ns) (ran : models.execute prepared = .ok values)
    (mem : f ∈ units messages) (gone : (render prepared.included values f).1 = .archive) :
    Archived models prepared f := by
  obtain ⟨fields, rfl, offered, absent⟩ := render_archive gone
  obtain ⟨source, out, depth, given, evaluates, data⟩ := execute_spec h admits ran
  obtain ⟨-, i, batch, found, within⟩ := h.offered mem offered
  have plain := ((units_spec messages).isUnit mem).id_plain
  obtain ⟨returned, decision, valid, called, ok, validated, choice⟩ :=
    value_output h.assembled given evaluates data found within absent plain
  have asked : (f.id, questionOf f) ∈ questions batch := List.mem_map_of_mem (f := fun f => (f.id, questionOf f)) within
  obtain ⟨selected, answer, among⟩ := validateResponse_choice validated asked rfl
  rw [choice] at answer
  obtain rfl := Json.str.inj answer
  have whole : excerpted f = false := whole_of_offers among
  have shows : shown f = .obj [("id", .str f.id), ("evidence", .str (view f))] := by
    have short : (view f).length ≤ 2000 := by simpa [excerpted] using whole
    rw [shown, evidence, excerpt, if_pos short]
  have asks : questionOf f = question criteria := by
    rw [questionOf, whole]
    rfl
  have listed : (nodeId i "classify", classifier settings i batch) ∈ assembly.flow :=
    h.assembled.mem_flow found (by simp [template])
  refine ⟨offered, i, classifier settings i batch, returned, decision, valid, ?_, ?_, ?_, ?_, ok, validated, choice⟩
  · rw [h.state found, ← shows]
    exact List.mem_map_of_mem within
  · rw [h.flow]
    exact h.assembled.lookup_flow listed
  · rw [← asks]
    exact asked
  · rw [h.state found]
    exact called

end Finish

/-- Whatever the models behind the flow do, a compaction is safe. `flowAdmit` may list the nodes in another order. -/
theorem compaction_safe (models : Models) (settings : Settings) (messages : List Json)
    (admits : ∀ ns ns', models.flowAdmit ns = .ok ns' → ns'.Perm ns) {prepared : Prepared} {report : Report}
    (h : models.compact settings messages = .ok (prepared, report)) :
    Safe models settings messages prepared report := by
  obtain ⟨prepared', made, h⟩ := ok_of_bind h
  obtain ⟨values, ran, h⟩ := ok_of_bind h
  obtain ⟨rfl, rfl⟩ := Prod.mk.inj (Except.ok.inj h)
  obtain ⟨instructions, batches, assembly, spec⟩ := prepare_spec made
  have cut : Units messages 0 prepared'.fragments := spec.fragments ▸ units_spec messages
  have whole : prepared'.fragments.flatMap Fragment.messages = messages := by
    rw [cut.flatMap_messages, List.drop_zero]
  have member {f : Fragment} (mem : f ∈ prepared'.fragments) : f ∈ units messages := spec.fragments ▸ mem
  have ends := finish_cases prepared' values
  rw [spec.messages] at ends
  -- under either ending the manifest lists the fragments
  have listed : (finish prepared' values).manifest.map (·.1) = prepared'.fragments := by
    rcases ends with ⟨-, manifest, -⟩ | ⟨manifest, -⟩
    · rw [manifest, List.map_map]
      exact List.map_id _
    · rw [manifest, List.map_map]
      exact List.map_id _
  have within {entry : Fragment × Action} (mem : entry ∈ (finish prepared' values).manifest) :
      entry.1 ∈ prepared'.fragments := listed ▸ List.mem_map_of_mem (f := Prod.fst) mem
  refine ⟨?_, fun f mem => ?_, ⟨listed, ?_⟩, fun entry mem i inside protect => ?_, fun answered => ⟨?_, ?_⟩,
    fun entry mem archived => ?_, ?_⟩
  · rw [cut.flatMap_indices, Nat.sub_zero, List.range_eq_range']
  · exact ⟨(cut.isUnit mem).indices_ne_nil, (cut.isUnit mem).map_messages⟩
  · rcases ends with ⟨-, manifest, rendered⟩ | ⟨manifest, kept⟩
    · refine ⟨_, ?_, rendered⟩
      rw [manifest, List.forall₂_map_left_iff, List.forall₂_map_right_iff, List.forall₂_same]
      exact fun f _ => renders_render _ _ f
    · refine ⟨prepared'.fragments.map Fragment.messages, ?_, ?_⟩
      · rw [manifest, List.forall₂_map_left_iff, List.forall₂_map_right_iff, List.forall₂_same]
        exact fun f _ => .keep
      · rw [kept, ← List.flatMap_def, whole]
  · rcases ends with ⟨-, manifest, -⟩ | ⟨manifest, -⟩
    · rw [manifest] at mem
      obtain ⟨f, there, rfl⟩ := List.mem_map.mp mem
      exact render_excluded (spec.not_offered (member there) inside protect)
    · rw [manifest] at mem
      obtain ⟨f, -, rfl⟩ := List.mem_map.mp mem
      rfl
  · rcases ends with ⟨-, -, rendered⟩ | ⟨-, kept⟩
    · rw [rendered]
      refine answered_flatten fun piece mem => ?_
      obtain ⟨f, there, rfl⟩ := List.mem_map.mp mem
      exact (renders_render _ _ f).answered (cut.answered_fragment answered there)
    · rwa [kept]
  · intro entry mem j inside a answers
    exact cut.answers_within (within mem) inside answers
  · rcases ends with ⟨-, manifest, -⟩ | ⟨manifest, -⟩
    · rw [manifest] at mem
      obtain ⟨f, there, rfl⟩ := List.mem_map.mp mem
      exact spec.archived admits ran (member there) archived
    · rw [manifest] at mem
      obtain ⟨f, -, rfl⟩ := List.mem_map.mp mem
      cases archived
  · rcases ends with ⟨smaller, -, -⟩ | ⟨manifest, kept⟩
    · exact .inl smaller
    · refine .inr ⟨kept, fun entry mem => ?_⟩
      rw [manifest] at mem
      obtain ⟨f, -, rfl⟩ := List.mem_map.mp mem
      rfl

section Archivist

/-- A tool call, its answer and a question. -/
def conversation : List Json :=
  [.obj [("role", .str "assistant"), ("tool_calls", .arr [.obj [("id", .str "c")]])],
    .obj [("role", .str "tool"), ("content", .str "ev")], .obj [("role", .str "user"), ("content", .str "Go.")]]

def lastKept : Settings := ⟨1, none, fun n => n / 10, .null, .null, 512⟩

/-- Models that answer `archive` to every question. -/
def archivist : Models where
  call _ preset _ := .returned
    ⟨true, ⟨none, .null, none, none, none, none, none⟩, ⟨"\x7b\x7d", [], none, true, none, none, none, none⟩, .null, []⟩
    (.obj [("model", .str "m"), ("answers", .obj (preset.questions.map fun q =>
      (q.1, .obj [("type", .str "choice"), ("choice", .str "archive")])))])
  deadline _ := .ahead
  flowAdmit := .ok
  loads _ := .ok (.obj [])
  str _ := ""
  repr _ := ""
  floats := ⟨fun _ _ => true, fun _ _ => false⟩

def actions : Except Raised (Prepared × Report) → Option (List Action)
  | .ok (_, report) => some (report.manifest.map (·.2))
  | .error _ => none

theorem ok_of_actions {returned : Except Raised (Prepared × Report)} {l : List Action} (h : actions returned = some l) :
    ∃ prepared report, returned = .ok (prepared, report) ∧ report.manifest.map (·.2) = l := by
  cases returned with
  | error e => cases h
  | ok result => exact ⟨result.1, result.2, rfl, Option.some.inj h⟩

theorem archivist_actions :
    actions (archivist.compact lastKept conversation) = some [.archive, .keep] := by
  decide +kernel

theorem compaction_safe_archivist : ∃ prepared report, archivist.compact lastKept conversation = .ok (prepared, report) ∧
    report.manifest.map (·.2) = [.archive, .keep] ∧
    Safe archivist lastKept conversation prepared report := by
  have admits (ns ns' : Nodes) (h : archivist.flowAdmit ns = .ok ns') : ns'.Perm ns := by
    obtain rfl := Except.ok.inj h
    exact List.Perm.refl _
  obtain ⟨prepared, report, compacted, manifest⟩ := ok_of_actions archivist_actions
  exact ⟨prepared, report, compacted, manifest, compaction_safe archivist lastKept conversation admits compacted⟩

end Archivist

end Unhardcoded.Guarantees.Compaction
