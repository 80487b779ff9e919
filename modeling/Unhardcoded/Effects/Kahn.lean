import Mathlib.Data.Finset.Basic
import Mathlib.Data.Fintype.Card
import Mathlib.Data.List.Basic
import Mathlib.Data.List.Nodup
import Mathlib.Order.WellFounded
import Mathlib.Order.RelClasses
import Mathlib.Data.Fintype.EquivFin

/-!
# Kahn's algorithm

Scheduling the nodes of a finite graph by in-degrees: a node is ready once every edge
into it comes from a scheduled one. The ready list may be rearranged at will. On an
acyclic graph whose edges join listed nodes the schedule is a permutation of the list
and every edge goes forward in it.
-/

namespace Unhardcoded.Effects.Kahn

variable {α : Type} [DecidableEq α]

/-- The targets of the edges out of `a`, one for each edge. -/
def succ (edges : List (α × α)) (a : α) : List α := (edges.filter (·.1 = a)).map (·.2)

/-- The sources of the edges into `b`, one for each edge. -/
def preds (edges : List (α × α)) (b : α) : List α := (edges.filter (·.2 = b)).map (·.1)

/-- Takes one off the in-degree of each target in turn, and collects the targets whose
in-degree becomes zero. -/
def release (indeg : α → Int) : List α → (α → Int) × List α
  | [] => (indeg, [])
  | b :: targets =>
    let lowered := fun x => if x = b then indeg x - 1 else indeg x
    let rest := release lowered targets
    (rest.1, if lowered b = 0 then b :: rest.2 else rest.2)

/-- The scheduling loop, which ends when no node is ready; `none` when the fuel runs out
before. -/
def loop (edges : List (α × α)) (arrange : List α → List α) :
    Nat → (α → Int) → List α → List α → Option (List α)
  | _, _, [], order => some order
  | 0, _, _ :: _, _ => none
  | fuel + 1, indeg, a :: queue, order =>
    let (indeg, newly) := release indeg (succ edges a)
    loop edges arrange fuel indeg (if newly.isEmpty then queue else arrange (queue ++ newly)) (order ++ [a])

/-- Every edge of the graph goes forward in `order`. -/
def Forward (edges : List (α × α)) (order : List α) : Prop :=
  ∀ before b after, order = before ++ b :: after → ∀ a ∈ preds edges b, a ∈ before

/-- No node is reached from itself along edges. -/
def Acyclic (edges : List (α × α)) : Prop :=
  ∀ a, ¬ Relation.TransGen (fun a b => (a, b) ∈ edges) a a

section Release

theorem mem_succ {edges : List (α × α)} {a b : α} : b ∈ succ edges a ↔ (a, b) ∈ edges := by
  simp [succ]

theorem mem_preds {edges : List (α × α)} {a b : α} : a ∈ preds edges b ↔ (a, b) ∈ edges := by
  simp [preds]

theorem release_indeg (indeg : α → Int) (targets : List α) (b : α) :
    (release indeg targets).1 b = indeg b - targets.count b := by
  induction targets generalizing indeg with
  | nil => simp [release]
  | cons x targets ih =>
    rw [release, ih]
    by_cases same : b = x
    · subst same
      rw [if_pos rfl, List.count_cons_self]
      omega
    · rw [if_neg same, List.count_cons_of_ne (Ne.symm same)]

/-- A node is collected where its in-degree is used up by the targets. -/
theorem mem_release (indeg : α → Int) (targets : List α) (b : α) :
    b ∈ (release indeg targets).2 ↔ 1 ≤ indeg b ∧ indeg b ≤ targets.count b := by
  induction targets generalizing indeg with
  | nil =>
    simp only [release, List.not_mem_nil, List.count_nil, false_iff]
    omega
  | cons x targets ih =>
    have tail := ih fun y => if y = x then indeg y - 1 else indeg y
    by_cases same : b = x
    · subst same
      simp only [if_true] at tail
      rw [release, List.count_cons_self]
      simp only [if_true]
      split
      · simp only [List.mem_cons, true_or, true_iff]
        omega
      · rw [tail]
        omega
    · simp only [if_neg same] at tail
      rw [release, List.count_cons_of_ne (Ne.symm same), ← tail]
      simp only [if_true]
      split
      · rw [List.mem_cons, or_iff_right same]
      · rfl

theorem nodup_release (indeg : α → Int) (targets : List α) : (release indeg targets).2.Nodup := by
  induction targets generalizing indeg with
  | nil => exact List.nodup_nil
  | cons x targets ih =>
    rw [release]
    simp only [if_true]
    split
    · refine List.nodup_cons.mpr ⟨fun mem => ?_, ih _⟩
      rw [mem_release] at mem
      simp only [if_true] at mem
      omega
    · exact ih _

end Release

section Loop

variable {edges : List (α × α)} {ids : List α}

/-- How many edges into `b` come from nodes that are not scheduled. -/
def waiting (edges : List (α × α)) (order : List α) (b : α) : Nat := edges.countP fun e => e.2 = b ∧ e.1 ∉ order

theorem waiting_append_singleton (edges : List (α × α)) {order : List α} {a : α} (fresh : a ∉ order) (b : α) :
    waiting edges (order ++ [a]) b + (succ edges a).count b = waiting edges order b := by
  unfold waiting succ
  induction edges with
  | nil => rfl
  | cons e edges ih =>
    by_cases target : e.2 = b <;> by_cases source : e.1 = a <;> by_cases scheduled : e.1 ∈ order <;>
      simp_all <;> omega

theorem waiting_eq_zero_iff {order : List α} {b : α} :
    waiting edges order b = 0 ↔ ∀ a ∈ preds edges b, a ∈ order := by
  unfold waiting
  simp only [List.countP_eq_zero, decide_eq_true_eq, not_and, not_not, mem_preds, Prod.forall]
  exact ⟨fun h a mem => h a b mem rfl, fun h a c mem same => h a (same ▸ mem)⟩

theorem waiting_nil (edges : List (α × α)) (b : α) : waiting edges [] b = (preds edges b).length := by
  simp [waiting, preds, List.countP_eq_length_filter]

/-- The nodes scheduled or ready are those whose in-degree is used up. -/
structure Progress (edges : List (α × α)) (ids : List α) (indeg : α → Int) (queue order : List α) : Prop where
  nodup : (order ++ queue).Nodup
  listed : ∀ a ∈ order ++ queue, a ∈ ids
  counted : ∀ b, indeg b = waiting edges order b
  ready : ∀ b ∈ ids, b ∈ order ++ queue ↔ indeg b = 0
  forward : Forward edges order

theorem Forward.snoc {order : List α} {a : α} (forward : Forward edges order)
    (ready : ∀ b ∈ preds edges a, b ∈ order) : Forward edges (order ++ [a]) := by
  intro before b after split
  rcases List.eq_nil_or_concat after with rfl | ⟨init, last, rfl⟩
  · obtain ⟨rfl, same⟩ := List.append_inj' split rfl
    obtain rfl := List.singleton_inj.mp same
    exact ready
  · rw [List.concat_eq_append, ← List.cons_append, ← List.append_assoc] at split
    exact forward before b init (List.append_inj' split rfl).1

theorem Progress.step {indeg : α → Int} {queue queue' order : List α} {a : α}
    (closed : ∀ e ∈ edges, e.2 ∈ ids) (h : Progress edges ids indeg (a :: queue) order)
    (arranged : queue'.Perm (queue ++ (release indeg (succ edges a)).2)) :
    Progress edges ids (release indeg (succ edges a)).1 queue' (order ++ [a]) := by
  have here : a ∈ order ++ a :: queue := by simp
  have fresh : a ∉ order := fun mem => List.disjoint_of_nodup_append h.nodup mem List.mem_cons_self
  have lowered : ∀ b, (release indeg (succ edges a)).1 b = waiting edges (order ++ [a]) b := by
    intro b
    have := waiting_append_singleton edges fresh b
    rw [release_indeg, h.counted]
    omega
  have newly : ∀ b, b ∈ (release indeg (succ edges a)).2 ↔
      indeg b ≠ 0 ∧ (release indeg (succ edges a)).1 b = 0 := by
    intro b
    have := waiting_append_singleton edges fresh b
    rw [mem_release, lowered, h.counted]
    omega
  have target : ∀ b ∈ (release indeg (succ edges a)).2, b ∈ ids := by
    intro b mem
    have := (mem_release indeg (succ edges a) b).mp mem
    have edge : b ∈ succ edges a := List.count_pos_iff.mp (by omega)
    exact closed _ (mem_succ.mp edge)
  have places : (order ++ [a] ++ queue').Perm (order ++ a :: queue ++ (release indeg (succ edges a)).2) := by
    simpa using (arranged.cons a).append_left order
  refine ⟨places.nodup_iff.mpr ?_, fun b mem => ?_, lowered, fun b listed => ?_, ?_⟩
  · refine List.nodup_append.mpr ⟨h.nodup, nodup_release _ _, fun b old c new same => ?_⟩
    subst same
    exact ((newly b).mp new).1 ((h.ready b (target b new)).mp old)
  · rcases List.mem_append.mp (places.mem_iff.mp mem) with old | new
    · exact h.listed b old
    · exact target b new
  · have := waiting_append_singleton edges fresh b
    rw [places.mem_iff, List.mem_append, h.ready b listed, newly, lowered, h.counted]
    omega
  · refine h.forward.snoc (waiting_eq_zero_iff.mp ?_)
    have := (h.ready a (h.listed a here)).mp here
    rw [h.counted] at this
    exact_mod_cast this

/-- The loop ends within the fuel, with no node ready. -/
theorem loop_spec {arrange : List α → List α} (perm : ∀ l, (arrange l).Perm l) (closed : ∀ e ∈ edges, e.2 ∈ ids) :
    ∀ (fuel : Nat) {indeg : α → Int} {queue order : List α}, Progress edges ids indeg queue order →
      ids.length ≤ fuel + order.length →
      ∃ result indeg', loop edges arrange fuel indeg queue order = some result ∧ Progress edges ids indeg' [] result := by
  intro fuel
  induction fuel with
  | zero =>
    intro indeg queue order h enough
    cases queue with
    | nil => exact ⟨order, indeg, rfl, h⟩
    | cons a queue =>
      have fits := (h.nodup.subperm h.listed).length_le
      rw [List.length_append, List.length_cons] at fits
      omega
  | succ fuel ih =>
    intro indeg queue order h enough
    cases queue with
    | nil => exact ⟨order, indeg, rfl, h⟩
    | cons a queue =>
      refine ih (h.step closed ?_) (by rw [List.length_append, List.length_singleton]; omega)
      split
      · rename_i none
        rw [List.isEmpty_iff.mp none, List.append_nil]
      · exact perm _

end Loop

section Schedule

variable {edges : List (α × α)} {ids : List α}

/-- In a finite acyclic graph a property of all sources of the edges into a node holds of every node. -/
theorem Acyclic.induction (acyclic : Acyclic edges) (closed : ∀ e ∈ edges, e.1 ∈ ids) {P : α → Prop}
    (step : ∀ b ∈ ids, (∀ a ∈ preds edges b, P a) → P b) : ∀ b ∈ ids, P b := by
  let before : { a // a ∈ ids } → { a // a ∈ ids } → Prop :=
    fun a b => Relation.TransGen (fun a b => (a, b) ∈ edges) a.1 b.1
  have : IsTrans _ before := ⟨fun _ _ _ => Relation.TransGen.trans⟩
  have : Std.Irrefl before := ⟨fun a => acyclic a.1⟩
  have founded : WellFounded before := Finite.wellFounded_of_trans_of_irrefl before
  intro b listed
  refine founded.induction (C := fun b => P b.1) ⟨b, listed⟩ fun b ih => step b.1 b.2 fun a edge => ?_
  have edge := mem_preds.mp edge
  exact ih ⟨a, closed _ edge⟩ (Relation.TransGen.single edge)

omit [DecidableEq α] in
theorem acyclic_of_rank (rank : α → Nat) (rising : ∀ e ∈ edges, rank e.1 < rank e.2) : Acyclic edges := by
  have grows : ∀ {a b}, Relation.TransGen (fun a b => (a, b) ∈ edges) a b → rank a < rank b := by
    intro a b path
    induction path with
    | single edge => exact rising _ edge
    | tail path edge ih => exact ih.trans (rising _ edge)
  exact fun a cycle => (grows cycle).false

/-- Kahn's algorithm from the nodes without incoming edges. -/
def schedule (edges : List (α × α)) (ids : List α) (arrange : List α → List α) : Option (List α) :=
  let indeg : α → Int := fun b => (preds edges b).length
  loop edges arrange ids.length indeg (arrange (ids.filter (indeg · = 0))) []

theorem schedule_spec {arrange : List α → List α} (perm : ∀ l, (arrange l).Perm l) (nodup : ids.Nodup)
    (closed : ∀ e ∈ edges, e.1 ∈ ids ∧ e.2 ∈ ids) (acyclic : Acyclic edges) :
    ∃ order, schedule edges ids arrange = some order ∧ order.Perm ids ∧ Forward edges order := by
  have start : Progress edges ids (fun b => (preds edges b).length)
      (arrange (ids.filter fun b => ((preds edges b).length : Int) = 0)) [] := by
    have places := perm (ids.filter fun b => ((preds edges b).length : Int) = 0)
    refine ⟨?_, fun b mem => ?_, fun b => ?_, fun b listed => ?_, ?_⟩
    · exact places.nodup_iff.mpr (nodup.filter _)
    · exact (List.mem_filter.mp (places.mem_iff.mp mem)).1
    · rw [waiting_nil]
    · rw [List.nil_append, places.mem_iff, List.mem_filter]
      simp [listed]
    · intro before b after split
      simp at split
  obtain ⟨order, indeg, ended, h⟩ := loop_spec perm (fun e mem => (closed e mem).2) ids.length start (by simp)
  have all : ∀ b ∈ ids, b ∈ order := by
    refine acyclic.induction (fun e mem => (closed e mem).1) fun b listed ready => ?_
    have done := (h.ready b listed).mpr
    rw [h.counted, waiting_eq_zero_iff.mpr ready, List.append_nil] at done
    exact done rfl
  have distinct : order.Nodup := by simpa using h.nodup
  exact ⟨order, ended, (List.perm_ext_iff_of_nodup distinct nodup).mpr fun b =>
    ⟨fun mem => h.listed b (by simpa using mem), all b⟩, h.forward⟩

end Schedule

end Unhardcoded.Effects.Kahn
