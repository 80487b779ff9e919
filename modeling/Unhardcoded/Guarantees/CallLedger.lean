import Mathlib.Tactic.Linarith
import Unhardcoded.Python.Dict
import Unhardcoded.Source.CallLedger

/-!
# What a caller has spent

`spent_usd` of a caller is the sum over its calls as long as every cost that a call gets
goes through an insert that takes it as a number: an insert adds the same amount to both
tables. A backfill gives costs to calls and leaves the budgets as they are.
-/

namespace Unhardcoded.Guarantees.CallLedger

open Effects Python Source Source.CallLedger
open Source.FlowData (number?)

/-- What a call adds to the spending of a caller. -/
def share (caller : String) (c : Call) : ℚ := if c.caller = some caller then max 0 (c.costUsd.getD 0) else 0

/-- The sum of `max(0, cost_usd)` over the calls of a caller. -/
def total (calls : List Call) (caller : String) : ℚ := (calls.map (share caller)).sum

/-- No budget is behind or ahead of the calls. -/
def Balanced (s : Store) : Prop := ∀ caller, caller ≠ "" → s.spent caller = total s.calls caller

def anonymous (caller : Option String) : Bool := caller.all (· = "")

/-- Rows the backfill prices at zero, or of no caller. -/
def harmless (prices : Prices) (c : Call) : Bool :=
  !unpriced c || (listCost prices c).all (· = 0) || anonymous c.caller

/-- An insert reads a text as no cost above zero, or has no caller; a backfill stamps harmless rows only. -/
def balances (env : Env) (s : Store) : LedgerAct → Bool
  | .insert row _ _ => (match row.costUsd with
      | .str text => (env.floatOf text).all (· ≤ 0)
      | _ => true) || anonymous row.caller
  | .backfill prices _ _ => s.calls.all (harmless prices)

section Shares

variable {caller : String}

theorem total_append (calls more : List Call) : total (calls ++ more) caller = total calls caller + total more caller := by
  simp only [total, List.map_append, List.sum_append]

/-- The sum stays where every share stays. -/
theorem total_map {g : Call → Call} {calls : List Call} (same : ∀ c ∈ calls, share caller (g c) = share caller c) :
    total (calls.map g) caller = total calls caller := by
  induction calls with
  | nil => rfl
  | cons c calls ih =>
    have rest : total (calls.map g) caller = total calls caller := ih fun c mem => same c (List.mem_cons_of_mem _ mem)
    have first : share caller (g c) = share caller c := same c List.mem_cons_self
    simp only [total, List.map_cons, List.sum_cons] at rest ⊢
    rw [first, rest]

theorem spent_spend (s : Store) (consumer : String) (cost : ℚ) :
    (s.spend consumer cost).spent caller = s.spent caller + if caller = consumer then cost else 0 := by
  unfold Store.spent Store.spend
  rw [lookup_insert]
  split
  · rename_i same
    rw [same, Option.getD_some]
    rfl
  · rw [add_zero]

end Shares

section Insert

variable {env : Env} {s : Store} {row : UsageRow} {now : Int} {caller : String}

theorem costOf_cases {v : Json} {cost : Option ℚ} (read : costOf env v = some cost) :
    number? v = cost ∨ ∃ text q, v = .str text ∧ env.floatOf text = some q ∧ cost = some q := by
  cases v with
  | null =>
    left
    exact Option.some.inj read
  | bool b =>
    left
    exact Option.some.inj read
  | int n =>
    left
    exact Option.some.inj read
  | float value repr =>
    left
    exact Option.some.inj read
  | str text =>
    right
    obtain ⟨q, parsed, same⟩ := Option.map_eq_some_iff.mp read
    exact ⟨text, q, rfl, parsed, same.symm⟩
  | arr items => cases read
  | obj fields => cases read

/-- What an insert adds to the budget of a caller. -/
def spends (row : UsageRow) (caller : String) : ℚ :=
  match spending row with
  | some (consumer, cost) => if caller = consumer then cost else 0
  | none => 0

theorem spends_of_number (named : caller ≠ "") :
    spends row caller = if row.caller = some caller then max 0 ((number? row.costUsd).getD 0) else 0 := by
  unfold spends spending
  cases who : row.caller with
  | none => rfl
  | some consumer =>
    cases cost : number? row.costUsd with
    | none => simp [bind, Option.bind]
    | some q =>
      simp only [bind, Option.bind, Option.getD_some, Option.some.injEq]
      by_cases same : consumer = caller
      · subst same
        by_cases positive : 0 < q
        · rw [if_pos ⟨named, positive⟩, if_pos rfl, max_eq_right positive.le]
          exact if_pos rfl
        · rw [if_neg fun both => positive both.2, if_pos rfl, max_eq_left (not_lt.mp positive)]
      · rw [if_neg same]
        split
        · rename_i found
          split at found
          · cases found
            exact if_neg (Ne.symm same)
          · cases found
        · rfl

/-- Both tables move by the same amount. -/
theorem share_call {cost : Option ℚ} (read : costOf env row.costUsd = some cost)
    (balanced : balances env s (.insert row now false) = true) (named : caller ≠ "") (id : Nat) :
    share caller (row.call env id cost now) = spends row caller := by
  rw [spends_of_number named]
  change (if row.caller = some caller then max 0 (cost.getD 0) else 0) = _
  split
  · rename_i who
    rcases costOf_cases read with same | ⟨text, q, isText, parsed, rfl⟩
    · rw [same]
    · -- a text that reads as no cost above zero
      have low : q ≤ 0 := by
        have both : (env.floatOf text).all (· ≤ 0) = true ∨ anonymous row.caller = true := by
          simpa [balances, isText] using balanced
        rcases both with low | unnamed
        · simpa [parsed] using low
        · rw [who] at unnamed
          exact absurd (by simpa [anonymous] using unnamed) named
      rw [isText, Option.getD_some, max_eq_left low]
      exact (max_self 0).symm
  · rfl

theorem spent_insertCall {cost : Option ℚ} (read : costOf env row.costUsd = some cost) :
    (s.insertCall env row now false).spent caller = s.spent caller + spends row caller := by
  unfold Store.insertCall spends
  rw [read]
  dsimp only
  rw [if_neg Bool.false_ne_true]
  cases spending row with
  | some entry =>
    obtain ⟨consumer, q⟩ := entry
    exact spent_spend _ _ _
  | none => exact (add_zero _).symm

theorem calls_insertCall {cost : Option ℚ} (read : costOf env row.costUsd = some cost) :
    (s.insertCall env row now false).calls = s.calls ++ [row.call env s.nextId cost now] := by
  unfold Store.insertCall
  rw [read]
  dsimp only
  rw [if_neg Bool.false_ne_true]
  split <;> rfl

theorem nextId_insertCall {cost : Option ℚ} (read : costOf env row.costUsd = some cost) :
    (s.insertCall env row now false).nextId = s.nextId + 1 := by
  unfold Store.insertCall
  rw [read]
  dsimp only
  rw [if_neg Bool.false_ne_true]
  split <;> rfl

end Insert

section Runs

variable {env : Env} {s t : Store} {prices : Prices}

/-- The ids are those of an identity column, and the budgets are balanced. -/
structure Sound (s : Store) : Prop where
  fresh : ∀ c ∈ s.calls, c.id < s.nextId
  distinct : (s.calls.map Call.id).Nodup
  balanced : Balanced s

theorem sound_empty : Sound .empty where
  fresh _ mem := by cases mem
  distinct := List.nodup_nil
  balanced _ _ := rfl

theorem sound_insertCall (h : Sound s) {row : UsageRow} {now : Int} {raises : Bool}
    (balanced : balances env s (.insert row now raises) = true) : Sound (s.insertCall env row now raises) := by
  cases read : costOf env row.costUsd with
  | none =>
    have same : s.insertCall env row now raises = s := by
      unfold Store.insertCall
      rw [read]
    rw [same]
    exact h
  | some cost =>
    cases raises with
    | true =>
      have same : s.insertCall env row now true = { s with nextId := s.nextId + 1 } := by
        unfold Store.insertCall
        rw [read]
        rfl
      rw [same]
      exact ⟨fun c mem => Nat.lt_succ_of_lt (h.fresh c mem), h.distinct, h.balanced⟩
    | false =>
      refine ⟨?_, ?_, fun caller named => ?_⟩
      · intro c mem
        rw [calls_insertCall read] at mem
        rw [nextId_insertCall read]
        rcases List.mem_append.mp mem with old | last
        · exact Nat.lt_succ_of_lt (h.fresh c old)
        · rw [List.mem_singleton.mp last]
          exact Nat.lt_succ_self s.nextId
      · rw [calls_insertCall read, List.map_append, List.map_singleton, ← List.concat_eq_append, List.nodup_concat]
        refine ⟨fun mem => ?_, h.distinct⟩
        obtain ⟨c, within, same⟩ := List.mem_map.mp mem
        have low : c.id < s.nextId := h.fresh c within
        have last : c.id = s.nextId := same
        omega
      · have added := share_call (s := s) read balanced named s.nextId
        rw [spent_insertCall read, calls_insertCall read, total_append, h.balanced caller named, ← added]
        simp [total]

theorem stamp_id (ids : List Nat) (c : Call) : (stamp prices ids c).id = c.id := by
  unfold stamp
  split
  · split <;> rfl
  · rfl

theorem unpriced_stamp {ids : List Nat} {c : Call} (h : unpriced (stamp prices ids c) = true) : stamp prices ids c = c := by
  unfold stamp at h ⊢
  split at h
  · rename_i chosen
    rw [if_pos chosen]
    cases cost : listCost prices c with
    | none => rfl
    | some q =>
      rw [cost] at h
      simp [unpriced] at h
  · rename_i other
    rw [if_neg other]

theorem share_stamp {caller : String} (named : caller ≠ "") {ids : List Nat} {c : Call}
    (chosen : c.id ∈ ids → c.costUsd = none → harmless prices c = true ∧ unpriced c = true) :
    share caller (stamp prices ids c) = share caller c := by
  unfold stamp
  split
  · rename_i within
    obtain ⟨harmless_, unpriced_⟩ := chosen within.1 within.2
    cases cost : listCost prices c with
    | none => rfl
    | some q =>
      have zero : q = 0 ∨ anonymous c.caller = true := by
        simpa [harmless, unpriced_, cost] using harmless_
      unfold share
      dsimp only
      split
      · rename_i who
        rcases zero with rfl | unnamed
        · rw [within.2]
          rfl
        · rw [who] at unnamed
          exact absurd (by simpa [anonymous] using unnamed) named
      · rfl
  · rfl

theorem mem_batchOf {lastId batchSize : Nat} {c : Call} (mem : c ∈ batchOf s lastId batchSize) :
    c ∈ s.calls ∧ unpriced c = true := by
  obtain ⟨within, both⟩ := List.mem_filter.mp (List.mem_of_mem_take mem)
  rw [Bool.and_eq_true] at both
  exact ⟨within, both.1⟩

/-- A batch of harmless rows leaves every share as it is. -/
theorem sound_batch (h : Sound s) (all : ∀ c ∈ s.calls, harmless prices c = true) (lastId batchSize : Nat) :
    Sound { s with calls := s.calls.map (stamp prices ((batchOf s lastId batchSize).map Call.id)) } ∧
    ∀ c ∈ s.calls.map (stamp prices ((batchOf s lastId batchSize).map Call.id)), harmless prices c = true := by
  set ids := (batchOf s lastId batchSize).map Call.id
  have chosen : ∀ c ∈ s.calls, c.id ∈ ids → unpriced c = true := by
    intro c mem within
    obtain ⟨other, listed, same⟩ := List.mem_map.mp within
    obtain ⟨mem', unpriced_⟩ := mem_batchOf listed
    rwa [List.inj_on_of_nodup_map h.distinct mem' mem same] at unpriced_
  refine ⟨⟨fun c mem => ?_, ?_, fun caller named => ?_⟩, fun c mem => ?_⟩
  · obtain ⟨old, within, rfl⟩ := List.mem_map.mp mem
    rw [stamp_id]
    exact h.fresh old within
  · have same : (s.calls.map (stamp prices ids)).map Call.id = s.calls.map Call.id := by
      rw [List.map_map]
      exact List.map_congr_left fun c _ => stamp_id ids c
    rw [same]
    exact h.distinct
  · have shares : total (s.calls.map (stamp prices ids)) caller = total s.calls caller :=
      total_map fun c mem => share_stamp named fun within _ => ⟨all c mem, chosen c mem within⟩
    rw [shares]
    exact h.balanced caller named
  · obtain ⟨old, within, rfl⟩ := List.mem_map.mp mem
    by_cases left : unpriced (stamp prices ids old) = true
    · rw [unpriced_stamp left]
      exact all old within
    · simp [harmless, left]

theorem sound_backfillFrom (batchSize : Nat) (batches : Nat) :
    ∀ {lastId : Nat} {s : Store}, Sound s → (∀ c ∈ s.calls, harmless prices c = true) →
      Sound (s.backfillFrom prices batchSize batches lastId) := by
  induction batches with
  | zero => exact fun h _ => h
  | succ batches ih =>
    intro lastId s h all
    unfold Store.backfillFrom
    split
    · exact h
    · obtain ⟨sound, all'⟩ := sound_batch h all lastId batchSize
      exact ih sound all'

theorem sound_step {act : LedgerAct} (h : Sound s) (balanced : balances env s act = true)
    (stepped : s.step env act = some t) : Sound t := by
  cases act with
  | insert row now raises =>
    obtain rfl := Option.some.inj stepped
    exact sound_insertCall h balanced
  | backfill prices batchSize stops =>
    obtain rfl := Option.some.inj stepped
    exact sound_backfillFrom batchSize _ h (List.all_eq_true.mp balanced)

/-- In a run of inserts that read a text as no cost above zero and of backfills that stamp harmless rows
only, the budget of every caller is the sum over its calls. -/
theorem budget_equals_calls {acts : List LedgerAct}
    (balanced : Machine.Along (Store.step env) (fun s act => balances env s act = true) .empty acts)
    (ran : runLedger env acts = some s) : Balanced s :=
  (Machine.run_along sound_empty (fun _ _ _ h within stepped => sound_step h within stepped) balanced ran).balanced

def plainEnv : Env := ⟨fun _ => none, fun _ => none⟩

/-- A call of acme at a cost, or at none. -/
def acmeRow (cost : Json) : UsageRow where
  ts := some 1800000000
  keySha256 := none
  caller := some "acme"
  provider := some "openai"
  modelFamily := some "gpt"
  servedModelId := none
  requestedModel := none
  status := .int 200
  tokensIn := some 1000000
  tokensOut := none
  tokensTotal := none
  tokensCached := none
  costUsd := cost
  costBasis := none
  automatic := false

def gptPrices : Prices := [(("gpt", "openai"), ⟨2, 8⟩)]

def paidActs : List LedgerAct :=
  [.insert (acmeRow (.float (1 / 2) "0.5")) 0 false, .insert (acmeRow (.int (-3))) 0 false,
    .backfill gptPrices 1000 (some 1), .backfill gptPrices 1000 none, .insert (acmeRow (.int 2)) 0 true]

theorem budget_equals_calls_paid : ∃ s, runLedger plainEnv paidActs = some s ∧ s.spent "acme" = 1 / 2 ∧ Balanced s := by
  have ends : (runLedger plainEnv paidActs).map (·.spent "acme") = some (1 / 2) := by decide +kernel
  obtain ⟨s, ran, spent⟩ := Option.map_eq_some_iff.mp ends
  have balanced : Machine.Along (Store.step plainEnv) (fun s act => balances plainEnv s act = true) .empty paidActs := by
    decide +kernel
  exact ⟨s, ran, spent, budget_equals_calls balanced ran⟩

/-- A call whose cost is not known gets one from the backfill, and the budget stays at zero. -/
theorem backfill_unspent : ¬ ∀ (env : Env) (acts : List LedgerAct) (s : Store), runLedger env acts = some s → Balanced s := by
  intro h
  have ends : (runLedger plainEnv [.insert (acmeRow .null) 0 false, .backfill gptPrices 1000 none]).map
      (fun s => (s.spent "acme", total s.calls "acme")) = some (0, 2) := by
    decide +kernel
  obtain ⟨s, ran, both⟩ := Option.map_eq_some_iff.mp ends
  obtain ⟨spent, calls⟩ := Prod.mk.inj both
  have balanced := h plainEnv _ s ran "acme" (by decide)
  rw [spent, calls] at balanced
  exact absurd balanced (by decide +kernel)

end Runs

end Unhardcoded.Guarantees.CallLedger
