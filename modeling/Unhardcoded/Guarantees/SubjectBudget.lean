import Mathlib.Algebra.Order.BigOperators.Group.List
import Mathlib.Tactic.Linarith
import Unhardcoded.Source.SubjectBudget

/-!
# What the subject budget ledger keeps

A reservation is in the table, booked or pruned, and in one of them only
(`Accounts`), so that its cost is booked once. What is spent and held under a key
grows past the limit only by what settles cost beyond their reservations
(`Within`). Both are kept by every transaction, in any order and by any replica
(`subject_budget_ledger`), as long as the callers' ids are fresh.
-/

namespace Unhardcoded.Guarantees.SubjectBudget
open Effects Source Source.SubjectBudget BudgetTables

section Rows

/-- What a row holds of a key's budget. -/
def held (key : BudgetKey) (r : Reservation) : ℚ :=
  if r.key = key ∧ r.released = false then r.amountUsd else 0

theorem held_nonneg {r : Reservation} (h : 0 ≤ r.amountUsd) (key : BudgetKey) : 0 ≤ held key r := by
  unfold held
  split
  · exact h
  · exact le_refl 0

/-- What rows hold of a key's budget. -/
def heldBy (rows : List Reservation) (key : BudgetKey) : ℚ := (rows.map (held key)).sum

@[simp] theorem heldBy_cons (r : Reservation) (rows : List Reservation) (key : BudgetKey) :
    heldBy (r :: rows) key = held key r + heldBy rows key := by
  simp [heldBy]

@[simp] theorem heldBy_append (first rest : List Reservation) (key : BudgetKey) :
    heldBy (first ++ rest) key = heldBy first key + heldBy rest key := by
  simp [heldBy]

theorem live_eq (t : BudgetTables) (key : BudgetKey) : t.live key = heldBy t.reservations key := by
  unfold live
  induction t.reservations with
  | nil => rfl
  | cons r rows ih =>
    rw [List.filter_cons, heldBy_cons, ← ih, held]
    split
    · rename_i counted
      rw [if_pos (by simpa using counted), List.map_cons, List.sum_cons]
    · rename_i uncounted
      rw [if_neg (by simpa using uncounted), zero_add]

theorem heldBy_perm {rows rows' : List Reservation} (h : rows.Perm rows') (key : BudgetKey) :
    heldBy rows key = heldBy rows' key :=
  (h.map _).sum_eq

/-- A released row holds nothing. -/
theorem heldBy_released {rows : List Reservation} (h : ∀ r ∈ rows, r.released = true) (key : BudgetKey) :
    heldBy rows key = 0 := by
  induction rows with
  | nil => rfl
  | cons r rows ih =>
    rw [heldBy_cons, ih fun r hr => h r (List.mem_cons_of_mem _ hr), held,
      if_neg (by simp [h r List.mem_cons_self]), zero_add]

@[simp] theorem sweepRow_key (key : BudgetKey) (stamp : ℚ) (r : Reservation) :
    (sweepRow key stamp r).key = r.key := by
  unfold sweepRow
  split <;> rfl

@[simp] theorem sweepRow_amountUsd (key : BudgetKey) (stamp : ℚ) (r : Reservation) :
    (sweepRow key stamp r).amountUsd = r.amountUsd := by
  unfold sweepRow
  split <;> rfl

/-- A sweep only ever frees. -/
theorem held_sweepRow_le {r : Reservation} (h : 0 ≤ r.amountUsd) (key k : BudgetKey) (stamp : ℚ) :
    held k (sweepRow key stamp r) ≤ held k r := by
  by_cases due : r.key = key ∧ r.released = false ∧ r.expiresAt ≤ stamp
  · have freed : held k (sweepRow key stamp r) = 0 := by
      rw [sweepRow, if_pos due, held, if_neg (by simp)]
    rw [freed]
    exact held_nonneg h k
  · rw [sweepRow, if_neg due]

theorem heldBy_sweep_le {rows : List Reservation} (h : ∀ r ∈ rows, 0 ≤ r.amountUsd) (key k : BudgetKey)
    (stamp : ℚ) : heldBy (rows.map (sweepRow key stamp)) k ≤ heldBy rows k := by
  induction rows with
  | nil => exact le_refl _
  | cons r rows ih =>
    have first := held_sweepRow_le (h r List.mem_cons_self) key k stamp
    have rest := ih fun r hr => h r (List.mem_cons_of_mem _ hr)
    rw [List.map_cons, heldBy_cons, heldBy_cons]
    linarith

end Rows

section Tables

variable (t : BudgetTables) (key k : BudgetKey)

@[simp] theorem spent_openUsage : (t.openUsage key).spent k = t.spent k := by
  unfold spent openUsage
  dsimp only
  split
  · rename_i same
    subst same
    cases t.usage k <;> rfl
  · rfl

theorem usage_openUsage : ((t.openUsage key).usage k).isSome = (decide (k = key) || (t.usage k).isSome) := by
  unfold openUsage
  dsimp only
  split
  · rename_i same
    simp [same]
  · rename_i other
    simp [other]

@[simp] theorem usage_updateUsage (f : Usage → Usage) :
    ((t.updateUsage key f).usage k).isSome = (t.usage k).isSome := by
  unfold updateUsage
  dsimp only
  split
  · rename_i same
    simp [same]
  · rfl

theorem spent_updateUsage_reserved (v : ℚ) :
    (t.updateUsage key fun u => { u with reservedUsd := v }).spent k = t.spent k := by
  unfold spent updateUsage
  dsimp only
  split
  · rename_i same
    subst same
    cases t.usage k <;> rfl
  · rfl

/-- An `UPDATE` that adds to `spent_usd` of a row that is there. -/
theorem spent_updateUsage_add {key : BudgetKey} (present : (t.usage key).isSome = true) (cost v : ℚ) :
    (t.updateUsage key fun u => ⟨u.spentUsd + cost, v⟩).spent k =
      t.spent k + if k = key then cost else 0 := by
  unfold spent updateUsage
  dsimp only
  by_cases same : k = key
  · subst same
    obtain ⟨u, hu⟩ := Option.isSome_iff_exists.mp present
    simp [hu]
  · simp [same]

/-- The rows of one id: the id is unique. -/
theorem perm_cons_retain {rows : List Reservation} (unique : (rows.map (·.id)).Nodup) {r : Reservation}
    (hr : r ∈ rows) : rows.Perm (r :: rows.filter fun x => x.id ≠ r.id) := by
  induction rows with
  | nil => cases hr
  | cons head rest ih =>
    rw [List.map_cons, List.nodup_cons] at unique
    rcases List.mem_cons.mp hr with rfl | hr
    · have others : rest.filter (fun x => x.id ≠ r.id) = rest := by
        refine List.filter_eq_self.mpr fun x hx => ?_
        have : x.id ≠ r.id := fun same => unique.1 (same ▸ List.mem_map_of_mem hx)
        simpa using this
      rw [List.filter_cons, if_neg (by simp), others]
    · have other : head.id ≠ r.id := fun same => unique.1 (same ▸ List.mem_map_of_mem hr)
      rw [List.filter_cons, if_pos (by simpa using other)]
      exact ((ih unique.2 hr).cons head).trans (List.Perm.swap r head _)

end Tables

section Operations

variable {t : BudgetTables}

/-- The three ends of a reserve: granted, rolled back, rejected. -/
inductive Reserved (t : BudgetTables) (key : BudgetKey) (limit : ℚ) (id : String) (stamp : ℚ) :
    ReserveAnswer × BudgetTables → Prop where
  | granted {spent reserved : ℚ} {after : BudgetTables} (row : Reservation) (fresh : id ∉ t.ids)
      (row_id : row.id = id) (row_key : row.key = key) (row_live : row.released = false)
      (amount : 0 ≤ row.amountUsd)
      (admitted : t.spent key + heldBy (t.reservations.map (sweepRow key stamp)) key + row.amountUsd ≤
        limit + tolerance)
      (rows : after.reservations = t.reservations.map (sweepRow key stamp) ++ [row])
      (spent_eq : ∀ k, after.spent k = t.spent k)
      (usage : ∀ k, (after.usage k).isSome = (decide (k = key) || (t.usage k).isSome)) :
      Reserved t key limit id stamp (⟨true, true, spent, reserved⟩, after)
  | rolledBack : Reserved t key limit id stamp (⟨false, false, 0, 0⟩, t)
  | rejected {spent reserved : ℚ} {after : BudgetTables}
      (rows : after.reservations = t.reservations.map (sweepRow key stamp))
      (spent_eq : ∀ k, after.spent k = t.spent k)
      (usage : ∀ k, (after.usage k).isSome = (decide (k = key) || (t.usage k).isSome))
      (others : ∀ k, k ≠ key → after.usage k = t.usage k) :
      Reserved t key limit id stamp (⟨false, true, spent, reserved⟩, after)

theorem reserve_reserved (t : BudgetTables) (key : BudgetKey) (limit amount : ℚ) (id : String)
    (ttl stamp : ℚ) : Reserved t key limit id stamp (t.reserve key limit amount id ttl stamp) := by
  have opened : ∀ k, ((t.openUsage key).sweep key stamp).spent k = t.spent k := fun k => spent_openUsage t key k
  have present : ∀ k, (((t.openUsage key).sweep key stamp).usage k).isSome =
      (decide (k = key) || (t.usage k).isSome) := fun k => usage_openUsage t key k
  unfold reserve
  dsimp only
  split
  · rename_i admitted
    rw [spent_openUsage, live_eq] at admitted
    split
    · rename_i fresh
      refine .granted ⟨id, key, max 0 amount, stamp + ttl, false⟩ ?_ rfl rfl rfl (le_max_left _ _)
        admitted rfl ?_ ?_
      · simpa [ids, sweep, openUsage, Function.comp_def] using fresh
      · intro k
        rw [spent_updateUsage_reserved]
        exact opened k
      · intro k
        rw [usage_updateUsage]
        exact present k
    · exact .rolledBack
  · refine .rejected rfl ?_ ?_ ?_
    · intro k
      rw [spent_updateUsage_reserved]
      exact opened k
    · intro k
      rw [usage_updateUsage]
      exact present k
    · intro k other
      simp [updateUsage, sweep, openUsage, other]

theorem mem_of_find {id : String} {r : Reservation} (h : t.find id = some r) :
    r ∈ t.reservations ∧ r.id = id :=
  ⟨List.mem_of_find?_eq_some h, by simpa using List.find?_some h⟩

theorem not_mem_ids_of_find {id : String} (h : t.find id = none) : id ∉ t.ids := by
  intro found
  obtain ⟨r, hr, same⟩ := List.mem_map.mp found
  have := List.find?_eq_none.mp h r hr
  simp [same] at this

/-- A settle takes the row of its id and adds the cost to an open usage row. -/
theorem settle_spec {id : String} {key : BudgetKey} {cost : ℚ} {r : Reservation} {after : BudgetTables}
    (h : t.settle id key cost = some (r, after)) (present : (t.usage key).isSome = true) :
    r.id = id ∧ t.reservations.Perm (r :: after.reservations) ∧
      (∀ k, after.spent k = t.spent k + if k = key then cost else 0) ∧
      ∀ k, (after.usage k).isSome = (t.usage k).isSome := by
  unfold settle at h
  cases found : t.find id with
  | none => simp [found] at h
  | some row =>
    simp only [found, Option.some.injEq, Prod.mk.injEq] at h
    obtain ⟨rfl, rfl⟩ := h
    obtain ⟨hrow, rfl⟩ := mem_of_find found
    refine ⟨rfl, perm_cons_retain t.unique hrow, fun k => ?_, fun k => usage_updateUsage _ _ _ _⟩
    exact spent_updateUsage_add (t.retain fun x => x.id ≠ row.id) k present cost _

theorem not_mem_ids_of_settle {id : String} {key : BudgetKey} {cost : ℚ}
    (h : t.settle id key cost = none) : id ∉ t.ids := by
  unfold settle at h
  cases found : t.find id with
  | none => exact not_mem_ids_of_find found
  | some row => simp [found] at h

/-- A prune takes released rows only. -/
theorem prune_perm (t : BudgetTables) (now : ℚ) :
    t.reservations.Perm ((t.prune now).reservations ++ t.reservations.filter (BudgetTables.pruned now)) := by
  have split := List.filter_append_perm (fun r => !BudgetTables.pruned now r) t.reservations
  simp only [Bool.not_not] at split
  exact split.symm

end Operations

section Ledger

variable {s s' : BudgetLedger}

/-- Every reservation ever granted: held, booked or pruned. -/
def seen (s : BudgetLedger) : List String :=
  s.tables.ids ++ s.booked.map (·.reservation.id) ++ s.pruned

def bookedCost (s : BudgetLedger) (key : BudgetKey) : ℚ :=
  ((s.booked.filter fun b => b.key = key).map (·.cost)).sum

/-- What a booking costs beyond what the limit had admitted for it. -/
def excess (b : Booking) : ℚ :=
  if b.reservation.released then b.cost else max 0 (b.cost - b.reservation.amountUsd)

def bookedExcess (s : BudgetLedger) (key : BudgetKey) : ℚ :=
  ((s.booked.filter fun b => b.key = key).map excess).sum

/-- A settle under way belongs to a reservation once granted, and to its key. -/
structure Founded (s : BudgetLedger) (x : Settling) : Prop where
  granted : x.id ∈ seen s
  key : ∀ r ∈ s.tables.reservations, r.id = x.id → r.key = x.key
  opened : (s.tables.usage x.key).isSome = true
  cost : 0 ≤ x.cost

structure Accounts (s : BudgetLedger) : Prop where
  apart : (seen s).Nodup
  amounts : ∀ r ∈ s.tables.reservations, 0 ≤ r.amountUsd
  opened : ∀ r ∈ s.tables.reservations, (s.tables.usage r.key).isSome = true
  settling : ∀ x ∈ s.settling, Founded s x
  costs : ∀ b ∈ s.booked, 0 ≤ b.cost
  spent : ∀ key, s.tables.spent key = bookedCost s key

/-- The budget of a key under this limit. -/
def Within (key : BudgetKey) (limit : ℚ) (s : BudgetLedger) : Prop :=
  s.tables.spent key + s.tables.live key ≤ max 0 (limit + tolerance) + bookedExcess s key

/-- The step asks for no id that was granted before. -/
def Fresh (s : BudgetLedger) : BudgetAct → Prop
  | .reserve _ _ _ id _ _ => id ∉ seen s
  | _ => True

/-- The step reserves under this limit, if it reserves for this key. -/
def LimitedTo (key : BudgetKey) (limit : ℚ) : BudgetAct → Prop
  | .reserve k l _ _ _ _ => k = key → l = limit
  | _ => True

theorem excess_nonneg {b : Booking} (h : 0 ≤ b.cost) : 0 ≤ excess b := by
  unfold excess
  split
  · exact h
  · exact le_max_left _ _

theorem bookedExcess_nonneg (h : ∀ b ∈ s.booked, 0 ≤ b.cost) (key : BudgetKey) : 0 ≤ bookedExcess s key := by
  apply List.sum_nonneg
  intro x hx
  obtain ⟨b, hb, rfl⟩ := List.mem_map.mp hx
  exact excess_nonneg (h b (List.mem_of_mem_filter hb))

@[simp] theorem bookedCost_append (tables : BudgetTables) (settling : List Settling) (pruned : List String)
    (booked : List Booking) (b : Booking) (key : BudgetKey) :
    bookedCost ⟨tables, settling, booked ++ [b], pruned⟩ key =
      ((booked.filter fun b => b.key = key).map (·.cost)).sum + if b.key = key then b.cost else 0 := by
  by_cases mine : b.key = key <;> simp [bookedCost, mine]

@[simp] theorem bookedExcess_append (tables : BudgetTables) (settling : List Settling) (pruned : List String)
    (booked : List Booking) (b : Booking) (key : BudgetKey) :
    bookedExcess ⟨tables, settling, booked ++ [b], pruned⟩ key =
      ((booked.filter fun b => b.key = key).map excess).sum + if b.key = key then excess b else 0 := by
  by_cases mine : b.key = key <;> simp [bookedExcess, mine]

theorem ids_sweep (rows : List Reservation) (key : BudgetKey) (stamp : ℚ) :
    (rows.map (sweepRow key stamp)).map (·.id) = rows.map (·.id) := by
  simp [Function.comp_def]

/-- The rows after a sweep are the rows before it, but for `released`. -/
theorem exists_of_mem_sweep {rows : List Reservation} {key : BudgetKey} {stamp : ℚ} {r : Reservation}
    (h : r ∈ rows.map (sweepRow key stamp)) :
    ∃ r₀ ∈ rows, r.id = r₀.id ∧ r.key = r₀.key ∧ r.amountUsd = r₀.amountUsd := by
  obtain ⟨r₀, hr₀, rfl⟩ := List.mem_map.mp h
  exact ⟨r₀, hr₀, by simp, by simp, by simp⟩

theorem seen_sweep {tables : BudgetTables} {key : BudgetKey} {stamp : ℚ}
    (rows : tables.reservations = s.tables.reservations.map (sweepRow key stamp)) :
    seen { s with tables } = seen s := by
  simp only [seen, ids, rows, ids_sweep]

theorem seen_insert {tables : BudgetTables} {row : Reservation}
    (rows : tables.reservations = s.tables.reservations ++ [row]) :
    (seen { s with tables }).Perm (row.id :: seen s) := by
  simp only [seen, ids, rows, List.map_append, List.map_cons, List.map_nil, List.append_assoc,
    List.singleton_append]
  exact List.perm_middle

theorem seen_book {tables : BudgetTables} {r : Reservation}
    (rows : s.tables.reservations.Perm (r :: tables.reservations)) (settling : List Settling)
    (key : BudgetKey) (cost : ℚ) :
    (seen ⟨tables, settling, s.booked ++ [⟨r, key, cost⟩], s.pruned⟩).Perm (seen s) := by
  have ids_perm := rows.map (·.id)
  simp only [seen, ids, List.map_append, List.map_cons, List.map_nil]
  refine List.Perm.append_right _ ((List.perm_append_comm.append_left _).trans ?_)
  rw [← List.append_assoc]
  refine List.Perm.append_right _ ((List.perm_append_singleton _ _).trans ?_)
  exact ids_perm.symm

theorem seen_prune (s : BudgetLedger) (now : ℚ) :
    (seen ⟨s.tables.prune now, s.settling, s.booked,
      s.pruned ++ (s.tables.reservations.filter (BudgetTables.pruned now)).map (·.id)⟩).Perm (seen s) := by
  have ids_perm := (prune_perm s.tables now).map (·.id)
  rw [List.map_append] at ids_perm
  simp only [seen, ids]
  refine List.Perm.trans ?_ ((ids_perm.symm.append_right _).append_right _)
  simp only [List.append_assoc]
  refine List.Perm.append_left _ ?_
  rw [← List.append_assoc]
  exact List.perm_append_comm

/-- A reserve that grants nothing leaves the accounts and frees what has expired. -/
theorem accounts_rejected (h : Accounts s) {tables : BudgetTables} {key : BudgetKey} {stamp : ℚ}
    (rows : tables.reservations = s.tables.reservations.map (sweepRow key stamp))
    (spent_eq : ∀ k, tables.spent k = s.tables.spent k)
    (usage : ∀ k, (tables.usage k).isSome = (decide (k = key) || (s.tables.usage k).isSome)) :
    Accounts { s with tables } := by
  have same : seen { s with tables } = seen s := seen_sweep rows
  refine ⟨?_, ?_, ?_, ?_, ?_, ?_⟩
  · rw [same]
    exact h.apart
  · intro r hr
    rw [rows] at hr
    obtain ⟨r₀, hr₀, -, -, amount⟩ := exists_of_mem_sweep hr
    rw [amount]
    exact h.amounts r₀ hr₀
  · intro r hr
    rw [rows] at hr
    obtain ⟨r₀, hr₀, -, key_eq, -⟩ := exists_of_mem_sweep hr
    rw [usage, key_eq, h.opened r₀ hr₀, Bool.or_true]
  · intro x hx
    obtain ⟨granted, key_of, opened, cost⟩ := h.settling x hx
    refine ⟨same ▸ granted, ?_, by rw [usage, opened, Bool.or_true], cost⟩
    intro r hr id_eq
    rw [rows] at hr
    obtain ⟨r₀, hr₀, id₀, key₀, -⟩ := exists_of_mem_sweep hr
    rw [key₀]
    exact key_of r₀ hr₀ (id₀.symm.trans id_eq)
  · exact h.costs
  · intro k
    rw [spent_eq]
    exact h.spent k

/-- A grant adds a row of a new id to what such a reserve leaves. -/
theorem accounts_insert (h : Accounts s) {tables : BudgetTables} {row : Reservation} (fresh : row.id ∉ seen s)
    (amount : 0 ≤ row.amountUsd) (opened : (tables.usage row.key).isSome = true)
    (rows : tables.reservations = s.tables.reservations ++ [row])
    (spent_eq : ∀ k, tables.spent k = s.tables.spent k)
    (usage : ∀ k, (tables.usage k).isSome = (s.tables.usage k).isSome) : Accounts { s with tables } := by
  have grown : (seen { s with tables }).Perm (row.id :: seen s) := seen_insert rows
  refine ⟨?_, ?_, ?_, ?_, ?_, ?_⟩
  · rw [grown.nodup_iff, List.nodup_cons]
    exact ⟨fresh, h.apart⟩
  · intro r hr
    rw [rows] at hr
    rcases List.mem_append.mp hr with hr | hr
    · exact h.amounts r hr
    · rw [List.mem_singleton.mp hr]
      exact amount
  · intro r hr
    rw [rows] at hr
    rcases List.mem_append.mp hr with hr | hr
    · rw [usage]
      exact h.opened r hr
    · rw [List.mem_singleton.mp hr]
      exact opened
  · intro x hx
    obtain ⟨granted, key_of, opened, cost⟩ := h.settling x hx
    refine ⟨grown.mem_iff.mpr (List.mem_cons_of_mem _ granted), ?_, by rw [usage, opened], cost⟩
    intro r hr id_eq
    rw [rows] at hr
    rcases List.mem_append.mp hr with hr | hr
    · exact key_of r hr id_eq
    · rw [List.mem_singleton.mp hr] at id_eq
      exact absurd (id_eq ▸ granted) fresh
  · exact h.costs
  · intro k
    rw [spent_eq]
    exact h.spent k

theorem reservation_key_unique (t : BudgetTables) {r r' : Reservation} (hr : r ∈ t.reservations)
    (hr' : r' ∈ t.reservations) (same : r'.id = r.id) : r'.key = r.key := by
  rw [List.inj_on_of_nodup_map t.unique hr' hr same]

theorem accounts_read (h : Accounts s) {r : Reservation} (hr : r ∈ s.tables.reservations) {cost : ℚ}
    (nonneg : 0 ≤ cost) : Accounts { s with settling := s.settling ++ [⟨r.id, r.key, cost⟩] } := by
  refine ⟨h.apart, h.amounts, h.opened, ?_, h.costs, h.spent⟩
  intro x hx
  rcases List.mem_append.mp hx with hx | hx
  · exact ⟨(h.settling x hx).granted, (h.settling x hx).key, (h.settling x hx).opened, (h.settling x hx).cost⟩
  · rw [List.mem_singleton.mp hx]
    refine ⟨?_, fun r' hr' same => reservation_key_unique s.tables hr hr' same, h.opened r hr, nonneg⟩
    exact List.mem_append_left _ (List.mem_append_left _ (List.mem_map_of_mem hr))

/-- The rows of `tables` are among those of `s`, its open usage rows are those of
`s`, and nothing granted is forgotten. -/
theorem Founded.mono {tables : BudgetTables} {settling : List Settling} {booked : List Booking}
    {pruned : List String} {x : Settling} (h : Founded s x)
    (seen_eq : (seen ⟨tables, settling, booked, pruned⟩).Perm (seen s))
    (rows : tables.reservations ⊆ s.tables.reservations)
    (usage : ∀ k, (tables.usage k).isSome = (s.tables.usage k).isSome) :
    Founded ⟨tables, settling, booked, pruned⟩ x :=
  ⟨seen_eq.mem_iff.mpr h.granted, fun r hr => h.key r (rows hr), by rw [usage, h.opened], h.cost⟩

theorem accounts_settled (h : Accounts s) {n : Nat} {x : Settling} (hx : x ∈ s.settling) :
    Accounts (s.settled n x) := by
  have founded := h.settling x hx
  unfold BudgetLedger.settled
  split
  · refine ⟨h.apart, h.amounts, h.opened, ?_, h.costs, h.spent⟩
    intro y hy
    have founded := h.settling y (List.mem_of_mem_eraseIdx hy)
    exact ⟨founded.granted, founded.key, founded.opened, founded.cost⟩
  · rename_i r after taken
    obtain ⟨-, rows, spent_eq, usage⟩ := settle_spec taken founded.opened
    have moved := seen_book rows (s.settling.eraseIdx n) x.key x.cost
    have within : after.reservations ⊆ s.tables.reservations := by
      intro r' hr'
      exact rows.mem_iff.mpr (List.mem_cons_of_mem _ hr')
    refine ⟨?_, ?_, ?_, ?_, ?_, ?_⟩
    · exact moved.nodup_iff.mpr h.apart
    · intro r' hr'
      exact h.amounts r' (within hr')
    · intro r' hr'
      rw [usage]
      exact h.opened r' (within hr')
    · intro y hy
      exact (h.settling y (List.mem_of_mem_eraseIdx hy)).mono moved within usage
    · intro b hb
      rcases List.mem_append.mp hb with hb | hb
      · exact h.costs b hb
      · rw [List.mem_singleton.mp hb]
        exact founded.cost
    · intro k
      rw [spent_eq, h.spent, bookedCost_append, bookedCost]
      simp only [eq_comm]

theorem accounts_prune (h : Accounts s) (now : ℚ) :
    Accounts ⟨s.tables.prune now, s.settling, s.booked,
      s.pruned ++ (s.tables.reservations.filter (BudgetTables.pruned now)).map (·.id)⟩ := by
  have moved := seen_prune s now
  have within : (s.tables.prune now).reservations ⊆ s.tables.reservations :=
    List.filter_subset_self _
  refine ⟨moved.nodup_iff.mpr h.apart, fun r hr => h.amounts r (within hr), fun r hr => h.opened r (within hr),
    fun x hx => (h.settling x hx).mono moved within fun _ => rfl, h.costs, h.spent⟩

/-- What a transaction does to the ledger. -/
inductive Transacted (s : BudgetLedger) : BudgetAct → BudgetLedger → Prop where
  /-- A reserve rolled back, or a settle's read that found nothing. -/
  | nothing (a : BudgetAct) : Transacted s a s
  | rejected {key : BudgetKey} {limit amount ttl stamp : ℚ} {id : String} {tables : BudgetTables}
      (rows : tables.reservations = s.tables.reservations.map (sweepRow key stamp))
      (spent_eq : ∀ k, tables.spent k = s.tables.spent k)
      (usage : ∀ k, (tables.usage k).isSome = (decide (k = key) || (s.tables.usage k).isSome)) :
      Transacted s (.reserve key limit amount id ttl stamp) { s with tables }
  | granted {key : BudgetKey} {limit amount ttl stamp : ℚ} {id : String} {row : Reservation}
      {tables : BudgetTables} (row_id : row.id = id) (row_key : row.key = key)
      (row_live : row.released = false) (nonneg : 0 ≤ row.amountUsd)
      (admitted : s.tables.spent key + heldBy (s.tables.reservations.map (sweepRow key stamp)) key +
        row.amountUsd ≤ limit + tolerance)
      (rows : tables.reservations = s.tables.reservations.map (sweepRow key stamp) ++ [row])
      (spent_eq : ∀ k, tables.spent k = s.tables.spent k)
      (usage : ∀ k, (tables.usage k).isSome = (decide (k = key) || (s.tables.usage k).isSome)) :
      Transacted s (.reserve key limit amount id ttl stamp) { s with tables }
  | read {id : String} {costUsd : Option ℚ} {r : Reservation} (hr : r ∈ s.tables.reservations) :
      Transacted s (.settleRead id costUsd)
        { s with settling := s.settling ++ [⟨r.id, r.key, costOf costUsd⟩] }
  | settled {n : Nat} {x : Settling} (hx : x ∈ s.settling) : Transacted s (.settleBook n) (s.settled n x)
  | pruned (now : ℚ) : Transacted s (.prune now) ⟨s.tables.prune now, s.settling, s.booked,
      s.pruned ++ (s.tables.reservations.filter (BudgetTables.pruned now)).map (·.id)⟩

theorem settleBook_step {n : Nat} :
    s.step (.settleBook n) = some s' ↔ ∃ x, s.settling[n]? = some x ∧ s.settled n x = s' := by
  simp only [BudgetLedger.step, Option.bind_eq_bind, Option.bind_eq_some_iff, Option.pure_def,
    Option.some.injEq]

theorem transacted_of_step {a : BudgetAct} (stepped : s.step a = some s') : Transacted s a s' := by
  cases a with
  | reserve key limit amount id ttl stamp =>
    obtain rfl := Option.some.inj stepped
    have ends := reserve_reserved s.tables key limit amount id ttl stamp
    generalize s.tables.reserve key limit amount id ttl stamp = result at ends
    cases ends with
    | rolledBack => exact .nothing _
    | rejected rows spent_eq usage others => exact .rejected rows spent_eq usage
    | granted row fresh row_id row_key row_live nonneg admitted rows spent_eq usage =>
      exact .granted row_id row_key row_live nonneg admitted rows spent_eq usage
  | settleRead id cost =>
    simp only [BudgetLedger.step] at stepped
    split at stepped
    · obtain rfl := Option.some.inj stepped
      exact .nothing _
    · rename_i r found
      obtain rfl := Option.some.inj stepped
      exact .read (mem_of_find found).1
  | settleBook n =>
    obtain ⟨x, at_n, rfl⟩ := settleBook_step.mp stepped
    exact .settled (List.mem_of_getElem? at_n)
  | prune now =>
    obtain rfl := Option.some.inj stepped
    exact .pruned now

/-- Each transaction that asks for a fresh id keeps the accounts. -/
theorem accounts_step {a : BudgetAct} (h : Accounts s) (fresh : Fresh s a) (stepped : s.step a = some s') :
    Accounts s' := by
  cases transacted_of_step stepped with
  | nothing => exact h
  | rejected rows spent_eq usage => exact accounts_rejected h rows spent_eq usage
  | @granted key limit amount ttl stamp id row tables row_id row_key row_live nonneg admitted rows spent_eq usage =>
    -- the sweep first, then the insert
    have swept : Accounts { s with tables := { s.tables.sweep key stamp with usage := tables.usage } } :=
      accounts_rejected h rfl spent_eq usage
    have unseen : row.id ∉ seen { s with tables := { s.tables.sweep key stamp with usage := tables.usage } } := by
      have same : seen { s with tables := { s.tables.sweep key stamp with usage := tables.usage } } = seen s :=
        seen_sweep rfl
      rw [same, row_id]
      exact fresh
    exact accounts_insert swept unseen nonneg (by simp [usage, row_key]) rows (fun _ => rfl) fun _ => rfl
  | read hr => exact accounts_read h hr (le_max_left _ _)
  | settled hx => exact accounts_settled h hx
  | pruned now => exact accounts_prune h now

/-- A settle adds its cost and frees what its row held. -/
theorem within_settled {n : Nat} {x : Settling} (founded : Founded s x) {k : BudgetKey} {limit : ℚ}
    (h : s.tables.spent k + heldBy s.tables.reservations k ≤ max 0 (limit + tolerance) + bookedExcess s k) :
    (s.settled n x).tables.spent k + heldBy (s.settled n x).tables.reservations k ≤
      max 0 (limit + tolerance) + bookedExcess (s.settled n x) k := by
  unfold BudgetLedger.settled
  split
  · exact h
  · rename_i r after taken
    obtain ⟨id_eq, rows, spent_eq, -⟩ := settle_spec taken founded.opened
    have key_eq := founded.key r (rows.mem_iff.mpr List.mem_cons_self) id_eq
    have freed := heldBy_perm rows k
    rw [heldBy_cons] at freed
    rw [spent_eq, bookedExcess_append]
    change _ ≤ max 0 (limit + tolerance) + (bookedExcess s k + _)
    by_cases mine : x.key = k
    · subst mine
      rw [if_pos rfl, if_pos rfl]
      have paid : x.cost ≤ held x.key r + excess ⟨r, x.key, x.cost⟩ := by
        unfold held excess
        cases swept : r.released with
        | true => simp
        | false =>
          have := le_max_right 0 (x.cost - r.amountUsd)
          simp only [key_eq, and_self, if_true, Bool.false_eq_true, if_false]
          linarith
      linarith
    · have unheld : held k r = 0 := by
        rw [held, if_neg]
        rintro ⟨same, -⟩
        exact mine (key_eq.symm.trans same)
      rw [if_neg (Ne.symm mine), if_neg mine]
      linarith

/-- Each transaction keeps a key within its limit. -/
theorem within_step {a : BudgetAct} (accounts : Accounts s) (stepped : s.step a = some s') {k : BudgetKey}
    {limit : ℚ} (limited : LimitedTo k limit a) (h : Within k limit s) : Within k limit s' := by
  unfold Within at h ⊢
  rw [live_eq] at h ⊢
  cases transacted_of_step stepped with
  | nothing => exact h
  | @rejected key _ _ _ stamp _ tables rows spent_eq usage =>
    have freed := heldBy_sweep_le accounts.amounts key k stamp
    simp only [rows, spent_eq]
    change _ ≤ _ + bookedExcess s k
    linarith
  | @granted key l _ _ stamp _ row _ row_id row_key row_live _ admitted rows spent_eq usage =>
    have freed := heldBy_sweep_le accounts.amounts key k stamp
    simp only [rows, spent_eq, heldBy_append]
    change _ ≤ _ + bookedExcess s k
    by_cases mine : key = k
    · subst mine
      have same : l = limit := limited rfl
      have own : heldBy [row] key = row.amountUsd := by simp [heldBy, held, row_key, row_live]
      have cap := le_max_right 0 (limit + tolerance)
      have spare := bookedExcess_nonneg accounts.costs key
      linarith
    · have others : heldBy [row] k = 0 := by simp [heldBy, held, row_key, mine]
      linarith
  | read hr => exact h
  | settled hx => exact within_settled (accounts.settling _ hx) h
  | pruned now =>
    have rows := heldBy_perm (prune_perm s.tables now) k
    have released : ∀ r ∈ s.tables.reservations.filter (BudgetTables.pruned now), r.released = true := by
      intro r hr
      have due := List.of_mem_filter hr
      simp only [BudgetTables.pruned, Bool.decide_and, Bool.and_eq_true, decide_eq_true_eq] at due
      exact due.1
    rw [heldBy_append, heldBy_released released, add_zero] at rows
    rw [rows] at h
    exact h

/-- A step grants no other id than the one it asks for. -/
theorem seen_step {a : BudgetAct} (accounts : Accounts s) (stepped : s.step a = some s') :
    ∀ id ∈ seen s', id ∈ seen s ∨ id ∈ reserveIds [a] := by
  intro id hid
  cases transacted_of_step stepped with
  | nothing => exact .inl hid
  | rejected rows spent_eq usage => exact .inl (seen_sweep rows ▸ hid)
  | @granted key _ _ _ stamp _ row tables row_id _ _ _ _ rows _ _ =>
    have swept : seen { s with tables := s.tables.sweep key stamp } = seen s := seen_sweep rfl
    have grown : (seen { s with tables := tables }).Perm (row.id :: seen s) :=
      swept ▸ seen_insert (s := { s with tables := s.tables.sweep key stamp }) rows
    rcases List.mem_cons.mp (grown.mem_iff.mp hid) with rfl | old
    · exact .inr (by simp [reserveIds, row_id])
    · exact .inl old
  | read hr => exact .inl hid
  | @settled n x hx =>
    have founded := accounts.settling x hx
    unfold BudgetLedger.settled at hid
    split at hid
    · exact .inl hid
    · rename_i r after taken
      obtain ⟨-, rows, -, -⟩ := settle_spec taken founded.opened
      exact .inl ((seen_book rows _ _ _).mem_iff.mp hid)
  | pruned now => exact .inl ((seen_prune s now).mem_iff.mp hid)

theorem reserveIds_concat (acts : List BudgetAct) (a : BudgetAct) :
    reserveIds (acts ++ [a]) = reserveIds acts ++ reserveIds [a] := by
  simp [reserveIds]

/-- Along every run whose reserves ask for fresh ids. -/
theorem accounts_run {acts : List BudgetAct} (ran : runBudget acts = some s)
    (fresh : (reserveIds acts).Nodup) :
    Accounts s ∧ ∀ key limit, (∀ a ∈ acts, LimitedTo key limit a) → Within key limit s := by
  have along : (reserveIds acts).Nodup → Accounts s ∧ (∀ id ∈ seen s, id ∈ reserveIds acts) ∧
      ∀ key limit, (∀ a ∈ acts, LimitedTo key limit a) → Within key limit s := by
    refine Machine.run_history (I := fun acts s => (reserveIds acts).Nodup → Accounts s ∧
      (∀ id ∈ seen s, id ∈ reserveIds acts) ∧
      ∀ key limit, (∀ a ∈ acts, LimitedTo key limit a) → Within key limit s) ?_ ?_ ran
    · intro _
      refine ⟨⟨List.nodup_nil, List.forall_mem_nil _, List.forall_mem_nil _, List.forall_mem_nil _,
        List.forall_mem_nil _, fun _ => rfl⟩, List.forall_mem_nil _, fun key limit _ => ?_⟩
      have nothing : bookedExcess .empty key = 0 := rfl
      have nobody : BudgetLedger.empty.tables.live key = 0 := rfl
      have never : BudgetLedger.empty.tables.spent key = 0 := rfl
      rw [Within, nothing, nobody, never]
      simp
    · intro before s a s' earlier stepped nodup
      rw [reserveIds_concat, List.nodup_append] at nodup
      obtain ⟨accounts, asked, limits⟩ := earlier nodup.1
      have fresh : Fresh s a := by
        cases a with
        | reserve key limit amount id ttl stamp =>
          intro old
          exact nodup.2.2 id (asked id old) id (by simp [reserveIds]) rfl
        | settleRead id cost => trivial
        | settleBook n => trivial
        | prune now => trivial
      refine ⟨accounts_step accounts fresh stepped, ?_, ?_⟩
      · intro id hid
        rw [reserveIds_concat, List.mem_append]
        exact (seen_step accounts stepped id hid).imp_left (asked id)
      · intro key limit limited
        apply within_step accounts stepped (limited a (by simp))
        exact limits key limit fun b hb => limited b (List.mem_append_left _ hb)
  exact ⟨(along fresh).1, (along fresh).2.2⟩

end Ledger

section Promises

variable {s s' : BudgetLedger}

/-- A settle that finds its row has booked it, once; else it was booked or pruned
before. -/
theorem settled_once (h : Accounts s) {n : Nat} {x : Settling} (at_n : s.settling[n]? = some x)
    (stepped : s.step (.settleBook n) = some s') :
    x.id ∈ s'.pruned ∨ ∃! b, b ∈ s'.booked ∧ b.reservation.id = x.id := by
  have kept := accounts_step (a := .settleBook n) h trivial stepped
  obtain ⟨y, at_n', rfl⟩ := settleBook_step.mp stepped
  obtain rfl := Option.some.inj (at_n'.symm.trans at_n)
  have founded := h.settling y (List.mem_of_getElem? at_n)
  have gone : y.id ∈ (s.settled n y).booked.map (·.reservation.id) ∨ y.id ∈ (s.settled n y).pruned := by
    unfold BudgetLedger.settled
    split
    · rename_i missing
      rcases List.mem_append.mp founded.granted with old | old
      · rcases List.mem_append.mp old with present | old
        · exact absurd present (not_mem_ids_of_settle missing)
        · exact .inl old
      · exact .inr old
    · rename_i r after taken
      left
      simp [(settle_spec taken founded.opened).1]
  rcases gone with booked | pruned
  · right
    obtain ⟨b, hb, same⟩ := List.mem_map.mp booked
    refine ⟨b, ⟨hb, same⟩, ?_⟩
    rintro b' ⟨hb', same'⟩
    have once : ((s.settled n y).booked.map (·.reservation.id)).Nodup :=
      ((List.nodup_append.mp (List.nodup_append.mp kept.apart).1).2).1
    exact List.inj_on_of_nodup_map once hb' hb (same'.trans same.symm)
  · exact .inl pruned

/-- What a reserve that is not admitted leaves as it was. -/
structure RejectedFrame (t : BudgetTables) (key : BudgetKey) (stamp : ℚ) (after : BudgetTables) : Prop where
  ids : after.ids = t.ids
  rows : after.reservations = t.reservations ∨ after.reservations = t.reservations.map (sweepRow key stamp)
  spent : ∀ k, after.spent k = t.spent k
  others : ∀ k, k ≠ key → after.usage k = t.usage k

theorem rejected_frame (t : BudgetTables) (key : BudgetKey) (limit amount : ℚ) (id : String) (ttl stamp : ℚ)
    (rejected : (t.reserve key limit amount id ttl stamp).1.allowed = false) :
    RejectedFrame t key stamp (t.reserve key limit amount id ttl stamp).2 := by
  have ends := reserve_reserved t key limit amount id ttl stamp
  generalize t.reserve key limit amount id ttl stamp = result at ends rejected
  cases ends with
  | granted => cases rejected
  | rolledBack => exact ⟨rfl, .inl rfl, fun _ => rfl, fun _ _ => rfl⟩
  | rejected rows spent_eq usage others =>
    refine ⟨?_, .inr rows, spent_eq, others⟩
    simp only [BudgetTables.ids, rows, ids_sweep]

/-- What the ledger promises in the state `s` an interleaving `acts` leads to. -/
structure Sound (acts : List BudgetAct) (s : BudgetLedger) : Prop where
  booked_once : (s.booked.map (·.reservation.id)).Nodup
  settled_once : ∀ n x s', s.settling[n]? = some x → s.step (.settleBook n) = some s' →
    x.id ∈ s'.pruned ∨ ∃! b, b ∈ s'.booked ∧ b.reservation.id = x.id
  spent_booked : ∀ key, s.tables.spent key = bookedCost s key
  rejected : ∀ key limit amount id ttl stamp,
    (s.tables.reserve key limit amount id ttl stamp).1.allowed = false →
      RejectedFrame s.tables key stamp (s.tables.reserve key limit amount id ttl stamp).2
  within : ∀ key limit, (∀ a ∈ acts, LimitedTo key limit a) →
    s.tables.spent key + s.tables.live key ≤ max 0 (limit + tolerance) + bookedExcess s key

/-- For every interleaving of reserves, settles and prunes whose reservation ids are
fresh. -/
theorem subject_budget_ledger {acts : List BudgetAct} (ran : runBudget acts = some s)
    (fresh : (reserveIds acts).Nodup) : Sound acts s := by
  obtain ⟨accounts, limits⟩ := accounts_run ran fresh
  exact {
    booked_once := ((List.nodup_append.mp (List.nodup_append.mp accounts.apart).1).2).1
    settled_once := fun n x s' => settled_once accounts
    spent_booked := accounts.spent
    rejected := rejected_frame s.tables
    within := limits }

def sampleKey : BudgetKey := ⟨1, "k:1", "2030-01"⟩

/-- Two reserves fill the limit, a third is rejected; one settles twice, above its
reservation, and the other is swept and settled late. -/
def sampleActs : List BudgetAct :=
  [.reserve sampleKey (1 / 10) (1 / 20) "r1" 900 0, .reserve sampleKey (1 / 10) (1 / 20) "r2" 900 0,
    .reserve sampleKey (1 / 10) (1 / 20) "r3" 900 1, .settleRead "r1" (some (7 / 100)),
    .settleRead "r1" (some (7 / 100)), .settleBook 1, .settleBook 0,
    .reserve sampleKey (1 / 10) (1 / 100) "r4" 900 1000, .settleRead "r2" (some (1 / 50)), .settleBook 0,
    .prune 90000]

theorem subject_budget_ledger_sample :
    (runBudget sampleActs).map (·.booked.map fun b => (b.reservation.id, b.cost, b.reservation.released)) =
      some [("r1", 7 / 100, false), ("r2", 1 / 50, true)] ∧
    ∃ s, runBudget sampleActs = some s ∧ Sound sampleActs s := by
  refine ⟨by decide +kernel, ?_⟩
  obtain ⟨s, ran⟩ := Option.isSome_iff_exists.mp (show (runBudget sampleActs).isSome = true by decide +kernel)
  exact ⟨s, ran, subject_budget_ledger ran (by decide +kernel)⟩

/-- The limit itself is not kept: the admission check admits what exceeds it by the
tolerance. Nor does a rejected reserve change nothing: it releases what expired. -/
theorem limit_exceeded_by_tolerance :
    (∃ s, runBudget [.reserve sampleKey (1 / 10) (1 / 10 + tolerance) "r1" 900 0] = some s ∧ s.booked = [] ∧
      1 / 10 < s.tables.spent sampleKey + s.tables.live sampleKey) ∧
    ∃ s, runBudget [.reserve sampleKey (1 / 10) (1 / 10) "r1" 900 0] = some s ∧
      (s.tables.reserve sampleKey (1 / 10) 1 "r2" 900 1000).1.allowed = false ∧
      (s.tables.reserve sampleKey (1 / 10) 1 "r2" 900 1000).2.live sampleKey ≠ s.tables.live sampleKey :=
  ⟨⟨_, rfl, rfl, by decide +kernel⟩, _, rfl, by decide +kernel, by decide +kernel⟩

end Promises

end Unhardcoded.Guarantees.SubjectBudget
