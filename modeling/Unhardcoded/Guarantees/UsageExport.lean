import Unhardcoded.Source.UsageExport

/-!
# What the usage export delivers

The pages of a sequence are, put together, the rows the filter wants between the
cursor it started from and the cursor it has reached (`pages_exact`): every row
once, in id order. The watermark is another matter: a call that the writer commits
and marks done between an export's second query and its watermark read is in no
page and holds the watermark back no longer (`export_loses_call`). In runs where
this happens to no call older than the lag, nothing below a watermark is missing
(`export_complete`).
-/

namespace Unhardcoded.Guarantees.UsageExport
open Effects Source Source.UsageExport Paging

variable {lag : ℚ} {s s' : State}

section Steps

/-- What a step does, and the state it comes in. -/
inductive Moved (lag : ℚ) (s : State) : Act → State → Prop where
  | enqueue (c : Call) : Moved lag s (.enqueue c)
      { s with enqueued := s.enqueued ++ [c], queue := s.queue ++ [c], pending := c.ts :: s.pending }
  | take {c : Call} {queue : List Call} (idle : s.writer = .idle) (head : s.queue = c :: queue) :
      Moved lag s .take { s with writer := .writing c, queue }
  | commit {c : Call} {id : Nat} {recordedAt : ℚ} (writing : s.writer = .writing c)
      (behind : ∀ r ∈ s.rows, r.id < id ∧ r.recordedAt ≤ recordedAt) :
      Moved lag s (.commit id recordedAt)
        { s with writer := .wrote c, rows := s.rows ++ [⟨id, c, recordedAt⟩] }
  | done {c : Call} (wrote : s.writer = .wrote c) :
      Moved lag s .done { s with writer := .idle, pending := s.pending.erase c.ts, done := s.done + 1 }
  | start (filter : Filter) (afterId : Nat) (limit : Int) (stamp : ℚ) :
      Moved lag s (.start filter afterId limit stamp) { s with
        exports := s.exports ++ [⟨filter, afterId, pageLimit limit, stamp, afterId, [], .stamped⟩] }
  | next {i : Nat} {limit : Int} {stamp : ℚ} {e : Export} {rows : List Row} {watermarkTs : Int}
      (mem : e ∈ s.exports) (phase : e.phase = .returned rows watermarkTs) :
      Moved lag s (.next i limit stamp) { s with
        exports := s.exports ++ [⟨e.filter, e.nextAfterId rows, pageLimit limit, stamp, e.start,
          e.earlier ++ rows, .stamped⟩] }
  | page {i : Nat} {e : Export} (at_i : s.exports[i]? = some e) (phase : e.phase = .stamped) :
      Moved lag s (.page i)
        { s with exports := s.exports.set i { e with phase := .paged (e.page lag s.rows) } }
  | scan {i : Nat} {e : Export} {rows : List Row} (at_i : s.exports[i]? = some e)
      (phase : e.phase = .paged rows) :
      Moved lag s (.scan i) { s with
        exports := s.exports.set i
          { e with phase := .scanned rows (e.oldest s.rows (e.nextAfterId rows)) s.rows.length } }
  | watermark {i : Nat} {e : Export} {rows : List Row} {oldest : Option Int} {committed : Nat}
      (at_i : s.exports[i]? = some e) (phase : e.phase = .scanned rows oldest committed) :
      Moved lag s (.watermark i) { s with
        exports := s.exports.set i { e with phase := .returned rows (e.watermarkTs lag s.pending oldest) } }

theorem onExport_cases {i : Nat} {f : Export → Option Phase} (h : s.onExport i f = some s') :
    ∃ e phase, s.exports[i]? = some e ∧ f e = some phase ∧
      s' = { s with exports := s.exports.set i { e with phase } } := by
  simp only [State.onExport, Option.bind_eq_bind, Option.bind_eq_some_iff, Option.pure_def,
    Option.some.injEq] at h
  obtain ⟨e, at_i, phase, stepped, rfl⟩ := h
  exact ⟨e, phase, at_i, stepped, rfl⟩

theorem moved_of_step {a : Act} (stepped : s.step lag a = some s') : Moved lag s a s' := by
  cases a with
  | enqueue c =>
    obtain rfl := Option.some.inj stepped
    exact .enqueue c
  | take =>
    simp only [State.step] at stepped
    split at stepped
    · rename_i idle head
      obtain rfl := Option.some.inj stepped
      exact .take idle head
    · cases stepped
  | commit id recordedAt =>
    simp only [State.step] at stepped
    split at stepped
    · rename_i writing
      split at stepped
      · rename_i behind
        obtain rfl := Option.some.inj stepped
        exact .commit writing behind
      · cases stepped
    · cases stepped
  | done =>
    simp only [State.step] at stepped
    split at stepped
    · rename_i wrote
      obtain rfl := Option.some.inj stepped
      exact .done wrote
    · cases stepped
  | start filter afterId limit stamp =>
    obtain rfl := Option.some.inj stepped
    exact .start filter afterId limit stamp
  | next i limit stamp =>
    simp only [State.step, Option.bind_eq_bind, Option.bind_eq_some_iff] at stepped
    obtain ⟨e, at_i, stepped⟩ := stepped
    split at stepped
    · rename_i phase
      obtain rfl := Option.some.inj stepped
      exact .next (List.mem_of_getElem? at_i) phase
    · cases stepped
  | page i =>
    obtain ⟨e, phase, at_i, answered, rfl⟩ := onExport_cases stepped
    split at answered
    · rename_i stamped
      obtain rfl := Option.some.inj answered
      exact .page at_i stamped
    · cases answered
  | scan i =>
    obtain ⟨e, phase, at_i, answered, rfl⟩ := onExport_cases stepped
    split at answered
    · rename_i paged
      obtain rfl := Option.some.inj answered
      exact .scan at_i paged
    · cases answered
  | watermark i =>
    obtain ⟨e, phase, at_i, answered, rfl⟩ := onExport_cases stepped
    split at answered
    · rename_i scanned
      obtain rfl := Option.some.inj answered
      exact .watermark at_i scanned
    · cases answered

end Steps

section Ledger

/-- The job the writer has taken and not committed. -/
def inHand : Writer → List Call
  | .writing c => [c]
  | _ => []

/-- The ledger holds the calls in the order of their enqueue, and what is pending is
what is not yet done. -/
structure InOrder (s : State) : Prop where
  log : s.enqueued = s.rows.map (·.call) ++ inHand s.writer ++ s.queue
  done : ∀ c, s.writer = .wrote c → s.rows.length = s.done + 1 ∧ s.enqueued[s.done]? = some c
  doneAll : (∀ c, s.writer ≠ .wrote c) → s.rows.length = s.done
  pending : s.pending.Perm ((s.enqueued.drop s.done).map (·.ts))
  ascending : Ascending Row.id s.rows
  recorded : s.rows.Pairwise fun a b => a.recordedAt ≤ b.recordedAt

theorem InOrder.done_le (h : InOrder s) : s.done ≤ s.rows.length := by
  cases writer : s.writer with
  | wrote c =>
    have := (h.done c writer).1
    omega
  | _ =>
    have := h.doneAll (by rw [writer]; nofun)
    omega

theorem InOrder.rows_le (h : InOrder s) : s.rows.length ≤ s.enqueued.length := by
  rw [h.log]
  simp only [List.length_append, List.length_map]
  omega

/-- The `k`th row is the `k`th call. -/
theorem InOrder.row_call (h : InOrder s) {k : Nat} {r : Row} (at_k : s.rows[k]? = some r) :
    s.enqueued[k]? = some r.call := by
  have within := (List.getElem?_eq_some_iff.mp at_k).1
  rw [h.log, List.append_assoc, List.getElem?_append_left (by simpa using within), List.getElem?_map, at_k]
  rfl

theorem inOrder_step {a : Act} (h : InOrder s) (moved : Moved lag s a s') : InOrder s' := by
  cases moved with
  | enqueue c =>
    have done_le := h.done_le
    have rows_le := h.rows_le
    refine ⟨?_, ?_, h.doneAll, ?_, h.ascending, h.recorded⟩
    · simp only [h.log, List.append_assoc]
    · intro c' wrote
      obtain ⟨length, at_done⟩ := h.done c' wrote
      have within : s.done < s.enqueued.length := by omega
      exact ⟨length, by rw [List.getElem?_append_left within, at_done]⟩
    · simp only [List.drop_append_of_le_length (show s.done ≤ s.enqueued.length by omega), List.map_append,
        List.map_cons, List.map_nil]
      exact (h.pending.cons c.ts).trans (List.perm_append_singleton _ _).symm
  | take idle head =>
    refine ⟨?_, nofun, ?_, h.pending, h.ascending, h.recorded⟩
    · simp only [h.log, idle, head, inHand, List.append_nil, List.append_assoc, List.singleton_append]
    · intro _
      exact h.doneAll (by rw [idle]; nofun)
  | @commit c id recordedAt writing behind =>
    have length := h.doneAll (by rw [writing]; nofun)
    have log := h.log
    rw [writing] at log
    refine ⟨?_, ?_, ?_, h.pending, ?_, ?_⟩
    · simp only [log, inHand, List.map_append, List.map_cons, List.map_nil, List.append_nil]
    · intro c' wrote
      obtain rfl := Writer.wrote.inj wrote
      refine ⟨by simp [length], ?_⟩
      rw [log, ← length]
      simp [inHand]
    · intro unwritten
      exact absurd rfl (unwritten c)
    · refine List.pairwise_append.mpr ⟨h.ascending, List.pairwise_singleton _ _, ?_⟩
      intro a ha b hb
      rw [List.mem_singleton.mp hb]
      exact (behind a ha).1
    · refine List.pairwise_append.mpr ⟨h.recorded, List.pairwise_singleton _ _, ?_⟩
      intro a ha b hb
      rw [List.mem_singleton.mp hb]
      exact (behind a ha).2
  | @done c wrote =>
    obtain ⟨length, at_done⟩ := h.done c wrote
    refine ⟨?_, nofun, fun _ => length, ?_, h.ascending, h.recorded⟩
    · simpa only [wrote, inHand] using h.log
    · have oldest : s.enqueued.drop s.done = c :: s.enqueued.drop (s.done + 1) := by
        obtain ⟨within, same⟩ := List.getElem?_eq_some_iff.mp at_done
        rw [← same]
        exact List.drop_eq_getElem_cons within
      have erased := h.pending.erase c.ts
      rw [oldest, List.map_cons, List.erase_cons_head] at erased
      exact erased
  | start => exact ⟨h.log, h.done, h.doneAll, h.pending, h.ascending, h.recorded⟩
  | next => exact ⟨h.log, h.done, h.doneAll, h.pending, h.ascending, h.recorded⟩
  | page => exact ⟨h.log, h.done, h.doneAll, h.pending, h.ascending, h.recorded⟩
  | scan => exact ⟨h.log, h.done, h.doneAll, h.pending, h.ascending, h.recorded⟩
  | watermark => exact ⟨h.log, h.done, h.doneAll, h.pending, h.ascending, h.recorded⟩

theorem inOrder_empty : InOrder .empty :=
  ⟨rfl, nofun, fun _ => rfl, List.Perm.nil, List.Pairwise.nil, List.Pairwise.nil⟩

end Ledger

section Pages

variable {e : Export}

/-- The rows of the ledger an export is about. -/
def wanted (rows : List Row) (f : Filter) : List Row := rows.filter fun r => f.wants r.call

/-- The page of an export, as far as it is read. -/
def pageRows (e : Export) : List Row :=
  match e.phase with
  | .stamped => []
  | .paged rows | .scanned rows _ _ | .returned rows _ => rows

/-- The cursor an export has reached. -/
def reached (e : Export) : Nat := e.nextAfterId (pageRows e)

/-- What the sequence has read, up to this export, is all there is to read up to its
cursor. -/
structure Delivered (s : State) (e : Export) : Prop where
  rows : e.earlier ++ pageRows e = between Row.id (wanted s.rows e.filter) e.start (reached e)
  start_le : e.start ≤ reached e
  behind : reached e = e.start ∨ ∃ r ∈ s.rows, r.id = reached e

theorem delivered_commit (h : Delivered s e) {row : Row} (behind : ∀ r ∈ s.rows, r.id < row.id) {s' : State}
    (rows : s'.rows = s.rows ++ [row]) : Delivered s' e := by
  have later : reached e ≤ e.start ∨ reached e < row.id := by
    rcases h.behind with same | ⟨r, hr, same⟩
    · exact .inl (le_of_eq same)
    · exact .inr (same ▸ behind r hr)
  refine ⟨?_, h.start_le, h.behind.imp_right ?_⟩
  · rw [h.rows, rows, wanted, wanted, List.filter_append, List.filter_singleton]
    cases e.filter.wants row.call with
    | true => exact (between_concat later).symm
    | false => rw [cond_false, List.append_nil]
  · rintro ⟨r, hr, same⟩
    exact ⟨r, by rw [rows]; exact List.mem_append_left _ hr, same⟩

/-- The first query reads on from the cursor. -/
theorem delivered_page (order : InOrder s) (h : Delivered s e) (stamped : e.phase = .stamped) :
    Delivered s { e with phase := .paged (e.page lag s.rows) } := by
  have ascending : Ascending Row.id (wanted s.rows e.filter) := order.ascending.filter _
  have inOrder : (wanted s.rows e.filter).Pairwise fun a b =>
      decide (b.recordedAt ≤ e.stamp - lag) = true → decide (a.recordedAt ≤ e.stamp - lag) = true := by
    refine (order.recorded.filter _).imp fun {a b} le => ?_
    simp only [decide_eq_true_eq]
    exact le_trans le
  have page_eq : e.page lag s.rows =
      between Row.id (wanted s.rows e.filter) e.afterId (e.nextAfterId (e.page lag s.rows)) :=
    page_eq_between ascending inOrder e.afterId e.limit
  have before : e.earlier = between Row.id (wanted s.rows e.filter) e.start e.afterId := by
    have rows := h.rows
    simp only [pageRows, stamped, reached, List.append_nil] at rows
    exact rows
  have start_le : e.start ≤ e.afterId := by
    have start_le := h.start_le
    simp only [pageRows, stamped, reached] at start_le
    exact start_le
  have next_le : e.afterId ≤ e.nextAfterId (e.page lag s.rows) := le_cursor _ _ _ _
  refine ⟨?_, le_trans start_le next_le, ?_⟩
  · change e.earlier ++ e.page lag s.rows = between _ _ _ (e.nextAfterId (e.page lag s.rows))
    conv_lhs => rw [before, page_eq]
    exact between_append ascending start_le next_le
  · rcases cursor_cases Row.id (e.page lag s.rows) e.afterId with same | ⟨last, row, same⟩
    · have behind := h.behind
      simp only [pageRows, stamped, reached] at behind
      change e.nextAfterId (e.page lag s.rows) = _ ∨ ∃ r ∈ s.rows, r.id = e.nextAfterId (e.page lag s.rows)
      rw [Export.nextAfterId, same]
      exact behind
    · exact .inr ⟨last, List.mem_of_mem_filter (mem_page row).1, same.symm⟩

/-- Each export of the new state is an old one, the one that moved, or a new one. -/
theorem forall_set {p : Export → Prop} {exports : List Export} (h : ∀ e ∈ exports, p e) (i : Nat) {e' : Export}
    (new : p e') : ∀ e ∈ exports.set i e', p e := by
  intro e he
  rcases List.mem_or_eq_of_mem_set he with he | rfl
  · exact h e he
  · exact new

theorem forall_concat {p : Export → Prop} {exports : List Export} (h : ∀ e ∈ exports, p e) {e' : Export}
    (new : p e') : ∀ e ∈ exports ++ [e'], p e := by
  intro e he
  rcases List.mem_append.mp he with he | he
  · exact h e he
  · rw [List.mem_singleton.mp he]
    exact new

/-- The second query and the watermark leave the page as it is. -/
theorem delivered_rephase (h : Delivered s e) {phase : Phase}
    (same : pageRows { e with phase } = pageRows e) : Delivered s { e with phase } := by
  have at_ : reached { e with phase } = reached e := by
    rw [reached, reached, same]
    rfl
  exact ⟨by rw [same, at_]; exact h.rows, by rw [at_]; exact h.start_le, by rw [at_]; exact h.behind⟩

theorem delivered_step {a : Act} (order : InOrder s) (h : ∀ e ∈ s.exports, Delivered s e)
    (moved : Moved lag s a s') : ∀ e ∈ s'.exports, Delivered s' e := by
  -- a step on the exports leaves the rows as they are
  have same : ∀ {e : Export} {exports : List Export}, Delivered s e → Delivered { s with exports } e :=
    fun h => ⟨h.rows, h.start_le, h.behind⟩
  cases moved with
  | enqueue c => exact fun e he => ⟨(h e he).rows, (h e he).start_le, (h e he).behind⟩
  | take idle head => exact fun e he => ⟨(h e he).rows, (h e he).start_le, (h e he).behind⟩
  | commit writing behind => exact fun e he => delivered_commit (h e he) (fun r hr => (behind r hr).1) rfl
  | done wrote => exact fun e he => ⟨(h e he).rows, (h e he).start_le, (h e he).behind⟩
  | start filter afterId limit stamp =>
    refine forall_concat (fun e he => same (h e he)) ⟨?_, le_refl _, .inl rfl⟩
    exact (between_empty (le_refl _)).symm
  | @next i limit stamp e rows watermarkTs mem phase =>
    have before := h e mem
    have read : pageRows e = rows := by rw [pageRows, phase]
    have at_ : reached e = e.nextAfterId rows := by rw [reached, read]
    refine forall_concat (fun e he => same (h e he)) ⟨?_, ?_, ?_⟩
    · have rows_eq := before.rows
      rw [read, at_] at rows_eq
      exact (List.append_nil _).trans rows_eq
    · exact at_ ▸ before.start_le
    · exact at_ ▸ before.behind
  | @page i e at_i phase =>
    have mem := List.mem_of_getElem? at_i
    exact forall_set (fun e he => same (h e he)) i (same (delivered_page order (h e mem) phase))
  | @scan i e rows at_i phase =>
    have before := h e (List.mem_of_getElem? at_i)
    exact forall_set (fun e he => same (h e he)) i (same (delivered_rephase before (by simp [pageRows, phase])))
  | @watermark i e rows oldest committed at_i phase =>
    have before := h e (List.mem_of_getElem? at_i)
    exact forall_set (fun e he => same (h e he)) i (same (delivered_rephase before (by simp [pageRows, phase])))

/-- The pages of a sequence are what the filter wants between its cursors: every row
once, in id order. -/
theorem delivered_run {acts : List Act} (ran : runExports lag acts = some s) :
    InOrder s ∧ ∀ e ∈ s.exports, Delivered s e := by
  refine Machine.run_invariant (I := fun s => InOrder s ∧ ∀ e ∈ s.exports, Delivered s e)
    ⟨inOrder_empty, List.forall_mem_nil _⟩ ?_ ran
  rintro s a s' ⟨order, pages⟩ stepped
  have moved := moved_of_step stepped
  exact ⟨inOrder_step order moved, delivered_step order pages moved⟩

end Pages

section Watermark

variable {e : Export}

/-- A call the export does not want, or not older than the lag allows. -/
def Young (lag : ℚ) (e : Export) (c : Call) : Prop := e.filter.wants c = true → int (e.stamp - lag) ≤ c.ts

def hasReturned (e : Export) : Bool :=
  match e.phase with
  | .returned _ _ => true
  | _ => false

/-- Between its second query and its watermark read: how many rows the query saw. -/
def queriedAt (e : Export) : Option Nat :=
  match e.phase with
  | .scanned _ _ committed => some committed
  | _ => none

/-- The call the writer is about to mark done. -/
def written : Writer → Option Call
  | .wrote c => some c
  | _ => none

/-- The condition on one step: a call is young for an export that has returned when it
is enqueued, and for one between its second query and its watermark read when it is
marked done there, having been committed after the query. -/
def Timely (lag : ℚ) (s : State) : Act → Prop
  | .enqueue c => ∀ e ∈ s.exports, hasReturned e = true → Young lag e c
  | .done => ∀ c ∈ written s.writer, ∀ e ∈ s.exports, ∀ committed ∈ queriedAt e,
      committed ≤ s.done → Young lag e c
  | _ => True

/-- Between the second query and the watermark read: what the query saw behind the
cursor caps the watermark, and what it did not see is pending or young. -/
structure Capped (lag : ℚ) (s : State) (e : Export) (rows : List Row) (oldest : Option Int)
    (committed : Nat) : Prop where
  committed_le : committed ≤ s.rows.length
  seen : ∀ (k : Nat) (r : Row), k < committed → s.rows[k]? = some r → e.filter.wants r.call = true →
    e.nextAfterId rows < r.id → ∃ ts ∈ oldest, ts ≤ r.call.ts
  unseen : ∀ (k : Nat) (c : Call), committed ≤ k → k < s.done → s.enqueued[k]? = some c → e.filter.wants c = true →
    int (e.stamp - lag) ≤ c.ts

/-- Below the watermark every wanted call is in the ledger, up to the cursor. -/
structure Complete (lag : ℚ) (s : State) (e : Export) (rows : List Row) (w : Int) : Prop where
  lagging : w ≤ int (e.stamp - lag)
  calls : ∀ (k : Nat) (c : Call), s.enqueued[k]? = some c → e.filter.wants c = true → c.ts < w →
    ∃ r : Row, s.rows[k]? = some r ∧ r.id ≤ e.nextAfterId rows

/-- What an export has made sure of, by its phase. -/
def Marked (lag : ℚ) (s : State) (e : Export) : Prop :=
  match e.phase with
  | .scanned rows oldest committed => Capped lag s e rows oldest committed
  | .returned rows w => Complete lag s e rows w
  | _ => True

/-- A step that only adds behind what an export has looked at. -/
theorem marked_mono (h : Marked lag s e) (order : InOrder s) {s' : State}
    (rows : ∀ k, k < s.rows.length → s'.rows[k]? = s.rows[k]?) (rows_le : s.rows.length ≤ s'.rows.length)
    (calls : ∀ k, k < s.enqueued.length → s'.enqueued[k]? = s.enqueued[k]?)
    (young : ∀ rows w, e.phase = .returned rows w → ∀ k c, s.enqueued.length ≤ k →
      s'.enqueued[k]? = some c → e.filter.wants c = true → int (e.stamp - lag) ≤ c.ts)
    (late : ∀ rows oldest committed, e.phase = .scanned rows oldest committed → ∀ k c, committed ≤ k →
      s.done ≤ k → k < s'.done → s'.enqueued[k]? = some c → e.filter.wants c = true →
      int (e.stamp - lag) ≤ c.ts) : Marked lag s' e := by
  unfold Marked at h ⊢
  cases phase : e.phase with
  | stamped => trivial
  | paged rows => trivial
  | scanned page oldest committed =>
    rw [phase] at h
    refine ⟨le_trans h.committed_le rows_le, ?_, ?_⟩
    · intro k r within at_k
      rw [rows k (lt_of_lt_of_le within h.committed_le)] at at_k
      exact h.seen k r within at_k
    · intro k c behind done at_k wants
      by_cases old : k < s.done
      · have := order.done_le
        have := order.rows_le
        rw [calls k (by omega)] at at_k
        exact h.unseen k c behind old at_k wants
      · exact late page oldest committed phase k c behind (by omega) done at_k wants
  | returned page w =>
    rw [phase] at h
    refine ⟨h.lagging, ?_⟩
    intro k c at_k wants below
    by_cases old : k < s.enqueued.length
    · rw [calls k old] at at_k
      obtain ⟨r, row, le⟩ := h.calls k c at_k wants below
      have within := (List.getElem?_eq_some_iff.mp row).1
      exact ⟨r, by rw [rows k within, row], le⟩
    · have := young page w phase k c (by omega) at_k wants
      have := h.lagging
      omega

theorem min?_le {l : List Int} {x : Int} (h : x ∈ l) : ∃ m ∈ l.min?, m ≤ x := by
  cases least : l.min? with
  | none => simp [List.min?_eq_none_iff.mp least] at h
  | some m => exact ⟨m, rfl, (List.min?_eq_some_iff.mp least).2 x h⟩

/-- The second query looks at every row committed so far. -/
theorem capped_scan (order : InOrder s) (rows : List Row) :
    Capped lag s { e with phase := .scanned rows (e.oldest s.rows (e.nextAfterId rows)) s.rows.length } rows
      (e.oldest s.rows (e.nextAfterId rows)) s.rows.length := by
  refine ⟨le_refl _, ?_, ?_⟩
  · intro k r _ at_k wants behind
    apply min?_le
    have mem := List.mem_of_getElem? at_k
    exact List.mem_map_of_mem (List.mem_filter.mpr ⟨mem, by simpa using ⟨wants, behind⟩⟩)
  · intro k c behind done
    have := order.done_le
    omega

theorem ledgerWatermark_le (lag : ℚ) (pending : List Int) (stamp : ℚ) :
    ledgerWatermark lag pending stamp ≤ int (stamp - lag) ∧
      ∀ ts ∈ pending, ledgerWatermark lag pending stamp ≤ ts := by
  unfold ledgerWatermark
  cases least : pending.min? with
  | none => simp [List.min?_eq_none_iff.mp least]
  | some m =>
    refine ⟨min_le_left _ _, fun ts hts => ?_⟩
    exact le_trans (min_le_right _ _) ((List.min?_eq_some_iff.mp least).2 ts hts)

theorem watermarkTs_le (e : Export) (lag : ℚ) (pending : List Int) (oldest : Option Int) :
    e.watermarkTs lag pending oldest ≤ ledgerWatermark lag pending e.stamp ∧
      ∀ ts ∈ oldest, e.watermarkTs lag pending oldest ≤ ts := by
  unfold Export.watermarkTs
  cases oldest with
  | none => simp
  | some ts => simp

/-- The watermark read: a call the second query did not see is pending or young. -/
theorem complete_watermark (order : InOrder s) {rows : List Row} {oldest : Option Int} {committed : Nat}
    (h : Capped lag s e rows oldest committed) : Complete lag s e rows (e.watermarkTs lag s.pending oldest) := by
  obtain ⟨below_mark, below_oldest⟩ := watermarkTs_le e lag s.pending oldest
  obtain ⟨lagging, below_pending⟩ := ledgerWatermark_le lag s.pending e.stamp
  refine ⟨le_trans below_mark lagging, ?_⟩
  intro k c at_k wants below
  by_cases queried : k < committed
  · have within : k < s.rows.length := lt_of_lt_of_le queried h.committed_le
    have row : s.rows[k]? = some s.rows[k] := List.getElem?_eq_getElem within
    have same : s.rows[k].call = c := Option.some.inj ((order.row_call row).symm.trans at_k)
    refine ⟨s.rows[k], row, ?_⟩
    by_contra behind
    obtain ⟨ts, found, le⟩ := h.seen k _ queried row (same ▸ wants) (by omega)
    have := below_oldest ts found
    rw [same] at le
    omega
  · exfalso
    by_cases done : k < s.done
    · have := h.unseen k c (by omega) done at_k wants
      omega
    · have pending : c.ts ∈ s.pending := by
        rw [order.pending.mem_iff]
        have later : (s.enqueued.drop s.done)[k - s.done]? = some c := by
          rw [List.getElem?_drop, Nat.add_sub_cancel' (by omega), at_k]
        exact List.mem_map_of_mem (List.mem_of_getElem? later)
      have := below_pending c.ts pending
      omega

/-- A step that leaves the calls, the rows and the done marks as they are. -/
theorem marked_frame (h : Marked lag s e) (order : InOrder s) {s' : State} (rows : s'.rows = s.rows)
    (calls : s'.enqueued = s.enqueued) (done : s'.done = s.done) : Marked lag s' e := by
  refine marked_mono h order (fun _ _ => by rw [rows]) (by rw [rows]) (fun _ _ => by rw [calls]) ?_ ?_
  · intro _ _ _ k c beyond at_k
    have := (List.getElem?_eq_some_iff.mp at_k).1
    rw [calls] at this
    omega
  · intro _ _ _ _ k c _ old new
    omega

theorem marked_step {a : Act} (order : InOrder s) (h : ∀ e ∈ s.exports, Marked lag s e) (timely : Timely lag s a)
    (moved : Moved lag s a s') : ∀ e ∈ s'.exports, Marked lag s' e := by
  have same : ∀ {e : Export} {exports : List Export}, Marked lag s e → Marked lag { s with exports } e :=
    fun h => marked_frame h order rfl rfl rfl
  cases moved with
  | enqueue c =>
    intro e he
    refine marked_mono (h e he) order (fun _ _ => rfl) (le_refl _) ?_ ?_ ?_
    · intro k within
      exact List.getElem?_append_left within
    · intro rows w phase k c' beyond at_k wants
      have last : k = s.enqueued.length := by
        have := (List.getElem?_eq_some_iff.mp at_k).1
        simp only [List.length_append, List.length_singleton] at this
        omega
      subst last
      simp only [List.getElem?_concat_length, Option.some.injEq] at at_k
      subst at_k
      exact timely e he (by rw [hasReturned, phase]) wants
    · intro _ _ _ _ k c _ old new
      exact absurd new (Nat.not_lt.mpr old)
  | take idle head => exact fun e he => marked_frame (h e he) order rfl rfl rfl
  | commit writing behind =>
    intro e he
    refine marked_mono (h e he) order ?_ (by simp) (fun _ _ => rfl) ?_ ?_
    · intro k within
      exact List.getElem?_append_left within
    · intro _ _ _ k c beyond at_k
      exact absurd (List.getElem?_eq_some_iff.mp at_k).1 (Nat.not_lt.mpr beyond)
    · intro _ _ _ _ k c _ old new
      exact absurd new (Nat.not_lt.mpr old)
  | @done c wrote =>
    intro e he
    refine marked_mono (h e he) order (fun _ _ => rfl) (le_refl _) (fun _ _ => rfl) ?_ ?_
    · intro _ _ _ k c beyond at_k
      exact absurd (List.getElem?_eq_some_iff.mp at_k).1 (Nat.not_lt.mpr beyond)
    · intro rows oldest committed phase k c' behind old new at_k wants
      -- the call marked done is the one the writer wrote
      obtain rfl : k = s.done := Nat.le_antisymm (Nat.lt_succ_iff.mp new) old
      obtain rfl := Option.some.inj (at_k.symm.trans (order.done c wrote).2)
      exact timely c' (by rw [wrote]; rfl) e he committed (by rw [queriedAt, phase]; rfl) behind wants
  | start filter afterId limit stamp => exact forall_concat (fun e he => same (h e he)) trivial
  | next mem phase => exact forall_concat (fun e he => same (h e he)) trivial
  | @page i e at_i phase => exact forall_set (fun e he => same (h e he)) i trivial
  | @scan i e rows at_i phase =>
    exact forall_set (fun e he => same (h e he)) i (same (capped_scan order rows))
  | @watermark i e rows oldest committed at_i phase =>
    have capped : Capped lag s e rows oldest committed := by
      have marked := h e (List.mem_of_getElem? at_i)
      rwa [Marked, phase] at marked
    obtain ⟨lagging, calls⟩ := complete_watermark order capped
    have complete : Marked lag s { e with phase := .returned rows (e.watermarkTs lag s.pending oldest) } :=
      ⟨lagging, calls⟩
    exact forall_set (fun e he => same (h e he)) i (same complete)

/-- The condition on a whole run. -/
abbrev TimelyRun (lag : ℚ) (acts : List Act) : Prop :=
  Machine.Along (State.step lag) (Timely lag) .empty acts

instance (lag : ℚ) (s : State) : (a : Act) → Decidable (Timely lag s a)
  | .enqueue c => inferInstanceAs (Decidable (∀ e ∈ s.exports, hasReturned e = true →
      e.filter.wants c = true → int (e.stamp - lag) ≤ c.ts))
  | .done => inferInstanceAs (Decidable (∀ c ∈ written s.writer, ∀ e ∈ s.exports, ∀ committed ∈ queriedAt e,
      committed ≤ s.done → e.filter.wants c = true → int (e.stamp - lag) ≤ c.ts))
  | .take | .commit _ _ | .start _ _ _ _ | .next _ _ _ | .page _ | .scan _ | .watermark _ => isTrue trivial

theorem marked_run {acts : List Act} (ran : runExports lag acts = some s) (timely : TimelyRun lag acts) :
    ∀ e ∈ s.exports, Marked lag s e := by
  have kept : InOrder s ∧ ∀ e ∈ s.exports, Marked lag s e := by
    refine Machine.run_along (I := fun s => InOrder s ∧ ∀ e ∈ s.exports, Marked lag s e)
      ⟨inOrder_empty, List.forall_mem_nil _⟩ ?_ timely ran
    rintro s a s' ⟨order, marked⟩ timely stepped
    have moved := moved_of_step stepped
    exact ⟨inOrder_step order moved, marked_step order marked timely moved⟩
  exact kept.2

/-- What the caller of an export may rely on once it has returned: the pages so far
hold, once each and in id order, what there is between the cursors; and a wanted
call below the watermark is in one of them, or behind the cursor they started from. -/
structure LosesNothing (s : State) (e : Export) (rows : List Row) (w : Int) : Prop where
  delivered : e.earlier ++ rows = between Row.id (wanted s.rows e.filter) e.start (e.nextAfterId rows)
  once : ((e.earlier ++ rows).map (·.id)).Nodup
  complete : ∀ (k : Nat) (c : Call), s.enqueued[k]? = some c → e.filter.wants c = true → c.ts < w →
    ∃ r : Row, s.rows[k]? = some r ∧ r.call = c ∧ r.id ≤ e.nextAfterId rows ∧
      (e.start < r.id → r ∈ e.earlier ++ rows)

theorem between_ids_nodup (order : InOrder s) (f : Filter) (lo hi : Nat) :
    ((between Row.id (wanted s.rows f) lo hi).map (·.id)).Nodup := by
  have ascending : (between Row.id (wanted s.rows f) lo hi).Pairwise fun a b => a.id < b.id :=
    (order.ascending.filter _).filter _
  exact List.pairwise_map.mpr (ascending.imp fun less => by omega)

/-- In every run whose steps meet the condition, every export that returned has lost
nothing, in every state from then on. -/
theorem export_complete {acts : List Act} (ran : runExports lag acts = some s) (timely : TimelyRun lag acts) :
    ∀ e ∈ s.exports, ∀ rows w, e.phase = .returned rows w → LosesNothing s e rows w := by
  obtain ⟨order, pages⟩ := delivered_run ran
  intro e he rows w phase
  have delivered : e.earlier ++ rows =
      between Row.id (wanted s.rows e.filter) e.start (e.nextAfterId rows) := by
    have rows_eq := (pages e he).rows
    simp only [pageRows, phase, reached] at rows_eq
    exact rows_eq
  have marked := marked_run ran timely e he
  rw [Marked, phase] at marked
  refine ⟨delivered, delivered ▸ between_ids_nodup order _ _ _, ?_⟩
  intro k c at_k wants below
  obtain ⟨r, row, le⟩ := marked.calls k c at_k wants below
  have same : r.call = c := Option.some.inj ((order.row_call row).symm.trans at_k)
  refine ⟨r, row, same, le, fun behind => ?_⟩
  rw [delivered]
  refine List.mem_filter.mpr ⟨List.mem_filter.mpr ⟨List.mem_of_getElem? row, same ▸ wants⟩, ?_⟩
  simpa using ⟨behind, le⟩

/-- A call of ten minutes ago, still in the writer's queue. -/
def sampleCall : Call := ⟨some "acme", none, none, 1000⟩

def sampleFilter : Filter := ⟨"acme", none⟩

/-- Two pages and a backlog that the second watermark waits for. -/
def sampleActs : List Act :=
  [.enqueue ⟨some "acme", none, none, 900⟩, .take, .commit 1 1000, .done, .enqueue sampleCall, .take,
    .start sampleFilter 0 1 2000, .page 0, .scan 0, .watermark 0, .next 0 10 2010, .page 1, .scan 1,
    .watermark 1, .commit 2 2020, .done]

theorem export_complete_sample :
    (runExports 120 sampleActs).map (·.exports.map (·.phase)) =
      some [.returned [⟨1, ⟨some "acme", none, none, 900⟩, 1000⟩] 1000, .returned [] 1000] ∧
    ∃ s, runExports 120 sampleActs = some s ∧
      ∀ e ∈ s.exports, ∀ rows w, e.phase = .returned rows w → LosesNothing s e rows w := by
  refine ⟨by decide +kernel, ?_⟩
  obtain ⟨s, ran⟩ := Option.isSome_iff_exists.mp (show (runExports 120 sampleActs).isSome = true by decide +kernel)
  exact ⟨s, ran, export_complete ran (by decide +kernel)⟩

/-- The backlog commits and is marked done between the second query and the
watermark read. -/
def losingActs : List Act :=
  [.enqueue sampleCall, .take, .start sampleFilter 0 10 2000, .page 0, .scan 0, .commit 1 2000, .done,
    .watermark 0]

/-- The export as it has returned: an empty page, and a watermark behind the call. -/
def losingExport : Export := ⟨sampleFilter, 0, 10, 2000, 0, [], .returned [] 1880⟩

def losingState : State :=
  ⟨[sampleCall], [], .idle, [⟨1, sampleCall, 2000⟩], [], 1, [losingExport]⟩

theorem export_loses_call : runExports 120 losingActs = some losingState ∧
    losingExport.phase = .returned [] 1880 ∧ ¬ LosesNothing losingState losingExport [] 1880 := by
  refine ⟨by decide +kernel, rfl, fun kept => ?_⟩
  obtain ⟨r, row, -, le, -⟩ := kept.complete 0 sampleCall rfl (by decide) (by decide)
  obtain rfl := Option.some.inj row
  exact absurd le (by decide)

end Watermark

end Unhardcoded.Guarantees.UsageExport
