import Unhardcoded.Source.PeerLeases

/-!
# What the peer leases promise

An acquire inserts its row only after it has counted fewer rows than the cap, and
until its commit nobody else adds a row for that peer: the advisory lock keeps other
acquires out, a renew changes no peer and no id, a release only takes rows away
(`PeerSound`). So a peer never has more rows than the cap all callers pass, and a row
that is gone comes back by the commit of an acquire of its id only.
-/

namespace Unhardcoded.Guarantees.PeerLeases
open Effects Source Source.PeerLeases

section Table

/-- No row of this peer is new, whichever rows are deleted besides. -/
def Shrinks (peer : String) (before after : LeaseTable) : Prop :=
  ∀ gone, (after.delete peer gone).count peer ≤ (before.delete peer gone).count peer

theorem Shrinks.refl (peer : String) (t : LeaseTable) : Shrinks peer t t := fun _ => le_refl _

theorem delete_nil (peer : String) (t : LeaseTable) : (t.delete peer []).rows = t.rows := by
  simp [LeaseTable.delete]

theorem Shrinks.count_le {peer : String} {before after : LeaseTable} (h : Shrinks peer before after) :
    after.count peer ≤ before.count peer := by
  simpa [LeaseTable.count, delete_nil] using h []

/-- Rows of the peer that were there before. -/
theorem shrinks_of_sublist {peer : String} {before after : LeaseTable}
    (fewer : (after.rows.filter fun r => r.peerId = peer).Sublist (before.rows.filter fun r => r.peerId = peer)) :
    Shrinks peer before after := by
  intro gone
  have counted (t : LeaseTable) : (t.delete peer gone).count peer =
      (t.rows.filter fun r => r.peerId = peer).countP fun r => ¬ (r.peerId = peer ∧ r.leaseId ∈ gone) := by
    simp only [LeaseTable.count, LeaseTable.delete, List.countP_filter]
    exact List.countP_congr fun r _ => by simp [and_comm]
  rw [counted, counted]
  exact fewer.countP_le

theorem shrinks_delete (peer other : String) (t : LeaseTable) (gone : List String) :
    Shrinks peer t (t.delete other gone) :=
  shrinks_of_sublist (List.filter_sublist.filter _)

theorem shrinks_insert {peer : String} {t : LeaseTable} {row : Lease} (free : row.leaseId ∉ t.ids)
    (other : row.peerId ≠ peer) : Shrinks peer t (t.insert row free) :=
  shrinks_of_sublist (by simp [LeaseTable.insert, other])

theorem shrinks_renew (peer other lease : String) (stamp : ℚ) (t : LeaseTable) :
    Shrinks peer t (t.renew other lease stamp) := by
  intro gone
  simp only [LeaseTable.count, LeaseTable.delete, LeaseTable.renew, List.countP_filter, List.countP_map]
  exact le_of_eq (List.countP_congr fun r _ => by simp)

theorem Shrinks.trans {peer : String} {a b c : LeaseTable} (first : Shrinks peer a b) (second : Shrinks peer b c) :
    Shrinks peer a c := fun gone => le_trans (second gone) (first gone)

theorem count_insert {t : LeaseTable} {row : Lease} (free : row.leaseId ∉ t.ids) :
    (t.insert row free).count row.peerId = t.count row.peerId + 1 := by
  simp [LeaseTable.count, LeaseTable.insert]

end Table

section Bound

variable {lower : String → String} {capacity : Nat}

/-- What an acquire has found out of the rows that are left to it. -/
def Room (capacity left : Nat) : Stage → Prop
  | .counted used => left ≤ used
  | .inserted _ => left < capacity
  | _ => True

/-- The rows of one peer are within the capacity, and stay so when its open acquire commits. -/
structure PeerSound (capacity : Nat) (table : LeaseTable) (peer : String) (tx? : Option Acquire) : Prop where
  bounded : table.count peer ≤ capacity
  same : ∀ tx, tx? = some tx → tx.capacity = capacity
  room : ∀ tx, tx? = some tx → Room capacity ((table.delete peer tx.deleted).count peer) tx.stage

def Sound (capacity : Nat) (s : LeaseState) : Prop := ∀ peer, PeerSound capacity s.table peer (s.acquires peer)

theorem Room.of_le {left left' : Nat} {stage : Stage} (le : left' ≤ left) (h : Room capacity left stage) :
    Room capacity left' stage := by
  cases stage with
  | counted used => exact le_trans le h
  | inserted expiresAt => exact lt_of_le_of_lt le h
  | _ => trivial

theorem PeerSound.shrink {peer : String} {before after : LeaseTable} {tx? : Option Acquire}
    (h : PeerSound capacity before peer tx?) (fewer : Shrinks peer before after) :
    PeerSound capacity after peer tx? where
  bounded := le_trans fewer.count_le h.bounded
  same := h.same
  room tx open_tx := (h.room tx open_tx).of_le (fewer tx.deleted)

theorem PeerSound.clear {peer : String} {table : LeaseTable} (bounded : table.count peer ≤ capacity) :
    PeerSound capacity table peer none where
  bounded := bounded
  same _ h := by cases h
  room _ h := by cases h

/-- A statement of the open acquire of one peer. -/
theorem Sound.set {s : LeaseState} (h : Sound capacity s) {peer : String} {tx : Acquire}
    (same : tx.capacity = capacity)
    (room : Room capacity ((s.table.delete peer tx.deleted).count peer) tx.stage) :
    Sound capacity (s.setAcquire peer (some tx)) := by
  intro p
  by_cases here : p = peer
  · subst here
    have set : (s.setAcquire p (some tx)).acquires p = some tx := if_pos rfl
    rw [set]
    refine ⟨(h p).bounded, ?_, ?_⟩
    · rintro _ ⟨⟩
      exact same
    · rintro _ ⟨⟩
      exact room
  · have kept : (s.setAcquire peer (some tx)).acquires p = s.acquires p := if_neg here
    rw [kept]
    exact h p

/-- The end of the acquire of one peer, whatever it does to the rows of that peer. -/
theorem Sound.close {s : LeaseState} (h : Sound capacity s) {peer : String} {table : LeaseTable}
    (others : ∀ p, p ≠ peer → Shrinks p s.table table) (bounded : table.count peer ≤ capacity) (a : Answer) :
    Sound capacity (({ s with table := table }.setAcquire peer none).answer a) := by
  intro p
  by_cases here : p = peer
  · subst here
    have cleared : (({ s with table := table }.setAcquire p none).answer a).acquires p = none := if_pos rfl
    rw [cleared]
    exact .clear bounded
  · have kept : (({ s with table := table }.setAcquire peer none).answer a).acquires p = s.acquires p := if_neg here
    rw [kept]
    exact (h p).shrink (others p here)

theorem Sound.rollback {s : LeaseState} (h : Sound capacity s) (peer : String) (tx : Acquire) :
    Sound capacity (s.rollback peer tx) :=
  h.close (fun p _ => .refl p _) (h peer).bounded _

theorem Sound.table {s : LeaseState} (h : Sound capacity s) {table : LeaseTable}
    (fewer : ∀ p, Shrinks p s.table table) (a : Answer) :
    Sound capacity ({ s with table := table }.answer a) :=
  fun p => (h p).shrink (fewer p)

theorem sound_commit {s t : LeaseState} {peer : String} {tx : Acquire} {link : Link} (h : Sound capacity s)
    (held : s.acquires peer = some tx) (stepped : s.commitAcquire peer tx link = some t) : Sound capacity t := by
  have room := (h peer).room tx held
  have fewer (p : String) : Shrinks p s.table (s.view peer tx) := shrinks_delete p peer _ _
  unfold LeaseState.commitAcquire at stepped
  split at stepped
  · cases stepped
    exact h.rollback peer tx
  · split at stepped
    · split at stepped
      · cases stepped
        exact h.close (fun p _ => fewer p) (le_trans (fewer peer).count_le (h peer).bounded) _
      · cases stepped
    · rename_i expiresAt stage
      rw [stage] at room
      split at stepped
      · rename_i free
        cases stepped
        let row : Lease := ⟨tx.lease, peer, expiresAt⟩
        have one_more : ((s.view peer tx).insert row free).count peer = (s.view peer tx).count peer + 1 :=
          count_insert free
        have others (p : String) (other : p ≠ peer) : Shrinks p s.table ((s.view peer tx).insert row free) :=
          (fewer p).trans (shrinks_insert free (Ne.symm other))
        refine h.close others ?_ _
        rw [one_more]
        exact room
      · cases stepped
        exact h.rollback peer tx
    · cases stepped

theorem sound_step {cap : Int} {s t : LeaseState} {act : LeaseAct} (h : Sound (capacityOf cap) s)
    (same : ∀ call c, act = .lock call c → c = cap) (stepped : s.step lower act = some t) :
    Sound (capacityOf cap) t := by
  cases act with
  | lock call c =>
    obtain rfl := same call c rfl
    simp only [LeaseState.step] at stepped
    split at stepped
    · cases stepped
      exact h
    · simp only [LeaseState.lock] at stepped
      split at stepped
      · cases stepped
        exact h.set rfl trivial
      · cases stepped
  | reclaim peer =>
    obtain ⟨tx, held, moved⟩ := Option.bind_eq_some_iff.mp stepped
    simp only [LeaseState.reclaim] at moved
    split at moved
    · cases moved
      exact h.set ((h peer).same tx held) trivial
    · cases moved
  | count peer =>
    obtain ⟨tx, held, moved⟩ := Option.bind_eq_some_iff.mp stepped
    simp only [LeaseState.countRows] at moved
    split at moved
    · cases moved
      exact h.set ((h peer).same tx held) (le_refl _)
    · cases moved
  | insert peer =>
    obtain ⟨tx, held, moved⟩ := Option.bind_eq_some_iff.mp stepped
    have same := (h peer).same tx held
    have room := (h peer).room tx held
    simp only [LeaseState.insertRow] at moved
    split at moved
    · rename_i used stage
      rw [stage] at room
      split at moved
      · cases moved
      · rename_i space
        split at moved
        · cases moved
          exact h.rollback peer tx
        · cases moved
          -- fewer rows were counted than the cap, and none has come since
          exact h.set same (lt_of_le_of_lt room (by omega))
    · cases moved
  | commit peer link =>
    obtain ⟨tx, held, moved⟩ := Option.bind_eq_some_iff.mp stepped
    exact sound_commit h held moved
  | renew call link =>
    simp only [LeaseState.step] at stepped
    split at stepped
    · cases stepped
      exact h
    · simp only [LeaseState.renew] at stepped
      split at stepped
      · cases stepped
      · split at stepped
        · cases stepped
          exact h
        · cases stepped
          exact h.table (fun p => shrinks_renew p _ _ _ _) _
  | release call link =>
    simp only [LeaseState.step] at stepped
    split at stepped
    · cases stepped
      exact h
    · simp only [LeaseState.release] at stepped
      split at stepped
      · cases stepped
      · split at stepped
        · cases stepped
          exact h
        · cases stepped
          exact h.table (fun p => shrinks_delete p _ _ _) _
  | clock now =>
    cases stepped
    exact h

theorem sound_empty (now : ℚ) : Sound capacity (.empty now) := fun _ => .clear (Nat.zero_le _)

theorem sound_run {cap : Int} {now : ℚ} {acts : List LeaseAct} {s : LeaseState}
    (same : ∀ call c, LeaseAct.lock call c ∈ acts → c = cap) (ran : runLeases lower (.empty now) acts = some s) :
    Sound (capacityOf cap) s := by
  have along : (∀ call c, LeaseAct.lock call c ∈ acts → c = cap) → Sound (capacityOf cap) s := by
    refine Machine.run_history
      (I := fun acts s => (∀ call c, LeaseAct.lock call c ∈ acts → c = cap) → Sound (capacityOf cap) s)
      (fun _ => sound_empty now) ?_ ran
    intro before mid act after ih stepped same
    have earlier := ih fun call c locked => same call c (List.mem_append_left _ locked)
    refine sound_step earlier (fun call c here => same call c ?_) stepped
    rw [here]
    exact List.mem_append_right _ (List.mem_singleton_self _)
  exact along same

theorem capacityOf_le {cap : Int} (pos : 0 < cap) : (capacityOf cap : Int) ≤ cap := by
  unfold capacityOf
  omega

end Bound

section Gone

variable {lower : String → String} {lease : String}

theorem ids_delete_subset (t : LeaseTable) (peer : String) (gone : List String) : (t.delete peer gone).ids ⊆ t.ids :=
  List.map_subset _ List.filter_sublist.subset

@[simp] theorem ids_renew (t : LeaseTable) (peer other : String) (stamp : ℚ) : (t.renew peer other stamp).ids = t.ids := by
  simp [LeaseTable.ids, LeaseTable.renew]

theorem ids_insert {t : LeaseTable} {row : Lease} (free : row.leaseId ∉ t.ids) :
    (t.insert row free).ids = t.ids ++ [row.leaseId] := by
  simp [LeaseTable.ids, LeaseTable.insert]

theorem not_holds {t : LeaseTable} (h : lease ∉ t.ids) (peer : String) : t.holds peer lease = false := by
  simp only [LeaseTable.holds, List.any_eq_false, decide_eq_true_eq, not_and]
  rintro r mem _ rfl
  exact h (List.mem_map_of_mem mem)

/-- This call is an acquire of the lease. -/
def Acquires (lower : String → String) (lease : String) : LeaseAct → Prop
  | .lock call _ => ∃ args, peerLeaseArgs lower call = some args ∧ args.lease = lease
  | _ => False

/-- The lease has no row, and no open acquire is about to write one. -/
structure Gone (lease : String) (s : LeaseState) : Prop where
  absent : lease ∉ s.table.ids
  unclaimed : ∀ peer tx, s.acquires peer = some tx → tx.lease ≠ lease

/-- No answer among these says that the lease was renewed. -/
def Unrenewed (lease : String) (answered : List Answer) : Prop :=
  ∀ peer renewed, Answer.renew peer lease renewed ∈ answered → renewed = false

theorem Gone.set {s : LeaseState} (h : Gone lease s) {peer : String} {tx? : Option Acquire}
    (other : ∀ tx, tx? = some tx → tx.lease ≠ lease) : Gone lease (s.setAcquire peer tx?) where
  absent := h.absent
  unclaimed p tx held := by
    by_cases here : p = peer
    · have set : (s.setAcquire peer tx?).acquires p = tx? := if_pos here
      exact other tx (set.symm.trans held)
    · have kept : (s.setAcquire peer tx?).acquires p = s.acquires p := if_neg here
      exact h.unclaimed p tx (kept.symm.trans held)

theorem Gone.table {s : LeaseState} (h : Gone lease s) {table : LeaseTable} (absent : lease ∉ table.ids) (a : Answer) :
    Gone lease ({ s with table := table }.answer a) := ⟨absent, h.unclaimed⟩

theorem Gone.close {s : LeaseState} (h : Gone lease s) (peer : String) {table : LeaseTable} (absent : lease ∉ table.ids)
    (a : Answer) : Gone lease (({ s with table := table }.setAcquire peer none).answer a) :=
  have cleared : Gone lease (s.setAcquire peer none) := h.set (by rintro _ ⟨⟩)
  ⟨absent, cleared.unclaimed⟩

theorem unrenewed_acquire (peer other : String) (acquired storeOk : Bool) :
    Unrenewed lease [.acquire peer other acquired storeOk] := by
  simp [Unrenewed]

theorem unrenewed_release (peer other : String) (released : Bool) :
    Unrenewed lease [.release peer other released] := by
  simp [Unrenewed]

theorem gone_commit {s t : LeaseState} {peer : String} {tx : Acquire} {link : Link} (h : Gone lease s)
    (held : s.acquires peer = some tx) (stepped : s.commitAcquire peer tx link = some t) :
    Gone lease t ∧ ∃ answered, t.answers = s.answers ++ answered ∧ Unrenewed lease answered := by
  have left : lease ∉ (s.view peer tx).ids := fun mem => h.absent (ids_delete_subset _ _ _ mem)
  unfold LeaseState.commitAcquire at stepped
  split at stepped
  · cases stepped
    exact ⟨h.close peer h.absent _, _, rfl, unrenewed_acquire _ _ _ _⟩
  · split at stepped
    · split at stepped
      · cases stepped
        exact ⟨h.close peer left _, _, rfl, unrenewed_acquire _ _ _ _⟩
      · cases stepped
    · rename_i expiresAt stage
      split at stepped
      · rename_i free
        cases stepped
        have absent : lease ∉ ((s.view peer tx).insert ⟨tx.lease, peer, expiresAt⟩ free).ids := by
          rw [ids_insert, List.mem_append, List.mem_singleton]
          rintro (mem | same)
          · exact left mem
          · exact h.unclaimed peer tx held same.symm
        exact ⟨h.close peer absent _, _, rfl, unrenewed_acquire _ _ _ _⟩
      · cases stepped
        exact ⟨h.close peer h.absent _, _, rfl, unrenewed_acquire _ _ _ _⟩
    · cases stepped

theorem gone_renew {s t : LeaseState} {args : PeerLeaseArgs} {link : Link} (h : Gone lease s)
    (stepped : s.renew args link = some t) :
    Gone lease t ∧ ∃ answered, t.answers = s.answers ++ answered ∧ Unrenewed lease answered := by
  unfold LeaseState.renew at stepped
  split at stepped
  · cases stepped
  · split at stepped
    · cases stepped
      refine ⟨h.table h.absent _, _, rfl, ?_⟩
      simp [Unrenewed]
    · cases stepped
      refine ⟨h.table (by simpa using h.absent) _, _, rfl, ?_⟩
      intro peer renewed answered
      obtain ⟨rfl, rfl, rfl⟩ : peer = args.peer ∧ lease = args.lease ∧
          renewed = (s.table.holds args.peer args.lease && link == Link.up) := by
        simpa using answered
      rw [not_holds h.absent, Bool.false_and]

/-- The row does not come back, and no renew finds it, while no call acquires the lease. -/
theorem gone_step {s t : LeaseState} {act : LeaseAct} (h : Gone lease s) (other : ¬ Acquires lower lease act)
    (stepped : s.step lower act = some t) :
    Gone lease t ∧ ∃ answered, t.answers = s.answers ++ answered ∧ Unrenewed lease answered := by
  have silent : Unrenewed lease [] := by simp [Unrenewed]
  have moved {peer : String} {tx tx' : Acquire} (held : s.acquires peer = some tx) (same : tx'.lease = tx.lease) :
      Gone lease (s.setAcquire peer (some tx')) := by
    refine h.set ?_
    rintro _ ⟨⟩
    rw [same]
    exact h.unclaimed peer tx held
  cases act with
  | lock call c =>
    simp only [LeaseState.step] at stepped
    split at stepped
    · cases stepped
      exact ⟨⟨h.absent, h.unclaimed⟩, _, rfl, unrenewed_acquire _ _ _ _⟩
    · rename_i args valid
      simp only [LeaseState.lock] at stepped
      split at stepped
      · cases stepped
        refine ⟨h.set ?_, [], (List.append_nil _).symm, silent⟩
        rintro _ ⟨⟩ same
        exact other ⟨args, valid, same⟩
      · cases stepped
  | reclaim peer =>
    obtain ⟨tx, held, stepped⟩ := Option.bind_eq_some_iff.mp stepped
    simp only [LeaseState.reclaim] at stepped
    split at stepped
    · cases stepped
      exact ⟨moved held rfl, [], (List.append_nil _).symm, silent⟩
    · cases stepped
  | count peer =>
    obtain ⟨tx, held, stepped⟩ := Option.bind_eq_some_iff.mp stepped
    simp only [LeaseState.countRows] at stepped
    split at stepped
    · cases stepped
      exact ⟨moved held rfl, [], (List.append_nil _).symm, silent⟩
    · cases stepped
  | insert peer =>
    obtain ⟨tx, held, stepped⟩ := Option.bind_eq_some_iff.mp stepped
    simp only [LeaseState.insertRow] at stepped
    split at stepped
    · split at stepped
      · cases stepped
      · split at stepped
        · cases stepped
          exact ⟨h.close peer h.absent _, _, rfl, unrenewed_acquire _ _ _ _⟩
        · cases stepped
          exact ⟨moved held rfl, [], (List.append_nil _).symm, silent⟩
    · cases stepped
  | commit peer link =>
    obtain ⟨tx, held, stepped⟩ := Option.bind_eq_some_iff.mp stepped
    exact gone_commit h held stepped
  | renew call link =>
    simp only [LeaseState.step] at stepped
    split at stepped
    · cases stepped
      refine ⟨h.table h.absent _, _, rfl, ?_⟩
      simp [Unrenewed]
    · exact gone_renew h stepped
  | release call link =>
    simp only [LeaseState.step] at stepped
    split at stepped
    · cases stepped
      exact ⟨h.table h.absent _, _, rfl, unrenewed_release _ _ _⟩
    · simp only [LeaseState.release] at stepped
      split at stepped
      · cases stepped
      · split at stepped
        · cases stepped
          exact ⟨h.table h.absent _, _, rfl, unrenewed_release _ _ _⟩
        · cases stepped
          exact ⟨h.table (fun mem => h.absent (ids_delete_subset _ _ _ mem)) _, _, rfl, unrenewed_release _ _ _⟩
  | clock now =>
    cases stepped
    exact ⟨⟨h.absent, h.unclaimed⟩, [], (List.append_nil _).symm, silent⟩

theorem gone_run {s u : LeaseState} {later : List LeaseAct} (h : Gone lease s)
    (others : ∀ act ∈ later, ¬ Acquires lower lease act) (ran : runLeases lower s later = some u) :
    lease ∉ u.table.ids ∧ ∃ answered, u.answers = s.answers ++ answered ∧ Unrenewed lease answered := by
  have along : (∀ act ∈ later, ¬ Acquires lower lease act) →
      Gone lease u ∧ ∃ answered, u.answers = s.answers ++ answered ∧ Unrenewed lease answered := by
    refine Machine.run_history
      (I := fun later u => (∀ act ∈ later, ¬ Acquires lower lease act) →
        Gone lease u ∧ ∃ answered, u.answers = s.answers ++ answered ∧ Unrenewed lease answered)
      (fun _ => ⟨h, [], (List.append_nil _).symm, by simp [Unrenewed]⟩) ?_ ran
    intro before mid act after ih stepped others
    obtain ⟨gone, answered, so_far, unrenewed⟩ := ih fun act mem => others act (List.mem_append_left _ mem)
    obtain ⟨gone', more, now, unrenewed'⟩ :=
      gone_step gone (others act (List.mem_append_right _ (List.mem_singleton_self _))) stepped
    refine ⟨gone', answered ++ more, by rw [now, so_far, List.append_assoc], ?_⟩
    intro peer renewed mem
    rcases List.mem_append.mp mem with early | late
    · exact unrenewed peer renewed early
    · exact unrenewed' peer renewed late
  obtain ⟨gone, answered⟩ := along others
  exact ⟨gone.absent, answered⟩

end Gone

section Frame

variable {lower : String → String}

theorem mem_delete_of_ne {t : LeaseTable} {row : Lease} {lease : String} (other : row.leaseId ≠ lease) (peer : String) :
    row ∈ (t.delete peer [lease]).rows ↔ row ∈ t.rows := by
  simp [LeaseTable.delete, other]

theorem renewRow_of_ne {row : Lease} {lease : String} (other : row.leaseId ≠ lease) (peer : String) (stamp : ℚ) :
    LeaseTable.renewRow peer lease stamp row = row := if_neg fun h => other h.2

theorem mem_renew_of_ne {t : LeaseTable} {row : Lease} {lease : String} (other : row.leaseId ≠ lease) (peer : String)
    (stamp : ℚ) : row ∈ (t.renew peer lease stamp).rows ↔ row ∈ t.rows := by
  simp only [LeaseTable.renew, List.mem_map]
  constructor
  · rintro ⟨r, mem, rfl⟩
    rw [LeaseTable.renewRow_leaseId] at other
    rwa [renewRow_of_ne other]
  · exact fun mem => ⟨row, mem, renewRow_of_ne other peer stamp⟩

/-- A renew or a release leaves the rows of other leases as they are. -/
theorem frame_step {s t : LeaseState} {call : LeaseCall} {link : Link} {row : Lease}
    (stepped : s.step lower (.renew call link) = some t ∨ s.step lower (.release call link) = some t)
    (other : ∀ args, peerLeaseArgs lower call = some args → row.leaseId ≠ args.lease) :
    row ∈ t.table.rows ↔ row ∈ s.table.rows := by
  simp only [LeaseState.step] at stepped
  cases valid : peerLeaseArgs lower call with
  | none =>
    simp only [valid] at stepped
    rcases stepped with stepped | stepped
    · cases stepped
      rfl
    · cases stepped
      rfl
  | some args =>
    simp only [valid, LeaseState.renew, LeaseState.release] at stepped
    rcases stepped with stepped | stepped
    · split at stepped
      · cases stepped
      · split at stepped
        · cases stepped
          rfl
        · cases stepped
          exact mem_renew_of_ne (other args valid) _ _
    · split at stepped
      · cases stepped
      · split at stepped
        · cases stepped
          rfl
        · cases stepped
          exact mem_delete_of_ne (other args valid) _

end Frame

/-- With one cap for all acquires, a peer has no more rows than the cap in any state a
run reaches, so right after an acquire and whatever has expired; a lease whose row is
gone is not renewed, and stays gone, until a call acquires it; and a renew or a
release leaves every row of another lease as it was. -/
theorem peer_leases_within_cap (lower : String → String) (cap : Int) (now : ℚ) (acts : List LeaseAct) (s : LeaseState)
    (sameCap : ∀ call c, LeaseAct.lock call c ∈ acts → c = cap)
    (ran : runLeases lower (.empty now) acts = some s) :
    (∀ peer, s.table.count peer ≤ capacityOf cap ∧ (0 < cap → (s.table.count peer : Int) ≤ cap) ∧
      (s.table.rows.countP fun r => r.peerId = peer ∧ s.now < r.expiresAt) ≤ s.table.count peer) ∧
    (∀ lease, Gone lease s → ∀ later u, (∀ act ∈ later, ¬ Acquires lower lease act) →
      runLeases lower s later = some u →
        lease ∉ u.table.ids ∧ ∃ answered, u.answers = s.answers ++ answered ∧ Unrenewed lease answered) ∧
    (∀ call link t, s.step lower (.renew call link) = some t ∨ s.step lower (.release call link) = some t →
      ∀ row, (∀ args, peerLeaseArgs lower call = some args → row.leaseId ≠ args.lease) →
        (row ∈ t.table.rows ↔ row ∈ s.table.rows)) := by
  have sound := sound_run sameCap ran
  refine ⟨fun peer => ⟨(sound peer).bounded, ?_, ?_⟩, ?_, ?_⟩
  · intro pos
    have le := capacityOf_le pos
    have bounded := (sound peer).bounded
    omega
  · exact List.countP_mono_left fun r _ unexpired => by
      simp only [decide_eq_true_eq] at unexpired ⊢
      exact unexpired.1
  · intro lease gone later u others went
    exact gone_run gone others went
  · intro call link t stepped row other
    exact frame_step stepped other

def sampleCall (digit : Char) : LeaseCall := ⟨"peer", String.ofList (List.replicate 32 digit), 120⟩

/-- A second replica reclaims the expired slot of the first, whose renew then fails. -/
def sampleActs : List LeaseAct :=
  [.lock (sampleCall 'a') 1, .reclaim "peer", .count "peer", .insert "peer", .commit "peer" .up, .clock 120,
    .lock (sampleCall 'b') 1, .reclaim "peer", .count "peer", .insert "peer", .commit "peer" .up,
    .renew (sampleCall 'a') .up]

theorem peer_leases_within_cap_sample : ∃ s, runLeases id (.empty 0) sampleActs = some s ∧
    s.answers = [.acquire "peer" (sampleCall 'a').leaseId true true, .acquire "peer" (sampleCall 'b').leaseId true true,
      .renew "peer" (sampleCall 'a').leaseId false] ∧
    (s.table.count "peer" : Int) ≤ 1 := by
  have ends : (runLeases id (.empty 0) sampleActs).map (·.answers) =
      some [.acquire "peer" (sampleCall 'a').leaseId true true, .acquire "peer" (sampleCall 'b').leaseId true true,
        .renew "peer" (sampleCall 'a').leaseId false] := by
    decide +kernel
  obtain ⟨s, ran, answered⟩ := Option.map_eq_some_iff.mp ends
  have same (call : LeaseCall) (c : Int) (mem : LeaseAct.lock call c ∈ sampleActs) : c = 1 := by
    simp [sampleActs] at mem
    omega
  exact ⟨s, ran, answered, ((peer_leases_within_cap id 1 0 sampleActs s same ran).1 "peer").2.1 (by decide)⟩

end Unhardcoded.Guarantees.PeerLeases
