import Mathlib.Algebra.Order.Ring.Rat
import Unhardcoded.Effects.Machine
import Unhardcoded.Python.Json

/-!
# The peer lease table

Source: `_peer_lease_args`, `try_acquire_peer_lease`, `renew_peer_lease` and
`release_peer_lease` of host_store.py, and the `peer_concurrency_leases` table.
The statements of an acquire are steps of their own under the peer's advisory
lock; what it has deleted and inserted is its own until it commits, and a renew or
release of a row it has deleted waits for that. A renew or a release is one
statement. Stamps are exact rationals, the database clock may read anything, and
`str.lower` is a parameter.
-/

namespace Unhardcoded.Source

open Effects

namespace PeerLeases

/-- A row of `peer_concurrency_leases`. -/
structure Lease where
  leaseId : String
  peerId : String
  expiresAt : ℚ
  deriving DecidableEq

/-- The rows, with the primary key. -/
structure LeaseTable where
  rows : List Lease
  unique : (rows.map (·.leaseId)).Nodup

/-- What a call passes: `peer_id`, `lease_id`, `ttl_s`. -/
structure LeaseCall where
  peerId : String
  leaseId : String
  ttlS : ℚ
  deriving DecidableEq

/-- What `_peer_lease_args` returns. -/
structure PeerLeaseArgs where
  peer : String
  lease : String
  ttl : ℚ
  deriving DecidableEq

def isLeaseDigit (c : Char) : Bool := ('a' ≤ c && c ≤ 'f') || ('0' ≤ c && c ≤ '9')

/-- `_peer_lease_args`; `none` where it raises. -/
def peerLeaseArgs (lower : String → String) (call : LeaseCall) : Option PeerLeaseArgs :=
  let peer := lower (Python.strip call.peerId)
  let lease := lower (Python.strip call.leaseId)
  let ttl := max 5 (min 3600 call.ttlS)
  if peer.length = 0 ∨ 200 < peer.length then none
  else if lease.length = 32 ∧ lease.toList.all isLeaseDigit then some ⟨peer, lease, ttl⟩
  else none

/-- `max(1, min(1000, int(cap)))`. -/
def capacityOf (cap : Int) : Nat := (max 1 (min 1000 cap)).toNat

namespace LeaseTable

def empty : LeaseTable := ⟨[], List.nodup_nil⟩

def ids (t : LeaseTable) : List String := t.rows.map (·.leaseId)

/-- `SELECT COUNT(*) … WHERE peer_id=`. -/
def count (t : LeaseTable) (peer : String) : Nat := t.rows.countP fun r => r.peerId = peer

/-- The lease ids a `DELETE` of the expired rows of this peer selects. -/
def expired (t : LeaseTable) (peer : String) (now : ℚ) : List String :=
  (t.rows.filter fun r => r.peerId = peer ∧ r.expiresAt ≤ now).map (·.leaseId)

/-- `DELETE` of these rows of this peer. -/
def delete (t : LeaseTable) (peer : String) (gone : List String) : LeaseTable where
  rows := t.rows.filter fun r => ¬ (r.peerId = peer ∧ r.leaseId ∈ gone)
  unique := t.unique.sublist (List.filter_sublist.map _)

/-- `INSERT`, the primary key free. -/
def insert (t : LeaseTable) (row : Lease) (free : row.leaseId ∉ t.ids) : LeaseTable where
  rows := t.rows ++ [row]
  unique := by
    simp only [List.map_append, List.map_cons, List.map_nil]
    exact List.nodup_append.mpr ⟨t.unique, List.nodup_singleton _, by
      intro a ha b hb
      rw [List.mem_singleton.mp hb]
      exact fun same => free (same ▸ ha)⟩

def renewRow (peer lease : String) (stamp : ℚ) (r : Lease) : Lease :=
  if r.peerId = peer ∧ r.leaseId = lease then { r with expiresAt := stamp } else r

@[simp] theorem renewRow_leaseId (peer lease : String) (stamp : ℚ) (r : Lease) :
    (renewRow peer lease stamp r).leaseId = r.leaseId := by
  unfold renewRow
  split <;> rfl

@[simp] theorem renewRow_peerId (peer lease : String) (stamp : ℚ) (r : Lease) :
    (renewRow peer lease stamp r).peerId = r.peerId := by
  unfold renewRow
  split <;> rfl

/-- `UPDATE … SET expires_at=` of one lease. -/
def renew (t : LeaseTable) (peer lease : String) (stamp : ℚ) : LeaseTable where
  rows := t.rows.map (renewRow peer lease stamp)
  unique := by simpa [Function.comp_def] using t.unique

/-- Whether an `UPDATE` or a `DELETE` of this lease finds its row. -/
def holds (t : LeaseTable) (peer lease : String) : Bool :=
  t.rows.any fun r => r.peerId = peer ∧ r.leaseId = lease

end LeaseTable

/-- How far the transaction of an acquire is. -/
inductive Stage where
  /-- It holds the peer's advisory lock. -/
  | locked
  /-- The expired rows are deleted. -/
  | reclaimed
  /-- The rows left are counted. -/
  | counted (used : Nat)
  /-- The row is inserted, with this expiry. -/
  | inserted (expiresAt : ℚ)
  deriving DecidableEq

/-- The transaction of a `try_acquire_peer_lease`. -/
structure Acquire where
  lease : String
  capacity : Nat
  ttl : ℚ
  deleted : List String
  stage : Stage
  deriving DecidableEq

/-- What the three calls return. -/
inductive Answer where
  | acquire (peer lease : String) (acquired storeOk : Bool)
  | renew (peer lease : String) (renewed : Bool)
  | release (peer lease : String) (released : Bool)
  deriving DecidableEq

/-- The committed table, the database clock, the open acquires by the peer whose lock
they hold, and the answers so far. -/
structure LeaseState where
  table : LeaseTable
  now : ℚ
  acquires : String → Option Acquire
  answers : List Answer

/-- What becomes of the connection during a statement or a commit. -/
inductive Link where
  | up
  /-- Lost before the server acts. -/
  | lostBefore
  /-- Lost after it has, the reply with it. -/
  | lostAfter
  deriving DecidableEq

inductive LeaseAct where
  | lock (call : LeaseCall) (cap : Int)
  | reclaim (peer : String)
  | count (peer : String)
  | insert (peer : String)
  | commit (peer : String) (link : Link)
  | renew (call : LeaseCall) (link : Link)
  | release (call : LeaseCall) (link : Link)
  | clock (now : ℚ)
  deriving DecidableEq

namespace LeaseState

def empty (now : ℚ) : LeaseState := ⟨.empty, now, fun _ => none, []⟩

def setAcquire (s : LeaseState) (peer : String) (tx : Option Acquire) : LeaseState :=
  { s with acquires := fun p => if p = peer then tx else s.acquires p }

def answer (s : LeaseState) (a : Answer) : LeaseState := { s with answers := s.answers ++ [a] }

/-- The rows an open acquire sees. -/
def view (s : LeaseState) (peer : String) (tx : Acquire) : LeaseTable := s.table.delete peer tx.deleted

/-- The end of an acquire that changed nothing. -/
def rollback (s : LeaseState) (peer : String) (tx : Acquire) : LeaseState :=
  (s.setAcquire peer none).answer (.acquire peer tx.lease false false)

/-- The end of an acquire at this committed table. -/
def close (s : LeaseState) (peer : String) (tx : Acquire) (table : LeaseTable) (acquired : Bool) (link : Link) :
    LeaseState :=
  ({ s with table := table }.setAcquire peer none).answer
    (.acquire peer tx.lease (acquired && link == Link.up) (link == Link.up))

/-- Some open acquire has deleted this row. -/
def blocked (s : LeaseState) (args : PeerLeaseArgs) : Bool :=
  (s.acquires args.peer).any fun tx => args.lease ∈ tx.deleted

/-- The commit of an acquire: what it deleted goes, and its row stands. -/
def commitAcquire (s : LeaseState) (peer : String) (tx : Acquire) (link : Link) : Option LeaseState :=
  if link = .lostBefore then some (s.rollback peer tx)
  else
    match tx.stage with
    -- `return False, True` leaves the block, which commits
    | .counted used => if tx.capacity ≤ used then some (s.close peer tx (s.view peer tx) false link) else none
    | .inserted expiresAt =>
      if free : tx.lease ∉ (s.view peer tx).ids then
        some (s.close peer tx ((s.view peer tx).insert ⟨tx.lease, peer, expiresAt⟩ free) true link)
      else
        -- a row of this id was committed since: the insert waited for it and failed
        some (s.rollback peer tx)
    | _ => none

def lock (s : LeaseState) (args : PeerLeaseArgs) (cap : Int) : Option LeaseState :=
  if s.acquires args.peer = none then
    some (s.setAcquire args.peer (some ⟨args.lease, capacityOf cap, args.ttl, [], .locked⟩))
  else none

def reclaim (s : LeaseState) (peer : String) (tx : Acquire) : Option LeaseState :=
  if tx.stage = .locked then
    some (s.setAcquire peer (some { tx with deleted := s.table.expired peer s.now, stage := .reclaimed }))
  else none

def countRows (s : LeaseState) (peer : String) (tx : Acquire) : Option LeaseState :=
  if tx.stage = .reclaimed then
    some (s.setAcquire peer (some { tx with stage := .counted ((s.view peer tx).count peer) }))
  else none

def insertRow (s : LeaseState) (peer : String) (tx : Acquire) : Option LeaseState :=
  match tx.stage with
  | .counted used =>
    if tx.capacity ≤ used then none
    else if tx.lease ∈ (s.view peer tx).ids then some (s.rollback peer tx)
    else some (s.setAcquire peer (some { tx with stage := .inserted (s.now + tx.ttl) }))
  | _ => none

def renew (s : LeaseState) (args : PeerLeaseArgs) (link : Link) : Option LeaseState :=
  if s.blocked args then none
  else if link = .lostBefore then some (s.answer (.renew args.peer args.lease false))
  else
    some ({ s with table := s.table.renew args.peer args.lease (s.now + args.ttl) }.answer
      (.renew args.peer args.lease (s.table.holds args.peer args.lease && link == Link.up)))

def release (s : LeaseState) (args : PeerLeaseArgs) (link : Link) : Option LeaseState :=
  if s.blocked args then none
  else if link = .lostBefore then some (s.answer (.release args.peer args.lease false))
  else
    some ({ s with table := s.table.delete args.peer [args.lease] }.answer
      (.release args.peer args.lease (link == Link.up)))

def step (lower : String → String) (s : LeaseState) : LeaseAct → Option LeaseState
  | .lock call cap =>
    match peerLeaseArgs lower call with
    | none => some (s.answer (.acquire call.peerId call.leaseId false false))
    | some args => s.lock args cap
  | .reclaim peer => (s.acquires peer).bind (s.reclaim peer)
  | .count peer => (s.acquires peer).bind (s.countRows peer)
  | .insert peer => (s.acquires peer).bind (s.insertRow peer)
  | .commit peer link => (s.acquires peer).bind fun tx => s.commitAcquire peer tx link
  | .renew call link =>
    match peerLeaseArgs lower call with
    | none => some (s.answer (.renew call.peerId call.leaseId false))
    | some args => s.renew args link
  | .release call link =>
    match peerLeaseArgs lower call with
    | none => some (s.answer (.release call.peerId call.leaseId false))
    | some args => s.release args link
  | .clock now => some { s with now := now }

end LeaseState

/-- Calls of any number of replicas, in the order of their statements. -/
abbrev runLeases (lower : String → String) (s : LeaseState) (acts : List LeaseAct) : Option LeaseState :=
  Machine.run (LeaseState.step lower) s acts

end PeerLeases

end Unhardcoded.Source
