import Unhardcoded.Effects.Machine
import Unhardcoded.Python.Dict

/-!
# Consumer keys on several replicas

The key operations of the dashboard in auth_proxy.py (`dashboard_create_key`,
`dashboard_create_key_batch`, `dashboard_update_consumer`, `dashboard_revoke_key`), each a
read of all consumer records and later one `set_consumer_keys` of host_store.py, with
`_caller_auth`. A handler does not await between the two, so a replica runs one operation
at a time; other replicas may write in between. Records are in the shape these operations
write; of a record, what authentication and the operations read is kept. SHA-256 is a
parameter, in hex digits.
-/

namespace Unhardcoded.Source.ConsumerKeys

open Effects Python

/-- The hex digits of a digest, or the first of them. -/
abbrev Digest := List Char

section Records

structure KeyRecord where
  sha256Prefix : Digest
  /-- `status == "revoked"`, not `"active"`. -/
  revoked : Bool
  expiresAt : Option Int
  deriving DecidableEq

structure Record where
  /-- `status == "active"` -/
  active : Bool
  allowedRoutes : List String
  ratePerMin : Option Int
  burst : Option Int
  keys : List KeyRecord
  deriving DecidableEq

/-- What `{}` is normalized to, without the keys of the local maps. -/
def Record.default : Record := ⟨true, [], none, none, []⟩

/-- The maps of one process. -/
structure Replica where
  callerKeys : List (String × String)
  callerKeyHashes : List (Digest × String)
  deriving DecidableEq

variable (sha256 : String → Digest)

/-- `any(digest.startswith(k["sha256_prefix"]) for k in keys)` -/
def startsWithAny (digest : Digest) (keys : List KeyRecord) : Bool := keys.any fun k => k.sha256Prefix.isPrefixOf digest

/-- The digests of a consumer in the maps. -/
def Replica.digestsOf (replica : Replica) (consumer : String) : List Digest :=
  ((replica.callerKeys.filter fun entry => entry.2 = consumer).map fun entry => sha256 entry.1) ++
    (replica.callerKeyHashes.filter fun entry => entry.2 = consumer).map (·.1)

def addKey (keys : List KeyRecord) (digest : Digest) : List KeyRecord :=
  if startsWithAny digest keys then keys else keys ++ [⟨digest.take 12, false, none⟩]

/-- `_normalize_consumer_record` of a well-formed record. -/
def normalizeConsumerRecord (replica : Replica) (consumer : String) (record : Record) : Record :=
  { record with keys := (replica.digestsOf sha256 consumer).foldl addKey record.keys }

/-- `_issued_consumer_records`; the order of a dictionary does not matter. -/
def issuedConsumerRecords (replica : Replica) (issued : List (String × Record)) : List (String × Record) :=
  (replica.callerKeys.map (·.2) ++ replica.callerKeyHashes.map (·.2) ++ issued.map (·.1)).dedup.map fun name =>
    (name, normalizeConsumerRecord sha256 replica name ((issued.lookup name).getD .default))

/-- The records `_write_issued_consumer_records` stores. -/
def compact (replica : Replica) (records : List (String × Record)) : List (String × Record) :=
  records.filterMap fun entry =>
    let normalized := normalizeConsumerRecord sha256 replica entry.1 entry.2
    if normalized.active && normalized.allowedRoutes.isEmpty && normalized.ratePerMin.isNone && normalized.burst.isNone &&
      normalized.keys.isEmpty then none
    else some (entry.1, normalized)

end Records

section Operations

structure Rotation where
  expiresAt : Int
  /-- Empty where none is given. -/
  sha256Prefix : Digest

inductive Op where
  | create (consumer : String) (tokenHash : Digest) (rotate : Option Rotation)
  | createBatch (members : List (String × Digest)) (allowedRoutes : List String) (ratePerMin burst : Option Int)
  | update (consumer : String) (active : Option Bool) (allowedRoutes : Option (List String))
      (ratePerMin burst : Option (Option Int))
  | revoke (consumer : String) (sha256Prefix : Digest)

/-- What an operation hands to `set_consumer_keys`, and its local maps after the commit. -/
structure Write where
  records : List (String × Record)
  keyDigests : List (Digest × String)
  deleteKeyDigests : Option (String × Digest)
  local_ : Replica

/-- `a.startswith(b) or b.startswith(a)` -/
def comparable (a b : Digest) : Bool := b.isPrefixOf a || a.isPrefixOf b

def Rotation.applies (rotation : Rotation) (tokenHash : Digest) (key : KeyRecord) : Bool :=
  key.sha256Prefix ≠ tokenHash.take 12 && (rotation.sha256Prefix.isEmpty || comparable key.sha256Prefix rotation.sha256Prefix) &&
    !key.revoked && key.expiresAt.getD 0 = 0

def Rotation.mark (rotation : Rotation) (tokenHash : Digest) (key : KeyRecord) : KeyRecord :=
  if rotation.applies tokenHash key then { key with expiresAt := some rotation.expiresAt } else key

def KeyRecord.revokeIf (key : KeyRecord) (sha256Prefix : Digest) : KeyRecord :=
  if comparable key.sha256Prefix sha256Prefix then { key with revoked := true } else key

variable (sha256 : String → Digest)

/-- `records.get(consumer, _normalize_consumer_record(consumer, {}))` -/
def metaOf (replica : Replica) (records : List (String × Record)) (consumer : String) : Record :=
  (records.lookup consumer).getD (normalizeConsumerRecord sha256 replica consumer .default)

/-- The operation from its read to its write; `none` is an error response. -/
def Op.write (replica : Replica) (records : List (String × Record)) : Op → Option Write
  | .create consumer tokenHash rotate =>
    let record := metaOf sha256 replica records consumer
    let missed := match rotate with
      | some rotation => !rotation.sha256Prefix.isEmpty && !record.keys.any (rotation.applies tokenHash)
      | none => false
    let keys := match rotate with
      | some rotation => record.keys.map (rotation.mark tokenHash)
      | none => record.keys
    if missed then none
    else some {
      records := insert consumer { record with keys := keys ++ [⟨tokenHash.take 12, false, none⟩] } records
      keyDigests := [(tokenHash, consumer)]
      deleteKeyDigests := none
      local_ := { replica with callerKeyHashes := insert tokenHash consumer replica.callerKeyHashes } }
  | .createBatch members allowedRoutes ratePerMin burst =>
    if members.any fun member => (records.lookup member.1).isSome then none
    else
      let hashes := members.foldl (fun hashes member => insert member.2 member.1 hashes) replica.callerKeyHashes
      some {
        records := members.foldl (fun records member =>
          insert member.1 (normalizeConsumerRecord sha256 replica member.1
            ⟨true, allowedRoutes, ratePerMin, burst, [⟨member.2.take 12, false, none⟩]⟩) records) records
        keyDigests := hashes.filter fun entry => (replica.callerKeyHashes.lookup entry.1).isNone
        deleteKeyDigests := none
        local_ := { replica with callerKeyHashes := hashes } }
  | .update consumer active allowedRoutes ratePerMin burst =>
    let record := metaOf sha256 replica records consumer
    some {
      records := insert consumer
        { record with
          active := active.getD record.active
          allowedRoutes := allowedRoutes.getD record.allowedRoutes
          ratePerMin := ratePerMin.getD record.ratePerMin
          burst := burst.getD record.burst } records
      keyDigests := []
      deleteKeyDigests := none
      local_ := replica }
  | .revoke consumer sha256Prefix =>
    let record := metaOf sha256 replica records consumer
    let removed (entry : Digest × String) : Bool := entry.2 = consumer && sha256Prefix.isPrefixOf entry.1
    let found := record.keys.any (fun key => comparable key.sha256Prefix sha256Prefix) || replica.callerKeyHashes.any removed ||
      replica.callerKeys.any fun entry => removed (sha256 entry.1, entry.2)
    if !found then none
    else some {
      records := insert consumer { record with keys := record.keys.map (·.revokeIf sha256Prefix) } records
      keyDigests := []
      deleteKeyDigests := some (consumer, sha256Prefix)
      local_ :=
        { callerKeys := replica.callerKeys.filter fun entry => !removed (sha256 entry.1, entry.2)
          callerKeyHashes := replica.callerKeyHashes.filter fun entry => !removed entry } }

end Operations

section Runs

/-- A revoke that has returned ok, and the key entries of the consumer that it left revoked. -/
structure Revocation where
  consumer : String
  sha256Prefix : Digest
  entries : List Digest
  deriving DecidableEq

/-- An operation between its read and its write. -/
structure Reading where
  op : Op
  records : List (String × Record)
  /-- The revokes that had returned ok when it read. -/
  seen : List Revocation

structure State where
  /-- `consumer_keys` -/
  consumerKeys : List (String × Record)
  /-- `consumer_key_digests` -/
  digests : List (Digest × String)
  replicas : Nat → Replica
  pending : Nat → Option Reading
  revokes : List Revocation

def State.start : State := ⟨[], [], fun _ => ⟨[], []⟩, fun _ => none, []⟩

/-- `INSERT .. ON CONFLICT(digest) DO UPDATE` -/
def upsert (rows digests : List (Digest × String)) : List (Digest × String) :=
  rows.foldl (fun digests row => insert row.1 row.2 digests) digests

/-- `DELETE FROM consumer_key_digests WHERE consumer=.. AND digest LIKE ..` -/
def deleteDigests (deletion : Option (String × Digest)) (digests : List (Digest × String)) : List (Digest × String) :=
  match deletion with
  | some (consumer, sha256Prefix) => digests.filter fun row => !(row.2 = consumer && sha256Prefix.isPrefixOf row.1)
  | none => digests

inductive Action where
  /-- A process starts with these maps; its back-fill is stored or fails. -/
  | startup (replica : Nat) (maps : Replica) (stored : Bool)
  | read (replica : Nat) (op : Op)
  | write (replica : Nat)
  /-- `set_consumer_keys` fails. -/
  | writeFails (replica : Nat)

variable (sha256 : String → Digest)

/-- `_exact_consumer_key_digests` -/
def exactConsumerKeyDigests (maps : Replica) : List (Digest × String) :=
  upsert (maps.callerKeys.map fun entry => (sha256 entry.1, entry.2)) maps.callerKeyHashes

/-- The revoked key entries of a consumer. -/
def revokedEntries (records : List (String × Record)) (consumer : String) : List Digest :=
  ((records.lookup consumer).getD .default).keys.filterMap fun key => if key.revoked then some key.sha256Prefix else none

def State.commit (s : State) (replica : Nat) (op : Op) (w : Write) : State where
  consumerKeys := compact sha256 (s.replicas replica) w.records
  digests := deleteDigests w.deleteKeyDigests (upsert w.keyDigests s.digests)
  replicas := fun other => if other = replica then w.local_ else s.replicas other
  pending := fun other => if other = replica then none else s.pending other
  revokes := match op with
    | .revoke consumer sha256Prefix => s.revokes ++ [⟨consumer, sha256Prefix, revokedEntries w.records consumer⟩]
    | _ => s.revokes

def State.drop (s : State) (replica : Nat) : State :=
  { s with pending := fun other => if other = replica then none else s.pending other }

def step (s : State) : Action → Option State
  | .startup replica maps stored =>
    some { s.drop replica with
      digests := if stored then upsert (exactConsumerKeyDigests sha256 maps) s.digests else s.digests
      replicas := fun other => if other = replica then maps else s.replicas other }
  | .read replica op =>
    match s.pending replica with
    | some _ => none
    | none =>
      let records := issuedConsumerRecords sha256 (s.replicas replica) s.consumerKeys
      some { s with pending := fun other => if other = replica then some ⟨op, records, s.revokes⟩ else s.pending other }
  | .write replica =>
    match s.pending replica with
    | none => none
    | some reading =>
      match reading.op.write sha256 (s.replicas replica) reading.records with
      | some w => some (s.commit sha256 replica reading.op w)
      | none => some (s.drop replica)
  | .writeFails replica => if (s.pending replica).isSome then some (s.drop replica) else none

abbrev runKeys (acts : List Action) : Option State := Machine.run (step sha256) .start acts

/-- `_key_record_allows` -/
def keyRecordAllows (digest : Digest) (record : Record) (now : Int) : Bool :=
  (record.keys.filter fun key => key.sha256Prefix.isPrefixOf digest).all fun key =>
    !key.revoked && (key.expiresAt.getD 0 = 0 || now < key.expiresAt.getD 0)

/-- The caller that `_caller_auth` admits on a replica. -/
def State.callerAuth (s : State) (replica : Nat) (now : Int) (token : String) : Option String :=
  if token = "" then none
  else do
    let digest := sha256 token
    let maps := s.replicas replica
    let named (caller : Option String) := caller.filter (· ≠ "")
    let caller ← (named (maps.callerKeys.lookup token)).or
      ((named (maps.callerKeyHashes.lookup digest)).or (named (s.digests.lookup digest)))
    let record := normalizeConsumerRecord sha256 maps caller ((s.consumerKeys.lookup caller).getD .default)
    if record.active && keyRecordAllows digest record now then some caller else none

end Runs

end Unhardcoded.Source.ConsumerKeys
