import Mathlib.Data.List.Dedup
import Unhardcoded.Source.ConsumerKeys

/-!
# A revoked key stays revoked

A revoke takes the digests away from the table and from its own maps; other replicas keep
them in theirs, and only the revoked key entry of the record stops the token there. Every
operation writes all records as it has read them, so one that has read before the revoke
and writes after it takes the entry back. No other operation does.
-/

namespace Unhardcoded.Guarantees.ConsumerKeys

open Effects Python Source.ConsumerKeys

variable {sha256 : String → Digest}

section Marks

variable (sha256)

/-- The maps give a token of this digest to the consumer. -/
def Brings (maps : Replica) (consumer : String) (digest : Digest) : Prop :=
  (∃ token, (token, consumer) ∈ maps.callerKeys ∧ sha256 token = digest) ∨ (digest, consumer) ∈ maps.callerKeyHashes

/-- Some replica or the table gives a token of this digest to the consumer. -/
def Known (s : State) (consumer : String) (digest : Digest) : Prop :=
  (∃ replica, Brings sha256 (s.replicas replica) consumer digest) ∨ (digest, consumer) ∈ s.digests

def Marked (record : Record) (digest : Digest) : Prop := ∃ key ∈ record.keys, key.revoked = true ∧ key.sha256Prefix <+: digest

def MarkedIn (records : List (String × Record)) (consumer : String) (digest : Digest) : Prop :=
  ∃ record, records.lookup consumer = some record ∧ Marked record digest

/-- The keys an operation issues. -/
def issues : Op → List (String × Digest)
  | .create consumer tokenHash _ => [(consumer, tokenHash)]
  | .createBatch members _ _ _ => members
  | .update .. => []
  | .revoke .. => []

/-- A revoke of this prefix. -/
def Names (r : Revocation) (consumer : String) (sha256Prefix : Digest) : Prop :=
  r.consumer = consumer ∧ r.sha256Prefix = sha256Prefix

/-- The revoke has left an entry revoked that the digest starts with. -/
def Stops (r : Revocation) (digest : Digest) : Prop := ∃ entry ∈ r.entries, entry <+: digest

/-- The revoke has returned ok. -/
def Revoked (s : State) (consumer : String) (sha256Prefix : Digest) : Prop := ∃ r ∈ s.revokes, Names r consumer sha256Prefix

/-- A revoke of this prefix that has returned ok has stopped the digest. -/
def Stopped (s : State) (consumer : String) (sha256Prefix digest : Digest) : Prop :=
  ∃ r ∈ s.revokes, Names r consumer sha256Prefix ∧ Stops r digest

/-- A revoke has read a key entry for every digest that another replica has under the prefix. -/
def Covers (consumer : String) (sha256Prefix : Digest) (s : State) (replica : Nat) (records : List (String × Record)) : Prop :=
  ∀ digest, sha256Prefix <+: digest → (∃ other, other ≠ replica ∧ Brings sha256 (s.replicas other) consumer digest) →
    ∃ key ∈ (metaOf sha256 (s.replicas replica) records consumer).keys, key.sha256Prefix <+: digest

/-- Whoever commits has read after every commit of the revoke and issues no key with the prefix, as
a process that starts after it brings none that the revoke has not stopped. -/
def Careful (consumer : String) (sha256Prefix : Digest) (s : State) : Action → Prop
  | .startup _ maps _ => Revoked s consumer sha256Prefix →
      ∀ digest, sha256Prefix <+: digest → Brings sha256 maps consumer digest → Stopped s consumer sha256Prefix digest
  | .write replica => ∀ reading, s.pending replica = some reading →
      (∀ r ∈ s.revokes, Names r consumer sha256Prefix → r ∈ reading.seen) ∧
      (Revoked s consumer sha256Prefix → ∀ digest, (consumer, digest) ∈ issues reading.op → ¬ sha256Prefix <+: digest) ∧
      (reading.op = .revoke consumer sha256Prefix → Covers sha256 consumer sha256Prefix s replica reading.records)
  | .read .. => True
  | .writeFails _ => True

end Marks

section Normalizing

variable {replica : Replica} {consumer : String} {digest : Digest}

theorem mem_addKeys {keys : List KeyRecord} {key : KeyRecord} (mem : key ∈ keys) (digests : List Digest) :
    key ∈ digests.foldl addKey keys := by
  induction digests generalizing keys with
  | nil => exact mem
  | cons first digests ih =>
    apply ih
    unfold addKey
    split
    · exact mem
    · exact List.mem_append_left _ mem

/-- Normalizing keeps the entries. -/
theorem Marked.normalize {record : Record} (marked : Marked record digest) :
    Marked (normalizeConsumerRecord sha256 replica consumer record) digest := by
  obtain ⟨key, mem, revoked, starts⟩ := marked
  exact ⟨key, mem_addKeys mem _, revoked, starts⟩

theorem lookup_compact {records : List (String × Record)} {record : Record} (found : records.lookup consumer = some record)
    (used : (normalizeConsumerRecord sha256 replica consumer record).keys ≠ []) :
    (compact sha256 replica records).lookup consumer = some (normalizeConsumerRecord sha256 replica consumer record) := by
  induction records with
  | nil => cases found
  | cons entry records ih =>
    obtain ⟨name, first⟩ := entry
    rw [List.lookup_cons] at found
    unfold compact at ih ⊢
    by_cases same : consumer = name
    · subst same
      rw [beq_self_eq_true] at found
      obtain rfl := Option.some.inj found
      have kept : (normalizeConsumerRecord sha256 replica consumer first).keys.isEmpty = false := by simpa using used
      rw [List.filterMap_cons]
      simp only [kept, Bool.and_false, Bool.false_eq_true, if_false, List.lookup_cons_self]
    · rw [beq_eq_false_iff_ne.mpr same] at found
      rw [List.filterMap_cons]
      dsimp only
      split
      · exact ih found
      · rename_i stored written
        split at written
        · cases written
        · obtain rfl := Option.some.inj written
          rw [List.lookup_cons, beq_eq_false_iff_ne.mpr same]
          exact ih found

/-- No record with an entry is left out of a write. -/
theorem MarkedIn.compact {records : List (String × Record)} (marked : MarkedIn records consumer digest) :
    MarkedIn (compact sha256 replica records) consumer digest := by
  obtain ⟨record, found, marked⟩ := marked
  have kept : Marked (normalizeConsumerRecord sha256 replica consumer record) digest := marked.normalize
  refine ⟨_, lookup_compact found ?_, kept⟩
  obtain ⟨key, mem, _⟩ := kept
  exact List.ne_nil_of_mem mem

theorem lookup_map_names {names : List String} (f : String → Record) (mem : consumer ∈ names) :
    (names.map fun name => (name, f name)).lookup consumer = some (f consumer) := by
  induction names with
  | nil => cases mem
  | cons name names ih =>
    rw [List.map_cons, List.lookup_cons]
    by_cases same : consumer = name
    · subst same
      rw [beq_self_eq_true]
    · rw [beq_eq_false_iff_ne.mpr same]
      exact ih ((List.mem_cons.mp mem).resolve_left same)

/-- An operation reads the revoked entries that are stored. -/
theorem MarkedIn.read {issued : List (String × Record)} (marked : MarkedIn issued consumer digest) :
    MarkedIn (issuedConsumerRecords sha256 replica issued) consumer digest := by
  obtain ⟨record, found, here⟩ := marked
  refine ⟨normalizeConsumerRecord sha256 replica consumer record, ?_, here.normalize⟩
  have named : consumer ∈ (replica.callerKeys.map (·.2) ++ replica.callerKeyHashes.map (·.2) ++ issued.map (·.1)).dedup :=
    List.mem_dedup.mpr (List.mem_append_right _ (List.mem_map_of_mem (mem_of_lookup found)))
  unfold issuedConsumerRecords
  rw [lookup_map_names _ named, found, Option.getD_some]

end Normalizing

section Operations

variable {replica : Replica} {records : List (String × Record)} {op : Op} {w : Write} {consumer : String} {digest : Digest}

theorem metaOf_of_lookup {record : Record} (found : records.lookup consumer = some record) :
    metaOf sha256 replica records consumer = record := by
  rw [metaOf, found, Option.getD_some]

/-- An operation on one consumer that keeps the revoked entries of its record. -/
theorem MarkedIn.insert {name : String} {record : Record} (marked : MarkedIn records consumer digest)
    (keeps : ∀ d, Marked (metaOf sha256 replica records name) d → Marked record d) :
    MarkedIn (insert name record records) consumer digest := by
  obtain ⟨old, found, here⟩ := marked
  by_cases same : consumer = name
  · subst same
    refine ⟨record, lookup_insert_self _ _ _, keeps _ ?_⟩
    rw [metaOf_of_lookup found]
    exact here
  · exact ⟨old, by rw [lookup_insert_of_ne same, found], here⟩

theorem Marked.map {record : Record} {change : KeyRecord → KeyRecord} (marked : Marked record digest)
    (keeps : ∀ key, key.revoked = true → (change key).revoked = true ∧ (change key).sha256Prefix = key.sha256Prefix) :
    Marked { record with keys := record.keys.map change } digest := by
  obtain ⟨key, mem, revoked, starts⟩ := marked
  obtain ⟨still, same⟩ := keeps key revoked
  exact ⟨change key, List.mem_map_of_mem mem, still, same ▸ starts⟩

theorem Marked.append {record : Record} (marked : Marked record digest) (keys : List KeyRecord) :
    Marked { record with keys := record.keys ++ keys } digest := by
  obtain ⟨key, mem, revoked, starts⟩ := marked
  exact ⟨key, List.mem_append_left _ mem, revoked, starts⟩

theorem mark_keeps (rotation : Rotation) (tokenHash : Digest) (key : KeyRecord) (revoked : key.revoked = true) :
    (rotation.mark tokenHash key).revoked = true ∧ (rotation.mark tokenHash key).sha256Prefix = key.sha256Prefix := by
  unfold Rotation.mark
  split
  · exact ⟨revoked, rfl⟩
  · exact ⟨revoked, rfl⟩

theorem revokeIf_keeps (sha256Prefix : Digest) (key : KeyRecord) (revoked : key.revoked = true) :
    (key.revokeIf sha256Prefix).revoked = true ∧ (key.revokeIf sha256Prefix).sha256Prefix = key.sha256Prefix := by
  unfold KeyRecord.revokeIf
  split
  · exact ⟨rfl, rfl⟩
  · exact ⟨revoked, rfl⟩

/-- No operation takes a revocation back from the records it has read. -/
theorem MarkedIn.write (marked : MarkedIn records consumer digest) (wrote : op.write sha256 replica records = some w) :
    MarkedIn w.records consumer digest := by
  cases op with
  | create name tokenHash rotate =>
    simp only [Op.write, Option.ite_none_left_eq_some, Option.some.injEq] at wrote
    obtain ⟨_, rfl⟩ := wrote
    apply marked.insert
    intro d here
    cases rotate with
    | some rotation => exact (here.map (mark_keeps rotation tokenHash)).append _
    | none => exact here.append _
  | createBatch members allowedRoutes ratePerMin burst =>
    simp only [Op.write, Option.ite_none_left_eq_some, Option.some.injEq] at wrote
    obtain ⟨new, rfl⟩ := wrote
    obtain ⟨record, found, here⟩ := marked
    refine ⟨record, ?_, here⟩
    rw [← found]
    refine lookup_foldl_insert fun member mem same => new ?_
    refine List.any_eq_true.mpr ⟨member, mem, ?_⟩
    rw [← same, found, Option.isSome_some]
  | update name active allowedRoutes ratePerMin burst =>
    obtain rfl := Option.some.inj wrote
    apply marked.insert
    intro d here
    exact here
  | revoke name sha256Prefix =>
    simp only [Op.write, Option.ite_none_left_eq_some, Option.some.injEq] at wrote
    obtain ⟨_, rfl⟩ := wrote
    apply marked.insert
    intro d here
    exact here.map (revokeIf_keeps sha256Prefix)

/-- The digests of a write are those of its maps and the issued ones. -/
theorem write_digests (wrote : op.write sha256 replica records = some w)
    (new : Brings sha256 w.local_ consumer digest ∨ (digest, consumer) ∈ w.keyDigests) :
    Brings sha256 replica consumer digest ∨ (consumer, digest) ∈ issues op := by
  cases op with
  | create name tokenHash rotate =>
    simp only [Op.write, Option.ite_none_left_eq_some, Option.some.injEq] at wrote
    obtain ⟨_, rfl⟩ := wrote
    rcases new with (plain | hash) | row
    · exact .inl (.inl plain)
    · rcases mem_insert hash with same | old
      · simp only [Prod.mk.injEq] at same
        obtain ⟨rfl, rfl⟩ := same
        exact .inr List.mem_cons_self
      · exact .inl (.inr old.1)
    · simp only [List.mem_singleton, Prod.mk.injEq] at row
      obtain ⟨rfl, rfl⟩ := row
      exact .inr List.mem_cons_self
  | createBatch members allowedRoutes ratePerMin burst =>
    simp only [Op.write, Option.ite_none_left_eq_some, Option.some.injEq] at wrote
    obtain ⟨_, rfl⟩ := wrote
    have hashed : (digest, consumer) ∈ members.foldl (fun hashes member => Python.insert member.2 member.1 hashes)
        replica.callerKeyHashes → Brings sha256 replica consumer digest ∨ (consumer, digest) ∈ members := by
      intro mem
      rcases mem_foldl_insert mem with ⟨member, within, same⟩ | old
      · simp only [Prod.mk.injEq] at same
        obtain ⟨rfl, rfl⟩ := same
        exact .inr within
      · exact .inl (.inr old)
    rcases new with (plain | hash) | row
    · exact .inl (.inl plain)
    · exact hashed hash
    · exact hashed (List.mem_filter.mp row).1
  | update name active allowedRoutes ratePerMin burst =>
    obtain rfl := Option.some.inj wrote
    rcases new with here | row
    · exact .inl here
    · cases row
  | revoke name sha256Prefix =>
    simp only [Op.write, Option.ite_none_left_eq_some, Option.some.injEq] at wrote
    obtain ⟨_, rfl⟩ := wrote
    rcases new with (⟨token, mem, same⟩ | hash) | row
    · exact .inl (.inl ⟨token, (List.mem_filter.mp mem).1, same⟩)
    · exact .inl (.inr (List.mem_filter.mp hash).1)
    · cases row

theorem comparable_of_starts {a b : Digest} (first : a <+: digest) (second : b <+: digest) : comparable a b = true := by
  rcases List.prefix_or_prefix_of_prefix first second with longer | shorter
  · simp [comparable, List.isPrefixOf_iff_prefix.mpr longer]
  · simp [comparable, List.isPrefixOf_iff_prefix.mpr shorter]

/-- A revoke forgets its digests. -/
theorem revoke_forgets {sha256Prefix : Digest} (wrote : (Op.revoke consumer sha256Prefix).write sha256 replica records = some w)
    (starts : sha256Prefix <+: digest) : ¬ Brings sha256 w.local_ consumer digest ∧ w.deleteKeyDigests = some (consumer, sha256Prefix) := by
  simp only [Op.write, Option.ite_none_left_eq_some, Option.some.injEq] at wrote
  obtain ⟨_, rfl⟩ := wrote
  refine ⟨?_, rfl⟩
  rintro (⟨token, mem, same⟩ | hash)
  · obtain ⟨_, stays⟩ := List.mem_filter.mp mem
    simp [same, List.isPrefixOf_iff_prefix.mpr starts] at stays
  · obtain ⟨_, stays⟩ := List.mem_filter.mp hash
    simp [List.isPrefixOf_iff_prefix.mpr starts] at stays

/-- The entries that a write leaves revoked. -/
theorem mem_revokedEntries {entry : Digest} : entry ∈ revokedEntries records consumer ↔
    ∃ record, records.lookup consumer = some record ∧ ∃ key ∈ record.keys, key.revoked = true ∧ key.sha256Prefix = entry := by
  unfold revokedEntries
  cases found : records.lookup consumer with
  | none => simp [Record.default]
  | some record => simp [List.mem_filterMap]

/-- A revoke leaves an entry revoked that the digest starts with. -/
theorem revoke_marks {sha256Prefix : Digest} (wrote : (Op.revoke consumer sha256Prefix).write sha256 replica records = some w)
    (starts : sha256Prefix <+: digest) {key : KeyRecord} (mem : key ∈ (metaOf sha256 replica records consumer).keys)
    (covers : key.sha256Prefix <+: digest) : key.sha256Prefix ∈ revokedEntries w.records consumer := by
  simp only [Op.write, Option.ite_none_left_eq_some, Option.some.injEq] at wrote
  obtain ⟨_, rfl⟩ := wrote
  have marked : key.revokeIf sha256Prefix = { key with revoked := true } := if_pos (comparable_of_starts covers starts)
  refine mem_revokedEntries.mpr ⟨_, lookup_insert_self _ _ _, key.revokeIf sha256Prefix, List.mem_map_of_mem mem, ?_, ?_⟩
  · rw [marked]
  · rw [marked]

end Operations

section Steps

variable {s t : State} {replica : Nat} {records : List (String × Record)} {op : Op} {w : Write} {a : Action}
  {consumer : String} {sha256Prefix digest : Digest}

theorem mem_deleteDigests {deletion : Option (String × Digest)} {rows : List (Digest × String)} {row : Digest × String}
    (mem : row ∈ deleteDigests deletion rows) : row ∈ rows := by
  unfold deleteDigests at mem
  split at mem
  · exact (List.mem_filter.mp mem).1
  · exact mem

theorem mem_upsert {rows digests : List (Digest × String)} {row : Digest × String} (mem : row ∈ upsert rows digests) :
    row ∈ rows ∨ row ∈ digests := by
  rcases mem_foldl_insert mem with ⟨other, within, rfl⟩ | old
  · exact .inl within
  · exact .inr old

theorem brings_of_exact {maps : Replica} (mem : (digest, consumer) ∈ exactConsumerKeyDigests sha256 maps) :
    Brings sha256 maps consumer digest := by
  rcases mem_upsert mem with plain | hash
  · obtain ⟨entry, within, same⟩ := List.mem_map.mp plain
    simp only [Prod.mk.injEq] at same
    obtain ⟨rfl, rfl⟩ := same
    exact .inl ⟨entry.1, within, rfl⟩
  · exact .inr hash

theorem known_startup {maps : Replica} {stored : Bool} (started : step sha256 s (.startup replica maps stored) = some t)
    (known : Known sha256 t consumer digest) : Known sha256 s consumer digest ∨ Brings sha256 maps consumer digest := by
  obtain rfl := Option.some.inj started
  rcases known with ⟨other, here⟩ | row
  · dsimp only at here
    split at here
    · exact .inr here
    · exact .inl (.inl ⟨other, here⟩)
  · dsimp only at row
    split at row
    · rcases mem_upsert row with new | old
      · exact .inr (brings_of_exact new)
      · exact .inl (.inr old)
    · exact .inl (.inr row)

/-- What is known after a commit was known before or is issued by it. -/
theorem known_commit (wrote : op.write sha256 (s.replicas replica) records = some w)
    (known : Known sha256 (s.commit sha256 replica op w) consumer digest) :
    Known sha256 s consumer digest ∨ (consumer, digest) ∈ issues op := by
  have own : Brings sha256 w.local_ consumer digest ∨ (digest, consumer) ∈ w.keyDigests →
      Known sha256 s consumer digest ∨ (consumer, digest) ∈ issues op := by
    intro new
    rcases write_digests wrote new with old | issued
    · exact .inl (.inl ⟨replica, old⟩)
    · exact .inr issued
  rcases known with ⟨other, here⟩ | row
  · dsimp only [State.commit] at here
    split at here
    · exact own (.inl here)
    · exact .inl (.inl ⟨other, here⟩)
  · rcases mem_upsert (mem_deleteDigests row) with new | old
    · exact own (.inr new)
    · exact .inl (.inr old)

/-- After a revoke, a digest with the prefix is known to other replicas only. -/
theorem known_revoke (wrote : (Op.revoke consumer sha256Prefix).write sha256 (s.replicas replica) records = some w)
    (starts : sha256Prefix <+: digest)
    (known : Known sha256 (s.commit sha256 replica (.revoke consumer sha256Prefix) w) consumer digest) :
    ∃ other, other ≠ replica ∧ Brings sha256 (s.replicas other) consumer digest := by
  obtain ⟨forgotten, deleted⟩ := revoke_forgets wrote starts
  rcases known with ⟨other, here⟩ | row
  · dsimp only [State.commit] at here
    split at here
    · exact absurd here forgotten
    · rename_i different
      exact ⟨other, different, here⟩
  · dsimp only [State.commit] at row
    rw [deleted] at row
    obtain ⟨_, stays⟩ := List.mem_filter.mp row
    simp [List.isPrefixOf_iff_prefix.mpr starts] at stays

theorem mem_revokes_commit {r : Revocation} (mem : r ∈ (s.commit sha256 replica op w).revokes) :
    r ∈ s.revokes ∨ op = .revoke r.consumer r.sha256Prefix ∧ r.entries = revokedEntries w.records r.consumer := by
  dsimp only [State.commit] at mem
  split at mem
  · rcases List.mem_append.mp mem with old | new
    · exact .inl old
    · obtain rfl := List.mem_singleton.mp new
      exact .inr ⟨rfl, rfl⟩
  · exact .inl mem

theorem revokes_subset_commit {r : Revocation} (mem : r ∈ s.revokes) : r ∈ (s.commit sha256 replica op w).revokes := by
  dsimp only [State.commit]
  split
  · exact List.mem_append_left _ mem
  · exact mem

/-- What the records stop: every digest that the revoke has stopped. -/
def Keeps (r : Revocation) (records : List (String × Record)) : Prop :=
  ∀ digest, Stops r digest → MarkedIn records r.consumer digest

/-- The stored records and whoever has read after a revoke keep its entries, and a known digest
with the prefix is stopped. -/
structure Durable (sha256 : String → Digest) (consumer : String) (sha256Prefix : Digest) (s : State) : Prop where
  stored : ∀ r ∈ s.revokes, Names r consumer sha256Prefix → Keeps r s.consumerKeys
  pending : ∀ replica reading, s.pending replica = some reading → ∀ r ∈ reading.seen, Names r consumer sha256Prefix →
    Keeps r reading.records
  known : Revoked s consumer sha256Prefix → ∀ digest, sha256Prefix <+: digest → Known sha256 s consumer digest →
    Stopped s consumer sha256Prefix digest

/-- The commit of a careful operation. -/
theorem Durable.commit {reading : Reading} (h : Durable sha256 consumer sha256Prefix s)
    (pending : s.pending replica = some reading) (careful : Careful sha256 consumer sha256Prefix s (.write replica))
    (wrote : reading.op.write sha256 (s.replicas replica) reading.records = some w) :
    Durable sha256 consumer sha256Prefix (s.commit sha256 replica reading.op w) := by
  obtain ⟨after, unissued, covers⟩ := careful reading pending
  have stays : ∀ digest, Stopped s consumer sha256Prefix digest →
      Stopped (s.commit sha256 replica reading.op w) consumer sha256Prefix digest := by
    rintro digest ⟨r, mem, own, stops⟩
    exact ⟨r, revokes_subset_commit mem, own, stops⟩
  refine ⟨fun r mem own => ?_, fun other reading' isPending r mem own => ?_, fun revoked digest starts known => ?_⟩
  · intro digest stops
    apply MarkedIn.compact
    rcases mem_revokes_commit mem with old | ⟨_, entries⟩
    · exact (h.pending replica reading pending r (after r old own) own digest stops).write wrote
    · obtain ⟨entry, within, starts⟩ := stops
      rw [entries] at within
      obtain ⟨record, found, key, mem, isRevoked, rfl⟩ := mem_revokedEntries.mp within
      exact ⟨record, found, key, mem, isRevoked, starts⟩
  · dsimp only [State.commit] at isPending
    split at isPending
    · cases isPending
    · exact h.pending other reading' isPending r mem own
  · by_cases isRevoke : reading.op = .revoke consumer sha256Prefix
    · rw [isRevoke] at wrote known ⊢
      obtain ⟨key, mem, here⟩ := covers isRevoke digest starts (known_revoke wrote starts known)
      refine ⟨⟨consumer, sha256Prefix, revokedEntries w.records consumer⟩, ?_, ⟨rfl, rfl⟩, key.sha256Prefix,
        revoke_marks wrote starts mem here, here⟩
      exact List.mem_append_right _ (List.mem_singleton_self _)
    · -- another operation: the prefix was revoked before
      have before : Revoked s consumer sha256Prefix := by
        obtain ⟨r, mem, rfl, rfl⟩ := revoked
        exact ⟨r, (mem_revokes_commit mem).resolve_right fun new => isRevoke new.1, rfl, rfl⟩
      rcases known_commit wrote known with old | issued
      · exact stays digest (h.known before digest starts old)
      · exact absurd starts (unissued before digest issued)

theorem Durable.drop (h : Durable sha256 consumer sha256Prefix s) : Durable sha256 consumer sha256Prefix (s.drop replica) where
  stored := h.stored
  known := h.known
  pending other reading isPending := by
    dsimp only [State.drop] at isPending
    split at isPending
    · cases isPending
    · exact h.pending other reading isPending

theorem Durable.step (h : Durable sha256 consumer sha256Prefix s) (careful : Careful sha256 consumer sha256Prefix s a)
    (stepped : Source.ConsumerKeys.step sha256 s a = some t) : Durable sha256 consumer sha256Prefix t := by
  cases a with
  | startup replica maps stored =>
    have frame : t.revokes = s.revokes ∧ t.consumerKeys = s.consumerKeys ∧ t.pending = (s.drop replica).pending := by
      obtain rfl := Option.some.inj stepped
      exact ⟨rfl, rfl, rfl⟩
    refine ⟨?_, ?_, fun revoked digest starts known => ?_⟩
    · rw [frame.1, frame.2.1]
      exact h.stored
    · rw [frame.2.2]
      exact h.drop.pending
    · unfold Revoked at revoked
      unfold Stopped
      rw [frame.1] at revoked ⊢
      rcases known_startup stepped known with old | brought
      · exact h.known revoked digest starts old
      · exact careful revoked digest starts brought
  | read replica op =>
    simp only [Source.ConsumerKeys.step] at stepped
    split at stepped
    · cases stepped
    · obtain rfl := Option.some.inj stepped
      refine ⟨h.stored, fun other reading isPending r mem own => ?_, h.known⟩
      dsimp only at isPending
      split at isPending
      · obtain rfl := Option.some.inj isPending
        exact fun digest stops => (h.stored r mem own digest stops).read
      · exact h.pending other reading isPending r mem own
  | write replica =>
    cases pending : s.pending replica with
    | none => simp [Source.ConsumerKeys.step, pending] at stepped
    | some reading =>
      simp only [Source.ConsumerKeys.step, pending] at stepped
      cases wrote : reading.op.write sha256 (s.replicas replica) reading.records with
      | none =>
        rw [wrote] at stepped
        obtain rfl := Option.some.inj stepped
        exact h.drop
      | some w =>
        rw [wrote] at stepped
        obtain rfl := Option.some.inj stepped
        exact h.commit pending careful wrote
  | writeFails replica =>
    simp only [Source.ConsumerKeys.step, Option.ite_none_right_eq_some, Option.some.injEq] at stepped
    obtain ⟨_, rfl⟩ := stepped
    exact h.drop

end Steps

section Admission

variable {s : State} {replica : Nat} {now : Int} {token consumer : String}

theorem not_allows_of_marked {record : Record} {digest : Digest} (marked : Marked record digest) :
    keyRecordAllows digest record now = false := by
  obtain ⟨key, mem, revoked, starts⟩ := marked
  refine List.all_eq_false.mpr ⟨key, ?_, by simp [revoked]⟩
  exact List.mem_filter.mpr ⟨mem, List.isPrefixOf_iff_prefix.mpr starts⟩

theorem mem_of_digest {rows : List (Digest × String)} {digest : Digest} (found : rows.lookup digest = some consumer) :
    (digest, consumer) ∈ rows := by
  obtain ⟨before, after, shape, _⟩ := List.lookup_eq_some_iff.mp found
  rw [shape]
  exact List.mem_append_right _ List.mem_cons_self

/-- An admitted token is known, and no entry of its record stops it. -/
theorem callerAuth_admits (admits : s.callerAuth sha256 replica now token = some consumer) :
    Known sha256 s consumer (sha256 token) ∧ ¬ MarkedIn s.consumerKeys consumer (sha256 token) := by
  unfold State.callerAuth at admits
  split at admits
  · cases admits
  · simp only [Option.bind_eq_bind, Option.bind_eq_some_iff] at admits
    obtain ⟨caller, resolved, admits⟩ := admits
    split at admits
    · rename_i allowed
      obtain rfl := Option.some.inj admits
      constructor
      · simp only [Option.or_eq_some_iff, Option.filter_eq_some_iff] at resolved
        rcases resolved with ⟨plain, _⟩ | ⟨_, ⟨hash, _⟩ | ⟨_, row, _⟩⟩
        · exact .inl ⟨replica, .inl ⟨token, mem_of_lookup plain, rfl⟩⟩
        · exact .inl ⟨replica, .inr (mem_of_digest hash)⟩
        · exact .inr (mem_of_digest row)
      · rintro ⟨record, found, marked⟩
        rw [found, Option.getD_some, not_allows_of_marked marked.normalize, Bool.and_false] at allowed
        cases allowed
    · cases admits

end Admission

section Entries

variable {s : State} {consumer : String} {sha256Prefix digest : Digest}

instance (r : Revocation) (consumer : String) (sha256Prefix : Digest) : Decidable (Names r consumer sha256Prefix) :=
  inferInstanceAs (Decidable (_ ∧ _))

/-- Care for a revoke that names whole entries, as a check. -/
def carefulEntry (sha256 : String → Digest) (consumer : String) (sha256Prefix : Digest) (s : State) : Action → Bool
  | .startup _ _ _ => s.revokes.all (fun r => ¬ Names r consumer sha256Prefix) ||
      s.revokes.any fun r => Names r consumer sha256Prefix && r.entries.any (·.isPrefixOf sha256Prefix)
  | .write replica => (s.pending replica).all fun reading =>
      s.revokes.all (fun r => Names r consumer sha256Prefix → r ∈ reading.seen) &&
      (s.revokes.all (fun r => ¬ Names r consumer sha256Prefix) ||
        (issues reading.op).all fun key => key.1 ≠ consumer || !sha256Prefix.isPrefixOf key.2) &&
      match reading.op with
      | .revoke name _ => name ≠ consumer ||
          (metaOf sha256 (s.replicas replica) reading.records consumer).keys.any (·.sha256Prefix.isPrefixOf sha256Prefix)
      | _ => true
  | .read .. => true
  | .writeFails _ => true

theorem careful_of_entry {a : Action} (h : carefulEntry sha256 consumer sha256Prefix s a = true) :
    Careful sha256 consumer sha256Prefix s a := by
  have unrevoked : s.revokes.all (fun r => ¬ Names r consumer sha256Prefix) = true → ¬ Revoked s consumer sha256Prefix := by
    rintro none_ ⟨r, mem, own⟩
    exact of_decide_eq_true (List.all_eq_true.mp none_ r mem) own
  cases a with
  | startup replica maps stored =>
    intro revoked digest starts _
    rcases (Bool.or_eq_true _ _).mp h with none_ | some_
    · exact absurd revoked (unrevoked none_)
    · obtain ⟨r, mem, both⟩ := List.any_eq_true.mp some_
      obtain ⟨own, stops⟩ := (Bool.and_eq_true _ _).mp both
      obtain ⟨entry, within, shorter⟩ := List.any_eq_true.mp stops
      exact ⟨r, mem, of_decide_eq_true own, entry, within, (List.isPrefixOf_iff_prefix.mp shorter).trans starts⟩
  | read replica op => trivial
  | write replica =>
    intro reading pending
    simp only [carefulEntry, pending, Option.all_some, Bool.and_eq_true] at h
    obtain ⟨⟨after, unissued⟩, covers⟩ := h
    refine ⟨fun r mem own => of_decide_eq_true (List.all_eq_true.mp after r mem) own, fun revoked digest issued starts => ?_, ?_⟩
    · rcases (Bool.or_eq_true _ _).mp unissued with none_ | other
      · exact unrevoked none_ revoked
      · have apart := List.all_eq_true.mp other _ issued
        simp [List.isPrefixOf_iff_prefix.mpr starts] at apart
    · intro isRevoke digest starts _
      rw [isRevoke] at covers
      have named : ∃ key ∈ (metaOf sha256 (s.replicas replica) reading.records consumer).keys,
          key.sha256Prefix <+: sha256Prefix := by
        simpa using covers
      obtain ⟨key, mem, entry⟩ := named
      exact ⟨key, mem, entry.trans starts⟩
  | writeFails replica => trivial

end Entries

/-- After a run whose steps are careful about a revoke, the token is not admitted anywhere. -/
theorem revocation_durable {acts : List Action} {s : State} {consumer : String} {sha256Prefix : Digest}
    (careful : Machine.Along (step sha256) (Careful sha256 consumer sha256Prefix) .start acts)
    (ran : runKeys sha256 acts = some s) (revoked : Revoked s consumer sha256Prefix)
    (replica : Nat) (now : Int) (token : String) (starts : sha256Prefix <+: sha256 token) :
    s.callerAuth sha256 replica now token ≠ some consumer := by
  intro admits
  obtain ⟨known, unmarked⟩ := callerAuth_admits admits
  have durable : Durable sha256 consumer sha256Prefix s := by
    apply Machine.run_along (I := Durable sha256 consumer sha256Prefix) _ _ careful ran
    · exact ⟨List.forall_mem_nil _, nofun, fun ⟨r, mem, _⟩ => absurd mem List.not_mem_nil⟩
    · intro s a t h here stepped
      exact h.step here stepped
  obtain ⟨r, mem, own, stops⟩ := durable.known revoked _ starts known
  have marked := durable.stored r mem own _ stops
  rw [own.1] at marked
  exact unmarked marked

section Runs

/-- `sha256(b"sk-acme")` -/
def acmeDigest : Digest := "5f8eee912cd7c0ccb238560e8a22e7f78909e6dac18288188f7f4ea35112700d".toList

/-- A process that has the hash of the key. -/
def acmeMaps : Replica := ⟨[], [(acmeDigest, "acme")]⟩

def revokeAcme : Op := .revoke "acme" (acmeDigest.take 12)

def settingsAcme : Op := .update "acme" none none (some (some 60)) none

/-- The settings change of the other replica after the revoke: its process starts anew with the hash. -/
def revokeThenUpdate : List Action :=
  [.startup 0 acmeMaps true, .startup 1 acmeMaps true, .read 0 revokeAcme, .write 0, .read 1 settingsAcme, .write 1,
    .startup 0 acmeMaps true]

theorem revocation_durable_acme : ∃ s, runKeys (fun _ => acmeDigest) revokeThenUpdate = some s ∧
    s.callerAuth (fun _ => acmeDigest) 0 0 "sk-acme" ≠ some "acme" := by
  have careful : Machine.Along (step fun _ => acmeDigest)
      (fun s a => carefulEntry (fun _ => acmeDigest) "acme" (acmeDigest.take 12) s a = true) .start revokeThenUpdate := by
    decide +kernel
  have ends : (runKeys (fun _ => acmeDigest) revokeThenUpdate).map (·.revokes) =
      some [⟨"acme", acmeDigest.take 12, [acmeDigest.take 12]⟩] := by decide +kernel
  obtain ⟨s, ran, found⟩ := Option.map_eq_some_iff.mp ends
  refine ⟨s, ran, revocation_durable (careful.mono fun s a here => careful_of_entry here) ran ?_ 0 0 "sk-acme"
    (List.take_prefix _ _)⟩
  exact ⟨_, by rw [found]; exact List.mem_cons_self, rfl, rfl⟩

/-- A settings change of another replica that has read before the revoke and writes after it. -/
theorem revoked_key_revived : ¬ ∀ (sha256 : String → Digest) (acts : List Action) (s : State) (consumer : String)
    (sha256Prefix : Digest), runKeys sha256 acts = some s → Revoked s consumer sha256Prefix →
    (∀ act ∈ acts, ∀ replica op, act = .read replica op → issues op = []) →
    ∀ (replica : Nat) (now : Int) (token : String), sha256Prefix <+: sha256 token →
      s.callerAuth sha256 replica now token ≠ some consumer := by
  intro durable
  let acts : List Action := [.startup 0 acmeMaps true, .startup 1 acmeMaps true,
    .read 1 settingsAcme, .read 0 revokeAcme, .write 0, .write 1]
  have ends : (runKeys (fun _ => acmeDigest) acts).map (fun s =>
      (s.revokes, s.callerAuth (fun _ => acmeDigest) 1 0 "sk-acme")) =
      some ([⟨"acme", acmeDigest.take 12, [acmeDigest.take 12]⟩], some "acme") := by decide +kernel
  obtain ⟨s, ran, found⟩ := Option.map_eq_some_iff.mp ends
  simp only [Prod.mk.injEq] at found
  refine durable (fun _ => acmeDigest) acts s "acme" (acmeDigest.take 12) ran ?_ ?_ 1 0 "sk-acme" (List.take_prefix _ _) found.2
  · exact ⟨_, by rw [found.1]; exact List.mem_cons_self, rfl, rfl⟩
  · simp [acts, issues, revokeAcme, settingsAcme]

end Runs

end Unhardcoded.Guarantees.ConsumerKeys
