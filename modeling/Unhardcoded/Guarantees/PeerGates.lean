import Unhardcoded.Python.Dict
import Unhardcoded.Source.PeerGates

/-!
# When the peer gates keep the advertised cap

A gate admits by the cap it was made for, and the table may drop a gate that requests
still use. So the cap an offer advertises bounds the requests of its peer only where
no request finds a gate made for a larger cap, or none while requests of its peer are
at one (`fits`). Under that condition all requests of a peer are at one gate
(`Placed`), and the permits of a gate and the requests it admitted are together its
cap (`Sound`).
-/

namespace Unhardcoded.Guarantees.PeerGates
open Effects Source Source.PeerGates

/-- Some request of this peer waits at the gate or holds a permit of it. -/
def Used (s : PeerState) (peer : String) (index : Nat) : Prop :=
  (∃ r, (index, r) ∈ s.admitted ∧ r.peer = peer) ∨
    ∃ gate, s.gates[index]? = some gate ∧ ∃ r ∈ gate.semaphore.tasks, r.peer = peer

/-- All requests of a peer are at one gate, the table's where it has one. -/
structure Placed (s : PeerState) : Prop where
  one : ∀ peer index index', Used s peer index → Used s peer index' → index = index'
  current : ∀ peer index, s.table.lookup peer = some index →
    (∃ gate, s.gates[index]? = some gate ∧ gate.peer = peer) ∧ ∀ index', Used s peer index' → index' = index

/-- What one gate has given out, and to whom. -/
structure GateSound (s : PeerState) (index : Nat) (gate : Gate) : Prop where
  counted : gate.semaphore.permits + (s.admitted.countP fun slot => slot.1 = index) = gate.cap
  waiting : ∀ r ∈ gate.semaphore.tasks, r.peer = gate.peer ∧ gate.cap ≤ r.cap

structure Sound (s : PeerState) : Prop where
  placed : Placed s
  gates : ∀ index gate, s.gates[index]? = some gate → GateSound s index gate
  slots : ∀ slot ∈ s.admitted, slot.1 < s.gates.length
  admissions : ∀ a ∈ s.admissions, a.2 < a.1.cap

section Steps

variable {s : PeerState}

theorem evict_same (s : PeerState) : s.evict.gates = s.gates ∧ s.evict.admitted = s.admitted ∧
    s.evict.admissions = s.admissions := by
  unfold PeerState.evict
  split
  · exact ⟨rfl, rfl, rfl⟩
  · exact ⟨rfl, rfl, rfl⟩

theorem evict_lookup {peer : String} {index : Nat} (h : s.evict.table.lookup peer = some index) :
    s.table.lookup peer = some index := by
  unfold PeerState.evict at h
  split at h
  · let stale := (s.timestamps.filter fun entry => s.now - entry.2 > peerGateTtl).map (·.1)
    have kept := Python.lookup_filter_keys (fun name => decide (name ∉ stale)) s.table peer
    split at kept
    · exact kept ▸ h
    · cases kept.symm.trans h
  · exact h

/-- Fewer requests, and no other table entries. -/
theorem Placed.mono {t : PeerState} (h : Placed s) (used : ∀ peer index, Used t peer index → Used s peer index)
    (table : ∀ peer index, t.table.lookup peer = some index → s.table.lookup peer = some index)
    (gates : ∀ (index : Nat) (gate : Gate), s.gates[index]? = some gate →
      ∃ gate' : Gate, t.gates[index]? = some gate' ∧ gate'.peer = gate.peer) : Placed t where
  one peer index index' here there := h.one peer index index' (used peer index here) (used peer index' there)
  current peer index found := by
    obtain ⟨⟨gate, at_index, same⟩, only⟩ := h.current peer index (table peer index found)
    obtain ⟨gate', at_index', same'⟩ := gates index gate at_index
    exact ⟨⟨gate', at_index', same'.trans same⟩, fun index' there => only index' (used peer index' there)⟩

theorem getElem?_setGate {index : Nat} {gate : Gate} (at_index : s.gates[index]? = some gate)
    (semaphore : Semaphore Request) (j : Nat) :
    (s.setGate index gate semaphore).gates[j]? =
      if index = j then some { gate with semaphore := semaphore } else s.gates[j]? := by
  have inside := (List.getElem?_eq_some_iff.mp at_index).1
  simp [PeerState.setGate, List.getElem?_set, inside]

/-- A request in a queue of the later state was in one before. -/
theorem used_of_waiting {t : PeerState} {index : Nat} {gate : Gate} {semaphore : Semaphore Request}
    (at_index : s.gates[index]? = some gate) (gates : t.gates = (s.setGate index gate semaphore).gates)
    (tasks : ∀ r ∈ semaphore.tasks, r ∈ gate.semaphore.tasks) {peer : String} {j : Nat}
    (h : ∃ gate', t.gates[j]? = some gate' ∧ ∃ r ∈ gate'.semaphore.tasks, r.peer = peer) : Used s peer j := by
  obtain ⟨gate', at_j, r, mem, same⟩ := h
  rw [gates, getElem?_setGate at_index] at at_j
  split at at_j
  · rename_i here
    subst here
    obtain rfl := Option.some.inj at_j
    exact .inr ⟨gate, at_index, r, tasks r mem, same⟩
  · exact .inr ⟨gate', at_j, r, mem, same⟩

/-- A step at one gate. -/
theorem Sound.update {t : PeerState} (h : Sound s) {index : Nat} {gate : Gate} {semaphore : Semaphore Request}
    (at_index : s.gates[index]? = some gate) (gates : t.gates = (s.setGate index gate semaphore).gates)
    (table : t.table = s.table)
    (counted : semaphore.permits + (t.admitted.countP fun slot => slot.1 = index) = gate.cap)
    (elsewhere : ∀ j, j ≠ index →
      (t.admitted.countP fun slot => slot.1 = j) = s.admitted.countP fun slot => slot.1 = j)
    (waiting : ∀ r ∈ semaphore.tasks, r.peer = gate.peer ∧ gate.cap ≤ r.cap)
    (slots : ∀ slot ∈ t.admitted, slot.1 < s.gates.length)
    (used : ∀ peer j, Used t peer j → Used s peer j ∨ j = index ∧ s.table.lookup peer = some index)
    (admissions : ∀ a ∈ t.admissions, a.2 < a.1.cap) : Sound t where
  placed.one peer j j' here there := by
    rcases used peer j here with here | ⟨rfl, home⟩
    · rcases used peer j' there with there | ⟨rfl, home⟩
      · exact h.placed.one peer j j' here there
      · exact (h.placed.current peer j' home).2 j here
    · rcases used peer j' there with there | ⟨rfl, -⟩
      · exact ((h.placed.current peer j home).2 j' there).symm
      · rfl
  placed.current peer j found := by
    rw [table] at found
    obtain ⟨⟨gate', at_j, same⟩, only⟩ := h.placed.current peer j found
    refine ⟨?_, ?_⟩
    · rw [gates, getElem?_setGate at_index]
      split
      · rename_i here
        subst here
        obtain rfl : gate = gate' := Option.some.inj (at_index.symm.trans at_j)
        exact ⟨_, rfl, same⟩
      · exact ⟨gate', at_j, same⟩
    · intro j' there
      rcases used peer j' there with there | ⟨rfl, home⟩
      · exact only j' there
      · exact Option.some.inj (home.symm.trans found)
  gates j gate' at_j := by
    rw [gates, getElem?_setGate at_index] at at_j
    split at at_j
    · rename_i here
      subst here
      obtain rfl := Option.some.inj at_j
      exact ⟨counted, waiting⟩
    · rename_i other
      obtain ⟨kept, fit⟩ := h.gates j gate' at_j
      exact ⟨by rw [elsewhere j (Ne.symm other), kept], fit⟩
  slots slot mem := by
    rw [gates, PeerState.setGate, List.length_set]
    exact slots slot mem
  admissions := admissions

/-- Requests leave the queue of a gate, or none does, and no permit moves. -/
theorem sound_setGate (h : Sound s) {index : Nat} {gate : Gate} {semaphore : Semaphore Request}
    (at_index : s.gates[index]? = some gate) (tasks : ∀ r ∈ semaphore.tasks, r ∈ gate.semaphore.tasks)
    (permits : semaphore.permits = gate.semaphore.permits) : Sound (s.setGate index gate semaphore) := by
  obtain ⟨counted, fit⟩ := h.gates index gate at_index
  refine h.update at_index rfl rfl ?_ (fun _ _ => rfl) (fun r mem => fit r (tasks r mem)) h.slots ?_ h.admissions
  · rw [permits]
    exact counted
  · rintro peer j (here | there)
    · exact .inl (.inl here)
    · exact .inl (used_of_waiting at_index rfl tasks there)

/-- All requests of this peer in flight are at this gate. -/
theorem inFlight_le {peer : String} {index : Nat} (home : ∀ j, Used s peer j → j = index) :
    s.inFlight peer ≤ s.admitted.countP fun slot => slot.1 = index := by
  refine List.countP_mono_left fun slot mem same => ?_
  simp only [decide_eq_true_eq] at same ⊢
  exact home slot.1 (.inl ⟨slot.2, mem, same⟩)

/-- A request gets a permit of the gate its peer's requests are at. -/
theorem sound_letIn (h : Sound s) {index : Nat} {gate : Gate} {semaphore : Semaphore Request} {r : Request}
    (at_index : s.gates[index]? = some gate) (peer : r.peer = gate.peer) (cap : gate.cap ≤ r.cap)
    (tasks : ∀ r ∈ semaphore.tasks, r ∈ gate.semaphore.tasks)
    (permits : semaphore.permits + 1 = gate.semaphore.permits) (home : ∀ j, Used s r.peer j → j = index)
    (here : Used s r.peer index ∨ s.table.lookup r.peer = some index) :
    Sound ((s.setGate index gate semaphore).letIn index r) := by
  obtain ⟨counted, fit⟩ := h.gates index gate at_index
  have inside := (List.getElem?_eq_some_iff.mp at_index).1
  refine h.update at_index rfl rfl ?_ ?_ (fun r mem => fit r (tasks r mem)) ?_ ?_ ?_
  · simp only [PeerState.letIn, PeerState.setGate, List.countP_append, List.countP_singleton, decide_true, if_true]
    omega
  · intro j other
    simp [PeerState.letIn, PeerState.setGate, Ne.symm other]
  · intro slot mem
    rcases List.mem_append.mp mem with mem | mem
    · exact h.slots slot mem
    · rw [List.mem_singleton.mp mem]
      exact inside
  · rintro p j (⟨r', mem, same⟩ | there)
    · rcases List.mem_append.mp mem with mem | mem
      · exact .inl (.inl ⟨r', mem, same⟩)
      · obtain ⟨rfl, rfl⟩ := Prod.mk.inj (List.mem_singleton.mp mem)
        rw [← same]
        exact here.imp_right fun home => ⟨rfl, home⟩
    · exact .inl (used_of_waiting at_index rfl tasks there)
  · intro a mem
    rcases List.mem_append.mp mem with mem | mem
    · exact h.admissions a mem
    · rw [List.mem_singleton.mp mem]
      have fewer := inFlight_le home
      have same : (s.setGate index gate semaphore).inFlight r.peer = s.inFlight r.peer := rfl
      dsimp only
      omega

/-- A request joins the queue of its peer's gate. -/
theorem sound_wait (h : Sound s) {index : Nat} {gate : Gate} {semaphore : Semaphore Request} {r : Request}
    (at_index : s.gates[index]? = some gate) (peer : r.peer = gate.peer) (cap : gate.cap ≤ r.cap)
    (tasks : semaphore.tasks = gate.semaphore.tasks ++ [r]) (permits : semaphore.permits = gate.semaphore.permits)
    (home : s.table.lookup r.peer = some index) : Sound (s.setGate index gate semaphore) := by
  obtain ⟨counted, fit⟩ := h.gates index gate at_index
  refine h.update at_index rfl rfl ?_ (fun _ _ => rfl) ?_ h.slots ?_ h.admissions
  · rw [permits]
    exact counted
  · intro r' mem
    rw [tasks] at mem
    rcases List.mem_append.mp mem with mem | mem
    · exact fit r' mem
    · rw [List.mem_singleton.mp mem]
      exact ⟨peer, cap⟩
  · rintro p j (held | ⟨gate', at_j, r', mem, same⟩)
    · exact .inl (.inl held)
    · rw [getElem?_setGate at_index] at at_j
      split at at_j
      · rename_i here
        subst here
        obtain rfl := Option.some.inj at_j
        rcases List.mem_append.mp (tasks ▸ mem) with mem | mem
        · exact .inl (.inr ⟨gate, at_index, r', mem, same⟩)
        · rw [← same, List.mem_singleton.mp mem]
          exact .inr ⟨rfl, home⟩
      · exact .inl (.inr ⟨gate', at_j, r', mem, same⟩)

theorem sound_resume (h : Sound s) {t : PeerState} {index : Nat} {r : Request}
    (stepped : s.resume index r = some t) : Sound t := by
  simp only [PeerState.resume, Option.bind_eq_bind, Option.bind_eq_some_iff, Prod.exists] at stepped
  obtain ⟨gate, at_index, acquired, semaphore, resumed, ended⟩ := stepped
  obtain ⟨mem, tasks, kept⟩ := Semaphore.resume_spec resumed
  have fewer (r' : Request) (mem : r' ∈ semaphore.tasks) : r' ∈ gate.semaphore.tasks := by
    rw [tasks] at mem
    exact List.mem_of_mem_erase mem
  cases ended
  cases acquired with
  | false => exact sound_setGate h at_index fewer kept
  | true =>
    obtain ⟨peer, cap⟩ := (h.gates index gate at_index).waiting r mem
    have used : Used s r.peer index := .inr ⟨gate, at_index, r, mem, rfl⟩
    exact sound_letIn h at_index peer cap fewer kept (fun j there => h.placed.one r.peer j index there used) (.inl used)

theorem sound_release (h : Sound s) {index : Nat} {gate : Gate} {r : Request}
    (at_index : s.gates[index]? = some gate) (held : (index, r) ∈ s.admitted) :
    Sound { s.setGate index gate gate.semaphore.release with admitted := s.admitted.erase (index, r) } := by
  obtain ⟨counted, fit⟩ := h.gates index gate at_index
  obtain ⟨tasks, permits⟩ := gate.semaphore.release_spec
  have left (j : Nat) : (s.admitted.countP fun slot => slot.1 = j) =
      ((s.admitted.erase (index, r)).countP fun slot => slot.1 = j) + if index = j then 1 else 0 := by
    have := (List.perm_cons_erase held).countP_eq fun slot => slot.1 = j
    rw [this, List.countP_cons]
    simp
  refine h.update at_index rfl rfl ?_ ?_ ?_ ?_ ?_ h.admissions
  · have := left index
    simp only [if_true] at this
    dsimp only
    omega
  · intro j other
    have := left j
    rw [if_neg (Ne.symm other)] at this
    exact this.symm
  · rw [tasks]
    exact fit
  · exact fun slot mem => h.slots slot (List.mem_of_mem_erase mem)
  · rintro p j (⟨r', mem, same⟩ | there)
    · exact .inl (.inl ⟨r', List.mem_of_mem_erase mem, same⟩)
    · exact .inl (used_of_waiting at_index rfl (fun r mem => tasks ▸ mem) there)

/-- Some request of this peer waits or is admitted. -/
def inUse (s : PeerState) (peer : String) : Bool :=
  (s.admitted.any fun slot => slot.2.peer = peer) ||
    s.gates.any fun gate => gate.semaphore.tasks.any fun r => r.peer = peer

theorem not_used {peer : String} (h : inUse s peer = false) (index : Nat) : ¬ Used s peer index := by
  simp only [inUse, Bool.or_eq_false_iff, List.any_eq_false, decide_eq_true_eq] at h
  rintro (⟨r, mem, same⟩ | ⟨gate, at_index, r, mem, same⟩)
  · exact h.1 _ mem same
  · exact h.2 gate (List.mem_of_getElem? at_index) (List.any_eq_true.mpr ⟨r, mem, by simpa using same⟩)

/-- The table's gate for this cap: made for no more, or about to be made while no
request of the peer is at another one. -/
def fitsGate (s : PeerState) (peer : String) (cap : Nat) : Bool :=
  match s.evict.table.lookup peer with
  | some index => (s.gates[index]?).all fun gate => gate.cap ≤ cap
  | none => !inUse s peer

theorem sound_evict (h : Sound s) (timestamps : List (String × ℚ)) :
    Sound { s.evict with timestamps := timestamps } := by
  obtain ⟨gates, admitted, admissions⟩ := evict_same s
  have used (peer : String) (index : Nat) :
      Used { s.evict with timestamps := timestamps } peer index ↔ Used s peer index := by
    simp only [Used, gates, admitted]
  refine ⟨h.placed.mono (fun peer index => (used peer index).mp) (fun _ _ => evict_lookup) ?_, ?_, ?_, ?_⟩
  · intro index gate at_index
    exact ⟨gate, by rw [← at_index, ← gates], rfl⟩
  · intro index gate at_index
    obtain ⟨counted, fit⟩ := h.gates index gate (by rw [← at_index, ← gates])
    exact ⟨by rw [← counted, ← admitted], fit⟩
  · intro slot mem
    have := h.slots slot (by rw [← admitted]; exact mem)
    rwa [← gates] at this
  · intro a mem
    exact h.admissions a (by rw [← admissions]; exact mem)

/-- A gate of its own for a peer none of whose requests is at one. -/
theorem sound_make (h : Sound s) {peer : String} (cap : Nat) (absent : s.table.lookup peer = none)
    (free : ∀ index, ¬ Used s peer index) :
    Sound { s with
      gates := s.gates ++ [⟨peer, cap, .create cap⟩]
      table := Python.insert peer s.gates.length s.table } := by
  have at_index (j : Nat) : (s.gates ++ [⟨peer, cap, .create cap⟩])[j]? =
      if j < s.gates.length then s.gates[j]? else if j = s.gates.length then some ⟨peer, cap, .create cap⟩ else none := by
    by_cases inside : j < s.gates.length
    · rw [if_pos inside, List.getElem?_append_left inside]
    · rw [if_neg inside, List.getElem?_append_right (by omega)]
      by_cases last : j = s.gates.length
      · simp [last]
      · rw [if_neg last, List.getElem?_eq_none (by simp; omega)]
  have table : Python.insert peer s.gates.length s.table = s.table ++ [(peer, s.gates.length)] := by
    simp [Python.insert, absent]
  have used (p : String) (j : Nat) (h : Used { s with
      gates := s.gates ++ [⟨peer, cap, .create cap⟩]
      table := Python.insert peer s.gates.length s.table } p j) : Used s p j := by
    rcases h with held | ⟨gate, at_j, r, mem, same⟩
    · exact .inl held
    · dsimp only at at_j
      rw [at_index] at at_j
      split at at_j
      · exact .inr ⟨gate, at_j, r, mem, same⟩
      · split at at_j
        · cases at_j
          cases mem
        · cases at_j
  refine ⟨⟨?_, ?_⟩, ?_, ?_, h.admissions⟩
  · intro p j j' here there
    exact h.placed.one p j j' (used p j here) (used p j' there)
  · intro p j found
    dsimp only at found ⊢
    rw [table, List.lookup_append] at found
    cases before : s.table.lookup p with
    | some index =>
      rw [before] at found
      obtain rfl := Option.some.inj found
      obtain ⟨⟨gate, at_j, same⟩, only⟩ := h.placed.current p index before
      refine ⟨⟨gate, ?_, same⟩, fun j' there => only j' (used p j' there)⟩
      rw [at_index, if_pos (List.getElem?_eq_some_iff.mp at_j).1, at_j]
    | none =>
      rw [before, Option.none_or] at found
      obtain ⟨rfl, rfl⟩ : p = peer ∧ s.gates.length = j := by
        rw [List.lookup_cons] at found
        split at found
        · rename_i here
          exact ⟨by simpa using here, Option.some.inj found⟩
        · cases found
      refine ⟨⟨⟨p, cap, .create cap⟩, by rw [at_index]; simp, rfl⟩, fun j' there => ?_⟩
      exact absurd (used p j' there) (free j')
  · intro j gate at_j
    dsimp only at at_j
    rw [at_index] at at_j
    split at at_j
    · obtain ⟨counted, fit⟩ := h.gates j gate at_j
      exact ⟨counted, fit⟩
    · split at at_j
      · rename_i last
        cases at_j
        have nobody : (s.admitted.countP fun slot => slot.1 = j) = 0 := by
          rw [List.countP_eq_zero]
          intro slot mem same
          have inside := h.slots slot mem
          simp only [decide_eq_true_eq] at same
          omega
        refine ⟨?_, fun r mem => by cases mem⟩
        rw [Semaphore.permits_create]
        dsimp only
        omega
      · cases at_j
  · intro slot mem
    have := h.slots slot mem
    simp only [List.length_append, List.length_singleton]
    omega

theorem sound_peerGate (h : Sound s) {peer : String} {cap index : Nat} {t : PeerState}
    (fits : fitsGate s peer cap = true) (same : s.peerGate peer cap = (index, t)) :
    Sound t ∧ t.table.lookup peer = some index ∧
      ∃ gate, t.gates[index]? = some gate ∧ gate.peer = peer ∧ gate.cap ≤ cap := by
  obtain ⟨gates, admitted, -⟩ := evict_same s
  have evicted := sound_evict h (Python.insert peer s.evict.now s.evict.timestamps)
  unfold PeerState.peerGate at same
  unfold fitsGate at fits
  dsimp only at same
  cases found : s.evict.table.lookup peer with
  | some current =>
    simp only [found] at same fits
    obtain ⟨rfl, rfl⟩ := Prod.mk.inj same
    obtain ⟨⟨gate, at_index, owner⟩, -⟩ := evicted.placed.current peer current found
    refine ⟨evicted, found, gate, at_index, owner, ?_⟩
    have at_index : s.gates[current]? = some gate := by rw [← gates]; exact at_index
    simpa [at_index] using fits
  | none =>
    simp only [found] at same fits
    obtain ⟨rfl, rfl⟩ := Prod.mk.inj same
    have free (index : Nat) : ¬ Used { s.evict with
        timestamps := Python.insert peer s.evict.now s.evict.timestamps } peer index := by
      have unused := not_used (s := s) (by simpa using fits) index
      simpa only [Used, gates, admitted] using unused
    refine ⟨sound_make evicted cap found free, ?_, ⟨peer, cap, .create cap⟩, by simp, rfl, le_refl _⟩
    simp [Python.insert, found, List.lookup_append]

theorem sound_call (h : Sound s) {r : Request} {t : PeerState} (fits : fitsGate s r.peer r.cap = true)
    (stepped : s.call r = some t) : Sound t := by
  simp only [PeerState.call, Option.bind_eq_bind, Option.bind_eq_some_iff] at stepped
  obtain ⟨gate, at_index, ended⟩ := stepped
  obtain ⟨sound, found, gate', at_index', peer, cap⟩ := sound_peerGate h fits rfl
  obtain rfl : gate = gate' := Option.some.inj (at_index.symm.trans at_index')
  have only := (sound.placed.current r.peer _ found).2
  cases locked : gate.semaphore.locked with
  | false =>
    obtain ⟨passed, tasks, permits⟩ := Semaphore.acquire_passes locked r
    simp only [passed, if_true] at ended
    cases ended
    exact sound_letIn sound at_index peer.symm cap (fun r mem => tasks ▸ mem) permits only (.inr found)
  | true =>
    obtain ⟨waits, tasks, permits⟩ := Semaphore.acquire_waits locked r
    simp only [waits, Bool.false_eq_true, if_false] at ended
    cases ended
    exact sound_wait sound at_index peer.symm cap tasks permits found

end Steps

section Run

variable {lower : String → String}

/-- The gate a call finds was made for no more than the cap its offer advertises; where
it finds none, no request of its peer waits or is admitted. -/
def fits (lower : String → String) (s : PeerState) : PeerAct → Bool
  | .call _ offer => (gateKey lower offer).all fun key => fitsGate s key.1 key.2
  | _ => true

theorem sound_empty (now : ℚ) : Sound (.empty now) := by
  have unused (peer : String) (index : Nat) : ¬ Used (.empty now) peer index := by
    rintro (⟨r, mem, -⟩ | ⟨gate, at_index, -⟩)
    · cases mem
    · simp [PeerState.empty] at at_index
  refine ⟨⟨fun peer index _ here => absurd here (unused peer index), ?_⟩, ?_, ?_, ?_⟩
  · rintro peer index ⟨⟩
  · intro index gate at_index
    simp [PeerState.empty] at at_index
  · rintro slot ⟨⟩
  · rintro a ⟨⟩

theorem sound_step {s t : PeerState} {act : PeerAct} (h : Sound s) (here : fits lower s act = true)
    (stepped : s.step lower act = some t) : Sound t := by
  cases act with
  | call task offer =>
    simp only [PeerState.step] at stepped
    split at stepped
    · cases stepped
    · split at stepped
      · cases stepped
        exact h
      · rename_i peer cap key
        exact sound_call h (by simpa [fits, key] using here) stepped
  | strike index r =>
    simp only [PeerState.step, Option.bind_eq_bind, Option.bind_eq_some_iff] at stepped
    obtain ⟨gate, at_index, ended⟩ := stepped
    cases ended
    obtain ⟨tasks, permits⟩ := gate.semaphore.cancel_spec r
    exact sound_setGate h at_index (fun r mem => tasks ▸ mem) permits
  | resume index r => exact sound_resume h stepped
  | release index r =>
    simp only [PeerState.step] at stepped
    split at stepped
    · rename_i held
      simp only [Option.bind_eq_bind, Option.bind_eq_some_iff] at stepped
      obtain ⟨gate, at_index, ended⟩ := stepped
      cases ended
      exact sound_release h at_index held
    · cases stepped
      exact h
  | tick elapsed =>
    simp only [PeerState.step] at stepped
    split at stepped
    · cases stepped
      exact ⟨⟨h.placed.one, h.placed.current⟩, fun index gate at_index =>
        ⟨(h.gates index gate at_index).counted, (h.gates index gate at_index).waiting⟩, h.slots, h.admissions⟩
    · cases stepped

/-- Where every call of a run finds a gate made for no more than its cap, and none is
made for a peer with requests at another one, each admission of cap `c` has found
fewer than `c` requests of its peer admitted. -/
theorem peer_gate_within_cap {now : ℚ} {acts : List PeerAct} {s : PeerState}
    (along : Machine.Along (PeerState.step lower) (fun s act => fits lower s act = true) (.empty now) acts)
    (ran : runPeers lower now acts = some s) : ∀ a ∈ s.admissions, a.2 < a.1.cap :=
  (Machine.run_along (sound_empty now) (fun _ _ _ => sound_step) along ran).admissions

def sampleOffer (cap : Int) : Offer := ⟨"peer", some cap, none⟩

/-- A waiting request is cancelled, a third one comes with a higher cap. -/
def sampleActs : List PeerAct :=
  [.call 0 (sampleOffer 1), .call 1 (sampleOffer 1), .strike 0 ⟨1, "peer", 1⟩, .resume 0 ⟨1, "peer", 1⟩,
    .call 2 (sampleOffer 2), .release 0 ⟨0, "peer", 1⟩, .resume 0 ⟨2, "peer", 2⟩]

theorem peer_gate_within_cap_sample : ∃ s, runPeers id 0 sampleActs = some s ∧
    s.admissions = [(⟨0, "peer", 1⟩, 0), (⟨2, "peer", 2⟩, 0)] ∧ ∀ a ∈ s.admissions, a.2 < a.1.cap := by
  have ends : (runPeers id 0 sampleActs).map (·.admissions) =
      some [(⟨0, "peer", 1⟩, 0), (⟨2, "peer", 2⟩, 0)] := by
    decide +kernel
  obtain ⟨s, ran, admissions⟩ := Option.map_eq_some_iff.mp ends
  exact ⟨s, ran, admissions, peer_gate_within_cap (by decide +kernel) ran⟩

/-- The peer lowers its cap from two to one while a request is in flight, and the gate
of the first offer admits a second request. -/
theorem lowered_cap_ignored : ¬ ∀ (lower : String → String) (now : ℚ) (acts : List PeerAct) (s : PeerState),
    runPeers lower now acts = some s → ∀ a ∈ s.admissions, a.2 < a.1.cap := by
  intro h
  have ends : (runPeers id 0 [.call 0 (sampleOffer 2), .call 1 (sampleOffer 1)]).map (·.admissions) =
      some [(⟨0, "peer", 2⟩, 0), (⟨1, "peer", 1⟩, 1)] := by
    decide +kernel
  obtain ⟨s, ran, admissions⟩ := Option.map_eq_some_iff.mp ends
  have within := h id 0 _ s ran (⟨1, "peer", 1⟩, 1) (by rw [admissions]; simp)
  exact absurd within (by decide)

end Run

end Unhardcoded.Guarantees.PeerGates
