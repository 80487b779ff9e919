import Mathlib.Tactic.Linarith
import Unhardcoded.Source.CodexInvites

/-!
# An invite connects one account

A status request looks at the link once, then awaits the poll and the exchange, and marks
the link used only after the reload. Its look excludes what was closed before: a link that
is stored and awaiting has not been revoked, superseded or marked used. So the account is
added as it should be where nothing closes the link between the look and the exchange, and
no other request has added an account at the look without having marked the link. Polls
keep their distance while a device code is new to the store.
-/

namespace Unhardcoded.Guarantees.CodexInvites

open Effects Python Source.CodexInvites

/-- What may come later in the log. -/
def Respects : Event → Event → Prop
  | .added token _, .added other _ => token ≠ other
  | .revoked token, .added other _ => token ≠ other
  | .superseded token, .added other _ => token ≠ other
  | .polled _ _ code time interval, .polled _ _ other now _ => code = other → time + interval ≤ now
  | _, _ => True

/-- The link an event closes. -/
def closes : Event → Option String
  | .added token _ => some token
  | .revoked token => some token
  | .superseded token => some token
  | .polled .. => none
  | .marked _ => none

/-- Since the request was granted its poll nothing has closed the link, and whoever had added
an account for it by then had marked it used. -/
def Undisturbed (s : State) (request : Nat) (token : String) : Prop :=
  ∃ before code time interval after, s.log = before ++ .polled request token code time interval :: after ∧
    (∀ name, .added token name ∈ before → .marked token ∈ before) ∧ ∀ e ∈ after, closes e ≠ some token

/-- A poll of the device code has been granted. -/
def Granted (log : List Event) (code : String) (time : ℚ) (interval : Int) : Prop :=
  ∃ request token, .polled request token code time interval ∈ log

/-- No other link has the device code, and no poll for it has been granted. -/
def NewCode (s : State) (token code : String) : Prop :=
  (∀ other invite, s.invites.lookup other = some invite → invite.deviceAuthId = some code → other = token) ∧
    ∀ time interval, ¬ Granted s.log code time interval

/-- An exchange ends undisturbed, upstream gives a new device code, and no link is marked
used at the epoch. -/
def Careful (s : State) : Action → Prop
  | .exchangeAnswer request (.ok _) => ∀ token invite, s.requests request = some (.exchanging token invite) →
      Undisturbed s request token
  | .deviceAnswer request answer _ => ∀ token device, s.requests request = some (.starting token) →
      deviceUsercodeRequest answer = .ok device → NewCode s token device.deviceAuthId
  | .reloaded _ now => now ≠ 0
  | _ => True

section Effects

variable {s t : State} {a : Action}

/-- What a step can do. -/
inductive Effect (s : State) (a : Action) (t : State) : Prop where
  | idle (invites : t.invites = s.invites) (log : t.log = s.log) (tokens : t.tokens = s.tokens)
  | cleared (token : String) (invites : t.invites = s.invites.mutate token Invite.clearDevice) (log : t.log = s.log)
      (tokens : t.tokens = s.tokens)
  | device (token : String) (device : Device) (now : ℚ) (new : Careful s a → NewCode s token device.deviceAuthId)
      (positive : 1 ≤ device.interval) (invites : t.invites = s.invites.mutate token fun invite => invite.setDevice device now)
      (log : t.log = s.log) (tokens : t.tokens = s.tokens)
  | polled (request : Nat) (token : String) (invite : Invite) (now : ℚ) (found : s.invites.lookup token = some invite)
      (unused : truthy invite.usedAt = false) (named : invite.deviceAuthId.getD "" ≠ "") (due : invite.due now = true)
      (invites : t.invites = s.invites.mutate token fun invite => invite.polled now)
      (log : t.log = s.log ++ [.polled request token (invite.deviceAuthId.getD "") now (invite.interval.getD 5)])
      (tokens : t.tokens = s.tokens)
  | added (token name : String) (request : Nat) (here : Careful s a → Undisturbed s request token)
      (invites : t.invites = s.invites) (log : t.log = s.log ++ [.added token name]) (tokens : t.tokens = s.tokens)
  | used (token : String) (request : Nat) (now : ℚ) (phase : s.requests request = some (.reloading token))
      (real : Careful s a → now ≠ 0) (invites : t.invites = s.invites.mutate token fun invite => invite.markUsed now)
      (log : t.log = s.log ++ [.marked token]) (tokens : t.tokens = s.tokens)
  | created (token slug : String) (now : ℚ) (new : token ∉ s.tokens) (invites : t.invites = s.invites.create token slug now)
      (log : t.log = s.log ++ (s.invites.filter fun entry => entry.2.name = slug).map fun (entry : String × Invite) =>
        .superseded entry.1)
      (tokens : t.tokens = token :: s.tokens)
  | revoked (token : String) (invite : Invite) (found : s.invites.lookup token = some invite)
      (invites : t.invites = s.invites.revoke token) (log : t.log = s.log ++ [.revoked token]) (tokens : t.tokens = s.tokens)

theorem effect_of_start {request : Nat} {token : String} {now : ℚ} : Effect s a (s.onboardStart request token now) := by
  unfold State.onboardStart
  split
  · exact .idle rfl rfl rfl
  · split
    · exact .idle rfl rfl rfl
    · exact .idle rfl rfl rfl
    · exact .idle rfl rfl rfl
    · exact .idle rfl rfl rfl

/-- What the handler's own look at the link excludes. -/
theorem of_awaiting {invite : Invite} {now : ℚ} (h : invite.statusOf now = .awaiting) :
    truthy invite.usedAt = false ∧ invite.deviceAuthId.getD "" ≠ "" := by
  unfold Invite.statusOf at h
  split at h
  · cases h
  · rename_i unused
    split at h
    · cases h
    · split at h
      · rename_i awaits
        exact ⟨by simpa using unused, awaits.1⟩
      · cases h

theorem effect_of_status {request : Nat} {token : String} {now pollNow : ℚ} :
    Effect s a (s.onboardStatus request token now pollNow) := by
  unfold State.onboardStatus
  split
  · exact .idle rfl rfl rfl
  · rename_i invite found
    split
    · exact .idle rfl rfl rfl
    · exact .idle rfl rfl rfl
    · split
      · exact .cleared token rfl rfl rfl
      · exact .idle rfl rfl rfl
    · rename_i awaits
      split
      · rename_i due
        obtain ⟨unused, named⟩ := of_awaiting awaits
        exact .polled request token invite pollNow found unused named due rfl rfl rfl
      · exact .idle rfl rfl rfl

theorem positive_of_ok {answer : Answer Device} {device : Device} (h : deviceUsercodeRequest answer = .ok device) :
    1 ≤ device.interval := by
  cases answer with
  | ok data =>
    simp only [deviceUsercodeRequest] at h
    split at h
    · cases h
    · obtain rfl := Answer.ok.inj h
      exact le_max_left 1 data.interval
  | deviceAuthError => cases h
  | raises => cases h

theorem effect_of_step (h : step s a = some t) : Effect s a t := by
  cases a with
  | create token slug now =>
    simp only [step, State.createInvite, Option.ite_none_left_eq_some, Option.some.injEq] at h
    obtain ⟨new, rfl⟩ := h
    exact .created token slug now new rfl rfl rfl
  | revoke token =>
    obtain rfl := Option.some.inj h
    unfold State.revokeInvite
    split
    · rename_i invite found
      exact .revoked token invite found rfl rfl rfl
    · exact .idle rfl rfl rfl
  | startRequest request token now =>
    simp only [step] at h
    split at h
    · cases h
    · obtain rfl := Option.some.inj h
      exact effect_of_start
  | deviceAnswer request answer now =>
    simp only [step] at h
    split at h
    · rename_i token phase
      split at h
      · rename_i device answered
        obtain rfl := Option.some.inj h
        refine .device token device now (fun careful => ?_) (positive_of_ok answered) rfl rfl rfl
        exact careful token device phase answered
      · obtain rfl := Option.some.inj h
        exact .idle rfl rfl rfl
      · obtain rfl := Option.some.inj h
        exact .idle rfl rfl rfl
    · cases h
  | statusRequest request token now pollNow =>
    simp only [step] at h
    split at h
    · cases h
    · obtain rfl := Option.some.inj h
      exact effect_of_status
  | pollAnswer request answer =>
    simp only [step] at h
    split at h
    · rename_i token invite phase
      split at h
      · obtain rfl := Option.some.inj h
        exact .idle rfl rfl rfl
      · obtain rfl := Option.some.inj h
        exact .cleared token rfl rfl rfl
      · obtain rfl := Option.some.inj h
        exact .idle rfl rfl rfl
    · cases h
  | exchangeAnswer request answer =>
    simp only [step] at h
    split at h
    · rename_i token invite phase
      split at h
      · obtain rfl := Option.some.inj h
        exact .added token invite.name request (fun careful => careful token invite phase) rfl rfl rfl
      · obtain rfl := Option.some.inj h
        exact .cleared token rfl rfl rfl
      · obtain rfl := Option.some.inj h
        exact .idle rfl rfl rfl
    · cases h
  | reloaded request now =>
    simp only [step] at h
    split at h
    · rename_i token phase
      obtain rfl := Option.some.inj h
      exact .used token request now phase id rfl rfl rfl
    · cases h

/-- A request goes on with its link, or has just found it in the store. -/
def Traced (s : State) (request : Nat) (phase : Phase) : Prop :=
  (∃ before, s.requests request = some before ∧ before.token = phase.token) ∨
    ∃ invite, s.invites.lookup phase.token = some invite

theorem traced_of_step (h : step s a = some t) {request : Nat} {phase : Phase} (here : t.requests request = some phase) :
    Traced s request phase := by
  -- the step moves one request, to a phase of the same link
  have moves : ∀ other next, (if request = other then next else s.requests request) = some phase →
      (∀ phase', next = some phase' → Traced s other phase') → Traced s request phase := by
    intro other next moved source
    split at moved
    · rename_i own
      rw [own]
      exact source phase moved
    · exact .inl ⟨phase, moved, rfl⟩
  have ends : ∀ other, (if request = other then none else s.requests request) = some phase → Traced s request phase :=
    fun other moved => moves other none moved fun _ h => absurd h (Option.some_ne_none _).symm
  cases a with
  | create token slug now =>
    simp only [step, State.createInvite, Option.ite_none_left_eq_some, Option.some.injEq] at h
    obtain ⟨_, rfl⟩ := h
    exact .inl ⟨phase, here, rfl⟩
  | revoke token =>
    obtain rfl := Option.some.inj h
    unfold State.revokeInvite at here
    split at here
    · exact .inl ⟨phase, here, rfl⟩
    · exact .inl ⟨phase, here, rfl⟩
  | startRequest other token now =>
    simp only [step] at h
    split at h
    · cases h
    obtain rfl := Option.some.inj h
    unfold State.onboardStart at here
    split at here
    · exact .inl ⟨phase, here, rfl⟩
    · rename_i invite found
      have starts : ∀ phase', some (Phase.starting token) = some phase' → Traced s other phase' := by
        rintro phase' ⟨⟩
        exact .inr ⟨invite, found⟩
      split at here
      · exact .inl ⟨phase, here, rfl⟩
      · exact .inl ⟨phase, here, rfl⟩
      · exact moves other _ here starts
      · exact moves other _ here starts
  | deviceAnswer other answer now =>
    simp only [step] at h
    split at h
    · rename_i token own
      split at h
      · rename_i device answered
        obtain rfl := Option.some.inj h
        exact ends other here
      · obtain rfl := Option.some.inj h
        exact ends other here
      · obtain rfl := Option.some.inj h
        exact ends other here
    · cases h
  | statusRequest other token now pollNow =>
    simp only [step] at h
    split at h
    · cases h
    obtain rfl := Option.some.inj h
    unfold State.onboardStatus at here
    split at here
    · exact .inl ⟨phase, here, rfl⟩
    · rename_i invite found
      split at here
      · exact .inl ⟨phase, here, rfl⟩
      · exact .inl ⟨phase, here, rfl⟩
      · split at here
        · exact .inl ⟨phase, here, rfl⟩
        · exact .inl ⟨phase, here, rfl⟩
      · split at here
        · refine moves other _ here ?_
          rintro phase' ⟨⟩
          exact .inr ⟨invite, found⟩
        · exact .inl ⟨phase, here, rfl⟩
  | pollAnswer other answer =>
    simp only [step] at h
    split at h
    · rename_i token invite own
      split at h
      · rename_i approved
        obtain rfl := Option.some.inj h
        refine moves other _ here fun phase' isPhase => .inl ⟨_, own, ?_⟩
        cases approved with
        | true =>
          cases isPhase
          rfl
        | false => cases isPhase
      · obtain rfl := Option.some.inj h
        exact ends other here
      · obtain rfl := Option.some.inj h
        exact ends other here
    · cases h
  | exchangeAnswer other answer =>
    simp only [step] at h
    split at h
    · rename_i token invite own
      split at h
      · obtain rfl := Option.some.inj h
        refine moves other _ here ?_
        rintro phase' ⟨⟩
        exact .inl ⟨_, own, rfl⟩
      · obtain rfl := Option.some.inj h
        exact ends other here
      · obtain rfl := Option.some.inj h
        exact ends other here
    · cases h
  | reloaded other now =>
    simp only [step] at h
    split at h
    · rename_i token own
      obtain rfl := Option.some.inj h
      exact ends other here
    · cases h

end Effects

section Links

variable {s t : State} {a : Action} {token other : String} {invite : Invite}

theorem lookup_mutate (invites : Invites) (fn : Invite → Invite) :
    (invites.mutate token fn).lookup other = if other = token then (invites.lookup token).map fn else invites.lookup other := by
  unfold Invites.mutate
  cases found : invites.lookup token with
  | some invite =>
    rw [lookup_insert]
    rfl
  | none =>
    by_cases same : other = token
    · rw [if_pos same, same, found]
      rfl
    · rw [if_neg same]

/-- What a stored link was before a mutation. -/
theorem lookup_of_mutate {invites : Invites} {fn : Invite → Invite} (found : (invites.mutate token fn).lookup other = some invite) :
    (other = token ∧ ∃ before, invites.lookup token = some before ∧ invite = fn before) ∨
      (other ≠ token ∧ invites.lookup other = some invite) := by
  rw [lookup_mutate] at found
  split at found
  · rename_i same
    obtain ⟨before, stored, rfl⟩ := Option.map_eq_some_iff.mp found
    exact .inl ⟨same, before, stored, rfl⟩
  · rename_i different
    exact .inr ⟨different, found⟩

theorem nodup_mutate {invites : Invites} (distinct : (invites.map (·.1)).Nodup) (fn : Invite → Invite) :
    ((invites.mutate token fn).map (·.1)).Nodup := by
  unfold Invites.mutate
  split
  · exact nodup_insert distinct _ _
  · exact distinct

/-- A link after `create` is the new one, or was stored and is not superseded. -/
theorem lookup_of_create {invites : Invites} (distinct : (invites.map (·.1)).Nodup) {slug : String} {now : ℚ}
    (found : (invites.create token slug now).lookup other = some invite) :
    (other = token ∧ invite = ⟨slug, now, now + inviteTtlS, none, none, none, none, none, none⟩) ∨
      (invites.lookup other = some invite ∧ superseded slug invite = false) := by
  unfold Invites.create at found
  rw [lookup_insert] at found
  split at found
  · rename_i same
    obtain rfl := Option.some.inj found
    exact .inl ⟨same, rfl⟩
  · obtain ⟨stored, kept⟩ := (lookup_filter distinct).mp found
    exact .inr ⟨stored, by simpa using kept⟩

theorem lookup_of_revoke {invites : Invites} (distinct : (invites.map (·.1)).Nodup)
    (found : (invites.revoke token).lookup other = some invite) : invites.lookup other = some invite ∧ other ≠ token := by
  obtain ⟨stored, kept⟩ := (lookup_filter distinct).mp found
  exact ⟨stored, by simpa using kept⟩

end Links

section Shut

variable {s t : State} {a : Action} {token : String}

/-- The link is gone or used: no look at it ends in a poll. -/
def Shut (s : State) (token : String) : Prop := ∀ invite, s.invites.lookup token = some invite → truthy invite.usedAt = true

/-- The link that an event leaves gone or used. -/
def shuts : Event → Option String
  | .revoked token => some token
  | .superseded token => some token
  | .marked token => some token
  | .added _ _ => none
  | .polled .. => none

theorem shut_of_mutate {name : String} {fn : Invite → Invite} (invites : t.invites = s.invites.mutate name fn)
    (used : ∀ invite, truthy invite.usedAt = true → truthy (fn invite).usedAt = true) (h : Shut s token) : Shut t token := by
  intro invite found
  rw [invites] at found
  rcases lookup_of_mutate found with ⟨rfl, before, stored, rfl⟩ | ⟨_, stored⟩
  · exact used before (h before stored)
  · exact h invite stored

theorem truthy_of_ne {now : ℚ} (h : now ≠ 0) : truthy (some now) = true := decide_eq_true h

/-- No step opens a link again: a new one has a new token. -/
theorem Shut.step (h : Shut s token) (distinct : (s.invites.map (·.1)).Nodup) (old : token ∈ s.tokens)
    (careful : Careful s a) (effect : Effect s a t) : Shut t token := by
  cases effect with
  | idle invites log tokens => exact fun invite found => h invite (invites ▸ found)
  | added name account request here invites log tokens => exact fun invite found => h invite (invites ▸ found)
  | cleared name invites log tokens => exact shut_of_mutate invites (fun _ used => used) h
  | device name device now new positive invites log tokens => exact shut_of_mutate invites (fun _ used => used) h
  | polled request name invite now found unused named due invites log tokens =>
    exact shut_of_mutate invites (fun _ used => used) h
  | used name request now phase real invites log tokens =>
    exact shut_of_mutate invites (fun _ _ => truthy_of_ne (real careful)) h
  | created name slug now new invites log tokens =>
    intro invite found
    rw [invites] at found
    rcases lookup_of_create distinct found with ⟨rfl, _⟩ | ⟨stored, _⟩
    · exact absurd old new
    · exact h invite stored
  | revoked name invite' found' invites log tokens =>
    intro invite found
    rw [invites] at found
    exact h invite (lookup_of_revoke distinct found).1

/-- The tokens in use, what each event has left of its link, and what each grant found. -/
structure Sound (s : State) : Prop where
  distinct : (s.invites.map (·.1)).Nodup
  stored : ∀ token invite, s.invites.lookup token = some invite → token ∈ s.tokens
  phases : ∀ request phase, s.requests request = some phase → phase.token ∈ s.tokens
  shut : ∀ e ∈ s.log, ∀ token, shuts e = some token → token ∈ s.tokens ∧ Shut s token
  looked : ∀ before request token code time interval after,
    s.log = before ++ .polled request token code time interval :: after → ∀ e ∈ before, shuts e ≠ some token

theorem Effect.tokens_subset (effect : Effect s a t) (old : token ∈ s.tokens) : token ∈ t.tokens := by
  cases effect with
  | created name slug now new invites log tokens => exact tokens ▸ List.mem_cons_of_mem _ old
  | idle invites log tokens => exact tokens ▸ old
  | cleared name invites log tokens => exact tokens ▸ old
  | device name device now new positive invites log tokens => exact tokens ▸ old
  | polled request name invite now found unused named due invites log tokens => exact tokens ▸ old
  | added name account request here invites log tokens => exact tokens ▸ old
  | used name request now phase real invites log tokens => exact tokens ▸ old
  | revoked name invite found invites log tokens => exact tokens ▸ old

/-- A link after a step was there before, or is created by it. -/
theorem Effect.stored_before (distinct : (s.invites.map (·.1)).Nodup) (effect : Effect s a t) {invite : Invite}
    (found : t.invites.lookup token = some invite) : (∃ before, s.invites.lookup token = some before) ∨ token ∈ t.tokens := by
  have mutated : ∀ name fn, t.invites = s.invites.mutate name fn → ∃ before, s.invites.lookup token = some before := by
    intro name fn invites
    rw [invites] at found
    rcases lookup_of_mutate found with ⟨rfl, before, stored, _⟩ | ⟨_, stored⟩
    · exact ⟨before, stored⟩
    · exact ⟨invite, stored⟩
  cases effect with
  | idle invites log tokens => exact .inl ⟨invite, invites ▸ found⟩
  | added name account request here invites log tokens => exact .inl ⟨invite, invites ▸ found⟩
  | cleared name invites log tokens => exact .inl (mutated _ _ invites)
  | device name device now new positive invites log tokens => exact .inl (mutated _ _ invites)
  | polled request name invite now found unused named due invites log tokens => exact .inl (mutated _ _ invites)
  | used name request now phase real invites log tokens => exact .inl (mutated _ _ invites)
  | created name slug now new invites log tokens =>
    rw [invites] at found
    rcases lookup_of_create distinct found with ⟨rfl, _⟩ | ⟨stored, _⟩
    · exact .inr (tokens ▸ List.mem_cons_self)
    · exact .inl ⟨invite, stored⟩
  | revoked name invite' found' invites log tokens =>
    rw [invites] at found
    exact .inl ⟨invite, (lookup_of_revoke distinct found).1⟩

theorem Effect.distinct (distinct : (s.invites.map (·.1)).Nodup) (effect : Effect s a t) : (t.invites.map (·.1)).Nodup := by
  cases effect with
  | idle invites log tokens => exact invites ▸ distinct
  | added name account request here invites log tokens => exact invites ▸ distinct
  | cleared name invites log tokens => exact invites ▸ nodup_mutate distinct _
  | device name device now new positive invites log tokens => exact invites ▸ nodup_mutate distinct _
  | polled request name invite now found unused named due invites log tokens => exact invites ▸ nodup_mutate distinct _
  | used name request now phase real invites log tokens => exact invites ▸ nodup_mutate distinct _
  | created name slug now new invites log tokens => exact invites ▸ nodup_insert (nodup_filter distinct _) _ _
  | revoked name invite found invites log tokens => exact invites ▸ nodup_filter distinct _

/-- The link that a new event shuts is shut after the step. -/
theorem Sound.new (h : Sound s) (careful : Careful s a) (effect : Effect s a t) {e : Event} (logged : e ∈ t.log)
    (new : e ∉ s.log) (shutting : shuts e = some token) : token ∈ s.tokens ∧ Shut t token := by
  cases effect with
  | idle invites log tokens => exact absurd (log ▸ logged) new
  | cleared name invites log tokens => exact absurd (log ▸ logged) new
  | device name device now new' positive invites log tokens => exact absurd (log ▸ logged) new
  | polled request name invite now found unused named due invites log tokens =>
    rw [log, List.mem_append, or_iff_right new, List.mem_singleton] at logged
    subst logged
    cases shutting
  | added name account request here invites log tokens =>
    rw [log, List.mem_append, or_iff_right new, List.mem_singleton] at logged
    subst logged
    cases shutting
  | used name request now phase real invites log tokens =>
    rw [log, List.mem_append, or_iff_right new, List.mem_singleton] at logged
    subst logged
    obtain rfl := Option.some.inj shutting
    refine ⟨h.phases request _ phase, fun invite found => ?_⟩
    rw [invites] at found
    rcases lookup_of_mutate found with ⟨_, before, _, rfl⟩ | ⟨different, _⟩
    · exact truthy_of_ne (real careful)
    · exact absurd rfl different
  | created name slug now fresh invites log tokens =>
    rw [log, List.mem_append, or_iff_right new] at logged
    obtain ⟨entry, within, rfl⟩ := List.mem_map.mp logged
    obtain rfl := Option.some.inj shutting
    obtain ⟨mem, named⟩ := List.mem_filter.mp within
    have stored : s.invites.lookup entry.1 = some entry.2 := lookup_of_mem h.distinct mem
    refine ⟨h.stored _ _ stored, fun invite found => ?_⟩
    rw [invites] at found
    rcases lookup_of_create h.distinct found with ⟨same, _⟩ | ⟨here, kept⟩
    · exact absurd (same ▸ h.stored _ _ stored) fresh
    · -- an unused link of the name is dropped
      obtain rfl := Option.some.inj (stored.symm.trans here)
      have sameName : entry.2.name = slug := by simpa using named
      simpa [superseded, sameName] using kept
  | revoked name invite found invites log tokens =>
    rw [log, List.mem_append, or_iff_right new, List.mem_singleton] at logged
    subst logged
    obtain rfl := Option.some.inj shutting
    refine ⟨h.stored _ _ found, fun invite still => ?_⟩
    rw [invites] at still
    exact absurd rfl (lookup_of_revoke h.distinct still).2

/-- What a step adds to the log: a grant comes alone, and finds its link not shut. -/
theorem Effect.grows (effect : Effect s a t) : ∃ events, t.log = s.log ++ events ∧
    ((∀ request token code time interval, .polled request token code time interval ∉ events) ∨
      ∃ request name code time interval, events = [.polled request name code time interval] ∧ ¬ Shut s name) := by
  cases effect with
  | idle invites log tokens => exact ⟨[], by simp [log], .inl (by simp)⟩
  | cleared name invites log tokens => exact ⟨[], by simp [log], .inl (by simp)⟩
  | device name device now new positive invites log tokens => exact ⟨[], by simp [log], .inl (by simp)⟩
  | added name account request here invites log tokens => exact ⟨_, log, .inl (by simp)⟩
  | used name request now phase real invites log tokens => exact ⟨_, log, .inl (by simp)⟩
  | created name slug now new invites log tokens => exact ⟨_, log, .inl (by simp)⟩
  | revoked name invite found invites log tokens => exact ⟨_, log, .inl (by simp)⟩
  | polled request name invite now found unused named due invites log tokens =>
    refine ⟨_, log, .inr ⟨request, name, _, now, _, rfl, fun shut => ?_⟩⟩
    rw [shut invite found] at unused
    cases unused

theorem Sound.step (h : Sound s) (careful : Careful s a) (stepped : Source.CodexInvites.step s a = some t) : Sound t := by
  have effect := effect_of_step stepped
  refine ⟨effect.distinct h.distinct, fun token invite found => ?_, fun request phase here => ?_,
    fun e logged token shutting => ?_, ?_⟩
  · rcases effect.stored_before h.distinct found with ⟨before, stored⟩ | new
    · exact effect.tokens_subset (h.stored token before stored)
    · exact new
  · rcases traced_of_step stepped here with ⟨before, was, same⟩ | ⟨invite, found⟩
    · exact effect.tokens_subset (same ▸ h.phases request before was)
    · exact effect.tokens_subset (h.stored _ _ found)
  · by_cases old : e ∈ s.log
    · obtain ⟨known, shut⟩ := h.shut e old token shutting
      exact ⟨effect.tokens_subset known, shut.step h.distinct known careful effect⟩
    · obtain ⟨known, shut⟩ := h.new careful effect logged old shutting
      exact ⟨effect.tokens_subset known, shut⟩
  · intro before request token code time interval after split
    obtain ⟨events, log, alone⟩ := effect.grows
    rw [log] at split
    rcases alone with none_ | ⟨request', name, code', time', interval', rfl, open_⟩
    · -- no grant is new
      rcases List.append_eq_append_iff.mp split with ⟨mid, _, tail⟩ | ⟨mid, was, tail⟩
      · exact absurd (tail ▸ List.mem_append_right _ List.mem_cons_self) (none_ request token code time interval)
      · cases mid with
        | nil =>
          rw [List.nil_append] at tail
          exact absurd (tail ▸ List.mem_cons_self) (none_ request token code time interval)
        | cons first mid =>
          obtain ⟨rfl, -⟩ := List.cons.inj tail
          exact h.looked before request token code time interval mid was
    · rcases List.eq_nil_or_concat after with rfl | ⟨after, last, rfl⟩
      · -- the grant is the new one, and what came before it is the old log
        obtain ⟨rfl, same⟩ := List.append_inj' split rfl
        simp only [List.cons.injEq, Event.polled.injEq] at same
        obtain ⟨⟨-, rfl, -⟩, -⟩ := same
        exact fun e logged shutting => open_ (h.shut e logged _ shutting).2
      · rw [List.concat_eq_append, ← List.cons_append, ← List.append_assoc] at split
        exact h.looked before request token code time interval after (List.append_inj' split rfl).1

end Shut

section Polls

variable {s t : State} {a : Action}

/-- A stored link with this device code. -/
def Has (s : State) (token code : String) (invite : Invite) : Prop :=
  s.invites.lookup token = some invite ∧ invite.deviceAuthId = some code

theorem granted_snoc {log : List Event} {e : Event} {code : String} {time : ℚ} {interval : Int} :
    Granted (log ++ [e]) code time interval ↔
      Granted log code time interval ∨ ∃ request token, e = .polled request token code time interval := by
  simp only [Granted, List.mem_append, List.mem_singleton, exists_or]
  simp only [eq_comm]

/-- Every granted poll of a stored device code is no later than its link's last one. -/
structure Codes (s : State) : Prop where
  positive : ∀ token code invite, Has s token code invite → ∃ interval, invite.interval = some interval ∧ 1 ≤ interval
  unique : ∀ token other code invite invite', Has s token code invite → Has s other code invite' → token = other
  polls : ∀ token code invite time interval, Has s token code invite → Granted s.log code time interval →
    invite.interval = some interval ∧ ∃ last, invite.lastPollAt = some last ∧ time ≤ last

/-- A step that gives no link a device code or a poll. -/
theorem Codes.keep (h : Codes s)
    (links : ∀ token code invite, Has t token code invite → ∃ before, Has s token code before ∧
      before.interval = invite.interval ∧ before.lastPollAt = invite.lastPollAt)
    (log : ∀ code time interval, Granted t.log code time interval → Granted s.log code time interval) : Codes t where
  positive token code invite has := by
    obtain ⟨before, had, interval, _⟩ := links token code invite has
    rw [← interval]
    exact h.positive token code before had
  unique token other code invite invite' has has' := by
    obtain ⟨before, had, _⟩ := links token code invite has
    obtain ⟨before', had', _⟩ := links other code invite' has'
    exact h.unique token other code before before' had had'
  polls token code invite time interval has logged := by
    obtain ⟨before, had, sameInterval, sameLast⟩ := links token code invite has
    rw [← sameInterval, ← sameLast]
    exact h.polls token code before time interval had (log code time interval logged)

theorem has_of_mutate {name token code : String} {fn : Invite → Invite} {invite : Invite}
    (invites : t.invites = s.invites.mutate name fn) (has : Has t token code invite) :
    (token = name ∧ ∃ before, s.invites.lookup name = some before ∧ invite = fn before) ∨ (token ≠ name ∧ Has s token code invite) := by
  obtain ⟨found, coded⟩ := has
  rw [invites] at found
  rcases lookup_of_mutate found with here | ⟨different, stored⟩
  · exact .inl here
  · exact .inr ⟨different, stored, coded⟩

theorem Codes.device (h : Codes s) {name : String} {device : Device} {now : ℚ} (new : NewCode s name device.deviceAuthId)
    (positive : 1 ≤ device.interval) (invites : t.invites = s.invites.mutate name fun invite => invite.setDevice device now)
    (log : t.log = s.log) : Codes t where
  positive token code invite has := by
    rcases has_of_mutate invites has with ⟨_, before, _, rfl⟩ | ⟨_, had⟩
    · exact ⟨device.interval, rfl, positive⟩
    · exact h.positive token code invite had
  unique token other code invite invite' has has' := by
    rcases has_of_mutate invites has with ⟨rfl, before, _, rfl⟩ | ⟨_, had⟩
    · rcases has_of_mutate invites has' with ⟨same, _⟩ | ⟨_, found, coded⟩
      · exact same.symm
      · obtain rfl := Option.some.inj has.2
        exact (new.1 other invite' found coded).symm
    · rcases has_of_mutate invites has' with ⟨rfl, before, _, rfl⟩ | ⟨_, had'⟩
      · obtain rfl := Option.some.inj has'.2
        exact new.1 token invite had.1 had.2
      · exact h.unique token other code invite invite' had had'
  polls token code invite time interval has logged := by
    rw [log] at logged
    rcases has_of_mutate invites has with ⟨_, before, _, rfl⟩ | ⟨_, had⟩
    · obtain rfl := Option.some.inj has.2
      exact absurd logged (new.2 time interval)
    · exact h.polls token code invite time interval had logged

/-- The device code of a link that awaits its poll. -/
theorem coded_of_named {invite : Invite} (named : invite.deviceAuthId.getD "" ≠ "") :
    invite.deviceAuthId = some (invite.deviceAuthId.getD "") := by
  cases coded : invite.deviceAuthId with
  | none => simp [coded] at named
  | some code => rfl

/-- A granted poll is the interval after every earlier one of its device code. -/
theorem Codes.spaced (h : Codes s) {name code : String} {invite : Invite} {now time : ℚ} {interval : Int}
    (has : Has s name code invite) (due : invite.due now = true) (logged : Granted s.log code time interval) :
    time + interval ≤ now := by
  obtain ⟨same, last, polled, before⟩ := h.polls name code invite time interval has logged
  have waited : (interval : ℚ) ≤ now - last := by
    simpa [Invite.due, polled, same] using due
  linarith

theorem Codes.poll (h : Codes s) {request : Nat} {name : String} {invite : Invite} {now : ℚ} (found : s.invites.lookup name = some invite)
    (named : invite.deviceAuthId.getD "" ≠ "") (due : invite.due now = true)
    (invites : t.invites = s.invites.mutate name fun invite => invite.polled now)
    (log : t.log = s.log ++ [.polled request name (invite.deviceAuthId.getD "") now (invite.interval.getD 5)]) : Codes t where
  positive token code after has := by
    rcases has_of_mutate invites has with ⟨rfl, before, stored, rfl⟩ | ⟨_, had⟩
    · exact h.positive token code before ⟨stored, has.2⟩
    · exact h.positive token code after had
  unique token other code after after' has has' := by
    have coded : ∀ token after, Has t token code after → ∃ before, Has s token code before := by
      intro token after has
      rcases has_of_mutate invites has with ⟨rfl, before, stored, rfl⟩ | ⟨_, had⟩
      · exact ⟨before, stored, has.2⟩
      · exact ⟨after, had⟩
    obtain ⟨before, had⟩ := coded token after has
    obtain ⟨before', had'⟩ := coded other after' has'
    exact h.unique token other code before before' had had'
  polls token code after time interval has logged := by
    have own : Has s name (invite.deviceAuthId.getD "") invite := ⟨found, coded_of_named named⟩
    obtain ⟨stored, counted, atLeast⟩ := h.positive _ _ _ own
    rw [log, granted_snoc] at logged
    rcases has_of_mutate invites has with ⟨rfl, before, here, rfl⟩ | ⟨different, had⟩
    · obtain rfl := Option.some.inj (found.symm.trans here)
      have coded : invite.deviceAuthId = some code := has.2
      rcases logged with old | ⟨_, _, new⟩
      · obtain ⟨same, last, _, _⟩ := h.polls token code invite time interval ⟨found, coded⟩ old
        have gap := h.spaced ⟨found, coded⟩ due old
        have positive : (1 : ℚ) ≤ interval := by
          rw [counted] at same
          obtain rfl := Option.some.inj same
          exact_mod_cast atLeast
        exact ⟨same, now, rfl, by linarith⟩
      · simp only [Event.polled.injEq] at new
        obtain ⟨_, _, _, rfl, rfl⟩ := new
        refine ⟨?_, now, rfl, le_refl _⟩
        change invite.interval = _
        rw [counted, Option.getD_some]
    · rcases logged with old | ⟨_, _, new⟩
      · exact h.polls token code after time interval had old
      · simp only [Event.polled.injEq] at new
        obtain ⟨_, _, rfl, _⟩ := new
        exact absurd (h.unique _ _ _ _ _ had own) different

theorem Codes.step (h : Codes s) (distinct : (s.invites.map (·.1)).Nodup) (careful : Careful s a) (effect : Effect s a t) :
    Codes t := by
  have same : t.invites = s.invites → ∀ token code invite, Has t token code invite → ∃ before, Has s token code before ∧
      before.interval = invite.interval ∧ before.lastPollAt = invite.lastPollAt := by
    intro invites token code invite has
    exact ⟨invite, ⟨invites ▸ has.1, has.2⟩, rfl, rfl⟩
  cases effect with
  | idle invites log tokens =>
    exact h.keep (same invites) fun _ _ _ logged => log ▸ logged
  | cleared name invites log tokens =>
    refine h.keep (fun token code invite has => ?_) fun _ _ _ logged => log ▸ logged
    rcases has_of_mutate invites has with ⟨_, before, _, rfl⟩ | ⟨_, had⟩
    · cases has.2
    · exact ⟨invite, had, rfl, rfl⟩
  | device name device now new positive invites log tokens => exact h.device (new careful) positive invites log
  | polled request name invite now found unused named due invites log tokens => exact h.poll found named due invites log
  | added name account request here invites log tokens =>
    refine h.keep (same invites) fun code time interval logged => ?_
    simpa [log, granted_snoc] using logged
  | used name request now phase real invites log tokens =>
    refine h.keep (fun token code invite has => ?_) fun code time interval logged => ?_
    · rcases has_of_mutate invites has with ⟨rfl, before, stored, rfl⟩ | ⟨_, had⟩
      · exact ⟨before, ⟨stored, has.2⟩, rfl, rfl⟩
      · exact ⟨invite, had, rfl, rfl⟩
    · simpa [log, granted_snoc] using logged
  | created name slug now new invites log tokens =>
    refine h.keep (fun token code invite has => ?_) fun code time interval logged => ?_
    · obtain ⟨found, coded⟩ := has
      rw [invites] at found
      rcases lookup_of_create distinct found with ⟨_, rfl⟩ | ⟨stored, _⟩
      · cases coded
      · exact ⟨invite, ⟨stored, coded⟩, rfl, rfl⟩
    · simpa [log, Granted] using logged
  | revoked name invite found invites log tokens =>
    refine h.keep (fun token code invite has => ?_) fun code time interval logged => ?_
    · obtain ⟨found, coded⟩ := has
      rw [invites] at found
      exact ⟨invite, ⟨(lookup_of_revoke distinct found).1, coded⟩, rfl, rfl⟩
    · simpa [log, granted_snoc] using logged

end Polls

section Runs

variable {s t : State} {a : Action}

/-- An added account or a granted poll is the only event that anything earlier can forbid. -/
theorem respects_of_quiet {e f : Event} (unadded : ∀ token name, f ≠ .added token name)
    (unpolled : ∀ request token code time interval, f ≠ .polled request token code time interval) : Respects e f := by
  cases f with
  | added token name => exact absurd rfl (unadded token name)
  | polled request token code time interval => exact absurd rfl (unpolled request token code time interval)
  | revoked token => cases e <;> trivial
  | superseded token => cases e <;> trivial
  | marked token => cases e <;> trivial

/-- An undisturbed exchange finds its link not closed: what closed it before its look, the look has seen. -/
theorem Sound.unclosed (sound : Sound s) {request : Nat} {token : String} (undisturbed : Undisturbed s request token)
    {e : Event} (logged : e ∈ s.log) : closes e ≠ some token := by
  obtain ⟨before, code, time, interval, after, split, marked, quiet⟩ := undisturbed
  have looked := sound.looked before request token code time interval after split
  intro closing
  rw [split] at logged
  rcases List.mem_append.mp logged with old | new
  · cases e with
    | added link name =>
      obtain rfl := Option.some.inj closing
      exact looked _ (marked name old) rfl
    | revoked link => exact looked _ old closing
    | superseded link => exact looked _ old closing
    | polled request link code time interval => cases closing
    | marked link => cases closing
  · rcases List.mem_cons.mp new with rfl | later
    · cases closing
    · exact quiet e later closing

theorem respected_step (sound : Sound s) (codes : Codes s) (h : s.log.Pairwise Respects) (careful : Careful s a)
    (effect : Effect s a t) : t.log.Pairwise Respects := by
  cases effect with
  | idle invites log tokens => exact log ▸ h
  | cleared name invites log tokens => exact log ▸ h
  | device name device now new positive invites log tokens => exact log ▸ h
  | used name request now phase real invites log tokens =>
    rw [log]
    refine List.pairwise_append.mpr ⟨h, List.pairwise_singleton _ _, fun e old f new => ?_⟩
    rw [List.mem_singleton] at new
    subst new
    exact respects_of_quiet (by simp) (by simp)
  | polled request name invite now found unused named due invites log tokens =>
    rw [log]
    refine List.pairwise_append.mpr ⟨h, List.pairwise_singleton _ _, fun e old f new => ?_⟩
    rw [List.mem_singleton] at new
    subst new
    cases e with
    | polled request' token code time interval =>
      rintro rfl
      exact codes.spaced ⟨found, coded_of_named named⟩ due ⟨request', token, old⟩
    | added token account => trivial
    | revoked token => trivial
    | superseded token => trivial
    | marked token => trivial
  | added name account request here invites log tokens =>
    rw [log]
    refine List.pairwise_append.mpr ⟨h, List.pairwise_singleton _ _, fun e old f new => ?_⟩
    rw [List.mem_singleton] at new
    subst new
    have apart : ∀ token, closes e = some token → token ≠ name := by
      rintro token closing rfl
      exact sound.unclosed (here careful) old closing
    cases e with
    | added token account => exact apart token rfl
    | revoked token => exact apart token rfl
    | superseded token => exact apart token rfl
    | polled request token code time interval => trivial
    | marked token => trivial
  | created name slug now new invites log tokens =>
    rw [log]
    refine List.pairwise_append.mpr ⟨h, ?_, fun e old f new => ?_⟩
    · refine List.pairwise_map.mpr (List.pairwise_of_forall fun entry other => ?_)
      exact respects_of_quiet (by simp) (by simp)
    · obtain ⟨entry, _, rfl⟩ := List.mem_map.mp new
      exact respects_of_quiet (by simp) (by simp)
  | revoked name invite found invites log tokens =>
    rw [log]
    refine List.pairwise_append.mpr ⟨h, List.pairwise_singleton _ _, fun e old f new => ?_⟩
    rw [List.mem_singleton] at new
    subst new
    exact respects_of_quiet (by simp) (by simp)

/-- One account for each link, none for a closed one, polls at their interval. -/
theorem invite_single_use {acts : List Action} {s : State} (careful : Machine.Along step Careful .start acts)
    (ran : runInvites acts = some s) : s.log.Pairwise Respects := by
  have all : Sound s ∧ Codes s ∧ s.log.Pairwise Respects := by
    apply Machine.run_along (I := fun s => Sound s ∧ Codes s ∧ s.log.Pairwise Respects) _ _ careful ran
    · refine ⟨⟨List.nodup_nil, ?_, ?_, ?_, ?_⟩, ⟨?_, ?_, ?_⟩, List.Pairwise.nil⟩ <;> simp [State.start, Has]
    · rintro s a t ⟨sound, codes, respected⟩ here stepped
      have effect := effect_of_step stepped
      exact ⟨sound.step here stepped, codes.step sound.distinct here effect, respected_step sound codes respected here effect⟩
  exact all.2.2

/-- A link created, opened, polled at its interval and connected. -/
def connect : List Action :=
  [.create "token" "team-1" 100, .startRequest 0 "token" 110, .deviceAnswer 0 (.ok ⟨"device", "ABCD", 5⟩) 111,
    .statusRequest 1 "token" 112 112, .pollAnswer 1 (.ok false), .statusRequest 2 "token" 114 114,
    .statusRequest 3 "token" 117 117, .pollAnswer 3 (.ok true), .exchangeAnswer 3 (.ok ()), .reloaded 3 118, .revoke "token"]

theorem newCode_connect {s : State} (ran : Machine.run step .start (connect.take 2) = some s) : NewCode s "token" "device" := by
  have clean : (Machine.run step .start (connect.take 2)).map (fun s =>
      (s.invites.all fun entry => entry.2.deviceAuthId.isNone, s.log)) = some (true, []) := by decide +kernel
  rw [ran, Option.map_some, Option.some.injEq, Prod.mk.injEq] at clean
  constructor
  · intro other invite found coded
    have uncoded := List.all_eq_true.mp clean.1 _ (mem_of_lookup found)
    rw [coded] at uncoded
    cases uncoded
  · simp [Granted, clean.2]

/-- The second grant finds no account added, and nothing follows it. -/
theorem undisturbed_connect {s : State} (ran : Machine.run step .start (connect.take 8) = some s) :
    Undisturbed s 3 "token" := by
  have log : (Machine.run step .start (connect.take 8)).map (·.log) =
      some [.polled 1 "token" "device" 112 5, .polled 3 "token" "device" 117 5] := by decide +kernel
  rw [ran, Option.map_some, Option.some.injEq] at log
  exact ⟨[.polled 1 "token" "device" 112 5], "device", 117, 5, [], log, by simp, List.forall_mem_nil _⟩

theorem careful_connect : Machine.Along step Careful .start connect := by
  have started : Machine.Along step Careful .start (connect.take 2) := ⟨trivial, fun _ _ => ⟨trivial, fun _ _ => trivial⟩⟩
  have coded : Machine.Along step Careful .start (connect.take 3) := by
    refine Machine.along_of_concat started fun s ran token device phase answered => ?_
    have names : (Machine.run step .start (connect.take 2)).map (·.requests 0) = some (some (.starting "token")) := by
      decide +kernel
    rw [ran, Option.map_some, phase] at names
    cases names
    cases answered
    exact newCode_connect ran
  have polled : Machine.Along step Careful .start (connect.take 8) :=
    Machine.along_of_append coded fun _ _ =>
      ⟨trivial, fun _ _ => ⟨trivial, fun _ _ => ⟨trivial, fun _ _ => ⟨trivial, fun _ _ => ⟨trivial, fun _ _ => trivial⟩⟩⟩⟩⟩
  refine Machine.along_of_append polled fun s ran => ⟨fun token invite phase => ?_, fun _ _ =>
    ⟨by norm_num [Careful], fun _ _ => ⟨trivial, fun _ _ => trivial⟩⟩⟩
  have names : (Machine.run step .start (connect.take 8)).map (fun s => (s.requests 3).map fun phase => phase.token) =
      some (some "token") := by decide +kernel
  rw [ran, Option.map_some, phase] at names
  cases names
  exact undisturbed_connect ran

theorem invite_single_use_connect : ∃ s, runInvites connect = some s ∧ s.log.Pairwise Respects := by
  have ends : ((runInvites connect).map (·.log)).isSome = true := by decide +kernel
  obtain ⟨log, found⟩ := Option.isSome_iff_exists.mp ends
  obtain ⟨s, ran, _⟩ := Option.map_eq_some_iff.mp found
  exact ⟨s, ran, invite_single_use careful_connect ran⟩

/-- Two status requests poll at their interval, both exchanges succeed; the link is revoked in between. -/
def reconnect : List Action :=
  [.create "token" "team-1" 100, .startRequest 0 "token" 110, .deviceAnswer 0 (.ok ⟨"device", "ABCD", 5⟩) 111,
    .statusRequest 1 "token" 112 112, .statusRequest 2 "token" 117 117, .pollAnswer 1 (.ok true), .pollAnswer 2 (.ok true),
    .exchangeAnswer 1 (.ok ()), .reloaded 1 118, .revoke "token", .exchangeAnswer 2 (.ok ())]

theorem invite_reused : ¬ ∀ acts s, runInvites acts = some s → s.log.Pairwise Respects := by
  intro single
  have ends : (runInvites reconnect).map (·.log) = some [.polled 1 "token" "device" 112 5,
      .polled 2 "token" "device" 117 5, .added "token" "team-1", .marked "token", .revoked "token",
      .added "token" "team-1"] := by decide +kernel
  obtain ⟨s, ran, log⟩ := Option.map_eq_some_iff.mp ends
  have respected := single reconnect s ran
  rw [log] at respected
  simp [Respects] at respected

end Runs

end Unhardcoded.Guarantees.CodexInvites
