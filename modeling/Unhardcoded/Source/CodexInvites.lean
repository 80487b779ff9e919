import Mathlib.Data.Rat.Defs
import Unhardcoded.Effects.Machine
import Unhardcoded.Python.Dict

/-!
# Invites to connect a Codex account

`CodexInviteStore` of codex_invites.py under the handlers of auth_proxy.py that use it:
`codex_onboard_start` and `codex_onboard_status`, cut at their awaits, and the dashboard's
create and revoke. Between two awaits a handler has the event loop for itself, so each part
of one is a step, with the clock readings it makes. Responses and the log lines are left
out, and so is the page, which only reads. Names are slugs of `_safe_account_name`.
-/

namespace Unhardcoded.Source.CodexInvites

open Effects Python

section Store

def inviteTtlS : ℚ := 24 * 3600

def deviceCodeTtlS : ℚ := 15 * 60

structure Invite where
  name : String
  createdAt : ℚ
  expiresAt : ℚ
  usedAt : Option ℚ
  deviceAuthId : Option String
  userCode : Option String
  interval : Option Int
  deviceStartedAt : Option ℚ
  lastPollAt : Option ℚ
  deriving DecidableEq

/-- `bool(invite.get("used_at"))`, and the like. -/
def truthy (time : Option ℚ) : Bool := time.getD 0 ≠ 0

inductive Status where
  | used
  | expired
  | awaiting
  | pending
  deriving DecidableEq

def Invite.statusOf (invite : Invite) (now : ℚ) : Status :=
  if truthy invite.usedAt then .used
  else if invite.expiresAt < now then .expired
  else if invite.deviceAuthId.getD "" ≠ "" ∧ truthy invite.deviceStartedAt ∧ now - invite.deviceStartedAt.getD 0 ≤ deviceCodeTtlS then
    .awaiting
  else .pending

structure Device where
  deviceAuthId : String
  userCode : String
  interval : Int

abbrev Invites := List (String × Invite)

def Invites.mutate (invites : Invites) (token : String) (fn : Invite → Invite) : Invites :=
  match invites.lookup token with
  | some invite => insert token (fn invite) invites
  | none => invites

/-- The unused links of the name, which `create` drops. -/
def superseded (slug : String) (invite : Invite) : Bool := invite.name = slug && !truthy invite.usedAt

def Invites.create (invites : Invites) (token slug : String) (now : ℚ) : Invites :=
  insert token ⟨slug, now, now + inviteTtlS, none, none, none, none, none, none⟩
    (invites.filter fun entry => !superseded slug entry.2)

def Invites.revoke (invites : Invites) (token : String) : Invites := invites.filter fun entry => entry.1 ≠ token

def Invite.setDevice (invite : Invite) (device : Device) (now : ℚ) : Invite :=
  { invite with
    deviceAuthId := some device.deviceAuthId
    userCode := some device.userCode
    interval := some device.interval
    deviceStartedAt := some now
    lastPollAt := none }

def Invite.clearDevice (invite : Invite) : Invite :=
  { invite with deviceAuthId := none, userCode := none, interval := none, deviceStartedAt := none, lastPollAt := none }

def Invite.markUsed (invite : Invite) (now : ℚ) : Invite := { invite with usedAt := some now }

/-- Whether `due_for_poll` grants a poll. -/
def Invite.due (invite : Invite) (now : ℚ) : Bool := invite.lastPollAt.all fun last => invite.interval.getD 5 ≤ now - last

def Invite.polled (invite : Invite) (now : ℚ) : Invite := { invite with lastPollAt := some now }

end Store

section Handlers

/-- What a request awaits; an invite is the one it has read. -/
inductive Phase where
  /-- `device_usercode_request` -/
  | starting (token : String)
  /-- `device_token_poll` -/
  | polling (token : String) (invite : Invite)
  /-- `device_code_exchange` -/
  | exchanging (token : String) (invite : Invite)
  /-- `_reload_codex_router` -/
  | reloading (token : String)
  deriving DecidableEq

def Phase.token : Phase → String
  | .starting token => token
  | .polling token _ => token
  | .exchanging token _ => token
  | .reloading token => token

/-- How a call upstream ends. -/
inductive Answer (α : Type) where
  | ok (value : α)
  | deviceAuthError
  /-- Another exception, which leaves the handler. -/
  | raises

/-- The result of `device_usercode_request`, from the fields of the answer. -/
def deviceUsercodeRequest : Answer Device → Answer Device
  | .ok data =>
    if data.deviceAuthId = "" ∨ data.userCode = "" then .deviceAuthError
    else .ok { data with interval := max 1 data.interval }
  | .deviceAuthError => .deviceAuthError
  | .raises => .raises

inductive Event where
  | added (token name : String)
  | revoked (token : String)
  /-- A link of the same name has been created. -/
  | superseded (token : String)
  /-- A status request of the link has been granted a poll. -/
  | polled (request : Nat) (token deviceAuthId : String) (now : ℚ) (interval : Int)
  /-- `mark_used` has returned. -/
  | marked (token : String)
  deriving DecidableEq

structure State where
  invites : Invites
  requests : Nat → Option Phase
  /-- The tokens of all links. -/
  tokens : List String
  log : List Event

def State.start : State := ⟨[], fun _ => none, [], []⟩

inductive Action where
  | create (token slug : String) (now : ℚ)
  | revoke (token : String)
  | startRequest (request : Nat) (token : String) (now : ℚ)
  | deviceAnswer (request : Nat) (answer : Answer Device) (now : ℚ)
  /-- `due_for_poll` reads the clock once more. -/
  | statusRequest (request : Nat) (token : String) (now pollNow : ℚ)
  /-- `None` while the user has not approved. -/
  | pollAnswer (request : Nat) (answer : Answer Bool)
  | exchangeAnswer (request : Nat) (answer : Answer Unit)
  | reloaded (request : Nat) (now : ℚ)

namespace State

def put (s : State) (request : Nat) (phase : Option Phase) : State :=
  { s with requests := fun other => if other = request then phase else s.requests other }

def mutate (s : State) (token : String) (fn : Invite → Invite) : State := { s with invites := s.invites.mutate token fn }

def record (s : State) (events : List Event) : State := { s with log := s.log ++ events }

/-- `dashboard_create_codex_invite`; `secrets.token_urlsafe` gives no token twice. -/
def createInvite (s : State) (token slug : String) (now : ℚ) : Option State :=
  if token ∈ s.tokens then none
  else
    let older := s.invites.filter fun entry => entry.2.name = slug
    some ({ s with invites := s.invites.create token slug now, tokens := token :: s.tokens }.record
      (older.map fun (entry : String × Invite) => .superseded entry.1))

/-- `dashboard_revoke_codex_invite` -/
def revokeInvite (s : State) (token : String) : State :=
  match s.invites.lookup token with
  | some _ => { s with invites := s.invites.revoke token }.record [.revoked token]
  | none => s

def onboardStart (s : State) (request : Nat) (token : String) (now : ℚ) : State :=
  match s.invites.lookup token with
  | none => s
  | some invite =>
    match invite.statusOf now with
    | .expired => s
    | .used => s
    | .awaiting => s.put request (some (.starting token))
    | .pending => s.put request (some (.starting token))

def onboardStatus (s : State) (request : Nat) (token : String) (now pollNow : ℚ) : State :=
  match s.invites.lookup token with
  | none => s
  | some invite =>
    match invite.statusOf now with
    | .expired => s
    | .used => s
    | .pending => if invite.deviceAuthId.getD "" ≠ "" then s.mutate token Invite.clearDevice else s
    | .awaiting =>
      if invite.due pollNow then
        ((s.mutate token fun invite => invite.polled pollNow).put request (some (.polling token invite))).record
          [.polled request token (invite.deviceAuthId.getD "") pollNow (invite.interval.getD 5)]
      else s

end State

def step (s : State) : Action → Option State
  | .create token slug now => s.createInvite token slug now
  | .revoke token => some (s.revokeInvite token)
  | .startRequest request token now =>
    match s.requests request with
    | some _ => none
    | none => some (s.onboardStart request token now)
  | .deviceAnswer request answer now =>
    match s.requests request with
    | some (.starting token) =>
      match deviceUsercodeRequest answer with
      | .ok device => some ((s.mutate token fun invite => invite.setDevice device now).put request none)
      | .deviceAuthError => some (s.put request none)
      | .raises => some (s.put request none)
    | _ => none
  | .statusRequest request token now pollNow =>
    match s.requests request with
    | some _ => none
    | none => some (s.onboardStatus request token now pollNow)
  | .pollAnswer request answer =>
    match s.requests request with
    | some (.polling token invite) =>
      match answer with
      | .ok approved => some (s.put request (if approved then some (.exchanging token invite) else none))
      | .deviceAuthError => some ((s.mutate token Invite.clearDevice).put request none)
      | .raises => some (s.put request none)
    | _ => none
  | .exchangeAnswer request answer =>
    match s.requests request with
    | some (.exchanging token invite) =>
      match answer with
      | .ok _ => some ((s.put request (some (.reloading token))).record [.added token invite.name])
      | .deviceAuthError => some ((s.mutate token Invite.clearDevice).put request none)
      | .raises => some (s.put request none)
    | _ => none
  | .reloaded request now =>
    match s.requests request with
    | some (.reloading token) =>
      some (((s.mutate token fun invite => invite.markUsed now).put request none).record [.marked token])
    | _ => none

abbrev runInvites (acts : List Action) : Option State := Machine.run step .start acts

end Handlers

end Unhardcoded.Source.CodexInvites
