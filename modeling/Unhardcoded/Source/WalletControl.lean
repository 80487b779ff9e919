import Mathlib.Data.List.Infix
import Unhardcoded.Source.WalletKeeper

/-!
# A deposit on its way to the buyer CLI and back

Source: antseed/broadcast.js, antseed/amount.js, the `run` and deposit handlers of
antseed/control.js, and `_control_post` of wallet_keeper.py. Strings are Unicode
text. Of `toLowerCase` only what can meet an ASCII needle is kept: `A`-`Z`, and
the two letters whose lower case starts with or is an ASCII letter. The error
texts of the replies are left out, being read into the row's `detail` only.
-/

namespace Unhardcoded.Source

section Strings

/-- `toLowerCase`, as far as a search for ASCII text can tell. -/
def toLowerCase (s : List Char) : List Char :=
  s.flatMap fun c =>
    if c.val = 0x130 then ['i', Char.ofNat 0x307]
    else if c.val = 0x212a then ['k']
    else [c.toLower]

/-- `hay.includes(needle)`. -/
def includes (hay : List Char) (needle : String) : Bool := needle.toList <:+: hay

/-- What `trim` strips: the white space and line terminators of JavaScript. -/
def isJsSpace (c : Char) : Bool :=
  c.val ∈ [0x9, 0xa, 0xb, 0xc, 0xd, 0x20, 0xa0, 0x1680, 0x2028, 0x2029, 0x202f, 0x205f, 0x3000, 0xfeff] ||
    (0x2000 ≤ c.val && c.val ≤ 0x200a)

/-- `s.trim() === ""`. -/
def isBlank (s : List Char) : Bool := s.all isJsSpace

def isHexDigit (c : Char) : Bool :=
  c.isDigit || ('a' ≤ c && c ≤ 'f') || ('A' ≤ c && c ≤ 'F')

/-- `TX_HASH_RE.test`: the optional `0x` changes nothing about a match existing. -/
def txHashTest (s : List Char) : Bool :=
  s.tails.any fun rest => 64 ≤ rest.length && (rest.take 64).all isHexDigit

end Strings

section Broadcast

def onchainStepMarkers : List String :=
  ["depositing usdc", "deposit failed:", "deposited ", "withdrawing", "withdraw failed:", "withdrew "]

def broadcastPhrases : List String :=
  ["nonce", "already known", "replacement transaction", "underpriced", "dropped or replaced",
    "execution reverted", "transactionhash", "transaction hash", "receipt", "confirmations",
    "eth_sendrawtransaction", "broadcast"]

def spawnErrnos : List String := ["ENOENT", "EACCES", "EPERM", "ENOTDIR", "ENOEXEC", "E2BIG"]

def preRpcSignatures : List String :=
  ["error: amount must be a positive number", "cannot find module", "err_module_not_found",
    "module_not_found"]

/-- `code` of a process error: an exit status, or Node's name for the error. -/
inductive ExitCode where
  | status (n : Int)
  | named (name : String)
  deriving DecidableEq

/-- The error `execFile` hands to its callback. -/
structure ExecError where
  code : Option ExitCode
  killed : Bool
  signalled : Bool
  deriving DecidableEq

/-- What `execFile` hands to its callback. -/
structure Exec where
  err : Option ExecError
  stdout : List Char
  stderr : List Char
  deriving DecidableEq

/-- The result of `run`. -/
structure CliRun where
  code : ExitCode
  killed : Bool
  stdout : List Char
  stderr : List Char
  deriving DecidableEq

/-- `err.code || 1`. -/
def ExecError.exitCode (err : ExecError) : ExitCode :=
  match err.code with
  | some (.status n) => if n = 0 then .status 1 else .status n
  | some (.named name) => if name = "" then .status 1 else .named name
  | none => .status 1

/-- `run` of control.js. -/
def run (exec : Exec) : CliRun where
  code := match exec.err with
    | some err => err.exitCode
    | none => .status 0
  killed := match exec.err with
    | some err => err.killed || err.signalled
    | none => false
  stdout := exec.stdout
  stderr := exec.stderr

/-- Both streams, as one text. -/
def CliRun.combined (r : CliRun) : List Char := r.stdout ++ '\n' :: r.stderr

/-- Why `classifyCliFailure` judged as it did. -/
inductive Why where
  | killed | onchainStep (marker : String) | txHash | phrase (text : String) | stdout
  | notStarted (errno : String) | preRpc (signature : String) | unrecognised
  deriving DecidableEq

structure Verdict where
  attempted : Bool
  why : Why
  deriving DecidableEq

/-- `SPAWN_ERRNOS.has(String(code))`. -/
def spawnErrno : ExitCode → Option String
  | .named name => if name ∈ spawnErrnos then some name else none
  | .status _ => none

def classifyCliFailure (r : CliRun) : Verdict :=
  let hay := toLowerCase r.combined
  if r.killed then ⟨true, .killed⟩
  else match onchainStepMarkers.find? (includes hay) with
  | some marker => ⟨true, .onchainStep marker⟩
  | none =>
    if txHashTest r.combined then ⟨true, .txHash⟩
    else match broadcastPhrases.find? (includes hay) with
    | some text => ⟨true, .phrase text⟩
    | none =>
      if !isBlank r.stdout then ⟨true, .stdout⟩
      else match (if isBlank r.stderr then spawnErrno r.code else none) with
      | some errno => ⟨false, .notStarted errno⟩
      | none =>
        match preRpcSignatures.find? (includes hay) with
        | some signature => ⟨false, .preRpc signature⟩
        | none => ⟨true, .unrecognised⟩

end Broadcast

section Control

/-- `AMOUNT_RE`: digits, and up to six more behind a point. -/
def amountDigits (s : List Char) : Option (List Char × List Char) :=
  let whole := s.takeWhile Char.isDigit
  match s.dropWhile Char.isDigit with
  | [] => if whole = [] then none else some (whole, [])
  | '.' :: frac =>
    if whole ≠ [] ∧ 1 ≤ frac.length ∧ frac.length ≤ 6 ∧ frac.all Char.isDigit then some (whole, frac)
    else none
  | _ :: _ => none

def digitsValue (s : List Char) : Nat := s.foldl (fun n c => 10 * n + (c.toNat - '0'.toNat)) 0

/-- `validAmount`: the comparison with 0 and 50 is exact, no more than six digits
standing behind the point. -/
def validAmount (s : List Char) : Bool :=
  match amountDigits s with
  | none => false
  | some (whole, frac) =>
    let micros := digitsValue whole * 10 ^ 6 + digitsValue frac * 10 ^ (6 - frac.length)
    0 < micros && micros ≤ 50 * 10 ^ 6

/-- What became of the request in the mutation queue. -/
inductive QueueFate where
  | started
  | refused
  deriving DecidableEq

/-- A request as the control server meets it, with what happens to it there. -/
structure ControlRequest where
  authorised : Bool
  routed : Bool
  amount : List Char
  queue : QueueFate
  exec : Exec
  deriving DecidableEq

structure HttpReply where
  status : Nat
  ok : Bool
  attempted : Bool
  deriving DecidableEq

def refuse (status : Nat) : HttpReply := ⟨status, false, false⟩
def inconclusive (status : Nat) : HttpReply := ⟨status, false, true⟩

/-- The deposit branch of the control server, from the token check to the reply. -/
def depositReply (req : ControlRequest) : HttpReply :=
  if !req.authorised then refuse 401
  else if !req.routed then refuse 404
  else if !validAmount req.amount then refuse 400
  else match req.queue with
  | .refused => refuse 429
  | .started =>
    let r := run req.exec
    if r.code ≠ .status 0 then
      if r.killed then inconclusive 504
      else if (classifyCliFailure r).attempted then inconclusive 502
      else refuse 502
    else ⟨200, true, true⟩

/-- The transport between `_control_post` and the server. -/
inductive Transport where
  | notConfigured
  | httpxUnavailable
  /-- `InvalidURL`, `UnsupportedProtocol`: raised while building the request. -/
  | misconfigured
  /-- Any other exception: the request may have arrived. -/
  | failed
  /-- The task is cancelled while it waits. -/
  | cancelled
  | delivered
  /-- The status arrives with a body that is not JSON, or is no object. -/
  | garbled
  deriving DecidableEq

/-- Whether the request may have reached the server. -/
def Transport.sent : Transport → Bool
  | .notConfigured | .httpxUnavailable | .misconfigured => false
  | _ => true

def notAttemptedStatuses : List Nat := [400, 401, 404, 405, 429]

/-- A response built by `_control_post` itself. -/
def failureReply (attempted : Bool) : Reply := ⟨.bool false, .bool attempted, false, [], none⟩

/-- `_control_post` on a response: `ok` and `attempted` of a body that parsed to an
object, if it did. -/
def controlResponse (status : Nat) (body : Option (Field × Field)) : Reply :=
  if status ≠ 200 then
    match body with
    | some (_, .bool attempted) => failureReply attempted
    | _ => failureReply (status ∉ notAttemptedStatuses)
  else
    match body with
    | none => failureReply true
    | some (ok, attempted) => ⟨ok.setDefaultTrue, attempted.setDefaultTrue, false, [], none⟩

/-- `_control_post` for the deposit verb. -/
def controlPost (transport : Transport) (req : ControlRequest) : ControlResult :=
  let reply := depositReply req
  match transport with
  | .notConfigured | .httpxUnavailable | .misconfigured => .reply (failureReply false)
  | .failed => .reply (failureReply true)
  | .cancelled => .raised .cancelled
  | .delivered => .reply (controlResponse reply.status (some (.bool reply.ok, .bool reply.attempted)))
  | .garbled => .reply (controlResponse reply.status none)

end Control

end Unhardcoded.Source
