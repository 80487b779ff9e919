import Unhardcoded.Python.Base64
import Unhardcoded.Python.JsonText

/-!
# The tokens of one Codex account

`CodexAuth` of codex_auth.py, with `_extract_tokens`, `_jwt_payload` and `_jwt_exp`: the token
is read from the account's file, refreshed near its expiry, and written back. A file is the JSON
value of its text, `none` where it is missing or no JSON; calls hold the object's lock, so they
come one after another, and a process that dies inside one is a call that fails there and a new
process. What `json.loads` makes of bytes that are not ASCII and `float` of a number's text are
parameters. Times are exact.
-/

namespace Unhardcoded.Source.CodexTokens

open Python

structure Library where
  detected : List UInt8 → Option String
  float : String → Json

structure Tokens where
  access : Json
  refresh : Json
  id : Json
  account : Json

/-- `{}`. -/
def Tokens.none : Tokens := ⟨.null, .null, .null, .null⟩

/-- `_extract_tokens`. -/
def extractTokens (raw : Json) : Except Raised Tokens :=
  if raw.isObj then
    let nested := if (raw.field "tokens").isObj then raw.field "tokens" else .obj []
    let pick key := (nested.field key).orElse (raw.field key)
    .ok ⟨pick "access_token", pick "refresh_token", pick "id_token", pick "account_id"⟩
  else .error .attributeError

section Jwt

variable (lib : Library)

/-- The payload segment of a text with two dots. -/
def segment (token : String) : Option (List Char) :=
  if token.toList.count '.' = 2 then some ((token.toList.dropWhile (· ≠ '.')).tail.takeWhile (· ≠ '.')) else Option.none

/-- `json.loads(base64.urlsafe_b64decode(segment))` with its padding, if that is a dictionary. -/
def payloadOf (chars : List Char) : Option Json :=
  match Base64.decodeUnpadded chars with
  | Option.none => Option.none
  | some bytes =>
    let text := if bytes.all fun b => 0 < b.toNat && b.toNat < 128 then some (String.ofList (bytes.map fun b => Char.ofNat b.toNat))
      else lib.detected bytes
    (text.bind (loads lib.float)).filter Json.isObj

/-- `_jwt_payload`: a list has a `count`, other values that are not texts have none. -/
def jwtPayload : Json → Except Raised (Option Json)
  | .str token => .ok ((segment token).bind (payloadOf lib))
  | .arr items => if items.countP (·.isText ".") = 2 then .error .attributeError else .ok Option.none
  | v => if v.truthy then .error .attributeError else .ok Option.none

/-- `_jwt_exp`. -/
def jwtExp (token : Json) : Except Raised (Option ℚ) :=
  (jwtPayload lib token).map fun payload => match (payload.getD (.obj [])).field "exp" with
    | .int n => some n
    | .float q _ => some q
    | .bool b => some (if b then 1 else 0)
    | _ => Option.none

end Jwt

/-! ## The object -/

structure Auth where
  loaded : Bool
  tokens : Tokens
  exp : Option ℚ

def Auth.new : Auth := ⟨false, .none, Option.none⟩

/-- What went between the object, the server and the file. -/
inductive Exchange where
  /-- A refresh request with this refresh token. -/
  | sent (token : Json)
  /-- The dictionary of a reply with status 200. -/
  | granted (data : Json)
  | stored
  /-- The file was emptied by a write that failed. -/
  | torn
  | restarted

structure World where
  file : Option Json
  auth : Auth
  /-- Kept to speak of it: no call reads it. -/
  log : List Exchange

def World.note (w : World) (exchange : Exchange) : World := { w with log := w.log ++ [exchange] }

inductive Reply where
  /-- The post raises. -/
  | failed
  /-- A reply, and its body if that is JSON. -/
  | answered (status : Int) (data : Option Json)

/-- `write_text` empties the file when it opens it, before anything is written. -/
inductive Write where
  | done
  /-- The file is not opened. -/
  | refused
  /-- A failure behind the open: what there is of an object's text, without its end, is no JSON. -/
  | torn

/-- What a call of `access_token` meets: the clock, whether its two reads of the file go through,
the server's reply and what becomes of its write. -/
structure Access where
  now : ℚ
  loadReads : Bool
  reply : Reply
  backReads : Bool
  write : Write

def refreshMargin : ℚ := 300

/-- `_needs_refresh`. -/
def needsRefresh (now : ℚ) (auth : Auth) : Bool :=
  if auth.tokens.access.truthy then auth.exp.any fun exp => exp - refreshMargin ≤ now else auth.tokens.refresh.truthy

/-- The tokens with those of a reply. -/
def grant (tokens : Tokens) (data : Json) : Tokens :=
  { tokens with
    access := (data.field "access_token").orElse tokens.access
    refresh := (data.field "refresh_token").orElse tokens.refresh
    id := (data.field "id_token").orElse tokens.id }

/-- `d.update({k: tokens[k] .. if tokens.get(k)})`. -/
def merge (fields : List (String × Json)) (tokens : Tokens) : List (String × Json) :=
  [("access_token", tokens.access), ("refresh_token", tokens.refresh), ("id_token", tokens.id)].foldl
    (fun d entry => if entry.2.truthy then insert entry.1 entry.2 d else d) fields

/-- What is written over a file that holds these fields. -/
def rewritten (fields : List (String × Json)) (tokens : Tokens) : Json :=
  match fields.lookup "tokens" with
  | some (.obj nested) => .obj (insert "tokens" (.obj (merge nested tokens)) fields)
  | _ => .obj (merge fields tokens)

/-- `self._path.write_text(..)`, whose `OSError` is passed over. -/
def writeText (write : Write) (text : Json) (w : World) : World :=
  match write with
  | .done => { w.note .stored with file := some text }
  | .refused => w
  | .torn => { w.note .torn with file := Option.none }

/-- `_write_back`. -/
def writeBack (a : Access) (w : World) : World × Option Raised :=
  match if a.backReads then w.file.getD (.obj []) else .obj [] with
  | .obj fields => (writeText a.write (rewritten fields w.auth.tokens) w, Option.none)
  | _ => (w, some .attributeError)

section Calls

variable (lib : Library)

/-- `_load`. -/
def load (auth : Auth) : Option Json → Auth × Option Raised
  | Option.none => (⟨true, .none, Option.none⟩, Option.none)
  | some raw => match extractTokens raw with
    | .error e => ({ auth with loaded := true }, some e)
    | .ok tokens => match jwtExp lib tokens.access with
      | .error e => ({ auth with loaded := true, tokens := tokens }, some e)
      | .ok exp => (⟨true, tokens, exp⟩, Option.none)

/-- `_refresh` from a reply's dictionary on. -/
def take (a : Access) (w : World) (data : Json) : World × Option Raised :=
  let tokens := grant w.auth.tokens data
  match jwtExp lib tokens.access with
  | .error e => ({ w.note (.granted data) with auth := { w.auth with tokens := tokens } }, some e)
  | .ok exp => writeBack a { w.note (.granted data) with auth := { w.auth with tokens := tokens, exp := exp } }

/-- `_refresh`. -/
def refresh (a : Access) (w : World) : World × Option Raised :=
  if w.auth.tokens.refresh.truthy then
    match a.reply with
    | .failed => (w.note (.sent w.auth.tokens.refresh), Option.none)
    | .answered status data =>
      if status ≠ 200 then (w.note (.sent w.auth.tokens.refresh), Option.none)
      else match data with
        | Option.none => (w.note (.sent w.auth.tokens.refresh), Option.none)
        | some data =>
          if data.isObj then take lib a (w.note (.sent w.auth.tokens.refresh)) data
          else (w.note (.sent w.auth.tokens.refresh), some .attributeError)
  else (w, Option.none)

/-- The object once it has read its file. -/
def loadedAuth (reads : Bool) (w : World) : Auth × Option Raised :=
  if w.auth.loaded then (w.auth, Option.none) else load lib w.auth (if reads then w.file else Option.none)

/-- `access_token`. -/
def accessToken (w : World) (a : Access) : World × Except Raised Json :=
  let read := loadedAuth lib a.loadReads w
  let w := { w with auth := read.1 }
  match read.2 with
  | some e => (w, .error e)
  | Option.none =>
    let done := if needsRefresh a.now w.auth then refresh lib a w else (w, Option.none)
    match done.2 with
    | some e => (done.1, .error e)
    | Option.none => (done.1, .ok done.1.auth.tokens.access)

/-- `account_id`. -/
def accountId (w : World) (reads : Bool) : World × Except Raised Json :=
  let read := loadedAuth lib reads w
  match read.2 with
  | some e => ({ w with auth := read.1 }, .error e)
  | Option.none => ({ w with auth := read.1 }, .ok read.1.tokens.account)

inductive Event where
  | access (a : Access)
  | accountId (reads : Bool)
  /-- The process starts again, or the directory is read again: a new object over the file. -/
  | restart

def step (w : World) : Event → World
  | .access a => (accessToken lib w a).1
  | .accountId reads => (accountId lib w reads).1
  | .restart => { w.note .restarted with auth := .new }

def runTokens (w : World) (events : List Event) : World := events.foldl (step lib) w

end Calls

end Unhardcoded.Source.CodexTokens
