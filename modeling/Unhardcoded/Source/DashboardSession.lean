import Unhardcoded.Python.Base64
import Unhardcoded.Python.JsonCompact
import Unhardcoded.Python.Number
import Unhardcoded.Python.Utf8

/-!
# The session cookie of the dashboard

Source: `_b64e`, `_b64d`, `_make_dashboard_session`, `_dashboard_session_context` and the two
logins of `dashboard_login`, of auth_proxy.py. The HMAC, in hex digits, is a parameter; so
are what `json.loads` makes of bytes that are not ASCII, `float` of the text of a number,
`int` of a text, and `str` of a value that is no text.
-/

namespace Unhardcoded.Source.DashboardSession

open Python

/-- The built-ins a session goes through, and the HMAC. -/
structure Library where
  hmac : String → String → String
  detected : List UInt8 → Option String
  float : String → Json
  intOfText : String → Option Int
  str : Json → String

/-- `v if v` of an optional text. -/
def given (key : String) : Option String → List (String × Json)
  | some text => if text = "" then [] else [(key, .str text)]
  | none => []

/-- `payload`. -/
def payload (user role : String) (consumer keySha256 : Option String) (expiry : Int) : List (String × Json) :=
  [("u", .str user), ("r", .str role), ("e", .int expiry)] ++ given "c" consumer ++ given "k" keySha256

/-- `sort_keys=True`. -/
def sortKeys (d : List (String × Json)) : List (String × Json) := d.insertionSort fun a b => a.1 ≤ b.1

/-- `body` of a payload. -/
def bodyOf (d : List (String × Json)) : String :=
  String.ofList (Base64.unpadded (ascii (Json.obj (sortKeys d)).compact.toList))

/-- Who logs in: with the password, or with an API key of a consumer. -/
inductive Login where
  | password
  | apiKey (consumer digest : String)
  deriving DecidableEq, Repr

/-- The payload of the cookie that a login sets. -/
def Login.payload (expiry : Int) : Login → List (String × Json)
  | .password => DashboardSession.payload "admin" "admin" none none expiry
  | .apiKey consumer digest => DashboardSession.payload consumer "consumer" (some consumer) (some digest) expiry

structure Context where
  role : String
  user : String
  viewer : String
  consumer : Option String
  keySha256 : Option String
  deriving DecidableEq, Repr

/-- `text.rsplit(".", 1)` of a text with a dot. -/
def rsplitDot (text : String) : Option (String × String) :=
  let reversed := text.toList.reverse
  match reversed.dropWhile (· ≠ '.') with
  | [] => none
  | _ :: before => some (String.ofList before.reverse, String.ofList (reversed.takeWhile (· ≠ '.')).reverse)

/-- `re.fullmatch(r"[a-f0-9]{64}", text)`. -/
def isDigest (text : String) : Bool :=
  text.toList.length = 64 && text.toList.all fun c => c.isDigit || ('a' ≤ c && c ≤ 'f')

section Session

variable (lib : Library) (secret : String)

/-- `_make_dashboard_session`, with the clock it reads. -/
def makeSession (user role : String) (consumer keySha256 : Option String) (now maxAge : Int) : Except Raised String :=
  if secret = "" then .error (.other "RuntimeError" "DASHBOARD_SESSION_SECRET is not configured")
  else
    let body := bodyOf (payload user role consumer keySha256 (now + maxAge))
    .ok (body ++ "." ++ lib.hmac secret body)

/-- The cookie of a login. -/
def Login.cookie (now maxAge : Int) : Login → Except Raised String
  | .password => makeSession lib secret "admin" "admin" none none now maxAge
  | .apiKey consumer digest => makeSession lib secret consumer "consumer" (some consumer) (some digest) now maxAge

/-- `str(v)`. -/
def Library.text (v : Json) : String :=
  match v with
  | .str text => text
  | _ => lib.str v

/-- `int(v)`. -/
def Library.int : Json → Except Raised Int
  | .int n => .ok n
  | .bool b => .ok (if b then 1 else 0)
  | .float q _ => .ok (towardZero q)
  | .str text => match lib.intOfText text with
    | some n => .ok n
    | none => .error .valueError
  | _ => .error .typeError

/-- `json.loads(_b64d(body))`, `none` where it raises. -/
def decodeBody (body : String) : Option Json :=
  match Base64.decodeUnpadded body.toList with
  | some bytes =>
    let text := if bytes.all fun b => 0 < b.toNat && b.toNat < 128 then some (decode bytes) else lib.detected bytes
    text.bind (loads lib.float)
  | none => none

/-- The context of the fields `u`, `r`, `c` and `k` of a payload that is genuine and in time. -/
def contextFields (u r c k : Json) : Option Context :=
  let user := strip (lib.text u)
  if user = "" then none
  else if strip (lib.text (r.orElse (.str "admin"))) = "consumer" then
    let consumer := strip (lib.text c)
    let keySha256 := lower (strip (lib.text k))
    if consumer = "" ∨ isDigest keySha256 = false then none
    else some ⟨"consumer", user, "consumer:" ++ consumer, some consumer, some keySha256⟩
  else some ⟨"admin", user, "dashboard:" ++ user, none, none⟩

def contextOf (v : Json) : Except Raised (Option Context) := do
  let u ← v.getD "u" (.str "")
  let r ← v.get "r"
  let c ← v.getD "c" (.str "")
  let k ← v.getD "k" (.str "")
  Except.ok (contextFields lib u r c k)

/-- `_dashboard_session_context` of the cookie, `""` where the request has none. -/
def sessionContext (raw : String) (now : Int) : Except Raised (Option Context) :=
  if secret = "" then .ok none
  else match rsplitDot raw with
    | none => .ok none
    | some (body, sig) =>
      if sig ≠ lib.hmac secret body then .ok none
      else match decodeBody lib body with
        | none => .ok none
        | some v => do
          let expiry ← lib.int (← v.getD "e" (.int 0))
          if expiry < now then Except.ok none else contextOf lib v

end Session

end Unhardcoded.Source.DashboardSession
