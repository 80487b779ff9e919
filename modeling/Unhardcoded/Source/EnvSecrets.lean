import Unhardcoded.Python.Lines

/-!
# The env-secrets file

Source: `_provider_env_error` and `_upsert_env_line` of auth_proxy.py, `AUTH_ENV_RE` of
provider_overlay.py, and env_secrets.py. A file is the text it decodes to, `none` where
there is no file. `repr` is `str.__repr__`, for the text of an error.
-/

namespace Unhardcoded.Source.EnvSecrets

open Unhardcoded.Python

section Validator

/-- `[A-Z0-9_]`. -/
def envChar (c : Char) : Bool := c.isUpper || c.isDigit || c = '_'

/-- `[A-Z][A-Z0-9_]{0,60}`. -/
def envStem : List Char → Bool
  | [] => false
  | c :: cs => c.isUpper && cs.all envChar && cs.length ≤ 60

/-- `AUTH_ENV_RE.match`. -/
def authEnvRe (key : List Char) : Bool :=
  ["_API_KEY", "_TOKEN"].any fun suffix =>
    suffix.toList.isSuffixOf key && envStem (key.take (key.length - suffix.toList.length))

def forbiddenEnvPrefixes : List String :=
  ["CONTROL_PLANE_", "ANTSEED_", "CODEX_", "AWS_", "DASHBOARD_", "ROUTER_", "POSTGRES", "DATABASE", "CP_", "SAAS_", "GITHUB_"]

def forbiddenEnvParts : List String := ["SECRET", "PASSWORD", "INTERNAL", "ADMIN", "SESSION"]

def isForbiddenAuthEnv (name : String) : Bool :=
  forbiddenEnvPrefixes.any (fun start => start.toList.isPrefixOf name.toList) ||
    forbiddenEnvParts.any fun part => contains part name

/-- `ord(ch) < 0x20 or ord(ch) == 0x7F`. -/
def isControl (c : Char) : Bool := c.toNat < 0x20 || c.toNat = 0x7F

/-- `_provider_env_error`. -/
def providerEnvError (repr : String → String) (key value : String) : Option String :=
  if !authEnvRe key.toList || isForbiddenAuthEnv key then
    some ("auth_env " ++ repr key ++ " is not an allowed provider credential name")
  else if (key ++ value).toList.any isControl then some "key must not contain control characters"
  else none

end Validator

section File

/-- The newlines that `read_text` translates. -/
def universal : List Char → List Char
  | [] => []
  | '\r' :: '\n' :: cs => '\n' :: universal cs
  | '\r' :: cs => '\n' :: universal cs
  | c :: cs => c :: universal cs

/-- `path.read_text().splitlines()`. -/
def readLines (text : String) : List String := splitlines (String.ofList (universal text.toList))

/-- `line.startswith(start)`. -/
def startsWith (line start : String) : Bool := start.toList.isPrefixOf line.toList

/-- The loop over the lines. -/
def replaceLines (key rendered : String) (lines : List String) : List String × Bool :=
  lines.foldl (fun (out, replaced) line =>
    if startsWith line (key ++ "=") then (out ++ [rendered], true) else (out ++ [line], replaced)) ([], false)

/-- `_upsert_env_line`: the text of the file that it leaves, or the error that it raises. -/
def upsertEnvLine (repr : String → String) (file : Option String) (key value : String) : Except String String :=
  match providerEnvError repr key value with
  | some error => .error error
  | none =>
    let lines := (file.map readLines).getD []
    let rendered := key ++ "=" ++ value
    let (out, replaced) := replaceLines key rendered lines
    .ok (String.intercalate "\n" (if replaced then out else out ++ [rendered]) ++ "\n")

/-- Calls of `_upsert_env_line`, one after the other. -/
def upserts (repr : String → String) (file : Option String) : List (String × String) → Except String (Option String)
  | [] => .ok file
  | (key, value) :: calls => do
    let text ← upsertEnvLine repr file key value
    upserts repr (some text) calls

end File

section Loader

/-- `os.environ`. -/
abbrev Environ := List (String × String)

/-- `_protected`. -/
def isProtected (key : String) : Bool := isForbiddenAuthEnv key || contains "URL" key

/-- The keys loaded so far, and the environment. -/
structure Loading where
  loaded : List String
  environ : Environ

/-- One line of the loop in `load_env_secrets`. -/
def loadLine (s : Loading) (raw : String) : Loading :=
  let line := (strip raw).toList
  if line.isEmpty || ['#'].isPrefixOf line || !line.contains '=' then s
  else
    let key := strip (String.ofList (line.takeWhile (· ≠ '=')))
    let value := String.ofList ((line.dropWhile (· ≠ '=')).drop 1)
    if key = "" || ((s.environ.lookup key).isSome && isProtected key) then s
    else ⟨s.loaded ++ [key], insert key value s.environ⟩

/-- `load_env_secrets`. -/
def loadEnvSecrets (file : Option String) (environ : Environ) : Loading :=
  match file with
  | none => ⟨[], environ⟩
  | some text => (readLines text).foldl loadLine ⟨[], environ⟩

end Loader

end Unhardcoded.Source.EnvSecrets
