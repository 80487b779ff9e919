import Mathlib.Data.List.Sort
import Unhardcoded.Python.Lines

/-!
# Accounts in a directory

`_safe_account_name` and `CodexAuthStore.reload` of `codex_auth.py`. An account is the file
it is read from. `str.lower` is a parameter, as the characters outside ASCII are Unicode's.
-/

namespace Unhardcoded.Source.CodexAccounts

open Unhardcoded.Python

section Names

def isAlnum (c : Char) : Bool := ('a' ≤ c && c ≤ 'z') || ('0' ≤ c && c ≤ '9')

/-- The characters of `"-._"`. -/
def isMark (c : Char) : Bool := c = '-' || c = '.' || c = '_'

/-- `[a-z0-9._-]`. -/
def isSlugChar (c : Char) : Bool := isAlnum c || isMark c

/-- `re.sub(r"[^a-z0-9._-]+", "-", …)`; `inRun` inside a run that has its dash already. -/
def dashRuns : Bool → List Char → List Char
  | _, [] => []
  | inRun, c :: rest =>
    if isSlugChar c then c :: dashRuns false rest
    else if inRun then dashRuns true rest else '-' :: dashRuns true rest

def noAlnum : Raised := .other "ValueError" "account name must contain at least one alphanumeric character"

/-- `_safe_account_name`. -/
def safeAccountName (lower : String → String) (name : String) : Except Raised String :=
  let slug := stripBy isMark (dashRuns false (lower (strip name)).toList)
  if slug = [] then .error noAlnum
  else if 64 < slug.length then .ok (String.ofList (stripBy isMark (slug.take 64)))
  else .ok (String.ofList slug)

end Names

section Reload

inductive Account where
  | file (name : String)
  | legacy
  deriving DecidableEq, Repr

structure Store where
  /-- The names in `_dir`; `none` where it is no directory or cannot be read. -/
  files : Option (List String)
  /-- A legacy path is given, and it exists. -/
  legacy : Bool

/-- A name that `glob("*.json")` finds. -/
def isJson (file : String) : Bool := ".json".toList.isSuffixOf file.toList

/-- `f.name.startswith("_")`. -/
def isReserved (file : String) : Bool := "_".toList.isPrefixOf file.toList

/-- `f.stem`: a dot at either end of the name begins no suffix. -/
def stem (file : String) : String :=
  let ending := file.toList.reverse.takeWhile (· ≠ '.')
  match file.toList.reverse.dropWhile (· ≠ '.') with
  | _ :: c :: before => if ending = [] then file else String.ofList (c :: before).reverse
  | _ => file

/-- One turn of the loop over the files. -/
def discover (found : List (String × Account)) (file : String) : List (String × Account) :=
  if isReserved file then found else insert (stem file) (.file file) found

/-- The accounts after `reload`. -/
def Store.found (store : Store) : List (String × Account) :=
  let found := (((store.files.getD []).filter isJson).insertionSort (· ≤ ·)).foldl discover []
  if store.legacy && (found.lookup "default").isNone then insert "default" .legacy found else found

/-- What `reload` returns: `sorted(found)`. -/
def Store.reload (store : Store) : List String := (store.found.map (·.1)).insertionSort (· ≤ ·)

end Reload

end Unhardcoded.Source.CodexAccounts
