import Unhardcoded.Effects.GroupBy

/-!
# Binding a peer's model name to a curated family

Source: `_canon_service`, `_split_vendor`, `_split_variant`, `_family_vendor`,
`_canon_models`, `_match_curated` and `_bind` of sources/antseed.py. Of the catalog only
the family names and their `vendor` annotations are read. `str.lower` is a parameter, as
the characters outside ASCII are Unicode's; the families are filed in the catalog's order
(sorted in the source), a key's claims being a set. The warnings and the audit counters
(`ambiguous`, `vendor_unknown`) are left out.
-/

namespace Unhardcoded.Source.CuratedIndex

open Effects.GroupBy Python

section Names

/-- `_VENDOR_PREFIXES` in the order of `_VENDOR_TOKENS`: longest first. -/
def vendorPrefixes : List (String × String) :=
  [("meta-llama", "meta"), ("moonshotai", "moonshot"), ("anthropic", "anthropic"), ("mistralai", "mistral"),
    ("deepseek", "deepseek"), ("moonshot", "moonshot"), ("minimax", "minimax"), ("claude", "anthropic"),
    ("google", "google"), ("gemini", "google"), ("openai", "openai"), ("meta", "meta"), ("qwen", "qwen"),
    ("x-ai", "x-ai"), ("z-ai", "z-ai"), ("xai", "x-ai")]

/-- `_VENDOR_IDS`. -/
def vendorIds : List String := vendorPrefixes.map (·.2)

def variantSuffixes : List (String × String) :=
  [(":web", "web"), ("@web", "web"), ("-non-thinking", "non-thinking"), ("-thinking", "thinking"), ("-fast", "fast")]

def variantPrefixes : List (String × String) := [("e2ee-", "e2ee")]

def isCanonChar (c : Char) : Bool := ('a' ≤ c && c ≤ 'z') || c.isDigit

/-- `re.sub(r"[^a-z0-9]+", "-", …)`; `inRun` inside a run that has its dash already. -/
def foldRuns : Bool → List Char → List Char
  | _, [] => []
  | inRun, c :: rest =>
    if isCanonChar c then c :: foldRuns false rest
    else if inRun then foldRuns true rest else '-' :: foldRuns true rest

/-- `text.strip("-")`. -/
def stripDashes (text : List Char) : List Char :=
  ((text.dropWhile (· = '-')).reverse.dropWhile (· = '-')).reverse

/-- `_split_vendor`. -/
def splitVendor (canon : String) : Option String × String :=
  match vendorPrefixes.find? fun entry => (entry.1.toList ++ ['-']).isPrefixOf canon.toList with
  | some (token, vendor) => (some vendor, String.ofList (canon.toList.drop (token.length + 1)))
  | none => (none, canon)

/-- `_VERSIONISH_HEAD.match(residue.split("-")[0])`. -/
def versionish (residue : String) : Bool :=
  let head := residue.toList.takeWhile (· ≠ '-')
  let digits := head.dropWhile fun c => !c.isDigit
  let letters := head.takeWhile fun c => !c.isDigit
  decide (letters.length ≤ 2) && letters.all (fun c => 'a' ≤ c && c ≤ 'z') && digits ≠ [] && digits.all Char.isDigit

variable (lower : String → String)

/-- `_canon_service`. -/
def canonService (name : String) : String :=
  String.ofList (stripDashes (foldRuns false (lower name).toList))

/-- `_split_variant`. -/
def splitVariant (name : String) : String × Option String :=
  let s := (lower (strip name)).toList
  match variantSuffixes.find? fun entry => entry.1.toList.isSuffixOf s && decide (entry.1.length < s.length) with
  | some (suffix, variant) => (String.ofList (s.take (s.length - suffix.length)), some variant)
  | none =>
    match variantPrefixes.find? fun entry => entry.1.toList.isPrefixOf s && decide (entry.1.length < s.length) with
    | some (marker, variant) => (String.ofList (s.drop marker.length), some variant)
    | none => (String.ofList s, none)

end Names

/-- The curated families, each with its `vendor` annotation. -/
structure Catalog where
  models : List (String × Option String)
  distinct : (models.map (·.1)).Nodup

def Catalog.families (cat : Catalog) : List String := cat.models.map (·.1)

section Index

variable (lower : String → String) (cat : Catalog)

/-- `_family_vendor`: the annotation where there is one, else the family's own name. -/
def familyVendor (family : String) : Option String :=
  match ((cat.models.lookup family).join).filter (· ≠ "") with
  | some raw =>
    let key := canonService lower raw
    (vendorPrefixes.lookup key).or (if key ∈ vendorIds then some key else none)
  | none => (splitVendor (canonService lower family)).1

/-- `claims.setdefault(key, set()).add(fam)`, on the set. -/
def addClaim (claims : List String) (family : String) : List String :=
  if family ∈ claims then claims else claims ++ [family]

/-- `resolve`: the keys with one claim. -/
def resolve (claims : List (String × List String)) : List (String × String) :=
  pickValues (fun _ families => match families with
    | [family] => some family
    | _ => none) claims

/-- `exact`. -/
def exactIndex : List (String × String) :=
  resolve (tally (canonService lower) [] addClaim cat.families)

/-- A vendor-carrying name: the vendor and the residue, where the residue names a model. -/
def bareName (family : String) : Option (String × String) :=
  match splitVendor (canonService lower family) with
  | (some vendor, residue) => if residue ≠ "" ∧ !versionish residue then some (vendor, residue) else none
  | (none, _) => none

/-- The families that have a residue. -/
def bareFamilies : List String := cat.families.filter fun family => (bareName lower family).isSome

/-- The residue of such a family. -/
def residueOf (family : String) : String := ((bareName lower family).map (·.2)).getD ""

/-- `bare_vendor`. -/
def bareVendors : List (String × String) :=
  (bareFamilies lower cat).foldl
    (fun vendors family => insert (residueOf lower family) (((bareName lower family).map (·.1)).getD "") vendors) []

/-- `bare`. -/
def bareIndex : List (String × (String × String)) :=
  pickValues (fun key family => ((bareVendors lower cat).lookup key).map fun vendor => (family, vendor))
    (resolve (tally (residueOf lower) [] addClaim (bareFamilies lower cat)))

end Index

section Bind

variable (lower : String → String) (cat : Catalog) (aliases : List (String × String))

/-- `_match_curated`. -/
def matchCurated (name : String) : Option String :=
  match (aliases.lookup name).filter (· ∈ cat.families) with
  | some family => some family
  | none =>
    if name ∈ cat.families then some name
    else
      let canon := canonService lower name
      match (exactIndex lower cat).lookup canon with
      | some family => some family
      | none =>
        match splitVendor canon with
        | (none, _) => ((bareIndex lower cat).lookup canon).map (·.1)
        | (some vendor, residue) =>
          match (exactIndex lower cat).lookup residue with
          | some family => if familyVendor lower cat family = some vendor then some family else none
          | none =>
            match (bareIndex lower cat).lookup residue with
            | some (family, filed) => if filed = vendor then some family else none
            | none => none

structure Bound where
  family : String
  baseFamily : String
  variant : Option String
  deriving DecidableEq, Repr

/-- `_bind`. -/
def bind (service : String) : Option Bound :=
  match matchCurated lower cat aliases service with
  | some family => some ⟨family, family, none⟩
  | none =>
    match splitVariant lower service with
    | (_, none) => none
    | (base, some variant) =>
      (matchCurated lower cat aliases base).map fun family => ⟨family ++ "@" ++ variant, family, some variant⟩

end Bind

end Unhardcoded.Source.CuratedIndex
