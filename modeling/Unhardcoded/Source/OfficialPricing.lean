import Unhardcoded.Python.Dict
import Unhardcoded.Python.Number

/-!
# Adopting prices from a provider's page

Source: `_slug`, `_plausible`, `_resolve`, `_prices` and `pricing` of
sources/official_pricing.py, with the `provider_prices` table of host_store.py. The
records are what a parser found on the page, in page order. `str.lower` is a parameter.
-/

namespace Unhardcoded.Source.OfficialPricing

open Unhardcoded.Python

/-- A record of a page, and a row of the table: amounts per million tokens, `None` for
what is missing. -/
structure Record where
  familyHint : String
  priceIn : Option Flt
  priceOut : Option Flt
  priceCachedIn : Option Flt
  deriving DecidableEq

/-- An entry of `served_by`. -/
structure Served where
  provider : String
  providerModelId : Option String

abbrev Catalog := List (String × List Served)

def MAX_PRICE : Flt := .fin 1000

/-- `_plausible`. -/
def isPlausible : Option Flt → Bool
  | some p => (Flt.fin 0).lt p && p.le MAX_PRICE
  | none => false

variable (lower : String → String)

/-- `_slug`. -/
def slug (s : String) : String :=
  String.ofList ((lower s).toList.filter fun c => ('a' ≤ c && c ≤ 'z') || c.isDigit)

/-- The slugs of one served entry: the family's, and the wire id's where there is one. -/
def slugs (family : String) (served : Served) : List (String × String) :=
  (slug lower family, family) :: match served.providerModelId with
    | some pmid => if pmid ≠ "" then [(slug lower pmid, family)] else []
    | none => []

/-- `_family_by_slug`: later entries overwrite earlier ones. -/
def familyBySlug (providerId : String) (catalog : Catalog) : List (String × String) :=
  let entries := catalog.flatMap fun model =>
    (model.2.filter (·.provider = providerId)).flatMap (slugs lower model.1)
  entries.foldl (fun filed entry => insert entry.1 entry.2 filed) []

/-- What a price source resolves names by. -/
structure PriceSource where
  providerId : String
  familyBySlug : List (String × String)

/-- `OfficialPriceSource(catalog, provider_id)`. -/
def PriceSource.new (catalog : Catalog) (providerId : String) : PriceSource :=
  ⟨providerId, OfficialPricing.familyBySlug lower providerId catalog⟩

/-- The family of a record, where the catalog has one (`if not fam`). -/
def familyOf (source : PriceSource) (r : Record) : Option String :=
  (source.familyBySlug.lookup (slug lower r.familyHint)).filter (· ≠ "")

def pricePlausible (r : Record) : Bool := isPlausible r.priceIn && isPlausible r.priceOut

/-- A cached price stays if it is plausible and below the input price. -/
def cleaned (r : Record) : Record :=
  match r.priceCachedIn, r.priceIn with
  | some cached, some base => if isPlausible (some cached) && cached.lt base then r else { r with priceCachedIn := none }
  | _, _ => { r with priceCachedIn := none }

/-- One record of the page. -/
def resolveOne (source : PriceSource) (rows : List (String × Record)) (r : Record) : List (String × Record) :=
  match familyOf lower source r with
  | none => rows
  | some family =>
    if (rows.lookup family).isSome then rows
    else if pricePlausible r then insert family (cleaned r) rows else rows

/-- `_resolve`. -/
def resolve (source : PriceSource) (records : List Record) : List (String × Record) :=
  records.foldl (resolveOne lower source) []

structure Price where
  servedModelId : String
  priceIn : Option Flt
  priceOut : Option Flt

/-- `_prices`. -/
def prices (items : List (String × Record)) : List Price :=
  (items.filter fun item => pricePlausible item.2).map fun item => ⟨item.1, item.2.priceIn, item.2.priceOut⟩

/-- The `provider_prices` table, by provider and family. -/
abbrev Table := List ((String × String) × Record)

/-- `set_provider_prices`. -/
def setProviderPrices (providerId : String) (rows : List (String × Record)) (table : Table) : Table :=
  rows.foldl (fun table row => insert (providerId, row.1) row.2 table) table

/-- `get_provider_prices`. -/
def getProviderPrices (providerId : String) (table : Table) : List (String × Record) :=
  (table.filter fun row => row.1.1 = providerId).map fun row => (row.1.2, row.2)

/-- `pricing`: a page that was fetched and parsed, or none. -/
def pricing (source : PriceSource) (page : Option (List Record)) (table : Table) : List Price × Table :=
  let rows := (page.map (resolve lower source)).getD []
  if rows = [] then (prices (getProviderPrices source.providerId table), table)
  else (prices rows, setProviderPrices source.providerId rows table)

end Unhardcoded.Source.OfficialPricing
