import Unhardcoded.Effects.Window
import Unhardcoded.Python.Number
import Unhardcoded.Source.OfferSelection

/-!
# The market book of the AntSeed sidecar

Source: antseed/write-market.js with `write_market` of antseed/entrypoint.sh, which fill
the table `peer_offers`; `peer_offers` of host_store.py; `_load_market` and
`_market_for_provider` of sources/antseed.py. A run of the writer reads one browse dump and
commits its statements one by one, so that a failing run leaves a part of them. `Number(v)`,
where it is finite, is a parameter, as are the decision names and the models known by them.
Of a decision row the context length is left out.
-/

namespace Unhardcoded.Source.MarketBook

open Effects Python

/-! ## The dump -/

/-- The number of an array index: digits, without a leading zero. -/
def arrayIndex (name : String) : Option Nat :=
  let digits := name.toList
  let n := digits.foldl (fun n c => n * 10 + (c.toNat - '0'.toNat)) 0
  if digits ≠ [] ∧ digits.all Char.isDigit ∧ (digits.head? = some '0' → digits.length = 1) ∧ n < 4294967295 then some n
  else none

/-- `Object.entries(v)`: the array indices first, in ascending order. -/
def entries : Json → List (String × Json)
  | .obj fields =>
    ((fields.filter fun field => (arrayIndex field.1).isSome).insertionSort
      fun a b => (arrayIndex a.1).getD 0 ≤ (arrayIndex b.1).getD 0) ++
    fields.filter fun field => (arrayIndex field.1).isNone
  | .arr items => items.zipIdx.map fun item => (toString item.2, item.1)
  | .str text => (text.toList.flatMap fun c => if c.toNat < 65536 then [c] else ['\uFFFD', '\uFFFD']).zipIdx.map
      fun unit => (toString unit.2, .str (String.singleton unit.1))
  | _ => []

/-- `v.name`, `undefined` where the value has no such property of its own. -/
def property (name : String) (v : Json) : Option Json := (entries v).lookup name

/-- `(v || {}).name || {}`: what has no properties has no entries either. -/
def nested (name : String) (v : Json) : Json := (property name v).getD .null

/-- A regular expression for a first letter or digit and up to 127 characters after it. -/
def named (extra : List Char) (text : String) : Bool :=
  match text.toList with
  | [] => false
  | c :: rest => c.isAlphanum && rest.length ≤ 127 && rest.all fun c => c.isAlphanum || extra.contains c

/-- `validId(PEER_ID_RE, …)`. -/
def validPeerId : String → Bool := named ['_', '.', ':', '-']

/-- `validId(SERVICE_RE, …)`. -/
def validService : String → Bool := named ['_', '.', ':', '@', '/', '+', '-']

section Number

variable (number : Json → Option Rat)

/-- `Number(undefined)` is `NaN`. -/
def numOr0 (v : Option Json) : Rat := (v.bind number).getD 0

def numOrNull : Option Json → Option Rat
  | none | some .null => none
  | some v => number v

/-- Cut to an integer after the test, so that a half is 0. -/
def posIntOrNull (v : Option Json) : Option Int :=
  match v.bind number with
  | some n => if 0 < n then some (towardZero n) else none
  | none => none

/-- The parameters of one `UPSERT`, without its time. -/
structure Params where
  peerId : String
  service : String
  priceIn : Rat
  priceOut : Rat
  priceCachedIn : Option Rat
  maxConcurrency : Option Int
  reputation : Option Rat
  lastSeen : Option Rat
  lastReachedAt : Option Rat
  protocols : Option (List String)
  deriving DecidableEq, Repr

def stringOf : Json → Option String
  | .str text => some text
  | _ => none

/-- `protocols`: an array of strings, else null. -/
def protocolsOf : Option Json → Option (List String)
  | some (.arr items) => items.mapM stringOf
  | _ => none

/-- The row of one service. Reading a price of `null` throws. -/
def serviceRow (peer : Json) (peerId provider service : String) : Json → Option Params
  | .null => none
  | sp => some
    { peerId := peerId
      service := service
      priceIn := numOr0 number (property "inputUsdPerMillion" sp)
      priceOut := numOr0 number (property "outputUsdPerMillion" sp)
      priceCachedIn := numOrNull number (property "cachedInputUsdPerMillion" sp)
      maxConcurrency := posIntOrNull number (property "maxConcurrency" peer)
      reputation := numOrNull number (property "onChainReputationScore" peer)
      lastSeen := numOrNull number (property "lastSeen" peer)
      lastReachedAt := numOrNull number (property "lastReachedAt" peer)
      protocols := protocolsOf (property service
        (nested "services" (nested provider (nested "providerServiceApiProtocols" peer)))) }

/-- The rows of one peer; `none` where the script throws. -/
def peerRows (peer : Json) : Option (List Params) :=
  match property "peerId" peer with
  | some (.str peerId) =>
    if validPeerId peerId then
      (((entries (nested "providerPricing" peer)).flatMap fun pricing =>
        ((entries (nested "services" pricing.2)).filter fun sp => validService sp.1).map fun sp => (pricing.1, sp)).mapM
          fun entry => serviceRow number peer peerId entry.1 entry.2.1 entry.2.2)
    else some []
  | _ => some []

/-- The rows of a dump; `none` where it is none (exit 3) or the script throws. -/
def rowsOf (dump : Json) : Option (List Params) :=
  match property "peers" dump with
  | some (.arr peers) => (peers.mapM (peerRows number)).map List.flatten
  | _ => none

end Number

/-! ## The table -/

/-- What a committed `UPSERT` announces. -/
structure Sighting where
  peerId : String
  service : String
  priceIn : Rat
  priceOut : Rat
  priceCachedIn : Option Rat
  maxConcurrency : Option Int
  reputation : Option Rat
  lastSeen : Option Int
  lastReachedAt : Option Int
  protocols : Option (List String)
  now : Int
  deriving DecidableEq, Repr

/-- A row of `peer_offers`, beside its key. -/
structure Stored where
  priceIn : Rat
  priceOut : Rat
  priceCachedIn : Option Rat
  maxConcurrency : Option Int
  reputation : Option Rat
  lastSeen : Option Int
  lastReachedAt : Option Int
  observedAt : Int
  firstSeen : Int
  fetchedAt : Int
  protocols : Option (List String)
  deriving DecidableEq, Repr

abbrev PairKey : Type := String × String

abbrev Statement : Type := Window.Write PairKey Sighting

/-- An `INTEGER` or a `BIGINT`: the database refuses a fraction and what is too wide. -/
def column (bits : Nat) (q : Rat) : Option Int :=
  if q.den = 1 ∧ -2 ^ (bits - 1) ≤ q.num ∧ q.num < 2 ^ (bits - 1) then some q.num else none

/-- A nullable column. -/
def nullable (bits : Nat) : Option Rat → Option (Option Int)
  | none => some none
  | some q => (column bits q).map some

/-- The statement as the database takes it, if it does. -/
def Params.sighting (now : Int) (p : Params) : Option Sighting :=
  match nullable 32 (p.maxConcurrency.map fun n => (n : Rat)), nullable 64 p.lastSeen, nullable 64 p.lastReachedAt with
  | some maxConcurrency, some lastSeen, some lastReachedAt =>
    some ⟨p.peerId, p.service, p.priceIn, p.priceOut, p.priceCachedIn, maxConcurrency, p.reputation, lastSeen,
      lastReachedAt, p.protocols, now⟩
  | _, _, _ => none

def Sighting.put (s : Sighting) : Statement := .put (s.peerId, s.service) s

/-- `ON CONFLICT (peer_id, service) DO UPDATE SET …`. -/
def upsert (s : Sighting) (old : Option Stored) : Stored :=
  { priceIn := s.priceIn
    priceOut := s.priceOut
    priceCachedIn := s.priceCachedIn
    maxConcurrency := s.maxConcurrency
    reputation := s.reputation
    lastSeen := s.lastSeen
    lastReachedAt := s.lastReachedAt.or (old.bind (·.lastReachedAt))
    observedAt := s.now
    firstSeen := (old.map (·.firstSeen)).getD s.now
    fetchedAt := s.now
    protocols := s.protocols.or (old.bind (·.protocols)) }

def bookRule : Window.Rule Sighting Stored := ⟨upsert, (·.now), (·.observedAt), fun _ _ => rfl⟩

/-- The statements a list of attempts commits: those before the first that fails. -/
def untilRefused {α : Type} : List (Option α) → List α
  | some a :: rest => a :: untilRefused rest
  | _ => []

/-- One run of the writer. -/
structure Run where
  now : Int
  /-- What the CLI printed, where it is JSON. -/
  dump : Option Json
  /-- How many queries go out before the connection is lost. -/
  reach : Nat

section Run

variable (number : Json → Option Rat) (windowMs : Int)

/-- The queries of a run, each as the statement it commits, if the database takes it. -/
def Run.script (run : Run) : List (Option Statement) :=
  match run.dump.bind (rowsOf number) with
  | some rows => rows.map (fun row => (row.sighting run.now).map Sighting.put) ++ [some (.prune (run.now - windowMs))]
  | none => []

/-- The statements that commit. -/
def Run.committed (run : Run) : List Statement := untilRefused ((run.script number windowMs).take run.reach)

end Run

/-! ## The reader -/

/-- `STALE_AFTER_S * 1000`. -/
def staleAfterMs : Int := 900 * 1000

/-- `peer_offers(window_ms)` of the table, or of no answer of the store; the order of the rows is the database's. -/
def peerOffers (now window : Int) : Option (List (PairKey × Stored)) → List (PairKey × Stored)
  | some table => Window.recent bookRule (now - max 0 window) table
  | none => []

/-- A row as `offers_sync` reads it. -/
def marketRow (entry : PairKey × Stored) : OfferSelection.Row :=
  { peerId := entry.1.1
    service := entry.1.2
    priceIn := entry.2.priceIn
    priceOut := entry.2.priceOut
    priceCachedIn := entry.2.priceCachedIn
    maxConcurrency := entry.2.maxConcurrency
    reputation := entry.2.reputation
    lastReachedAt := entry.2.lastReachedAt
    decisionFamily := none }

/-- A row of the decision catalog. -/
structure DecisionRow where
  peerId : String
  service : String
  priceIn : Rat
  priceOut : Rat
  priceCachedIn : Option Rat
  reputation : Option Rat
  decisionFamily : String

/-- `{**old, **row}`. -/
def DecisionRow.merged (raw : List (PairKey × Stored)) (row : DecisionRow) : OfferSelection.Row :=
  let old := raw.lookup (row.peerId, row.service)
  { peerId := row.peerId
    service := row.service
    priceIn := row.priceIn
    priceOut := row.priceOut
    priceCachedIn := row.priceCachedIn
    maxConcurrency := old.bind (·.maxConcurrency)
    reputation := row.reputation
    lastReachedAt := old.bind (·.lastReachedAt)
    decisionFamily := some row.decisionFamily }

/-- `_decision_names`, `known_decision_model` and `_decision_rows[provider_id]` with its age in seconds. -/
structure Decisions where
  names : List String
  known : String → Bool
  rows : List DecisionRow
  age : Rat

/-- `_market_for_provider`. -/
def marketForProvider (d : Decisions) (raw : List (PairKey × Stored)) : List OfferSelection.Row :=
  ((raw.filter fun entry => entry.1.2 ∉ d.names ∧ d.known entry.1.2 = false ∧
      "typesafe-systemone" ∉ entry.2.protocols.getD []).map marketRow) ++
    (if 900 < d.age then [] else d.rows).map (·.merged raw)

end Unhardcoded.Source.MarketBook
