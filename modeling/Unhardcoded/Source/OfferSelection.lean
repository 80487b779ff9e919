import Mathlib.Data.Prod.Lex
import Mathlib.Data.String.Basic
import Unhardcoded.Source.CuratedIndex
import Unhardcoded.Source.PeerHealth

/-!
# The offers of the AntSeed market

Source: `offers_sync` of sources/antseed.py up to `kept_rows`, with the counters of the
tick. Each kept row becomes one offer; what an offer adds from the catalog, the trait
oracle and the route statistics, and the ranking of `unbound_top`, are left out. Prices,
caps, balances and reputations are finite numbers, a missing cap is no cap. The
settings lie in the ranges of their schema; a provider outside the configuration, which
has no offers, is left out.
-/

namespace Unhardcoded.Source.OfferSelection

open CuratedIndex PeerHealth Python

/-- A market row; `decisionFamily` is there for the protocol `decisions`. -/
structure Row where
  peerId : String
  service : String
  priceIn : Rat
  priceOut : Rat
  priceCachedIn : Option Rat
  maxConcurrency : Option Int
  reputation : Option Rat
  lastReachedAt : Option Int
  decisionFamily : Option String
  deriving DecidableEq, Repr

structure Settings where
  minAvailableUsdc : Rat
  reputationMin : Rat
  peerAllowlist : List String
  peerDenylist : List String
  offersTopN : Nat
  inRange : 1 ≤ offersTopN ∧ offersTopN ≤ 10

/-- A provider's entry of the configuration. -/
structure Provider where
  capIn : Option Rat
  capOut : Option Rat
  serviceAliases : List (String × String)

/-- What one call reads beside the market: the buyer's status, the clock, the route health. -/
structure Reading where
  pinnedPeerId : Option String
  depositsAvailable : Option Rat
  nowMs : Nat
  routes : List (HealthKey × HealthState)
  peers : List (HealthKey × HealthState)

/-- `bound`. -/
structure Route where
  family : String
  baseFamily : Option String
  variant : Option String
  deriving DecidableEq, Repr

/-- `{**row, **bound, …}`. -/
structure Candidate extends Row, Route where
  healthTier : Nat
  reachabilityTier : Nat
  deriving DecidableEq, Repr

/-- The counters of a tick and its rows by family. -/
structure Tick where
  uncurated : Nat
  rejectedByBuyer : Nat
  rejectedByReputation : Nat
  denied : Nat
  coolingDown : Nat
  halfOpen : Nat
  staleReachability : Nat
  unbound : List (String × List String)
  byFamily : List (String × List Candidate)

def Tick.start : Tick := ⟨0, 0, 0, 0, 0, 0, 0, [], []⟩

/-- The sort key, its parts compared from the first to the last. -/
abbrev Rank : Type := Nat ×ₗ Nat ×ₗ Bool ×ₗ Rat ×ₗ Rat ×ₗ Rat ×ₗ String ×ₗ String

def Candidate.rank (c : Candidate) : Rank :=
  toLex (c.healthTier, toLex (c.reachabilityTier, toLex (c.reputation.isNone, toLex (-(c.reputation.getD 0),
    toLex (c.priceIn, toLex (c.priceOut, toLex (c.peerId, c.service)))))))

/-- `rows.sort(key=…)`. -/
def inOrder (rows : List Candidate) : List Candidate := rows.insertionSort fun a b => a.rank ≤ b.rank

/-- The loop over a family's sorted rows. -/
def keepPeers (topN : Nat) : List String → List Candidate → List Candidate
  | _, [] => []
  | seenPeers, r :: rest =>
    if r.peerId ∈ seenPeers then keepPeers topN seenPeers rest
    else r :: if topN ≤ seenPeers.length + 1 then [] else keepPeers topN (r.peerId :: seenPeers) rest

section Market

variable (lower : String → String) (cat : Catalog) (providerId : String) (cfg : Provider) (settings : Settings)
  (reading : Reading)

/-- The route a row is bound to, if any. -/
def bindRow (row : Row) : Option Route :=
  match row.decisionFamily with
  | some family => some ⟨family, none, none⟩
  | none => (bind lower cat cfg.serviceAliases row.service).map fun b => ⟨b.family, some b.baseFamily, b.variant⟩

/-- The route a row is offered under: an unbound one under its raw wire name. -/
def routeOf (row : Row) : Route := (bindRow lower cat cfg row).getD ⟨row.service, none, none⟩

def routeHealth (row : Row) : Option HealthState :=
  reading.routes.lookup (.route (routeKey providerId (routeOf lower cat cfg row).family row.peerId))

def peerHealth (row : Row) : Option HealthState := reading.peers.lookup (.peer (some row.peerId))

/-- The row with its route and its tiers. -/
def candidate (row : Row) : Candidate :=
  { row, routeOf lower cat cfg row with
    healthTier := max (routeHealthTier (routeHealth lower cat providerId cfg reading row))
      (routeHealthTier (peerHealth reading row))
    reachabilityTier := reachabilityTier row.lastReachedAt reading.nowMs }

/-- `uncurated += 1; unbound.setdefault(…).add(…)` for a row that is not bound. -/
def Tick.countUnbound (t : Tick) (row : Row) : Tick :=
  if (bindRow lower cat cfg row).isSome then t
  else
    { t with
      uncurated := t.uncurated + 1
      unbound := insert row.service (addClaim ((t.unbound.lookup row.service).getD []) row.peerId) t.unbound }

/-- `by_family.setdefault(family, []).append(…)` with the counters of a row that is offered. -/
def Tick.file (t : Tick) (c : Candidate) : Tick :=
  { t with
    halfOpen := if c.healthTier = 2 then t.halfOpen + 1 else t.halfOpen
    staleReachability := if c.reachabilityTier = 2 then t.staleReachability + 1 else t.staleReachability
    byFamily := insert c.family ((t.byFamily.lookup c.family).getD [] ++ [c]) t.byFamily }

/-- One row of the market loop. -/
def scanRow (t : Tick) (row : Row) : Tick :=
  if reading.pinnedPeerId.any (fun pinned => pinned ≠ "" ∧ row.peerId ≠ pinned) then t
  else if row.peerId ∈ settings.peerDenylist ∨
      (settings.peerAllowlist ≠ [] ∧ row.peerId ∉ settings.peerAllowlist) then
    { t with denied := t.denied + 1 }
  else if 0 < settings.reputationMin ∧ row.reputation.any (· < settings.reputationMin) then
    { t with rejectedByReputation := t.rejectedByReputation + 1 }
  else if row.priceIn < 0 ∨ row.priceOut < 0 then t
  else if cfg.capIn.any (· < row.priceIn) ∨ cfg.capOut.any (· < row.priceOut) then t
  else if row.priceCachedIn.any (row.priceIn < ·) then { t with rejectedByBuyer := t.rejectedByBuyer + 1 }
  else
    let t := t.countUnbound lower cat cfg row
    if coolingDown reading.nowMs (routeHealth lower cat providerId cfg reading row) (peerHealth reading row) then
      { t with coolingDown := t.coolingDown + 1 }
    else t.file (candidate lower cat providerId cfg reading row)

/-- The funds tourniquet; an unknown balance does not suppress. -/
def suppressed : Bool := reading.depositsAvailable.any (· < settings.minAvailableUsdc)

/-- `offers_sync`: the tick and `kept_rows`. -/
def offersSync (market : List Row) : Tick × List Candidate :=
  if suppressed settings reading then (Tick.start, [])
  else
    let tick := market.foldl (scanRow lower cat providerId cfg settings reading) Tick.start
    (tick, tick.byFamily.flatMap fun entry => keepPeers settings.offersTopN [] (inOrder entry.2))

end Market

end Unhardcoded.Source.OfferSelection
