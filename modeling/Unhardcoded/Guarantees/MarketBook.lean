import Unhardcoded.Guarantees.OfferSelection
import Unhardcoded.Python.Lists
import Unhardcoded.Source.MarketBook

/-!
# The market book is what the browses of the window announced

A run commits sightings of the pairs its dump announces and then, if it gets there, one
prune (`committed_from`). Whatever runs write, in whatever order and up to wherever each of
them fails, a read within the window finds one row a pair, made of the sightings since
the pair was last dropped (`book_window`); what `offers_sync` keeps of it was announced
within the window under names and prices that pass the gates (`offers_announced`).
-/

namespace Unhardcoded.Guarantees.MarketBook
open Source Source.MarketBook Effects Effects.Window Python

/-! ## What a run commits -/

theorem mem_untilRefused {α : Type} {attempts : List (Option α)} {a : α} (mem : a ∈ untilRefused attempts) :
    some a ∈ attempts := by
  induction attempts with
  | nil => cases mem
  | cons attempt rest ih =>
    cases attempt with
    | none => cases mem
    | some first =>
      rcases List.mem_cons.mp mem with rfl | later
      · exact List.mem_cons_self
      · exact List.mem_cons_of_mem _ (ih later)

/-- The sighting says what the row says. -/
structure Announces (s : Sighting) (p : Params) (now : Int) : Prop where
  peerId : s.peerId = p.peerId
  service : s.service = p.service
  priceIn : s.priceIn = p.priceIn
  priceOut : s.priceOut = p.priceOut
  priceCachedIn : s.priceCachedIn = p.priceCachedIn
  reputation : s.reputation = p.reputation
  protocols : s.protocols = p.protocols
  now : s.now = now

theorem announces_sighting {p : Params} {now : Int} {s : Sighting} (taken : p.sighting now = some s) :
    Announces s p now := by
  unfold Params.sighting at taken
  split at taken
  · rw [Option.some.injEq] at taken
    subst taken
    exact ⟨rfl, rfl, rfl, rfl, rfl, rfl, rfl, rfl⟩
  · cases taken

section Rows

variable (number : Json → Option Rat) (windowMs : Int)

theorem serviceRow_names {peer : Json} {peerId provider service : String} {sp : Json} {p : Params}
    (row : serviceRow number peer peerId provider service sp = some p) : p.peerId = peerId ∧ p.service = service := by
  cases sp <;> cases row <;> exact ⟨rfl, rfl⟩

/-- A row of a dump has the id of a peer of the dump and the name of a service, both of them valid. -/
theorem names_valid {dump : Json} {rows : List Params} (parsed : rowsOf number dump = some rows) {p : Params} (mem : p ∈ rows) :
    validPeerId p.peerId = true ∧ validService p.service = true := by
  unfold rowsOf at parsed
  split at parsed
  · obtain ⟨parts, each, rfl⟩ := Option.map_eq_some_iff.mp parsed
    obtain ⟨part, inParts, within⟩ := List.mem_flatten.mp mem
    obtain ⟨peer, -, made⟩ := mem_mapM each inParts
    unfold peerRows at made
    split at made
    · split at made
      · rename_i peerId _ valid
        obtain ⟨entry, inEntries, row⟩ := mem_mapM made within
        obtain ⟨names, service⟩ := serviceRow_names number row
        obtain ⟨pricing, -, inServices⟩ := List.mem_flatMap.mp inEntries
        obtain ⟨sp, inFilter, rfl⟩ := List.mem_map.mp inServices
        rw [names, service]
        exact ⟨valid, (List.mem_filter.mp inFilter).2⟩
      · cases made
        cases within
    · cases made
      cases within
  · cases parsed

/-- A statement of a run is the sighting of a row of its dump or its prune. -/
theorem committed_from {run : Run} {w : Statement} (mem : w ∈ run.committed number windowMs) :
    (∃ s dump rows, w = s.put ∧ run.dump = some dump ∧ rowsOf number dump = some rows ∧ ∃ p ∈ rows, Announces s p run.now) ∨
      w = .prune (run.now - windowMs) := by
  have attempted := List.mem_of_mem_take (mem_untilRefused mem)
  unfold Run.script at attempted
  split at attempted
  · rename_i rows parsed
    obtain ⟨dump, dumped, parsed⟩ := Option.bind_eq_some_iff.mp parsed
    rcases List.mem_append.mp attempted with put | prune
    · obtain ⟨p, inRows, taken⟩ := List.mem_map.mp put
      obtain ⟨s, sighting, rfl⟩ := Option.map_eq_some_iff.mp taken
      exact .inl ⟨s, dump, rows, rfl, dumped, parsed, p, inRows, announces_sighting sighting⟩
    · exact .inr (Option.some.inj (List.mem_singleton.mp prune))
  · cases attempted

/-! ## What a read finds -/

/-- The row of a pair sighted like this: announced last, the two kept columns by the last
sighting that has them, first seen by the first. -/
def bookRow (seen : List Sighting) (s : Sighting) : Stored :=
  { priceIn := s.priceIn
    priceOut := s.priceOut
    priceCachedIn := s.priceCachedIn
    maxConcurrency := s.maxConcurrency
    reputation := s.reputation
    lastSeen := s.lastSeen
    lastReachedAt := ((seen ++ [s]).filterMap (·.lastReachedAt)).getLast?
    observedAt := s.now
    firstSeen := ((seen ++ [s]).head (by simp)).now
    fetchedAt := s.now
    protocols := ((seen ++ [s]).filterMap (·.protocols)).getLast? }

/-- A column that a null does not overwrite holds its last value. -/
theorem getLast_filterMap_append {α β : Type} (f : α → Option β) (l : List α) (a : α) :
    ((l ++ [a]).filterMap f).getLast? = (f a).or (l.filterMap f).getLast? := by
  rw [List.filterMap_append]
  cases value : f a with
  | none => rw [List.filterMap_cons_none value, List.filterMap_nil, List.append_nil, Option.none_or]
  | some b => rw [List.filterMap_cons_some value, List.filterMap_nil, List.getLast?_concat, Option.some_or]

theorem rowOf_sightings (seen : List Sighting) (s : Sighting) :
    rowOf bookRule (seen ++ [s]) = some (bookRow seen s) := by
  rw [rowOf_append]
  induction seen using List.reverseRecOn generalizing s with
  | nil =>
    cases s
    rename_i lastReachedAt protocols _
    cases lastReachedAt <;> cases protocols <;> rfl
  | append_singleton seen earlier ih =>
    rw [rowOf_append, ih earlier]
    have first : ((seen ++ [earlier] ++ [s]).head (by simp)).now = ((seen ++ [earlier]).head (by simp)).now := by
      rw [List.head_append_of_ne_nil]
    simp only [bookRule, upsert, bookRow, Option.bind_some, Option.map_some, Option.getD_some,
      getLast_filterMap_append _ (seen ++ [earlier]), first]

/-- The last sighting of a pair, and it lies in the window. -/
structure Recent (history : List Statement) (cutoff : Int) (key : PairKey) (s : Sighting) : Prop where
  last : (history.filterMap (puts key)).getLast? = some s
  fresh : cutoff ≤ s.now

section Committed

variable {runs : List Run} {history : List Statement} (ran : ∀ w ∈ history, ∃ run ∈ runs, w ∈ run.committed number windowMs)

include ran

theorem pruned_earlier {cutoff : Int} (unpruned : ∀ run ∈ runs, run.now - windowMs ≤ cutoff) (c : Int)
    (mem : Write.prune c ∈ history) : c ≤ cutoff := by
  obtain ⟨run, inRuns, committed⟩ := ran _ mem
  rcases committed_from number windowMs committed with ⟨s, _, _, put, _⟩ | prune
  · cases put
  · cases prune
    exact unpruned run inRuns

/-- A pair that was last sighted in the window has not been dropped since, and its row is read. -/
theorem recent_read {now window : Int} (unpruned : ∀ run ∈ runs, run.now - windowMs ≤ now - max 0 window) {key : PairKey}
    {s : Sighting} (found : Recent history (now - max 0 window) key s) :
    ∃ seen, since bookRule key history = seen ++ [s] ∧
      (key, bookRow seen s) ∈ peerOffers now window (some (play bookRule history)) := by
  have earlier := pruned_earlier number windowMs ran unpruned
  obtain ⟨sinceLast, -⟩ := (last_since bookRule earlier key s).mpr ⟨found.last, found.fresh⟩
  obtain ⟨seen, split⟩ := List.getLast?_eq_some_iff.mp sinceLast
  refine ⟨seen, split, ?_⟩
  rw [peerOffers, mem_recent bookRule earlier]
  exact ⟨s, found.last, found.fresh, by rw [split, rowOf_sightings]⟩

/-- A row that is read is of a pair that was last sighted in the window. -/
theorem read_recent {now window : Int} (unpruned : ∀ run ∈ runs, run.now - windowMs ≤ now - max 0 window) {key : PairKey}
    {row : Stored} (mem : (key, row) ∈ peerOffers now window (some (play bookRule history))) :
    ∃ seen s, Recent history (now - max 0 window) key s ∧ since bookRule key history = seen ++ [s] ∧ row = bookRow seen s := by
  have earlier := pruned_earlier number windowMs ran unpruned
  rw [peerOffers, mem_recent bookRule earlier] at mem
  obtain ⟨s, last, fresh, held⟩ := mem
  obtain ⟨sinceLast, -⟩ := (last_since bookRule earlier key s).mpr ⟨last, fresh⟩
  obtain ⟨seen, split⟩ := List.getLast?_eq_some_iff.mp sinceLast
  rw [split, rowOf_sightings, Option.some_inj] at held
  exact ⟨seen, s, ⟨last, fresh⟩, split, held.symm⟩

/-- A sighting of a pair is a row of a run's dump. -/
theorem sighted {key : PairKey} {s : Sighting} (mem : s ∈ since bookRule key history) :
    (s.peerId, s.service) = key ∧ validPeerId s.peerId = true ∧ validService s.service = true ∧
      ∃ run ∈ runs, ∃ dump rows, run.dump = some dump ∧ rowsOf number dump = some rows ∧ ∃ p ∈ rows, Announces s p run.now := by
  obtain ⟨w, inHistory, put⟩ := List.mem_filterMap.mp ((since_suffix bookRule key history).subset mem)
  obtain ⟨run, inRuns, committed⟩ := ran w inHistory
  rcases committed_from number windowMs committed with ⟨s', dump, rows, rfl, dumped, parsed, p, inRows, announces⟩ | rfl
  · rw [Sighting.put, puts] at put
    split at put
    · rename_i same
      cases put
      have valid := names_valid number parsed inRows
      rw [← announces.peerId, ← announces.service] at valid
      exact ⟨same, valid.1, valid.2, run, inRuns, dump, rows, dumped, parsed, p, inRows, announces⟩
    · cases put
  · cases put

end Committed

/-- However the statements of the runs interleave and wherever each run fails: a read from
which no run has pruned finds one row for each pair whose last sighting lies in its window,
and none else, made of the sightings since the pair was last dropped; each of them is a row
of a run's dump. -/
theorem book_window {runs : List Run} {history : List Statement}
    (ran : ∀ w ∈ history, ∃ run ∈ runs, w ∈ run.committed number windowMs) {now window : Int}
    (unpruned : ∀ run ∈ runs, run.now - windowMs ≤ now - max 0 window) :
    ((peerOffers now window (some (play bookRule history))).map (·.1)).Nodup ∧
      (∀ key s, Recent history (now - max 0 window) key s → ∃ seen, since bookRule key history = seen ++ [s] ∧
        (key, bookRow seen s) ∈ peerOffers now window (some (play bookRule history))) ∧
      (∀ key row, (key, row) ∈ peerOffers now window (some (play bookRule history)) →
        ∃ seen s, Recent history (now - max 0 window) key s ∧ since bookRule key history = seen ++ [s] ∧ row = bookRow seen s) ∧
      ∀ key, ∀ s ∈ since bookRule key history, (s.peerId, s.service) = key ∧
        validPeerId s.peerId = true ∧ validService s.service = true ∧
        ∃ run ∈ runs, ∃ dump rows, run.dump = some dump ∧ rowsOf number dump = some rows ∧ ∃ p ∈ rows, Announces s p run.now :=
  ⟨nodup_filter (nodup_play bookRule history) _, fun _ _ => recent_read number windowMs ran unpruned,
    fun _ _ => read_recent number windowMs ran unpruned, fun _ _ => sighted number windowMs ran⟩

/-- The conversion of integers. -/
def integers : Json → Option Rat
  | .int n => some n
  | _ => none

/-- A dump of one peer. -/
def dumpOf (reached : Json) (services : List (String × Json)) : Json :=
  .obj [("peers", .arr [.obj [("peerId", .str "peer"), ("lastReachedAt", reached),
    ("providerPricing", .obj [("seller", .obj [("services", .obj services)])])]])]

/-- A run that loses its connection behind its first row. -/
def brokenRun : Run where
  now := 1000
  dump := some (dumpOf .null [("model", .obj [("inputUsdPerMillion", .int 3)]), ("other", .obj [])])
  reach := 1

def wholeRun : Run where
  now := 2000
  dump := some (dumpOf (.int 7) [("model", .obj [("inputUsdPerMillion", .int 4)])])
  reach := 2

def later : Sighting := ⟨"peer", "model", 4, 0, none, none, none, none, some 7, none, 2000⟩

def earlier : Sighting := ⟨"peer", "model", 3, 0, none, none, none, none, none, none, 1000⟩

/-- The row of the earlier run commits between the two statements of the later one. -/
def interleaved : List Statement := [later.put, earlier.put, .prune (2000 - 900000)]

theorem interleaved_ran : ∀ w ∈ interleaved, ∃ run ∈ [brokenRun, wholeRun], w ∈ run.committed integers 900000 := by
  have broken : brokenRun.committed integers 900000 = [earlier.put] := by decide +kernel
  have whole : wholeRun.committed integers 900000 = [later.put, .prune (2000 - 900000)] := by decide +kernel
  intro w mem
  simp only [interleaved, List.mem_cons, List.not_mem_nil, or_false] at mem
  rcases mem with rfl | rfl | rfl
  · exact ⟨wholeRun, by simp, by simp [whole]⟩
  · exact ⟨brokenRun, by simp, by simp [broken]⟩
  · exact ⟨wholeRun, by simp, by simp [whole]⟩

theorem interleaved_recent : Recent interleaved (5000 - staleAfterMs) ("peer", "model") earlier :=
  ⟨by decide +kernel, by decide⟩

theorem interleaved_since : since bookRule ("peer", "model") interleaved = [later] ++ [earlier] := by decide +kernel

/-- What the failed run announced last, and when the peer was reached from the other. -/
theorem book_window_browse : (("peer", "model"), bookRow [later] earlier) ∈
      peerOffers 5000 staleAfterMs (some (play bookRule interleaved)) ∧
    (bookRow [later] earlier).priceIn = 3 ∧ (bookRow [later] earlier).lastReachedAt = some 7 := by
  have unpruned : ∀ run ∈ [brokenRun, wholeRun], run.now - 900000 ≤ 5000 - max 0 staleAfterMs := by decide
  obtain ⟨seen, split, read⟩ := (book_window integers 900000 interleaved_ran unpruned).2.1 _ _ interleaved_recent
  obtain rfl : seen = [later] := List.append_cancel_right (split.symm.trans interleaved_since)
  exact ⟨read, rfl, rfl⟩

/-! ## What the market offers of it -/

/-- A row that is not of a decision service. -/
def Chat (d : Decisions) (entry : PairKey × Stored) : Prop :=
  entry.1.2 ∉ d.names ∧ d.known entry.1.2 = false ∧ "typesafe-systemone" ∉ entry.2.protocols.getD []

theorem mem_market {d : Decisions} {raw : List (PairKey × Stored)} {row : OfferSelection.Row} (chat : row.decisionFamily = none)
    (mem : row ∈ marketForProvider d raw) : ∃ entry ∈ raw, Chat d entry ∧ row = marketRow entry := by
  rcases List.mem_append.mp mem with plain | decision
  · obtain ⟨entry, kept, rfl⟩ := List.mem_map.mp plain
    obtain ⟨inRaw, passes⟩ := List.mem_filter.mp kept
    rw [decide_eq_true_eq] at passes
    exact ⟨entry, inRaw, passes, rfl⟩
  · obtain ⟨other, -, rfl⟩ := List.mem_map.mp decision
    cases chat

theorem market_mem {d : Decisions} {raw : List (PairKey × Stored)} {entry : PairKey × Stored} (mem : entry ∈ raw)
    (chat : Chat d entry) : marketRow entry ∈ marketForProvider d raw :=
  List.mem_append_left _ (List.mem_map_of_mem (List.mem_filter.mpr ⟨mem, by rwa [decide_eq_true_eq]⟩))

variable (lower : String → String) (cat : CuratedIndex.Catalog) (providerId : String) (cfg : OfferSelection.Provider)
  (settings : OfferSelection.Settings) (reading : OfferSelection.Reading)

open OfferSelection Guarantees.OfferSelection in
theorem kept_gated {market : List OfferSelection.Row} {c : Candidate}
    (mem : c ∈ (offersSync lower cat providerId cfg settings reading market).2) :
    ∃ row ∈ market, Gated lower cat providerId cfg settings reading row ∧
      candidate lower cat providerId cfg reading row = c := by
  have ofFamily : c ∈ (offersSync lower cat providerId cfg settings reading market).2.filter fun other => other.family = c.family :=
    List.mem_filter.mpr ⟨mem, decide_eq_true rfl⟩
  rw [kept_family] at ofFamily
  have gated := mem_inOrder.mp ((distinctPeers_sublist _).subset (List.mem_of_mem_take ofFamily))
  exact mem_gatedRows lower cat providerId cfg settings reading (List.mem_filter.mp gated).1

open OfferSelection Guarantees.OfferSelection in
/-- Whatever browses the sidecars committed, in whatever order the database lists the read and if
it answers: a chat offer was last announced within the window, as the row it is offered with,
and passes the gates; and where the read did not fail, a pair that was, and passes them, is
offered unless its peer has a row at least as good or its family is full of rows at least as
good. -/
theorem offers_announced {runs : List Run} {history : List Statement}
    (ran : ∀ w ∈ history, ∃ run ∈ runs, w ∈ run.committed number windowMs) {now : Int}
    (unpruned : ∀ run ∈ runs, run.now - windowMs ≤ now - staleAfterMs) {table : Option (List (PairKey × Stored))}
    (store : ∀ rows ∈ table, rows = play bookRule history) {raw : List (PairKey × Stored)}
    (listed : raw.Perm (peerOffers now staleAfterMs table)) (d : Decisions) :
    let kept := (offersSync lower cat providerId cfg settings reading (marketForProvider d raw)).2
    (∀ c ∈ kept, c.decisionFamily = none → table.isSome = true ∧
      ∃ seen s, Recent history (now - staleAfterMs) (c.peerId, c.service) s ∧
        since bookRule (c.peerId, c.service) history = seen ++ [s] ∧
        validPeerId c.peerId = true ∧ validService c.service = true ∧ Chat d ((c.peerId, c.service), bookRow seen s) ∧
        c = candidate lower cat providerId cfg reading (marketRow ((c.peerId, c.service), bookRow seen s)) ∧
        Gated lower cat providerId cfg settings reading c.toRow) ∧
    (table.isSome = true → ∀ key s, Recent history (now - staleAfterMs) key s →
      ∃ seen, since bookRule key history = seen ++ [s] ∧ (Chat d (key, bookRow seen s) →
        Gated lower cat providerId cfg settings reading (marketRow (key, bookRow seen s)) →
        let r := candidate lower cat providerId cfg reading (marketRow (key, bookRow seen s))
        let ofFamily := kept.filter fun c => c.family = r.family
        (∃ c ∈ ofFamily, c.peerId = key.1 ∧ c.rank ≤ r.rank) ∨
          (ofFamily.length = settings.offersTopN ∧ ∀ c ∈ ofFamily, c.rank ≤ r.rank))) := by
  intro kept
  cases table with
  | none =>
    obtain rfl : raw = [] := List.perm_nil.mp listed
    refine ⟨fun c mem chat => ?_, fun no => by cases no⟩
    obtain ⟨row, inMarket, -, rfl⟩ := kept_gated lower cat providerId cfg settings reading mem
    obtain ⟨entry, impossible, -⟩ := mem_market chat inMarket
    cases impossible
  | some rows =>
    obtain rfl := store rows rfl
    constructor
    · intro c mem chat
      obtain ⟨row, inMarket, passes, rfl⟩ := kept_gated lower cat providerId cfg settings reading mem
      obtain ⟨entry, inRaw, plain, rfl⟩ := mem_market chat inMarket
      obtain ⟨seen, s, found, split, same⟩ := read_recent number windowMs ran unpruned (listed.mem_iff.mp inRaw)
      have inSince : s ∈ since bookRule entry.1 history := split ▸ List.mem_append_right _ List.mem_cons_self
      obtain ⟨names, validPeer, validName, -⟩ := sighted number windowMs ran inSince
      have whole : entry = (entry.1, bookRow seen s) := by rw [← same]
      rw [← names] at whole found split
      rw [whole] at plain passes ⊢
      exact ⟨rfl, seen, s, found, split, validPeer, validName, plain, rfl, passes⟩
    · intro _ key s found
      have found : Recent history (now - max 0 staleAfterMs) key s := found
      obtain ⟨seen, split, read⟩ := recent_read number windowMs ran unpruned found
      refine ⟨seen, split, ?_⟩
      intro plain passes r ofFamily
      have inRows : r ∈ familyRows lower cat providerId cfg settings reading (marketForProvider d raw) r.family :=
        List.mem_filter.mpr ⟨List.mem_map_of_mem (List.mem_filter.mpr ⟨market_mem (listed.mem_iff.mpr read) plain,
          by simpa using passes⟩), decide_eq_true rfl⟩
      exact kept_before lower cat providerId cfg settings reading inRows

end Rows

/-- A provider without caps, no catalog, no operator's lists and one offer a family. -/
def plainProvider : OfferSelection.Provider := ⟨none, none, []⟩

def plainSettings : OfferSelection.Settings := ⟨0, 0, [], [], 1, by decide⟩

def plainReading : OfferSelection.Reading := ⟨none, none, 5000, [], []⟩

def noModels : CuratedIndex.Catalog := ⟨[], List.nodup_nil⟩

def noDecisions : Decisions := ⟨[], fun _ => false, [], 0⟩

theorem earlier_gated : OfferSelection.Gated id noModels "antseed" plainProvider plainSettings plainReading
    (marketRow (("peer", "model"), bookRow [later] earlier)) where
  funded := by simp [plainReading]
  pinned := by simp [plainReading]
  allowed := by simp [plainSettings]
  listed := by simp [plainSettings]
  reputed := by simp [plainSettings]
  priced := by decide
  capped := by simp [plainProvider]
  cached := by simp [marketRow, bookRow, earlier]
  warm := by simp [OfferSelection.Cooling, plainReading, PeerHealth.coolingDown, PeerHealth.cooldownUntil]

/-- What the failed run announced is offered. -/
theorem offers_announced_browse :
    let book := peerOffers 5000 staleAfterMs (some (play bookRule interleaved))
    let r := OfferSelection.candidate id noModels "antseed" plainProvider plainReading
      (marketRow (("peer", "model"), bookRow [later] earlier))
    let ofFamily := (OfferSelection.offersSync id noModels "antseed" plainProvider plainSettings plainReading
      (marketForProvider noDecisions book)).2.filter fun c => c.family = r.family
    (∃ c ∈ ofFamily, c.peerId = "peer" ∧ c.rank ≤ r.rank) ∨ (ofFamily.length = 1 ∧ ∀ c ∈ ofFamily, c.rank ≤ r.rank) := by
  intro book r ofFamily
  have unpruned : ∀ run ∈ [brokenRun, wholeRun], run.now - 900000 ≤ 5000 - staleAfterMs := by decide
  have chat : Chat noDecisions (("peer", "model"), bookRow [later] earlier) :=
    ⟨List.not_mem_nil, rfl, by simp [bookRow, later, earlier]⟩
  have store : ∀ rows ∈ some (play bookRule interleaved), rows = play bookRule interleaved := fun _ mem =>
    (Option.some.inj mem).symm
  obtain ⟨seen, split, offered⟩ := (offers_announced integers 900000 id noModels "antseed" plainProvider plainSettings plainReading
    interleaved_ran unpruned store (List.Perm.refl book) noDecisions).2 rfl _ _ interleaved_recent
  obtain rfl : seen = [later] := List.append_cancel_right (split.symm.trans interleaved_since)
  exact offered chat earlier_gated

end Unhardcoded.Guarantees.MarketBook
