import Unhardcoded.Source.OfferSelection

/-!
# What the market offers, family by family

The rows that pass the gates (`Gated`), each with its route and its tiers, taken together
by family, sorted (`Precedes`), one row a peer, cut at `offers_top_n` (`keepPeers_eq`). The
loop's dictionary is the table of these groups whatever the counters do (`scan_byFamily`).
-/

namespace Unhardcoded.Guarantees.OfferSelection
open Source.OfferSelection Source.CuratedIndex Source.PeerHealth Effects.GroupBy Python

section Peers

/-- The first row of each peer, in order. -/
def distinctPeers : List Candidate → List Candidate
  | [] => []
  | r :: rest => r :: (distinctPeers rest).filter fun other => other.peerId ≠ r.peerId

theorem distinctPeers_sublist (rows : List Candidate) : (distinctPeers rows).Sublist rows := by
  induction rows with
  | nil => exact List.Sublist.slnil
  | cons r rest ih => exact (List.filter_sublist.trans ih).cons_cons r

theorem nodup_distinctPeers (rows : List Candidate) : ((distinctPeers rows).map (·.peerId)).Nodup := by
  induction rows with
  | nil => exact List.nodup_nil
  | cons r rest ih =>
    rw [distinctPeers, List.map_cons, List.nodup_cons]
    constructor
    · intro mem
      obtain ⟨other, within, same⟩ := List.mem_map.mp mem
      simp [same] at within
    · exact ih.sublist (List.filter_sublist.map _)

/-- A row stands for its peer where no earlier row is the peer's. -/
theorem find_of_mem_distinctPeers {rows : List Candidate} {r : Candidate} (h : r ∈ distinctPeers rows) :
    rows.find? (fun other => other.peerId = r.peerId) = some r := by
  induction rows with
  | nil => cases h
  | cons first rest ih =>
    rw [distinctPeers, List.mem_cons, List.mem_filter] at h
    obtain rfl | ⟨later, other⟩ := h
    · exact List.find?_cons_of_pos (by simp)
    · have differ : ¬ first.peerId = r.peerId := fun same => by simp [same] at other
      rw [List.find?_cons_of_neg (by simpa using differ)]
      exact ih later

/-- Every peer has its row. -/
theorem mem_peers_distinctPeers {rows : List Candidate} {r : Candidate} (h : r ∈ rows) :
    r.peerId ∈ (distinctPeers rows).map (·.peerId) := by
  induction rows with
  | nil => cases h
  | cons first rest ih =>
    rw [distinctPeers, List.map_cons, List.mem_cons]
    by_cases same : r.peerId = first.peerId
    · exact .inl same
    · have later := (List.mem_cons.mp h).resolve_left fun here => same (congrArg (·.peerId) here)
      obtain ⟨kept, mem, peer⟩ := List.mem_map.mp (ih later)
      refine .inr (List.mem_map.mpr ⟨kept, List.mem_filter.mpr ⟨mem, ?_⟩, peer⟩)
      simp only [peer, ne_eq, same, not_false_eq_true, decide_true]

/-- In sorted rows a peer's first row is its best one. -/
theorem first_le {rows : List Candidate} (sorted : rows.Pairwise fun a b => a.rank ≤ b.rank) {c r : Candidate}
    (first : rows.find? (fun other => other.peerId = c.peerId) = some c) (mem : r ∈ rows) (same : c.peerId = r.peerId) :
    c.rank ≤ r.rank := by
  obtain ⟨-, before, after, rfl, others⟩ := List.find?_eq_some_iff_append.mp first
  obtain early | rfl | late : r ∈ before ∨ r = c ∨ r ∈ after := by simpa using mem
  · simpa [same] using others r early
  · exact le_refl _
  · exact (List.pairwise_cons.mp (List.pairwise_append.mp sorted).2.1).1 r late

/-- A row's peer is among the first ones with a row at least as good, or the first ones are all
at least as good. -/
theorem take_distinctPeers_before {rows : List Candidate} (sorted : rows.Pairwise fun a b => a.rank ≤ b.rank)
    {r : Candidate} (h : r ∈ rows) (n : Nat) :
    (∃ c ∈ (distinctPeers rows).take n, c.peerId = r.peerId ∧ c.rank ≤ r.rank) ∨
      (((distinctPeers rows).take n).length = n ∧ ∀ c ∈ (distinctPeers rows).take n, c.rank ≤ r.rank) := by
  obtain ⟨c, stands, peer⟩ := List.mem_map.mp (mem_peers_distinctPeers h)
  have best : c.rank ≤ r.rank := first_le sorted (find_of_mem_distinctPeers stands) h peer
  have split : c ∈ (distinctPeers rows).take n ++ (distinctPeers rows).drop n := by rwa [List.take_append_drop]
  obtain kept | cut := List.mem_append.mp split
  · exact .inl ⟨c, kept, peer, best⟩
  · right
    constructor
    · have longer := List.length_pos_of_mem cut
      rw [List.length_drop] at longer
      rw [List.length_take]
      omega
    · intro other mem
      have ordered := sorted.sublist (distinctPeers_sublist rows)
      rw [← List.take_append_drop n (distinctPeers rows)] at ordered
      exact ((List.pairwise_append.mp ordered).2.2 other mem c cut).trans best

/-- With room for another peer, the loop takes the unseen peers' first rows until it is full. -/
theorem keepPeers_eq {topN : Nat} {seen : List String} (room : seen.length < topN) (rows : List Candidate) :
    keepPeers topN seen rows =
      ((distinctPeers rows).filter fun r => r.peerId ∉ seen).take (topN - seen.length) := by
  induction rows generalizing seen with
  | nil => exact List.take_nil.symm
  | cons r rest ih =>
    rw [keepPeers, distinctPeers]
    by_cases here : r.peerId ∈ seen
    · have already : ((distinctPeers rest).filter fun other => other.peerId ≠ r.peerId).filter (fun other => other.peerId ∉ seen) =
          (distinctPeers rest).filter fun other => other.peerId ∉ seen := by
        rw [List.filter_filter]
        refine List.filter_congr fun other _ => ?_
        by_cases same : other.peerId = r.peerId <;> simp [same, here]
      rw [if_pos here, ih room, List.filter_cons_of_neg (by simpa using here), already]
    · have unseen : ((distinctPeers rest).filter fun other => other.peerId ≠ r.peerId).filter (fun other => other.peerId ∉ seen) =
          (distinctPeers rest).filter fun other => other.peerId ∉ r.peerId :: seen := by
        rw [List.filter_filter]
        refine List.filter_congr fun other _ => ?_
        simp [not_or, Bool.and_comm]
      rw [if_neg here, List.filter_cons_of_pos (by simpa using here), unseen]
      obtain ⟨left, leftEq⟩ : ∃ left, topN - seen.length = left + 1 := ⟨topN - seen.length - 1, by omega⟩
      rw [leftEq, List.take_succ_cons]
      split
      · have full : left = 0 := by omega
        rw [full, List.take_zero]
      · rw [ih (by rw [List.length_cons]; omega)]
        have remains : topN - (r.peerId :: seen).length = left := by
          rw [List.length_cons]
          omega
        rw [remains]

end Peers

section Order

/-- A known reputation goes before an unknown one, a higher before a lower one. -/
def BetterReputed (a b : Candidate) : Prop := match a.reputation, b.reputation with
  | some x, some y => y < x
  | some _, none => True
  | none, _ => False

/-- The order of admission: health, recent reachability, reputation, prices, then the ids. -/
def Precedes (a b : Candidate) : Prop :=
  a.healthTier < b.healthTier ∨ a.healthTier = b.healthTier ∧
    (a.reachabilityTier < b.reachabilityTier ∨ a.reachabilityTier = b.reachabilityTier ∧
      (BetterReputed a b ∨ a.reputation = b.reputation ∧
        (a.priceIn < b.priceIn ∨ a.priceIn = b.priceIn ∧
          (a.priceOut < b.priceOut ∨ a.priceOut = b.priceOut ∧
            (a.peerId < b.peerId ∨ a.peerId = b.peerId ∧ a.service < b.service)))))

theorem precedes_iff (a b : Candidate) : Precedes a b ↔ a.rank < b.rank := by
  have reputed : (a.reputation.isNone < b.reputation.isNone ∨ a.reputation.isNone = b.reputation.isNone ∧
      -(a.reputation.getD 0) < -(b.reputation.getD 0)) ↔ BetterReputed a b := by
    unfold BetterReputed
    cases a.reputation <;> cases b.reputation <;> simp
  have even : (a.reputation.isNone = b.reputation.isNone ∧ -(a.reputation.getD 0) = -(b.reputation.getD 0)) ↔
      a.reputation = b.reputation := by
    cases a.reputation <;> cases b.reputation <;> simp
  rw [Precedes, ← reputed, ← even]
  simp only [Candidate.rank, Prod.Lex.toLex_lt_toLex]
  tauto

/-- Rows in the order of admission, as they came where neither goes before the other. -/
structure Admitted (rows ordered : List Candidate) : Prop where
  perm : ordered.Perm rows
  sorted : ordered.Pairwise fun a b => ¬Precedes b a
  stable : ∀ a b, [a, b].Sublist rows → ¬Precedes b a → [a, b].Sublist ordered

end Order

section Market

variable (lower : String → String) (cat : Catalog) (providerId : String) (cfg : Provider) (settings : Settings)
  (reading : Reading)

/-- A cooling route: its own or its peer's cooldown has not passed. -/
def Cooling (row : Row) (family : String) : Prop :=
  coolingDown reading.nowMs (reading.routes.lookup (.route (routeKey providerId family row.peerId)))
    (reading.peers.lookup (.peer (some row.peerId))) = true

/-- The gates of the market. -/
structure Gated (row : Row) : Prop where
  funded : ∀ available ∈ reading.depositsAvailable, settings.minAvailableUsdc ≤ available
  pinned : ∀ peer ∈ reading.pinnedPeerId, peer ≠ "" → row.peerId = peer
  allowed : row.peerId ∉ settings.peerDenylist
  listed : settings.peerAllowlist ≠ [] → row.peerId ∈ settings.peerAllowlist
  reputed : 0 < settings.reputationMin → ∀ reputation ∈ row.reputation, settings.reputationMin ≤ reputation
  priced : 0 ≤ row.priceIn ∧ 0 ≤ row.priceOut
  capped : (∀ cap ∈ cfg.capIn, row.priceIn ≤ cap) ∧ ∀ cap ∈ cfg.capOut, row.priceOut ≤ cap
  cached : ∀ price ∈ row.priceCachedIn, price ≤ row.priceIn
  warm : ¬ Cooling providerId reading row (routeOf lower cat cfg row).family

open Classical in
/-- The rows that pass every gate, each with its route and its tiers. -/
noncomputable def gatedRows (market : List Row) : List Candidate :=
  (market.filter fun row => Gated lower cat providerId cfg settings reading row).map
    (candidate lower cat providerId cfg reading)

theorem not_any_iff {α : Type} (o : Option α) (p : α → Prop) [DecidablePred p] :
    ¬ o.any (fun a => decide (p a)) = true ↔ ∀ a ∈ o, ¬ p a := by
  cases o with
  | none => simp
  | some a => simp

/-- The gates as the loop asks for them, one after the other. -/
theorem gated_iff (row : Row) : Gated lower cat providerId cfg settings reading row ↔
    suppressed settings reading = false ∧
    ¬ reading.pinnedPeerId.any (fun pinned => pinned ≠ "" ∧ row.peerId ≠ pinned) = true ∧
    ¬ (row.peerId ∈ settings.peerDenylist ∨ (settings.peerAllowlist ≠ [] ∧ row.peerId ∉ settings.peerAllowlist)) ∧
    ¬ (0 < settings.reputationMin ∧ row.reputation.any (· < settings.reputationMin) = true) ∧
    ¬ (row.priceIn < 0 ∨ row.priceOut < 0) ∧
    ¬ (cfg.capIn.any (· < row.priceIn) = true ∨ cfg.capOut.any (· < row.priceOut) = true) ∧
    ¬ row.priceCachedIn.any (row.priceIn < ·) = true ∧
    ¬ Cooling providerId reading row (routeOf lower cat cfg row).family := by
  have funds : suppressed settings reading = false ↔
      ∀ available ∈ reading.depositsAvailable, settings.minAvailableUsdc ≤ available := by
    rw [← Bool.not_eq_true, suppressed, not_any_iff]
    simp only [not_lt]
  rw [funds]
  simp only [not_or, not_and, not_any_iff, not_lt, not_not, ne_eq]
  constructor
  · exact fun g => ⟨g.funded, g.pinned, ⟨g.allowed, g.listed⟩, g.reputed, g.priced, g.capped, g.cached, g.warm⟩
  · rintro ⟨funded, pinned, ⟨allowed, listed⟩, reputed, priced, capped, cached, warm⟩
    exact ⟨funded, pinned, allowed, listed, reputed, priced, capped, cached, warm⟩

theorem countUnbound_byFamily (t : Tick) (row : Row) : (t.countUnbound lower cat cfg row).byFamily = t.byFamily := by
  unfold Tick.countUnbound
  split
  · rfl
  · rfl

/-- The table with one more row. -/
def fileRow (table : List (String × List Candidate)) (c : Candidate) : List (String × List Candidate) :=
  insert c.family ((table.lookup c.family).getD [] ++ [c]) table

/-- A row that passes the gates is filed, any other one leaves the families alone. -/
theorem scanRow_byFamily (funds : suppressed settings reading = false) (t : Tick) (row : Row) :
    (Gated lower cat providerId cfg settings reading row →
      (scanRow lower cat providerId cfg settings reading t row).byFamily =
        fileRow t.byFamily (candidate lower cat providerId cfg reading row)) ∧
    (¬ Gated lower cat providerId cfg settings reading row →
      (scanRow lower cat providerId cfg settings reading t row).byFamily = t.byFamily) := by
  rw [gated_iff]
  unfold scanRow
  by_cases pinned : reading.pinnedPeerId.any (fun pinned => pinned ≠ "" ∧ row.peerId ≠ pinned) = true
  · rw [if_pos pinned]
    exact ⟨fun g => absurd pinned g.2.1, fun _ => rfl⟩
  rw [if_neg pinned]
  by_cases listed : row.peerId ∈ settings.peerDenylist ∨
      (settings.peerAllowlist ≠ [] ∧ row.peerId ∉ settings.peerAllowlist)
  · rw [if_pos listed]
    exact ⟨fun g => absurd listed g.2.2.1, fun _ => rfl⟩
  rw [if_neg listed]
  by_cases reputed : 0 < settings.reputationMin ∧ row.reputation.any (· < settings.reputationMin) = true
  · rw [if_pos reputed]
    exact ⟨fun g => absurd reputed g.2.2.2.1, fun _ => rfl⟩
  rw [if_neg reputed]
  by_cases priced : row.priceIn < 0 ∨ row.priceOut < 0
  · rw [if_pos priced]
    exact ⟨fun g => absurd priced g.2.2.2.2.1, fun _ => rfl⟩
  rw [if_neg priced]
  by_cases capped : cfg.capIn.any (· < row.priceIn) = true ∨ cfg.capOut.any (· < row.priceOut) = true
  · rw [if_pos capped]
    exact ⟨fun g => absurd capped g.2.2.2.2.2.1, fun _ => rfl⟩
  rw [if_neg capped]
  by_cases cached : row.priceCachedIn.any (row.priceIn < ·) = true
  · rw [if_pos cached]
    exact ⟨fun g => absurd cached g.2.2.2.2.2.2.1, fun _ => rfl⟩
  rw [if_neg cached]
  dsimp only
  by_cases cooling : coolingDown reading.nowMs (routeHealth lower cat providerId cfg reading row) (peerHealth reading row) = true
  · rw [if_pos cooling]
    exact ⟨fun g => absurd cooling g.2.2.2.2.2.2.2, fun _ => countUnbound_byFamily lower cat cfg t row⟩
  rw [if_neg cooling]
  constructor
  · intro _
    rw [Tick.file, countUnbound_byFamily]
    rfl
  · exact fun missed => absurd ⟨funds, pinned, listed, reputed, priced, capped, cached, cooling⟩ missed

/-- The families after the loop, whatever the counters say. -/
theorem scan_byFamily (funds : suppressed settings reading = false) (market : List Row) (t : Tick) :
    (market.foldl (scanRow lower cat providerId cfg settings reading) t).byFamily =
      (gatedRows lower cat providerId cfg settings reading market).foldl fileRow t.byFamily := by
  induction market generalizing t with
  | nil => rfl
  | cons row market ih =>
    rw [List.foldl_cons, ih]
    by_cases passes : Gated lower cat providerId cfg settings reading row
    · rw [(scanRow_byFamily lower cat providerId cfg settings reading funds t row).1 passes, gatedRows, gatedRows,
        List.filter_cons_of_pos (by simpa using passes)]
      rfl
    · rw [(scanRow_byFamily lower cat providerId cfg settings reading funds t row).2 passes, gatedRows, gatedRows,
        List.filter_cons_of_neg (by simpa using passes)]

/-- Appending row by row files each family's rows in order. -/
theorem byFamily_lookup (rows : List Candidate) (family : String) :
    (rows.foldl fileRow []).lookup family =
      if family ∈ rows.map (·.family) then some (group (·.family) family rows) else none := by
  have appended : ∀ (l acc : List Candidate), l.foldl (fun acc c => acc ++ [c]) acc = acc ++ l := by
    intro l
    induction l with
    | nil => exact fun acc => (List.append_nil acc).symm
    | cons c l ih =>
      intro acc
      rw [List.foldl_cons, ih, List.append_assoc]
      rfl
  have tallied : rows.foldl fileRow [] = tally (·.family) [] (fun acc c => acc ++ [c]) rows := rfl
  rw [tallied, lookup_tally, appended, List.nil_append]

/-- The rows of one family that pass every gate. -/
noncomputable def familyRows (market : List Row) (family : String) : List Candidate :=
  (gatedRows lower cat providerId cfg settings reading market).filter fun c => c.family = family

theorem mem_gatedRows {market : List Row} {c : Candidate}
    (h : c ∈ gatedRows lower cat providerId cfg settings reading market) :
    ∃ row ∈ market, Gated lower cat providerId cfg settings reading row ∧
      candidate lower cat providerId cfg reading row = c := by
  obtain ⟨row, mem, rfl⟩ := List.mem_map.mp h
  have passes := List.mem_filter.mp mem
  exact ⟨row, passes.1, by simpa using passes.2, rfl⟩

theorem gatedRows_suppressed (funds : suppressed settings reading = true) (market : List Row) :
    gatedRows lower cat providerId cfg settings reading market = [] := by
  refine List.eq_nil_iff_forall_not_mem.mpr fun c mem => ?_
  obtain ⟨row, -, passes, -⟩ := mem_gatedRows lower cat providerId cfg settings reading mem
  have unfunded := ((gated_iff lower cat providerId cfg settings reading row).mp passes).1
  rw [funds] at unfunded
  cases unfunded

/-- Of a table whose rows lie under their own family, a family's part is what is made of its entry. -/
theorem filter_flatMap {d : List (String × List Candidate)} (distinct : (d.map (·.1)).Nodup)
    (own : ∀ entry ∈ d, ∀ c ∈ entry.2, c.family = entry.1) (keep : List Candidate → List Candidate)
    (within : ∀ rows, (keep rows) ⊆ rows) (family : String) :
    ((d.flatMap fun entry => keep entry.2).filter fun c => c.family = family) =
      ((d.lookup family).map keep).getD [] := by
  induction d with
  | nil => rfl
  | cons entry d ih =>
    rw [List.map_cons, List.nodup_cons] at distinct
    have rest := ih distinct.2 fun other mem => own other (List.mem_cons_of_mem _ mem)
    rw [List.flatMap_cons, List.filter_append, rest, List.lookup_cons]
    have mine : ∀ c ∈ keep entry.2, c.family = entry.1 :=
      fun c mem => own entry List.mem_cons_self c (within entry.2 mem)
    by_cases here : family = entry.1
    · have later : d.lookup family = none := by
        rw [List.lookup_eq_none_iff]
        intro other mem
        have absent : other.1 ≠ entry.1 := fun same => distinct.1 (same ▸ List.mem_map_of_mem mem)
        simpa [here] using absent.symm
      have all : ((keep entry.2).filter fun c => c.family = family) = keep entry.2 :=
        List.filter_eq_self.mpr fun c mem => by simp [mine c mem, here]
      rw [all, later, here, beq_self_eq_true]
      simp
    · have none : ((keep entry.2).filter fun c => c.family = family) = [] :=
        List.filter_eq_nil_iff.mpr fun c mem => by simpa [mine c mem] using Ne.symm here
      rw [none, beq_eq_false_iff_ne.mpr here]
      rfl

theorem keepPeers_first (rows : List Candidate) :
    keepPeers settings.offersTopN [] rows = (distinctPeers rows).take settings.offersTopN := by
  rw [keepPeers_eq settings.inRange.1]
  simp

theorem inOrder_nil : inOrder [] = [] := List.insertionSort_nil _

theorem mem_inOrder {rows : List Candidate} {c : Candidate} : c ∈ inOrder rows ↔ c ∈ rows :=
  (List.perm_insertionSort _ rows).mem_iff

theorem keepPeers_subset (rows : List Candidate) : keepPeers settings.offersTopN [] (inOrder rows) ⊆ rows := by
  intro c mem
  rw [keepPeers_first] at mem
  exact mem_inOrder.mp ((distinctPeers_sublist _).subset (List.mem_of_mem_take mem))

theorem inOrder_sorted (rows : List Candidate) : (inOrder rows).Pairwise fun a b => a.rank ≤ b.rank := by
  have : IsTrans Candidate fun a b => a.rank ≤ b.rank := ⟨fun _ _ _ => le_trans⟩
  have : Std.Total fun a b : Candidate => a.rank ≤ b.rank := ⟨fun a b => le_total a.rank b.rank⟩
  exact List.pairwise_insertionSort _ rows

theorem admitted_inOrder (rows : List Candidate) : Admitted rows (inOrder rows) where
  perm := List.perm_insertionSort _ rows
  sorted := (inOrder_sorted rows).imp fun {a b} ordered => by rwa [precedes_iff, not_lt]
  stable a b came ordered := by
    have : IsTrans Candidate fun a b => a.rank ≤ b.rank := ⟨fun _ _ _ => le_trans⟩
    have : Std.Total fun a b : Candidate => a.rank ≤ b.rank := ⟨fun a b => le_total a.rank b.rank⟩
    rw [precedes_iff, not_lt] at ordered
    exact List.pair_sublist_insertionSort ordered came

/-- One family's part of the kept rows. -/
theorem kept_family (market : List Row) (family : String) :
    ((offersSync lower cat providerId cfg settings reading market).2.filter fun c => c.family = family) =
      (distinctPeers (inOrder (familyRows lower cat providerId cfg settings reading market family))).take
        settings.offersTopN := by
  unfold offersSync familyRows
  cases funds : suppressed settings reading with
  | true =>
    rw [gatedRows_suppressed lower cat providerId cfg settings reading funds, List.filter_nil, inOrder_nil]
    exact List.take_nil.symm
  | false =>
    have table := scan_byFamily lower cat providerId cfg settings reading funds market Tick.start
    have distinct : (((market.foldl (scanRow lower cat providerId cfg settings reading) Tick.start).byFamily).map
        (·.1)).Nodup := by
      rw [table]
      exact nodup_tally (fun c : Candidate => c.family) [] (fun acc c => acc ++ [c]) _
    have own : ∀ entry ∈ (market.foldl (scanRow lower cat providerId cfg settings reading) Tick.start).byFamily,
        ∀ c ∈ entry.2, c.family = entry.1 := by
      rintro ⟨key, rows⟩ mem c within
      have found := lookup_of_mem distinct mem
      rw [table, Tick.start, byFamily_lookup, Option.ite_none_right_eq_some] at found
      rw [← Option.some.inj found.2] at within
      exact of_decide_eq_true (List.mem_filter.mp within).2
    simp only [Bool.false_eq_true, ↓reduceIte]
    rw [filter_flatMap distinct own (fun rows => keepPeers settings.offersTopN [] (inOrder rows))
        (keepPeers_subset settings) family, table, Tick.start, byFamily_lookup]
    split
    · exact keepPeers_first settings _
    · rename_i absent
      have silent : ((gatedRows lower cat providerId cfg settings reading market).filter fun c => c.family = family) = [] :=
        group_of_notMem absent
      rw [silent, inOrder_nil]
      exact List.take_nil.symm

/-- A gated row is represented by its peer's best one, or `offers_top_n` peers come before it. -/
theorem kept_before {market : List Row} {family : String} {r : Candidate}
    (h : r ∈ familyRows lower cat providerId cfg settings reading market family) :
    let kept := (offersSync lower cat providerId cfg settings reading market).2.filter fun c => c.family = family
    (∃ c ∈ kept, c.peerId = r.peerId ∧ c.rank ≤ r.rank) ∨
      (kept.length = settings.offersTopN ∧ ∀ c ∈ kept, c.rank ≤ r.rank) := by
  intro kept
  have same : kept = _ := kept_family lower cat providerId cfg settings reading market family
  rw [same]
  exact take_distinctPeers_before (inOrder_sorted _) (mem_inOrder.mpr h) settings.offersTopN

/-- What the market offers of a family: the first `offers_top_n` distinct peers of the rows that
pass every gate, in the order of admission. A row that is not offered has its peer's offer at
least as good before it, or as many offers as fit. No peer is offered twice, no cooling route. -/
theorem offers_selected (market : List Row) (family : String) :
    let kept := (offersSync lower cat providerId cfg settings reading market).2.filter fun c => c.family = family
    let rows := familyRows lower cat providerId cfg settings reading market family
    (∃ ordered, Admitted rows ordered ∧ kept = (distinctPeers ordered).take settings.offersTopN) ∧
      (∀ r ∈ rows, (∃ c ∈ kept, c.peerId = r.peerId ∧ ¬Precedes r c) ∨
        (kept.length = settings.offersTopN ∧ ∀ c ∈ kept, ¬Precedes r c)) ∧
      (kept.map (·.peerId)).Nodup ∧ ∀ c ∈ kept, ¬ Cooling providerId reading c.toRow family := by
  intro kept rows
  have same : kept = _ := kept_family lower cat providerId cfg settings reading market family
  refine ⟨⟨inOrder rows, admitted_inOrder rows, same⟩, fun r mem => ?_, ?_, ?_⟩
  · simp only [precedes_iff, not_lt]
    exact kept_before lower cat providerId cfg settings reading mem
  · rw [same]
    exact (nodup_distinctPeers _).sublist ((List.take_sublist _ _).map _)
  · intro c mem
    rw [same] at mem
    have gated := mem_inOrder.mp ((distinctPeers_sublist _).subset (List.mem_of_mem_take mem))
    obtain ⟨there, here⟩ := List.mem_filter.mp gated
    obtain ⟨row, -, passes, rfl⟩ := mem_gatedRows lower cat providerId cfg settings reading there
    rw [← of_decide_eq_true here]
    exact passes.warm

end Market

end Unhardcoded.Guarantees.OfferSelection
