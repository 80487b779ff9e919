import Unhardcoded.Effects.Machine
import Unhardcoded.Source.OfficialPricing

/-!
# Which price of a page is adopted

`_resolve` adopts the first plausible record of a family (`lookup_resolve`). That is the
first record that resolves to it, or none where that one is implausible, exactly where no
implausible first record is followed by a plausible one of its family (`adopts_iff`).
What is adopted is sound on every page, and so is the table over any run of pages
(`pricing_run_sound`).
-/

namespace Unhardcoded.Guarantees.OfficialPricing
open Unhardcoded.Python Source.OfficialPricing Effects

variable (lower : String → String)

section Resolve

variable (source : PriceSource)

/-- The record resolves to the family. -/
def resolvesTo (family : String) (r : Record) : Bool := familyOf lower source r = some family

/-- One record is adopted for its family if the family has no row and its prices are plausible. -/
theorem lookup_resolveOne (rows : List (String × Record)) (r : Record) (family : String) :
    (resolveOne lower source rows r).lookup family =
      (rows.lookup family).or (if resolvesTo lower source family r && pricePlausible r then some (cleaned r) else none) := by
  unfold resolveOne resolvesTo
  cases resolved : familyOf lower source r with
  | none => simp
  | some own =>
    by_cases same : own = family
    · subst same
      cases filed : rows.lookup own with
      | some row => simp [filed]
      | none =>
        by_cases fair : pricePlausible r
        · simp [fair, filed, lookup_insert_self]
        · simp [fair, filed]
    · have other : family ≠ own := Ne.symm same
      simp only [Option.some.injEq, same, decide_false, Bool.false_and, Bool.false_eq_true, if_false, Option.or_none]
      split
      · rfl
      · split
        · exact lookup_insert_of_ne other _ _
        · rfl

theorem lookup_foldl (records : List Record) (rows : List (String × Record)) (family : String) :
    (records.foldl (resolveOne lower source) rows).lookup family =
      (rows.lookup family).or
        ((records.find? fun r => resolvesTo lower source family r && pricePlausible r).map cleaned) := by
  induction records generalizing rows with
  | nil => simp
  | cons r records ih =>
    rw [List.foldl_cons, ih, lookup_resolveOne, Option.or_assoc, List.find?_cons]
    by_cases adopted : resolvesTo lower source family r && pricePlausible r
    · simp [adopted]
    · simp [adopted]

/-- The first plausible record of a family is the one adopted. -/
theorem lookup_resolve (records : List Record) (family : String) :
    (resolve lower source records).lookup family =
      (records.find? fun r => resolvesTo lower source family r && pricePlausible r).map cleaned := by
  rw [resolve, lookup_foldl, List.lookup_nil, Option.none_or]

end Resolve

section Sound

/-- Prices in (0, 1000] per million tokens, a cached price below the input price. -/
structure Sound (row : Record) : Prop where
  priceIn : ∃ p : ℚ, row.priceIn = some (.fin p) ∧ 0 < p ∧ p ≤ 1000
  priceOut : ∃ p : ℚ, row.priceOut = some (.fin p) ∧ 0 < p ∧ p ≤ 1000
  cached : ∀ cached, row.priceCachedIn = some cached →
    ∃ c p : ℚ, cached = .fin c ∧ row.priceIn = some (.fin p) ∧ 0 < c ∧ c ≤ 1000 ∧ c < p

theorem isPlausible_iff (price : Option Flt) : isPlausible price = true ↔ ∃ p : ℚ, price = some (.fin p) ∧ 0 < p ∧ p ≤ 1000 := by
  cases price with
  | none => simp [isPlausible]
  | some price => cases price <;> simp [isPlausible, MAX_PRICE, Flt.lt, Flt.le]

theorem cleaned_prices (r : Record) : (cleaned r).priceIn = r.priceIn ∧ (cleaned r).priceOut = r.priceOut := by
  unfold cleaned
  split
  · split <;> exact ⟨rfl, rfl⟩
  · exact ⟨rfl, rfl⟩

theorem cleaned_sound {r : Record} (fair : pricePlausible r = true) : Sound (cleaned r) := by
  obtain ⟨sameIn, sameOut⟩ := cleaned_prices r
  obtain ⟨fairIn, fairOut⟩ := (Bool.and_eq_true _ _).mp fair
  obtain ⟨p, base, pos, capped⟩ := (isPlausible_iff _).mp fairIn
  refine ⟨⟨p, sameIn.trans base, pos, capped⟩, ?_, ?_⟩
  · rw [sameOut]
    exact (isPlausible_iff _).mp fairOut
  · intro cached kept
    rw [sameIn]
    unfold cleaned at kept
    split at kept
    · rename_i own price hit known
      obtain rfl : price = .fin p := Option.some.inj (known.symm.trans base)
      split at kept
      · rename_i good
        obtain rfl : own = cached := Option.some.inj (hit.symm.trans kept)
        obtain ⟨good, below⟩ := (Bool.and_eq_true _ _).mp good
        obtain ⟨c, same, low, high⟩ := (isPlausible_iff _).mp good
        obtain rfl := Option.some.inj same
        exact ⟨c, p, rfl, base, low, high, by simpa using below⟩
      · cases kept
    · cases kept

end Sound

/-- For every family the price is that of the first record that resolves to it, or none
where that one is implausible; what is adopted is sound. -/
structure Adopts (source : PriceSource) (records : List Record) : Prop where
  first : ∀ family, (resolve lower source records).lookup family =
    ((records.find? (resolvesTo lower source family)).filter pricePlausible).map cleaned
  sound : ∀ family row, (resolve lower source records).lookup family = some row → Sound row

theorem resolve_sound (source : PriceSource) (records : List Record) {family : String} {row : Record}
    (adopted : (resolve lower source records).lookup family = some row) : Sound row := by
  rw [lookup_resolve] at adopted
  obtain ⟨r, found, rfl⟩ := Option.map_eq_some_iff.mp adopted
  obtain ⟨both, -⟩ := List.find?_eq_some_iff_append.mp found
  exact cleaned_sound ((Bool.and_eq_true _ _).mp both).2

theorem adopts_iff (catalog : Catalog) (providerId : String) (records : List Record) :
    Adopts lower (.new lower catalog providerId) records ↔
      ∀ family first, records.find? (resolvesTo lower (.new lower catalog providerId) family) = some first →
        pricePlausible first = false → ∀ r ∈ records, resolvesTo lower (.new lower catalog providerId) family r →
          pricePlausible r = false := by
  generalize PriceSource.new lower catalog providerId = source
  constructor
  · rintro ⟨wins, -⟩ family first found unfair r mem resolved
    have adopted := wins family
    rw [lookup_resolve, found, Option.filter_some, if_neg (by simp [unfair]), Option.map_none, Option.map_eq_none_iff,
      List.find?_eq_none] at adopted
    simpa [resolved] using adopted r mem
  · intro unfair
    refine ⟨fun family => ?_, fun family row => resolve_sound lower source records⟩
    rw [lookup_resolve]
    congr 1
    cases found : records.find? (resolvesTo lower source family) with
    | none =>
      rw [List.find?_eq_none] at found
      refine List.find?_eq_none.mpr fun r mem both => ?_
      exact found r mem ((Bool.and_eq_true _ _).mp both).1
    | some first =>
      by_cases fair : pricePlausible first
      · rw [Option.filter_some, if_pos fair]
        rw [List.find?_eq_some_iff_append] at found ⊢
        obtain ⟨resolved, before, after, rfl, none⟩ := found
        refine ⟨by simp [resolved, fair], before, after, rfl, fun r mem => ?_⟩
        have := none r mem
        simp_all
      · rw [Option.filter_some, if_neg fair]
        refine List.find?_eq_none.mpr fun r mem both => ?_
        obtain ⟨resolved, good⟩ := (Bool.and_eq_true _ _).mp both
        exact absurd good (by simp [unfair family first found (by simpa using fair) r mem resolved])

/-- A standard rate that was misread as 0, then the batch rate. -/
def misread : List Record :=
  [⟨"gpt-5.5", some (.fin 0), some (.fin 30), none⟩, ⟨"gpt-5.5", some (.fin (5 / 2)), some (.fin 15), none⟩]

def listed : Catalog := [("gpt-5.5", [⟨"openai", none⟩])]

theorem misread_adopts_batch : ¬Adopts Python.lower (.new Python.lower listed "openai") misread := by
  rintro ⟨wins, -⟩
  have batch := wins "gpt-5.5"
  revert batch
  decide +kernel

section Runs

/-- The table holds sound rows only. -/
def SoundTable (table : Table) : Prop := ∀ row ∈ table, Sound row.2

theorem mem_resolve_sound (source : PriceSource) (records : List Record) : ∀ row ∈ resolve lower source records, Sound row.2 := by
  suffices kept : ∀ rows : List (String × Record), (∀ row ∈ rows, Sound row.2) →
      ∀ row ∈ records.foldl (resolveOne lower source) rows, Sound row.2 from kept [] (by simp)
  induction records with
  | nil => exact fun rows sound => sound
  | cons r records ih =>
    intro rows sound
    refine ih _ fun row mem => ?_
    unfold resolveOne at mem
    split at mem
    · exact sound row mem
    · split at mem
      · exact sound row mem
      · split at mem
        · rename_i fair
          rcases mem_insert mem with rfl | old
          · exact cleaned_sound fair
          · exact sound row old.1
        · exact sound row mem

theorem setProviderPrices_sound (providerId : String) (rows : List (String × Record)) (table : Table)
    (sound : ∀ row ∈ rows, Sound row.2) (soundTable : SoundTable table) :
    SoundTable (setProviderPrices providerId rows table) := by
  intro stored mem
  have written : (∃ row ∈ rows, stored = ((providerId, row.1), row.2)) ∨ stored ∈ table := mem_foldl_insert mem
  rcases written with ⟨row, here, rfl⟩ | old
  · exact sound row here
  · exact soundTable stored old

/-- A price that is served: an input and an output price in (0, 1000]. -/
def Served (price : Price) : Prop := isPlausible price.priceIn = true ∧ isPlausible price.priceOut = true

/-- Also a row that coasts from the table is served only at plausible prices. -/
theorem pricing_served (source : PriceSource) (page : Option (List Record)) (table : Table) :
    ∀ price ∈ (pricing lower source page table).1, Served price := by
  have guarded : ∀ items, ∀ price ∈ prices items, Served price := by
    intro items price mem
    obtain ⟨item, kept, rfl⟩ := List.mem_map.mp mem
    exact (Bool.and_eq_true _ _).mp (List.mem_filter.mp kept).2
  unfold pricing
  dsimp only
  split
  · exact guarded _
  · exact guarded _

/-- Pages of any sources, in the order they are scraped. -/
def scrape (table : Table) (scraped : PriceSource × Option (List Record)) : Option Table :=
  some (pricing lower scraped.1 scraped.2 table).2

theorem pricing_run_sound {scrapes : List (PriceSource × Option (List Record))} {table after : Table}
    (sound : SoundTable table) (run : Machine.run (scrape lower) table scrapes = some after) : SoundTable after := by
  refine Machine.run_invariant sound ?_ run
  intro table scraped after sound stepped
  obtain rfl := Option.some.inj stepped
  unfold pricing
  dsimp only
  split
  · exact sound
  · refine setProviderPrices_sound _ _ _ ?_ sound
    cases page : scraped.2 with
    | none => simp
    | some records => exact mem_resolve_sound lower scraped.1 records

end Runs

end Unhardcoded.Guarantees.OfficialPricing
