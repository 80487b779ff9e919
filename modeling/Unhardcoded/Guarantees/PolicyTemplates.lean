import Unhardcoded.Python.Checks
import Unhardcoded.Source.PolicyTemplates

/-!
# What the policy templates mean

The policy for an ordered family tries the admitted candidates by the breaker, then by the
group of their provider, then in `argmax` order. An accepted provider order has disjoint
groups (`parseGroups_ok`), so the nest of partitions sorts by the group. An intent that is
built again gives the policy and the intent it came with.
-/

namespace Unhardcoded.Guarantees.PolicyTemplates

open Unhardcoded.Python Unhardcoded.Effects.Prefer Unhardcoded.Source.PolicyTemplates

section Providers

/-- A raw entry names a provider. -/
def Named (raw : Value) (provider : String) : Prop := ∃ text, raw = .str text ∧ strip text = provider ∧ provider ≠ ""

theorem parseProvider_ok {index : Nat} {seen : List String} {raw : Value} {provider : String} :
    parseProvider index seen raw = .ok provider ↔ Named raw provider ∧ provider ∉ seen := by
  unfold parseProvider Named
  cases raw with
  | str text =>
    simp only [Value.str.injEq]
    by_cases empty : strip text = ""
    · simp only [empty, if_pos]
      constructor
      · intro refused
        cases refused
      · rintro ⟨⟨text', rfl, rfl, nonempty⟩, -⟩
        exact absurd empty nonempty
    · by_cases dup : strip text ∈ seen
      · simp only [empty, dup, if_false, if_true]
        constructor
        · intro refused
          cases refused
        · rintro ⟨⟨text', rfl, rfl, -⟩, fresh⟩
          exact absurd dup fresh
      · simp only [empty, dup, if_false, Except.ok.injEq]
        constructor
        · rintro rfl
          exact ⟨⟨text, rfl, rfl, empty⟩, dup⟩
        · rintro ⟨⟨text', rfl, same, -⟩, -⟩
          exact same
  | _ => simp

theorem parseGroup_ok {index : Nat} {raws : List Value} {seen group seen' : List String} :
    parseGroup index raws seen = .ok (group, seen') ↔
      List.Forall₂ Named raws group ∧ group.Nodup ∧ (∀ provider ∈ group, provider ∉ seen) ∧ seen' = group.reverse ++ seen := by
  induction raws generalizing seen group seen' with
  | nil =>
    rw [parseGroup, List.forall₂_nil_left_iff]
    constructor
    · intro parsed
      obtain ⟨rfl, rfl⟩ := Prod.mk.inj (Except.ok.inj parsed)
      simp
    · rintro ⟨rfl, -, -, rfl⟩
      rfl
  | cons raw raws ih =>
    rw [parseGroup, bind_ok_iff]
    constructor
    · rintro ⟨provider, read, more⟩
      obtain ⟨⟨rest, seen''⟩, parsed, finished⟩ := bind_ok_iff.mp more
      obtain ⟨rfl, rfl⟩ := Prod.mk.inj (Except.ok.inj finished)
      obtain ⟨named, fresh⟩ := parseProvider_ok.mp read
      obtain ⟨each, nodup, apart, rfl⟩ := ih.mp parsed
      refine ⟨.cons named each, List.nodup_cons.mpr ⟨fun mem => apart _ mem List.mem_cons_self, nodup⟩, ?_, by simp⟩
      intro other mem
      rcases List.mem_cons.mp mem with rfl | within
      · exact fresh
      · exact fun old => apart other within (List.mem_cons_of_mem _ old)
    · rintro ⟨each, nodup, apart, rfl⟩
      obtain ⟨provider, rest, named, others, rfl⟩ := List.forall₂_cons_left_iff.mp each
      obtain ⟨new, nodup⟩ := List.nodup_cons.mp nodup
      refine ⟨provider, parseProvider_ok.mpr ⟨named, apart provider List.mem_cons_self⟩, ?_⟩
      have parsed : parseGroup index raws (provider :: seen) = .ok (rest, rest.reverse ++ provider :: seen) := by
        refine ih.mpr ⟨others, nodup, fun other mem => ?_, rfl⟩
        rw [List.mem_cons, not_or]
        exact ⟨fun same => new (same ▸ mem), apart other (List.mem_cons_of_mem _ mem)⟩
      rw [parsed, List.reverse_cons, List.append_assoc]
      rfl

/-- A raw group names the providers of a group. -/
def GroupNamed (raw : Value) (group : List String) : Prop := entriesOf raw ≠ [] ∧ List.Forall₂ Named (entriesOf raw) group

theorem parseGroups_ok {index : Nat} {raws : List Value} {seen : List String} {groups : List (List String)} :
    parseGroups index raws seen = .ok groups ↔
      List.Forall₂ GroupNamed raws groups ∧ groups.flatten.Nodup ∧ ∀ provider ∈ groups.flatten, provider ∉ seen := by
  induction raws generalizing index seen groups with
  | nil =>
    rw [parseGroups, List.forall₂_nil_left_iff]
    constructor
    · intro parsed
      obtain rfl := Except.ok.inj parsed
      simp
    · rintro ⟨rfl, -, -⟩
      rfl
  | cons raw raws ih =>
    rw [parseGroups]
    by_cases empty : entriesOf raw = []
    · simp only [empty, List.isEmpty_nil, if_true]
      constructor
      · intro refused
        cases refused
      · rintro ⟨each, -, -⟩
        obtain ⟨group, rest, named, -, -⟩ := List.forall₂_cons_left_iff.mp each
        exact absurd empty named.1
    · rw [if_neg (by simpa using empty), bind_ok_iff]
      constructor
      · rintro ⟨⟨group, seen'⟩, parsed, more⟩
        obtain ⟨rest, parsed', finished⟩ := bind_ok_iff.mp more
        obtain rfl := Except.ok.inj finished
        obtain ⟨named, nodup, apart, rfl⟩ := parseGroup_ok.mp parsed
        obtain ⟨each, nodup', apart'⟩ := ih.mp parsed'
        refine ⟨.cons ⟨empty, named⟩ each, ?_, ?_⟩
        · rw [List.flatten_cons, List.nodup_append]
          refine ⟨nodup, nodup', fun provider mem other mem' same => ?_⟩
          subst same
          exact apart' provider mem' (List.mem_append_left _ (List.mem_reverse.mpr mem))
        · intro provider mem
          rcases List.mem_append.mp mem with here | later
          · exact apart provider here
          · exact fun old => apart' provider later (List.mem_append_right _ old)
      · rintro ⟨each, nodup, apart⟩
        obtain ⟨group, rest, named, others, rfl⟩ := List.forall₂_cons_left_iff.mp each
        rw [List.flatten_cons, List.nodup_append] at nodup
        refine ⟨(group, group.reverse ++ seen), parseGroup_ok.mpr ⟨named.2, nodup.1, ?_, rfl⟩, ?_⟩
        · exact fun provider mem => apart provider (List.mem_append_left _ mem)
        · rw [bind_ok_iff]
          refine ⟨rest, ih.mpr ⟨others, nodup.2.1, fun provider mem old => ?_⟩, rfl⟩
          rcases List.mem_append.mp old with inGroup | before
          · exact nodup.2.2 provider (List.mem_reverse.mp inGroup) provider mem rfl
          · exact apart provider (List.mem_append_right _ mem) before

/-- An accepted provider order: disjoint groups of stripped names. -/
structure Accepted (groups : List (List String)) : Prop where
  nonempty : groups ≠ []
  inhabited : ∀ group ∈ groups, group ≠ []
  stripped : ∀ provider ∈ groups.flatten, strip provider = provider ∧ provider ≠ ""
  nodup : groups.flatten.Nodup

theorem named_str {provider : String} (stripped : strip provider = provider ∧ provider ≠ "") : Named (.str provider) provider :=
  ⟨provider, rfl, stripped⟩

theorem stripped_of_named {raws : List Value} {group : List String} (each : List.Forall₂ Named raws group) :
    ∀ provider ∈ group, strip provider = provider ∧ provider ≠ "" := by
  induction each with
  | nil => exact fun provider mem => by cases mem
  | cons named each ih =>
    intro provider mem
    rcases List.mem_cons.mp mem with rfl | within
    · obtain ⟨text, -, rfl, nonempty⟩ := named
      exact ⟨strip_strip text, nonempty⟩
    · exact ih provider within

theorem accepted_of_named {raws : List Value} {groups : List (List String)} (each : List.Forall₂ GroupNamed raws groups) :
    (∀ group ∈ groups, group ≠ []) ∧ ∀ provider ∈ groups.flatten, strip provider = provider ∧ provider ≠ "" := by
  induction each with
  | nil => simp
  | @cons raw group raws groups named each ih =>
    constructor
    · intro other mem
      rcases List.mem_cons.mp mem with rfl | within
      · rintro rfl
        exact named.1 (List.forall₂_nil_right_iff.mp named.2)
      · exact ih.1 other within
    · intro provider mem
      rw [List.flatten_cons] at mem
      rcases List.mem_append.mp mem with here | later
      · exact stripped_of_named named.2 provider here
      · exact ih.2 provider later

theorem accepted_default : Accepted DEFAULT_PROVIDER_ORDER := by
  constructor <;> decide +kernel

theorem parseProviderOrder_accepted {v : Value} {groups : List (List String)} (h : parseProviderOrder v = .ok groups) :
    Accepted groups := by
  unfold parseProviderOrder at h
  split at h
  · obtain rfl := Except.ok.inj h
    exact accepted_default
  · obtain ⟨each, nodup, -⟩ := parseGroups_ok.mp h
    obtain ⟨inhabited, stripped⟩ := accepted_of_named each
    refine ⟨?_, inhabited, stripped, nodup⟩
    rintro rfl
    cases each
  · cases h

theorem named_listed {groups : List (List String)} (inhabited : ∀ group ∈ groups, group ≠ [])
    (stripped : ∀ provider ∈ groups.flatten, strip provider = provider ∧ provider ≠ "") :
    List.Forall₂ GroupNamed (groups.map fun group => .arr (group.map .str)) groups := by
  rw [List.forall₂_map_left_iff, List.forall₂_same]
  intro group mem
  constructor
  · show group.map Value.str ≠ []
    simpa using inhabited group mem
  · show List.Forall₂ Named (group.map Value.str) group
    rw [List.forall₂_map_left_iff, List.forall₂_same]
    exact fun provider within => named_str (stripped provider (List.mem_flatten.mpr ⟨group, mem, within⟩))

/-- The order that an intent lists is accepted as it is. -/
theorem parseProviderOrder_listed {groups : List (List String)} (accepted : Accepted groups) :
    parseProviderOrder (listed groups) = .ok groups := by
  have parsed (index : Nat) : parseGroups index (groups.map fun group => .arr (group.map .str)) [] = .ok groups :=
    parseGroups_ok.mpr ⟨named_listed accepted.inhabited accepted.stripped, accepted.nodup, by simp⟩
  unfold listed
  cases groups with
  | nil => exact absurd rfl accepted.nonempty
  | cons group rest => exact parsed 0

/-- Raw orders that differ in the order inside their groups. -/
def Regrouped (raws raws' : List Value) : Prop := List.Forall₂ (fun raw raw' => (entriesOf raw).Perm (entriesOf raw')) raws raws'

theorem named_regrouped {raws raws' : List Value} (regrouped : Regrouped raws raws') {groups : List (List String)}
    (each : List.Forall₂ GroupNamed raws groups) :
    ∃ groups', List.Forall₂ GroupNamed raws' groups' ∧ List.Forall₂ List.Perm groups groups' := by
  induction regrouped generalizing groups with
  | nil =>
    cases each
    exact ⟨[], .nil, .nil⟩
  | @cons raw raw' raws raws' perm regrouped ih =>
    obtain ⟨group, rest, named, others, rfl⟩ := List.forall₂_cons_left_iff.mp each
    obtain ⟨groups', each', perms⟩ := ih others
    obtain ⟨group', named', perm'⟩ := List.perm_comp_forall₂ perm.symm named.2
    refine ⟨group' :: groups', .cons ⟨?_, named'⟩ each', .cons perm'.symm perms⟩
    intro empty
    rw [empty, List.perm_nil] at perm
    exact named.1 perm

theorem flatten_perm {groups groups' : List (List String)} (perms : List.Forall₂ List.Perm groups groups') :
    groups.flatten.Perm groups'.flatten := by
  induction perms with
  | nil => exact List.Perm.refl _
  | cons perm perms ih => exact perm.append ih

theorem parseProviderOrder_regrouped {raws raws' : List Value} (regrouped : Regrouped raws raws') {groups : List (List String)}
    (h : parseProviderOrder (.arr raws) = .ok groups) :
    ∃ groups', parseProviderOrder (.arr raws') = .ok groups' ∧ List.Forall₂ List.Perm groups groups' := by
  cases regrouped with
  | nil => cases h
  | cons perm regrouped =>
    obtain ⟨each, nodup, -⟩ := parseGroups_ok.mp h
    obtain ⟨groups', each', perms⟩ := named_regrouped (.cons perm regrouped) each
    exact ⟨groups', parseGroups_ok.mpr ⟨each', (flatten_perm perms).nodup_iff.mp nodup, by simp⟩, perms⟩

end Providers

section Meaning

variable {C : Type} (engine : Engine C)

theorem holdsAny_eq (parts : List Pred) (c : C) : engine.holdsAny parts c = parts.any fun pred => engine.holds pred c := by
  induction parts with
  | nil => rfl
  | cons pred parts ih => rw [Engine.holdsAny, ih, List.any_cons]

theorem holdsAll_eq (parts : List Pred) (c : C) : engine.holdsAll parts c = parts.all fun pred => engine.holds pred c := by
  induction parts with
  | nil => rfl
  | cons pred parts ih => rw [Engine.holdsAll, ih, List.all_cons]

theorem holds_any (parts : List Pred) (c : C) : engine.holds (any parts) c = parts.any fun pred => engine.holds pred c := by
  unfold any
  split
  · rfl
  · simp
  · rw [Engine.holds, holdsAny_eq]

theorem holds_all (parts : List Pred) (c : C) : engine.holds (all parts) c = parts.all fun pred => engine.holds pred c := by
  unfold all
  split
  · rfl
  · simp
  · rw [Engine.holds, holdsAll_eq]

/-- Who serves a candidate is in the group. -/
def servedBy (group : List String) (c : C) : Bool := decide (engine.provider c ∈ group)

theorem holds_groupPred (group : List String) : engine.holds (groupPred group) = servedBy engine group := by
  funext c
  rw [groupPred, holds_any, List.any_map, servedBy]
  induction group with
  | nil => rfl
  | cons provider group ih => simp [Engine.holds, ih]

theorem select_prefers (preds : List Pred) (ranked : List C) :
    engine.select ranked (preds.foldr .prefer .argmax) = nest (preds.map engine.holds) ranked := by
  induction preds with
  | nil => rfl
  | cons pred preds ih => rw [List.foldr_cons, Engine.select, ih]; rfl

theorem disjoint_servedBy {groups : List (List String)} (nodup : groups.flatten.Nodup) :
    Disjoint (groups.map (servedBy engine)) := by
  rw [List.nodup_flatten] at nodup
  refine List.pairwise_map.mpr (nodup.2.imp ?_)
  intro group group' apart c here
  unfold servedBy at here ⊢
  rw [decide_eq_true_eq] at here
  rw [decide_eq_false_iff_not]
  exact fun there => apart here there

/-- The index of the first group that serves a candidate. -/
def groupIndex (groups : List (List String)) (c : C) : Nat := groups.findIdx fun group => engine.provider c ∈ group

theorem classOf_servedBy (groups : List (List String)) (c : C) :
    classOf (groups.map (servedBy engine)) c = groupIndex engine groups c := by
  unfold classOf groupIndex servedBy
  rw [List.findIdx_map]
  rfl

/-- The nest of partitions that the builder writes sorts by the breaker and the group. -/
theorem select_ordered {groups : List (List String)} (nodup : groups.flatten.Nodup) (ranked : List C) :
    engine.select ranked (healthyFirst (orderedProviderSelector groups).2) =
      stableSort (fun c => toLex (engine.flag "breaker_open" c, groupIndex engine groups c)) ranked := by
  have preds : (groups.map groupPred).map engine.holds = groups.map (servedBy engine) := by
    rw [List.map_map]
    exact List.map_congr_left fun group _ => holds_groupPred engine group
  rw [healthyFirst, Engine.select, orderedProviderSelector, select_prefers, preds,
    prefer_nest_eq_stableSort _ (disjoint_servedBy engine nodup)]
  congr 1
  funext c
  rw [classOf_servedBy, Engine.holds, Bool.not_not, Engine.holds]

end Meaning

section Build

variable (literals : Literals) (repr : Value → String)

theorem finiteNumber_again {value : Value} {name : String} {number : Flt} (h : finiteNumber literals value name = .ok number) :
    finiteNumber literals (.float number) name = .ok number := by
  have finite : number.isFinite = true := by
    unfold finiteNumber at h
    dsimp only at h
    split at h
    · cases h
    · split at h
      · split at h
        · rename_i finite
          obtain rfl := Except.ok.inj h
          exact finite
        · cases h
      all_goals cases h
  simp [finiteNumber, Value.toFloat, finite]

theorem boundedNumber_again {value : Value} {name : String} {low high : Int} {number : Flt}
    (h : boundedNumber literals value name low high = .ok number) :
    boundedNumber literals (.float number) name low high = .ok number := by
  unfold boundedNumber at h ⊢
  obtain ⟨n, read, within⟩ := ok_of_bind h
  have same : n = number := by
    split at within
    · cases within
    · exact Except.ok.inj within
  subst same
  rw [finiteNumber_again literals read]
  exact within

theorem positivePrice_again {value : Value} {name : String} {number : Flt} (h : positivePrice literals value name = .ok number) :
    positivePrice literals (.float number) name = .ok number := by
  unfold positivePrice at h ⊢
  obtain ⟨n, read, within⟩ := ok_of_bind h
  have same : n = number := by
    split at within
    · cases within
    · exact Except.ok.inj within
  subst same
  rw [finiteNumber_again literals read]
  exact within

/-- The common part of an intent. -/
def commonIntent (inputShare reliability maxPriceIn maxPriceOut : Flt) : Options :=
  [("expected_input_share", .float inputShare), ("reliability_floor", .float reliability),
    ("max_price_in", .float maxPriceIn), ("max_price_out", .float maxPriceOut)]

theorem lookup_common (inputShare reliability maxPriceIn maxPriceOut : Flt) (more : Options) :
    let common := commonIntent inputShare reliability maxPriceIn maxPriceOut
    ∀ key ∈ common.map (·.1), (common ++ more).lookup key = common.lookup key := by
  intro common key mem
  simp only [common, commonIntent, List.map_cons, List.map_nil, List.mem_cons, List.not_mem_nil, or_false] at mem
  rcases mem with rfl | rfl | rfl | rfl <;> rfl

theorem commonValues_ok {options : Options} {parts : List Pred} {scorer : Scorer} {intent : Options}
    (h : commonValues literals options = .ok (parts, scorer, intent)) :
    ∃ inputShare reliability maxPriceIn maxPriceOut, intent = commonIntent inputShare reliability maxPriceIn maxPriceOut ∧
      ∀ options' : Options, (∀ key ∈ intent.map (·.1), options'.lookup key = intent.lookup key) →
        commonValues literals options' = .ok (parts, scorer, intent) := by
  unfold commonValues at h
  obtain ⟨inputShare, share, h⟩ := ok_of_bind h
  obtain ⟨reliability, floor, h⟩ := ok_of_bind h
  obtain ⟨maxPriceIn, priceIn, h⟩ := ok_of_bind h
  obtain ⟨maxPriceOut, priceOut, h⟩ := ok_of_bind h
  cases h
  refine ⟨inputShare, reliability, maxPriceIn, maxPriceOut, rfl, fun options' same => ?_⟩
  have readShare : options'.lookup "expected_input_share" = some (.float inputShare) := same _ (by simp)
  have readFloor : options'.lookup "reliability_floor" = some (.float reliability) := same _ (by simp)
  have readIn : options'.lookup "max_price_in" = some (.float maxPriceIn) := same _ (by simp)
  have readOut : options'.lookup "max_price_out" = some (.float maxPriceOut) := same _ (by simp)
  simp only [commonValues, Options.getD, readShare, readFloor, readIn, readOut, Option.getD_some]
  rw [boundedNumber_again literals share, boundedNumber_again literals floor, positivePrice_again literals priceIn,
    positivePrice_again literals priceOut]
  rfl

theorem boundedNumber_within {number : Flt} {name : String} {low high : Int} (finite : number.isFinite = true)
    (within : (number.lt (.fin low) || (Flt.fin high).lt number) = false) :
    boundedNumber literals (.float number) name low high = .ok number := by
  simp [boundedNumber, finiteNumber, Value.toFloat, finite, within, bind, Except.bind, pure, Except.pure]

theorem positivePrice_within {number : Flt} {name : String} (finite : number.isFinite = true) (within : number.lt (.fin 0) = false) :
    positivePrice literals (.float number) name = .ok number := by
  simp [positivePrice, finiteNumber, Value.toFloat, finite, within, bind, Except.bind, pure, Except.pure]

/-- Every default passes its own check. -/
theorem commonValues_default {options : Options}
    (absent : ∀ key ∈ ["expected_input_share", "reliability_floor", "max_price_in", "max_price_out"], options.lookup key = none) :
    commonValues literals options = .ok (baseFilter DEFAULT_RELIABILITY_FLOOR DEFAULT_MAX_PRICE_IN DEFAULT_MAX_PRICE_OUT,
      costScore DEFAULT_EXPECTED_INPUT_SHARE,
      commonIntent DEFAULT_EXPECTED_INPUT_SHARE DEFAULT_RELIABILITY_FLOOR DEFAULT_MAX_PRICE_IN DEFAULT_MAX_PRICE_OUT) := by
  have share : options.lookup "expected_input_share" = none := absent _ (by decide)
  have floor : options.lookup "reliability_floor" = none := absent _ (by decide)
  have priceIn : options.lookup "max_price_in" = none := absent _ (by decide)
  have priceOut : options.lookup "max_price_out" = none := absent _ (by decide)
  simp only [commonValues, Options.getD, share, floor, priceIn, priceOut, Option.getD_none]
  rw [boundedNumber_within literals rfl (by decide +kernel), boundedNumber_within literals rfl (by decide +kernel),
    positivePrice_within literals rfl (by decide +kernel), positivePrice_within literals rfl (by decide +kernel)]
  rfl

theorem commonValues_congr {options options' : Options}
    (same : ∀ key, key ≠ "provider_order" → options.lookup key = options'.lookup key) :
    commonValues literals options = commonValues literals options' := by
  have share := same "expected_input_share" (by decide)
  have floor := same "reliability_floor" (by decide)
  have priceIn := same "max_price_in" (by decide)
  have priceOut := same "max_price_out" (by decide)
  simp only [commonValues, Options.getD, share, floor, priceIn, priceOut]

/-- What the builder of a family returns. -/
theorem cheapestFamily_ok {options intent : Options} {policy : Policy} :
    cheapestFamily literals repr options = .ok (policy, intent) ↔
      familyOf repr options ≠ "" ∧ ∃ parts scorer common, commonValues literals options = .ok (parts, scorer, common) ∧
        (strategyOf repr options = "cost" ∧
            policy = policyOf (all (parts ++ [.familyEq (familyOf repr options)])) scorer (healthyFirst .argmax) ∧
            intent = common ++ [("family", .str (familyOf repr options)), ("provider_strategy", .str (strategyOf repr options))] ∨
          strategyOf repr options = "ordered" ∧ ∃ groups, parseProviderOrder (options.get "provider_order") = .ok groups ∧
            policy = policyOf (all (parts ++ [.familyEq (familyOf repr options)] ++ [(orderedProviderSelector groups).1])) scorer
              (healthyFirst (orderedProviderSelector groups).2) ∧
            intent = common ++ [("provider_order", listed groups)] ++
              [("family", .str (familyOf repr options)), ("provider_strategy", .str (strategyOf repr options))]) := by
  unfold cheapestFamily
  dsimp only
  by_cases nameless : familyOf repr options = ""
  · simp [nameless]
  · rw [if_neg nameless, bind_ok_iff]
    constructor
    · rintro ⟨⟨parts, scorer, common⟩, read, built⟩
      refine ⟨nameless, parts, scorer, common, read, ?_⟩
      by_cases cost : strategyOf repr options = "cost"
      · rw [if_pos cost] at built
        obtain ⟨rfl, rfl⟩ := Prod.mk.inj (Except.ok.inj built)
        exact .inl ⟨cost, rfl, rfl⟩
      · rw [if_neg cost] at built
        by_cases ordered : strategyOf repr options = "ordered"
        · rw [if_pos ordered] at built
          obtain ⟨groups, parsed, built⟩ := ok_of_bind built
          obtain ⟨rfl, rfl⟩ := Prod.mk.inj (Except.ok.inj built)
          exact .inr ⟨ordered, groups, parsed, rfl, rfl⟩
        · rw [if_neg ordered] at built
          cases built
    · rintro ⟨-, parts, scorer, common, read, ⟨cost, rfl, rfl⟩ | ⟨ordered, groups, parsed, rfl, rfl⟩⟩
      · exact ⟨_, read, if_pos cost⟩
      · refine ⟨_, read, ?_⟩
        have other : strategyOf repr options ≠ "cost" := by rw [ordered]; decide
        rw [if_neg other, if_pos ordered, parsed]
        rfl

end Build

section Again

variable (literals : Literals) (repr : Value → String)

theorem textOf_orElse {text : String} (nonempty : text ≠ "") (default : Value) :
    textOf repr ((Value.str text).orElse default) = text := by
  simp [Value.orElse, Value.truthy, nonempty, textOf]

theorem familyOf_again {options intent : Options} (nonempty : familyOf repr options ≠ "")
    (kept : intent.lookup "family" = some (.str (familyOf repr options))) : familyOf repr intent = familyOf repr options := by
  have stripped : strip (familyOf repr options) = familyOf repr options := strip_strip _
  rw [familyOf, Options.get, kept, Option.getD_some, textOf_orElse repr nonempty, stripped]

theorem strategyOf_again {options intent : Options} (nonempty : strategyOf repr options ≠ "")
    (kept : intent.lookup "provider_strategy" = some (.str (strategyOf repr options))) :
    strategyOf repr intent = strategyOf repr options := by
  have stripped : strip (strategyOf repr options) = strategyOf repr options := strip_strip _
  rw [strategyOf, Options.get, kept, Option.getD_some, textOf_orElse repr nonempty, stripped]

/-- Building a family again from its intent changes nothing. -/
theorem cheapestFamily_again {options intent : Options} {policy : Policy}
    (h : cheapestFamily literals repr options = .ok (policy, intent)) :
    cheapestFamily literals repr intent = .ok (policy, intent) := by
  obtain ⟨named, parts, scorer, common, read, built⟩ := (cheapestFamily_ok literals repr).mp h
  obtain ⟨inputShare, reliability, maxPriceIn, maxPriceOut, rfl, again⟩ := commonValues_ok literals read
  rcases built with ⟨cost, policyIs, intentIs⟩ | ⟨ordered, groups, parsed, policyIs, intentIs⟩
  · have keptFamily : intent.lookup "family" = some (.str (familyOf repr options)) := by rw [intentIs]; rfl
    have keptStrategy : intent.lookup "provider_strategy" = some (.str (strategyOf repr options)) := by rw [intentIs]; rfl
    have family := familyOf_again repr named keptFamily
    have strategy := strategyOf_again repr (by rw [cost]; decide) keptStrategy
    rw [cheapestFamily_ok, family, strategy]
    refine ⟨named, parts, scorer, _, again intent ?_, .inl ⟨cost, policyIs, intentIs⟩⟩
    rw [intentIs]
    exact lookup_common _ _ _ _ _
  · have keptFamily : intent.lookup "family" = some (.str (familyOf repr options)) := by rw [intentIs]; rfl
    have keptStrategy : intent.lookup "provider_strategy" = some (.str (strategyOf repr options)) := by rw [intentIs]; rfl
    have keptOrder : intent.get "provider_order" = listed groups := by rw [intentIs]; rfl
    have family := familyOf_again repr named keptFamily
    have strategy := strategyOf_again repr (by rw [ordered]; decide) keptStrategy
    rw [cheapestFamily_ok, family, strategy, keptOrder]
    refine ⟨named, parts, scorer, _, again intent ?_, .inr ⟨ordered, groups, ?_, policyIs, intentIs⟩⟩
    · rw [intentIs, List.append_assoc]
      exact lookup_common _ _ _ _ _
    · exact parseProviderOrder_listed (parseProviderOrder_accepted parsed)

theorem topN_ok {raw : Value} {n : Int} (h : topN literals raw = .ok n) : 1 ≤ n := by
  unfold topN at h
  dsimp only at h
  split at h
  · cases h
  · split at h
    · split at h
      · cases h
      · rename_i within
        obtain rfl := Except.ok.inj h
        rw [Bool.or_eq_true, not_or, decide_eq_true_eq] at within
        omega
    all_goals cases h

theorem topN_again {n : Int} (h : 1 ≤ n) : topN literals (.int n) = .ok n := by
  have within : ¬n < 1 := by omega
  simp [topN, Value.toInt, topN.isNumber, within]

/-- Building a smart-value policy again from its intent changes nothing. -/
theorem smartValue_again {options intent : Options} {policy : Policy} (h : smartValue literals options = .ok (policy, intent)) :
    smartValue literals intent = .ok (policy, intent) := by
  unfold smartValue at h
  obtain ⟨⟨parts, scorer, common⟩, read, h⟩ := ok_of_bind h
  obtain ⟨n, limit, h⟩ := ok_of_bind h
  obtain ⟨rfl, rfl⟩ := Prod.mk.inj (Except.ok.inj h)
  obtain ⟨inputShare, reliability, maxPriceIn, maxPriceOut, rfl, again⟩ := commonValues_ok literals read
  have kept : Options.getD (commonIntent inputShare reliability maxPriceIn maxPriceOut ++ [("top_n", .int n)]) "top_n"
      (.int DEFAULT_QUALITY_TOP_N) = .int n := rfl
  have limitAgain := topN_again literals (topN_ok literals limit)
  exact bind_ok_iff.mpr ⟨_, again _ (lookup_common _ _ _ _ _), bind_ok_iff.mpr ⟨n, kept ▸ limitAgain, rfl⟩⟩

end Again

section Ordered

variable (literals : Literals) (repr : Value → String)

/-- The policy of an ordered family, and the accepted order it was built with. -/
theorem cheapestFamily_ordered {options intent : Options} {policy : Policy} (ordered : strategyOf repr options = "ordered")
    (h : cheapestFamily literals repr options = .ok (policy, intent)) :
    ∃ groups parts, parseProviderOrder (options.get "provider_order") = .ok groups ∧
      policy.pred = all (parts ++ [(orderedProviderSelector groups).1]) ∧
      policy.selector = healthyFirst (orderedProviderSelector groups).2 := by
  obtain ⟨-, parts, scorer, common, -, ⟨cost, -, -⟩ | ⟨-, groups, parsed, rfl, -⟩⟩ := (cheapestFamily_ok literals repr).mp h
  · rw [ordered] at cost
    exact absurd cost (by decide)
  · exact ⟨groups, _, parsed, rfl, rfl⟩

variable {C : Type} (engine : Engine C)

theorem holds_allowed (groups : List (List String)) (c : C) :
    engine.holds (orderedProviderSelector groups).1 c = groups.any fun group => decide (engine.provider c ∈ group) := by
  rw [orderedProviderSelector, holds_any, List.any_map]
  congr 1
  funext group
  rw [Function.comp_apply, holds_groupPred, servedBy]

/-- The order of an ordered family's policy. -/
theorem order_sorts {options intent : Options} {policy : Policy} (ordered : strategyOf repr options = "ordered")
    (h : cheapestFamily literals repr options = .ok (policy, intent)) :
    ∃ groups, parseProviderOrder (options.get "provider_order") = .ok groups ∧ ∀ candidates,
      engine.order policy candidates =
          stableSort (fun c => toLex (engine.flag "breaker_open" c, groupIndex engine groups c)) (engine.ranked policy candidates) ∧
        ∀ c ∈ engine.admitted policy candidates, ∃ group ∈ groups, engine.provider c ∈ group := by
  obtain ⟨groups, parts, parsed, pred, selector⟩ := cheapestFamily_ordered literals repr ordered h
  refine ⟨groups, parsed, fun candidates => ⟨?_, fun c mem => ?_⟩⟩
  · rw [Engine.order, selector, select_ordered engine (parseProviderOrder_accepted parsed).nodup]
  · have holds := (List.mem_filter.mp mem).2
    rw [pred, holds_all, List.all_append, Bool.and_eq_true] at holds
    simpa [holds_allowed] using holds.2

/-- Reordering inside the groups moves no candidate to another group. -/
theorem groupIndex_perms {groups groups' : List (List String)} (perms : List.Forall₂ List.Perm groups groups') (c : C) :
    groupIndex engine groups c = groupIndex engine groups' c := by
  unfold groupIndex
  induction perms with
  | nil => rfl
  | cons perm perms ih => rw [List.findIdx_cons, List.findIdx_cons, ih, decide_eq_decide.mpr perm.mem_iff]

theorem allowed_perms {groups groups' : List (List String)} (perms : List.Forall₂ List.Perm groups groups') :
    engine.holds (orderedProviderSelector groups).1 = engine.holds (orderedProviderSelector groups').1 := by
  funext c
  rw [holds_allowed, holds_allowed]
  induction perms with
  | nil => rfl
  | cons perm perms ih => rw [List.any_cons, List.any_cons, ih, decide_eq_decide.mpr perm.mem_iff]

theorem order_perms (parts : List Pred) (scorer : Scorer) {groups groups' : List (List String)}
    (nodup : groups.flatten.Nodup) (perms : List.Forall₂ List.Perm groups groups') (candidates : List C) :
    engine.order (policyOf (all (parts ++ [(orderedProviderSelector groups').1])) scorer
        (healthyFirst (orderedProviderSelector groups').2)) candidates =
      engine.order (policyOf (all (parts ++ [(orderedProviderSelector groups).1])) scorer
        (healthyFirst (orderedProviderSelector groups).2)) candidates := by
  have preds : engine.holds (all (parts ++ [(orderedProviderSelector groups').1])) =
      engine.holds (all (parts ++ [(orderedProviderSelector groups).1])) := by
    funext c
    rw [holds_all, holds_all, List.all_append, List.all_append, List.all_cons, List.all_cons, allowed_perms engine perms]
  have ranked : engine.ranked (policyOf (all (parts ++ [(orderedProviderSelector groups').1])) scorer
        (healthyFirst (orderedProviderSelector groups').2)) candidates =
      engine.ranked (policyOf (all (parts ++ [(orderedProviderSelector groups).1])) scorer
        (healthyFirst (orderedProviderSelector groups).2)) candidates :=
    congrArg (fun holds => engine.argmax scorer (candidates.filter holds)) preds
  have nodup' := (flatten_perm perms).nodup_iff.mp nodup
  unfold Engine.order
  rw [ranked]
  simp only [policyOf]
  rw [select_ordered engine nodup', select_ordered engine nodup]
  simp only [groupIndex_perms engine perms]

/-- Options that agree but for the order inside the groups of the provider order. -/
structure SameButOrder (options options' : Options) : Prop where
  others : ∀ key, key ≠ "provider_order" → options.lookup key = options'.lookup key
  regrouped : ∃ raws raws', options.get "provider_order" = .arr raws ∧ options'.get "provider_order" = .arr raws' ∧
    Regrouped raws raws'

/-- Reordering providers inside their groups keeps the order of every candidate list. -/
theorem order_regrouped {options options' intent : Options} {policy : Policy} (same : SameButOrder options options')
    (ordered : strategyOf repr options = "ordered") (h : cheapestFamily literals repr options = .ok (policy, intent)) :
    ∃ policy' intent', cheapestFamily literals repr options' = .ok (policy', intent') ∧
      ∀ candidates : List C, engine.order policy' candidates = engine.order policy candidates := by
  obtain ⟨named, parts, scorer, common, read, ⟨cost, -, -⟩ | ⟨-, groups, parsed, rfl, -⟩⟩ := (cheapestFamily_ok literals repr).mp h
  · rw [ordered] at cost
    exact absurd cost (by decide)
  · obtain ⟨raws, raws', order, order', regrouped⟩ := same.regrouped
    rw [order] at parsed
    obtain ⟨groups', parsed', perms⟩ := parseProviderOrder_regrouped regrouped parsed
    have family : familyOf repr options' = familyOf repr options := by
      rw [familyOf, familyOf, Options.get, Options.get, same.others "family" (by decide)]
    have strategy : strategyOf repr options' = strategyOf repr options := by
      rw [strategyOf, strategyOf, Options.get, Options.get, same.others "provider_strategy" (by decide)]
    rw [commonValues_congr literals same.others] at read
    refine ⟨_, _, (cheapestFamily_ok literals repr).mpr ⟨by rw [family]; exact named, parts, scorer, common, read,
      .inr ⟨strategy.trans ordered, groups', by rw [order']; exact parsed', rfl, rfl⟩⟩, fun candidates => ?_⟩
    rw [family]
    exact order_perms engine _ scorer (parseProviderOrder_accepted parsed).nodup perms candidates

/-- Provider-ordered templates mean what they say, and intents build what they describe. -/
structure Faithful : Prop where
  /-- The order is the stable sort by the breaker, the group and the `argmax` position, of
  candidates whose providers are all listed. -/
  sorts : ∀ (C : Type) (engine : Engine C) (options intent : Options) (policy : Policy),
    strategyOf repr options = "ordered" → cheapestFamily literals repr options = .ok (policy, intent) →
    ∃ groups, parseProviderOrder (options.get "provider_order") = .ok groups ∧ ∀ candidates,
      engine.order policy candidates =
          stableSort (fun c => toLex (engine.flag "breaker_open" c, groupIndex engine groups c)) (engine.ranked policy candidates) ∧
        ∀ c ∈ engine.admitted policy candidates, ∃ group ∈ groups, engine.provider c ∈ group
  regroups : ∀ (C : Type) (engine : Engine C) (options options' intent : Options) (policy : Policy),
    SameButOrder options options' → strategyOf repr options = "ordered" →
    cheapestFamily literals repr options = .ok (policy, intent) →
    ∃ policy' intent', cheapestFamily literals repr options' = .ok (policy', intent') ∧
      ∀ candidates : List C, engine.order policy' candidates = engine.order policy candidates
  familyAgain : ∀ (options intent : Options) (policy : Policy), cheapestFamily literals repr options = .ok (policy, intent) →
    cheapestFamily literals repr intent = .ok (policy, intent)
  smartAgain : ∀ (options intent : Options) (policy : Policy), smartValue literals options = .ok (policy, intent) →
    smartValue literals intent = .ok (policy, intent)

theorem templates_faithful : Faithful literals repr :=
  ⟨fun _ engine _ _ _ ordered built => order_sorts literals repr engine ordered built,
    fun _ engine _ _ _ _ same ordered built => order_regrouped literals repr engine same ordered built,
    fun _ _ _ built => cheapestFamily_again literals repr built, fun _ _ _ built => smartValue_again literals built⟩

end Ordered

section Grouped

def noLiterals : Literals := ⟨fun _ => none, fun _ => none⟩

/-- Offers by their provider, the shorter the name the better; those of bedrock have their breaker open. -/
def market : Engine String where
  meetsReq _ := true
  flag name c := name = "breaker_open" ∧ c = "bedrock"
  compare _ _ _ _ := true
  family _ := "m"
  provider c := c
  score _ _ c := -c.length
  tie a b := a ≤ b

def groupedOptions (groups : List Value) : Options :=
  [("family", .str "m"), ("provider_strategy", .str "ordered"), ("provider_order", .arr groups)]

theorem groupedOptions_ordered (raws : List Value) : strategyOf (fun _ => "") (groupedOptions raws) = "ordered" := by
  change strip "ordered" = "ordered"
  decide +kernel

theorem built_grouped {raws : List Value} {groups : List (List String)} (parsed : parseProviderOrder (.arr raws) = .ok groups) :
    ∃ policy intent, cheapestFamily noLiterals (fun _ => "") (groupedOptions raws) = .ok (policy, intent) := by
  have family : familyOf (fun _ => "") (groupedOptions raws) ≠ "" := by
    change strip "m" ≠ ""
    decide +kernel
  have absent : ∀ key ∈ ["expected_input_share", "reliability_floor", "max_price_in", "max_price_out"],
      (groupedOptions raws).lookup key = none := by
    simp [groupedOptions, List.lookup_cons]
  have read := commonValues_default noLiterals absent
  exact ⟨_, _, (cheapestFamily_ok _ _).mpr ⟨family, _, _, _, read, .inr ⟨groupedOptions_ordered raws, groups, parsed, rfl, rfl⟩⟩⟩

def grouped : List Value := [.arr [.str "antseed", .str " bedrock "], .str "openrouter"]

def groupedOther : List Value := [.arr [.str " bedrock ", .str "antseed"], .str "openrouter"]

/-- Two groups, the first of two providers, one of them with blanks around it. -/
theorem templates_faithful_grouped :
    ∃ policy intent, cheapestFamily noLiterals (fun _ => "") (groupedOptions grouped) = .ok (policy, intent) ∧
      (∀ candidates, market.order policy candidates =
          stableSort (fun c => toLex (market.flag "breaker_open" c, groupIndex market [["antseed", "bedrock"], ["openrouter"]] c))
            (market.ranked policy candidates)) ∧
      (∃ policy' intent', cheapestFamily noLiterals (fun _ => "") (groupedOptions groupedOther) = .ok (policy', intent') ∧
        ∀ candidates, market.order policy' candidates = market.order policy candidates) ∧
      cheapestFamily noLiterals (fun _ => "") intent = .ok (policy, intent) := by
  have parsed : parseProviderOrder (.arr grouped) = .ok [["antseed", "bedrock"], ["openrouter"]] := by decide +kernel
  obtain ⟨policy, intent, built⟩ := built_grouped parsed
  obtain ⟨groups, read, sorted⟩ := (templates_faithful noLiterals fun _ => "").sorts String market _ intent policy
    (groupedOptions_ordered grouped) built
  obtain rfl := Except.ok.inj (parsed.symm.trans read)
  have regrouped : Regrouped grouped groupedOther := .cons (List.Perm.swap _ _ _) (.cons (List.Perm.refl _) .nil)
  have same : SameButOrder (groupedOptions grouped) (groupedOptions groupedOther) := by
    refine ⟨fun key other => ?_, grouped, groupedOther, rfl, rfl, regrouped⟩
    have apart : (key == "provider_order") = false := by simp [other]
    simp only [groupedOptions, List.lookup_cons, apart]
  exact ⟨policy, intent, built, fun candidates => (sorted candidates).1,
    (templates_faithful noLiterals fun _ => "").regroups String market _ _ intent policy same (groupedOptions_ordered grouped) built,
    (templates_faithful noLiterals fun _ => "").familyAgain _ _ _ built⟩

end Grouped

end Unhardcoded.Guarantees.PolicyTemplates
