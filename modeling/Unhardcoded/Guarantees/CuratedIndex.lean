import Unhardcoded.Source.CuratedIndex

/-!
# What a peer's model name binds to

The two indexes in their own terms: `exact` answers with the only family of a canonical
form (`lookup_exactIndex`), `bare` with the only family whose name is a vendor in front of
the key (`lookup_bareIndex`). A name is answered by the operator's alias, by itself, by
its canonical form (`named`), and only then by a weaker layer (`matchCurated_eq`).
-/

namespace Unhardcoded.Guarantees.CuratedIndex
open Source.CuratedIndex Effects.GroupBy Python

section Tally

theorem foldl_addClaim {rows claims : List String} (distinct : (claims ++ rows).Nodup) :
    rows.foldl addClaim claims = claims ++ rows := by
  induction rows generalizing claims with
  | nil => exact (List.append_nil claims).symm
  | cons family rows ih =>
    have new : family ∉ claims := by
      rw [List.nodup_append] at distinct
      exact fun mem => distinct.2.2 family mem family List.mem_cons_self rfl
    rw [List.foldl_cons, addClaim, if_neg new, ih (by simpa using distinct)]
    simp

/-- One element of a list without repetitions is the only one. -/
theorem eq_singleton_iff {α : Type} {l : List α} (distinct : l.Nodup) (a : α) :
    l = [a] ↔ a ∈ l ∧ ∀ b ∈ l, b = a := by
  constructor
  · rintro rfl
    exact ⟨List.mem_singleton_self a, fun b => List.mem_singleton.mp⟩
  · rintro ⟨mem, only⟩
    cases l with
    | nil => cases mem
    | cons b rest =>
      obtain rfl := only b List.mem_cons_self
      cases rest with
      | nil => rfl
      | cons c rest =>
        obtain rfl := only c (List.mem_cons_of_mem _ List.mem_cons_self)
        simp at distinct

/-- A key has an entry where one row claims it. -/
theorem lookup_resolve (key : String → String) {rows : List String} (distinct : rows.Nodup) (k family : String) :
    (resolve (tally key [] addClaim rows)).lookup k = some family ↔
      family ∈ rows ∧ key family = k ∧ ∀ other ∈ rows, key other = k → other = family := by
  have groupDistinct : (group key k rows).Nodup := distinct.filter _
  have filed : (group key k rows).foldl addClaim [] = group key k rows := foldl_addClaim groupDistinct
  have single : (resolve (tally key [] addClaim rows)).lookup k = some family ↔ group key k rows = [family] := by
    rw [resolve, lookup_pickValues _ (nodup_tally key [] addClaim rows), lookup_tally]
    split
    · rw [filed, Option.bind_some]
      split
      · rename_i other one
        rw [one]
        simp
      · rename_i several
        exact iff_of_false (by simp) fun one => several family one
    · rename_i absent
      rw [group_of_notMem absent]
      simp
  rw [single, eq_singleton_iff groupDistinct]
  simp only [group, List.mem_filter, decide_eq_true_eq]
  constructor
  · rintro ⟨⟨mem, here⟩, only⟩
    exact ⟨mem, here, fun other within same => only other ⟨within, same⟩⟩
  · rintro ⟨mem, here, only⟩
    exact ⟨⟨mem, here⟩, fun other within => only other within.1 within.2⟩

end Tally

section Index

variable (lower : String → String) (cat : Catalog)

/-- The only curated family with a property. -/
def OnlyFamily (p : String → Prop) (family : String) : Prop :=
  family ∈ cat.families ∧ p family ∧ ∀ other ∈ cat.families, p other → other = family

/-- The only family of a canonical form. -/
def Canonical (canon family : String) : Prop := OnlyFamily cat (fun f => canonService lower f = canon) family

/-- The only family whose name is a vendor in front of a residue, and that vendor. -/
def Filed (residue family vendor : String) : Prop :=
  OnlyFamily cat (fun f => ∃ v, bareName lower f = some (v, residue)) family ∧
    bareName lower family = some (vendor, residue)

theorem lookup_exactIndex (canon family : String) :
    (exactIndex lower cat).lookup canon = some family ↔ Canonical lower cat canon family :=
  lookup_resolve (canonService lower) cat.distinct canon family

theorem exactIndex_none (canon : String) :
    (exactIndex lower cat).lookup canon = none ↔ ∀ family, ¬ Canonical lower cat canon family := by
  rw [Option.eq_none_iff_forall_ne_some]
  exact forall_congr' fun family => not_congr (lookup_exactIndex lower cat canon family)

theorem mem_bareFamilies {family : String} : family ∈ bareFamilies lower cat ↔
    family ∈ cat.families ∧ ∃ v residue, bareName lower family = some (v, residue) := by
  rw [bareFamilies, List.mem_filter, Option.isSome_iff_exists]
  simp

theorem residueOf_eq {family v residue : String} (h : bareName lower family = some (v, residue)) :
    residueOf lower family = residue := by
  rw [residueOf, h]
  rfl

theorem bareVendors_lookup {residue family vendor : String} (h : Filed lower cat residue family vendor) :
    (bareVendors lower cat).lookup residue = some vendor := by
  obtain ⟨⟨mem, -, only⟩, name⟩ := h
  have filed : family ∈ bareFamilies lower cat := (mem_bareFamilies lower cat).mpr ⟨mem, vendor, residue, name⟩
  obtain ⟨before, after, split⟩ := List.append_of_mem filed
  -- behind this family no other one writes the residue
  have later : ∀ other ∈ after, residue ≠ residueOf lower other := by
    intro other within same
    have inBare : other ∈ bareFamilies lower cat := by
      rw [split]
      exact List.mem_append_right _ (List.mem_cons_of_mem _ within)
    obtain ⟨inCat, v, r, otherName⟩ := (mem_bareFamilies lower cat).mp inBare
    rw [residueOf_eq lower otherName] at same
    subst same
    obtain rfl := only other inCat ⟨v, otherName⟩
    have distinct : (bareFamilies lower cat).Nodup := cat.distinct.filter _
    rw [split, List.nodup_append, List.nodup_cons] at distinct
    exact distinct.2.1.1 within
  unfold bareVendors
  rw [split, List.foldl_append, List.foldl_cons, lookup_foldl_insert later, residueOf_eq lower name, lookup_insert_self,
    name]
  rfl

theorem lookup_bareIndex (residue family vendor : String) :
    (bareIndex lower cat).lookup residue = some (family, vendor) ↔ Filed lower cat residue family vendor := by
  have bareDistinct : (bareFamilies lower cat).Nodup := cat.distinct.filter _
  have resolved := lookup_resolve (residueOf lower) bareDistinct residue family
  have keys : ((resolve (tally (residueOf lower) [] addClaim (bareFamilies lower cat))).map (·.1)).Nodup :=
    (keys_pickValues _ _).nodup (nodup_tally _ _ _ _)
  have only_iff : (family ∈ bareFamilies lower cat ∧ residueOf lower family = residue ∧
      ∀ other ∈ bareFamilies lower cat, residueOf lower other = residue → other = family) ↔
      OnlyFamily cat (fun f => ∃ v, bareName lower f = some (v, residue)) family := by
    constructor
    · rintro ⟨mem, here, only⟩
      obtain ⟨inCat, v, r, name⟩ := (mem_bareFamilies lower cat).mp mem
      rw [residueOf_eq lower name] at here
      subst here
      refine ⟨inCat, ⟨v, name⟩, fun other within claims => ?_⟩
      obtain ⟨w, otherName⟩ := claims
      exact only other ((mem_bareFamilies lower cat).mpr ⟨within, w, r, otherName⟩) (residueOf_eq lower otherName)
    · rintro ⟨inCat, ⟨v, name⟩, only⟩
      refine ⟨(mem_bareFamilies lower cat).mpr ⟨inCat, v, residue, name⟩, residueOf_eq lower name,
        fun other within same => ?_⟩
      obtain ⟨otherIn, w, r, otherName⟩ := (mem_bareFamilies lower cat).mp within
      rw [residueOf_eq lower otherName] at same
      subst same
      exact only other otherIn ⟨w, otherName⟩
  rw [bareIndex, lookup_pickValues _ keys]
  constructor
  · intro found
    obtain ⟨f, one, gives⟩ := Option.bind_eq_some_iff.mp found
    obtain ⟨v, vendorOf, pair⟩ := Option.map_eq_some_iff.mp gives
    obtain ⟨rfl, rfl⟩ := Prod.mk.inj pair
    have only := only_iff.mp (resolved.mp one)
    obtain ⟨w, name⟩ := only.2.1
    have filed : Filed lower cat residue f w := ⟨only, name⟩
    rw [bareVendors_lookup lower cat filed] at vendorOf
    exact Option.some.inj vendorOf ▸ filed
  · intro filed
    rw [resolved.mpr (only_iff.mpr filed.1), Option.bind_some, bareVendors_lookup lower cat filed]
    rfl

end Index

section Match

variable (lower : String → String) (cat : Catalog) (aliases : List (String × String))

/-- The operator's alias of a name. -/
def Aliased (name family : String) : Prop := aliases.lookup name = some family ∧ family ∈ cat.families

/-- An alias, an exact or a canonical-equal match. -/
def Named (name family : String) : Prop :=
  Aliased cat aliases name family ∨
    (∀ other, ¬ Aliased cat aliases name other) ∧
      (family = name ∧ name ∈ cat.families ∨
        name ∉ cat.families ∧ Canonical lower cat (canonService lower name) family)

/-- The vendor a name leads with. -/
def Claims (name vendor : String) : Prop := (splitVendor (canonService lower name)).1 = some vendor

/-- What the vendor-aware layers answer: behind a claimed vendor the family of the residue if that
vendor is known to be its own, else the one filed under residue and vendor; without a claim
the one filed under the whole name. -/
def Weaker (name family : String) : Prop :=
  (∃ vendor residue, splitVendor (canonService lower name) = (some vendor, residue) ∧
    (Canonical lower cat residue family ∧ familyVendor lower cat family = some vendor ∨
      (∀ other, ¬ Canonical lower cat residue other) ∧ Filed lower cat residue family vendor)) ∨
  (∃ residue vendor, splitVendor (canonService lower name) = (none, residue) ∧
    Filed lower cat (canonService lower name) family vendor)

/-- The last two lookups of `_match_curated`. -/
def weaker (name : String) : Option String :=
  match splitVendor (canonService lower name) with
  | (none, _) => ((bareIndex lower cat).lookup (canonService lower name)).map (·.1)
  | (some vendor, residue) =>
    match (exactIndex lower cat).lookup residue with
    | some family => if familyVendor lower cat family = some vendor then some family else none
    | none =>
      match (bareIndex lower cat).lookup residue with
      | some (family, filed) => if filed = vendor then some family else none
      | none => none

theorem weaker_iff (name family : String) : weaker lower cat name = some family ↔ Weaker lower cat name family := by
  rw [weaker, Weaker]
  split
  · rename_i residue noClaim
    rw [noClaim, Option.map_eq_some_iff]
    constructor
    · rintro ⟨⟨f, v⟩, found, rfl⟩
      exact .inr ⟨residue, v, rfl, (lookup_bareIndex lower cat _ f v).mp found⟩
    · rintro (⟨v, r, claims, -⟩ | ⟨r, v, -, filed⟩)
      · cases claims
      · exact ⟨(family, v), (lookup_bareIndex lower cat _ family v).mpr filed, rfl⟩
  · rename_i vendor residue claim
    rw [claim]
    have behind : (∃ v r, ((some vendor : Option String), residue) = (some v, r) ∧
        (Canonical lower cat r family ∧ familyVendor lower cat family = some v ∨
          (∀ other, ¬ Canonical lower cat r other) ∧ Filed lower cat r family v)) ↔
        (Canonical lower cat residue family ∧ familyVendor lower cat family = some vendor ∨
          (∀ other, ¬ Canonical lower cat residue other) ∧ Filed lower cat residue family vendor) := by
      constructor
      · rintro ⟨v, r, same, answers⟩
        cases same
        exact answers
      · exact fun answers => ⟨vendor, residue, rfl, answers⟩
    have unclaimed : ¬ ∃ r v, ((some vendor : Option String), residue) = (none, r) ∧
        Filed lower cat (canonService lower name) family v := by
      rintro ⟨r, v, same, -⟩
      cases same
    rw [behind, or_iff_left unclaimed]
    split
    · -- the residue names a family: it answers alone
      rename_i found answer
      have here := (lookup_exactIndex lower cat residue found).mp answer
      constructor
      · intro given
        rw [Option.ite_none_right_eq_some] at given
        cases given.2
        exact .inl ⟨here, given.1⟩
      · rintro (⟨canonical, vendorOf⟩ | ⟨none, -⟩)
        · obtain rfl := here.2.2 family canonical.1 canonical.2.1
          rw [if_pos vendorOf]
        · exact absurd here (none found)
    · rename_i silent
      have none := (exactIndex_none lower cat residue).mp silent
      constructor
      · intro answer
        split at answer
        · rename_i f filed bare
          rw [Option.ite_none_right_eq_some] at answer
          obtain ⟨rfl, same⟩ := answer
          cases same
          exact .inr ⟨none, (lookup_bareIndex lower cat residue family filed).mp bare⟩
        · cases answer
      · rintro (⟨canonical, -⟩ | ⟨-, filed⟩)
        · exact absurd canonical (none family)
        · rw [(lookup_bareIndex lower cat residue family vendor).mpr filed]
          exact if_pos rfl

theorem alias_iff (name family : String) :
    (aliases.lookup name).filter (· ∈ cat.families) = some family ↔ Aliased cat aliases name family := by
  rw [Option.filter_eq_some_iff, decide_eq_true_eq]
  rfl

/-- The stronger names go first, the weaker layers only where they are silent. -/
theorem matchCurated_iff (name family : String) :
    matchCurated lower cat aliases name = some family ↔
      Named lower cat aliases name family ∨
        (∀ other, ¬ Named lower cat aliases name other) ∧ Weaker lower cat name family := by
  unfold matchCurated Named
  split
  · rename_i found answer
    have here := (alias_iff cat aliases name found).mp answer
    constructor
    · intro same
      cases same
      exact .inl (.inl here)
    · rintro ((aliased | ⟨none, -⟩) | ⟨none, -⟩)
      · exact here.1.symm.trans aliased.1
      · exact absurd here (none found)
      · exact absurd (.inl here) (none found)
  · rename_i silent
    have unaliased : ∀ other, ¬ Aliased cat aliases name other := fun other aliased =>
      nomatch silent.symm.trans ((alias_iff cat aliases name other).mpr aliased)
    by_cases mem : name ∈ cat.families
    · rw [if_pos mem]
      constructor
      · intro same
        cases same
        exact .inl (.inr ⟨unaliased, .inl ⟨rfl, mem⟩⟩)
      · rintro ((aliased | ⟨-, ⟨rfl, -⟩ | ⟨off, -⟩⟩) | ⟨none, -⟩)
        · exact absurd aliased (unaliased family)
        · rfl
        · exact absurd mem off
        · exact absurd (.inr ⟨unaliased, .inl ⟨rfl, mem⟩⟩) (none name)
    · rw [if_neg mem]
      dsimp only
      split
      · rename_i found answer
        have here := (lookup_exactIndex lower cat _ found).mp answer
        constructor
        · intro same
          cases same
          exact .inl (.inr ⟨unaliased, .inr ⟨mem, here⟩⟩)
        · rintro ((aliased | ⟨-, ⟨-, on⟩ | ⟨-, canonical⟩⟩) | ⟨none, -⟩)
          · exact absurd aliased (unaliased family)
          · exact absurd on mem
          · rw [here.2.2 family canonical.1 canonical.2.1]
          · exact absurd (.inr ⟨unaliased, .inr ⟨mem, here⟩⟩) (none found)
      · rename_i silent
        have uncanonical := (exactIndex_none lower cat _).mp silent
        have unnamed : ∀ other, ¬ (Aliased cat aliases name other ∨ (∀ g, ¬ Aliased cat aliases name g) ∧
            (other = name ∧ name ∈ cat.families ∨
              name ∉ cat.families ∧ Canonical lower cat (canonService lower name) other)) := by
          rintro other (aliased | ⟨-, ⟨-, on⟩ | ⟨-, canonical⟩⟩)
          · exact unaliased other aliased
          · exact mem on
          · exact uncanonical other canonical
        rw [or_iff_right (unnamed family), and_iff_right unnamed]
        rw [← weaker_iff]
        unfold weaker
        generalize splitVendor (canonService lower name) = claim
        cases claim with
        | mk vendor residue => cases vendor <;> rfl

theorem matchCurated_none (name : String) :
    matchCurated lower cat aliases name = none ↔
      (∀ family, ¬ Named lower cat aliases name family) ∧ ∀ family, ¬ Weaker lower cat name family := by
  rw [Option.eq_none_iff_forall_ne_some]
  simp only [ne_eq, matchCurated_iff, not_or, not_and]
  constructor
  · exact fun none => ⟨fun family => (none family).1, fun family => (none family).2 fun other => (none other).1⟩
  · exact fun none family => ⟨none.1 family, fun _ => none.2 family⟩

end Match

section Bind

variable (lower : String → String) (cat : Catalog) (aliases : List (String × String))

/-- The name whose family a binding carries: the wire name, or what its marker leaves of it. -/
def matchedName (service : String) (bound : Bound) : String :=
  match bound.variant with
  | none => service
  | some _ => (splitVariant lower service).1

theorem bind_iff (service : String) (bound : Bound) :
    bind lower cat aliases service = some bound ↔
      (∃ family, matchCurated lower cat aliases service = some family ∧ bound = ⟨family, family, none⟩) ∨
      (∃ base variant family, matchCurated lower cat aliases service = none ∧
        splitVariant lower service = (base, some variant) ∧ matchCurated lower cat aliases base = some family ∧
        bound = ⟨family ++ "@" ++ variant, family, some variant⟩) := by
  unfold Source.CuratedIndex.bind
  cases direct : matchCurated lower cat aliases service with
  | some family =>
    constructor
    · intro same
      exact .inl ⟨family, rfl, (Option.some.inj same).symm⟩
    · rintro (⟨f, same, rfl⟩ | ⟨_, _, _, none, -⟩)
      · cases same
        rfl
      · cases none
  | none =>
    rcases marker : splitVariant lower service with ⟨base, _ | variant⟩
    · constructor
      · intro same
        cases same
      · rintro (⟨_, same, -⟩ | ⟨_, _, _, -, same, -⟩) <;> cases same
    · constructor
      · intro same
        obtain ⟨family, based, rfl⟩ := Option.map_eq_some_iff.mp same
        exact .inr ⟨base, variant, family, rfl, rfl, based, rfl⟩
      · rintro (⟨_, same, -⟩ | ⟨_, _, family, -, same, based, rfl⟩)
        · cases same
        · cases same
          exact Option.map_eq_some_iff.mpr ⟨family, based, rfl⟩

theorem bind_none (service : String) :
    bind lower cat aliases service = none ↔
      matchCurated lower cat aliases service = none ∧
        ∀ base variant, splitVariant lower service = (base, some variant) →
          matchCurated lower cat aliases base = none := by
  unfold Source.CuratedIndex.bind
  cases direct : matchCurated lower cat aliases service with
  | some family => exact iff_of_false nofun fun none => nomatch none.1
  | none =>
    rcases marker : splitVariant lower service with ⟨base, _ | variant⟩
    · exact iff_of_true rfl ⟨rfl, fun _ _ same => nomatch same⟩
    · rw [Option.map_eq_none_iff]
      constructor
      · intro none
        refine ⟨rfl, fun _ _ same => ?_⟩
        cases same
        exact none
      · exact fun none => none.2 base variant rfl

/-- No alias, exact or canonical-equal match answers for a name. -/
def Unnamed (name : String) : Prop := ∀ family, ¬ Named lower cat aliases name family

/-- The names that the weaker layers are asked about: the wire name, or, where it is answered by
nothing, what its marker leaves of it. -/
def Asked (service name : String) : Prop :=
  Unnamed lower cat aliases name ∧
    (name = service ∨
      (Unnamed lower cat aliases service ∧ ∀ family, ¬ Weaker lower cat service family) ∧
        ∃ variant, splitVariant lower service = (name, some variant))

/-- A binding by a weaker layer only, and the name it was found under. -/
theorem bind_asked {service : String} {bound : Bound} (h : bind lower cat aliases service = some bound)
    (unnamed : Unnamed lower cat aliases (matchedName lower service bound)) :
    Asked lower cat aliases service (matchedName lower service bound) ∧
      Weaker lower cat (matchedName lower service bound) bound.baseFamily := by
  obtain ⟨family, found, rfl⟩ | ⟨base, variant, family, direct, marker, found, rfl⟩ :=
    (bind_iff lower cat aliases service bound).mp h
  · have answer := ((matchCurated_iff lower cat aliases service family).mp found).resolve_left (unnamed family)
    exact ⟨⟨unnamed, .inl rfl⟩, answer.2⟩
  · have base_eq : matchedName lower service ⟨family ++ "@" ++ variant, family, some variant⟩ = base :=
      congrArg Prod.fst marker
    rw [base_eq] at unnamed ⊢
    have answer := ((matchCurated_iff lower cat aliases base family).mp found).resolve_left (unnamed family)
    exact ⟨⟨unnamed, .inr ⟨(matchCurated_none lower cat aliases service).mp direct, variant, marker⟩⟩, answer.2⟩

theorem asked_bind {service name family : String} (asked : Asked lower cat aliases service name)
    (answer : Weaker lower cat name family) :
    ∃ bound, bind lower cat aliases service = some bound ∧ bound.baseFamily = family ∧
      matchedName lower service bound = name := by
  obtain ⟨unnamed, rfl | ⟨direct, variant, marker⟩⟩ := asked
  · have found := (matchCurated_iff lower cat aliases name family).mpr (.inr ⟨unnamed, answer⟩)
    exact ⟨_, (bind_iff lower cat aliases name _).mpr (.inl ⟨family, found, rfl⟩), rfl, rfl⟩
  · have found := (matchCurated_iff lower cat aliases name family).mpr (.inr ⟨unnamed, answer⟩)
    have none := (matchCurated_none lower cat aliases service).mpr direct
    exact ⟨_, (bind_iff lower cat aliases service _).mpr (.inr ⟨name, variant, family, none, marker, found, rfl⟩), rfl,
      congrArg Prod.fst marker⟩

end Bind

section Vendor

variable (lower : String → String) (cat : Catalog) (aliases : List (String × String))

/-- Found by a weaker layer, a family is of the vendor the wire name claims, if its own is known. -/
def VendorSafe (service : String) : Prop :=
  ∀ bound, bind lower cat aliases service = some bound →
    Unnamed lower cat aliases (matchedName lower service bound) →
    ∀ vendor, Claims lower service vendor ∨ Claims lower (matchedName lower service bound) vendor →
    ∀ known, familyVendor lower cat bound.baseFamily = some known → known = vendor

/-- The name leads with a vendor, the residue is no family's own name, and the family filed under
residue and vendor is annotated with another vendor. -/
def Contradicted (name : String) : Prop :=
  ∃ vendor residue family known, splitVendor (canonService lower name) = (some vendor, residue) ∧
    (∀ other, ¬ Canonical lower cat residue other) ∧ Filed lower cat residue family vendor ∧
    familyVendor lower cat family = some known ∧ known ≠ vendor

/-- The marker takes the vendor's token along, and another vendor's family answers to the rest. -/
def ClaimLost (service name : String) : Prop :=
  ∃ vendor family known, Claims lower service vendor ∧ ¬ Claims lower name vendor ∧
    Weaker lower cat name family ∧ familyVendor lower cat family = some known ∧ known ≠ vendor

/-- Only an annotation can name another vendor than the family's own name does. -/
theorem annotated_of_filed {residue family vendor known : String} (filed : Filed lower cat residue family vendor)
    (h : familyVendor lower cat family = some known) (other : known ≠ vendor) :
    ∃ raw, cat.models.lookup family = some (some raw) ∧ raw ≠ "" := by
  unfold familyVendor at h
  split at h
  · rename_i raw annotation
    rw [Option.filter_eq_some_iff, Option.join_eq_some_iff] at annotation
    exact ⟨raw, annotation.1, of_decide_eq_true annotation.2⟩
  · have name := filed.2
    unfold bareName at name
    split at name
    · rename_i v r split
      rw [Option.ite_none_right_eq_some] at name
      cases name.2
      rw [split] at h
      exact absurd (Option.some.inj h).symm other
    · cases name

theorem claimed_of_weaker {name family vendor known : String} (claims : Claims lower name vendor)
    (answer : Weaker lower cat name family) (h : familyVendor lower cat family = some known)
    (clear : ¬ Contradicted lower cat name) : known = vendor := by
  unfold Claims at claims
  obtain ⟨v, residue, split, ⟨-, vendorOf⟩ | ⟨silent, filed⟩⟩ | ⟨residue, v, split, -⟩ := answer
  · rw [split] at claims
    rw [vendorOf] at h
    exact Option.some.inj (h.symm.trans claims)
  · rw [split] at claims
    cases claims
    by_contra other
    exact clear ⟨vendor, residue, family, known, split, silent, filed, h, other⟩
  · rw [split] at claims
    cases claims

/-- The binding by a weaker layer keeps the claimed vendor exactly where no annotation contradicts
the name a family is filed by, and no marker swallows the claim. -/
theorem vendorSafe_iff (service : String) :
    VendorSafe lower cat aliases service ↔
      ∀ name, Asked lower cat aliases service name →
        ¬ Contradicted lower cat name ∧ ¬ ClaimLost lower cat service name := by
  constructor
  · intro safe name asked
    constructor
    · rintro ⟨vendor, residue, family, known, split, silent, filed, vendorOf, other⟩
      have answer : Weaker lower cat name family := .inl ⟨vendor, residue, split, .inr ⟨silent, filed⟩⟩
      obtain ⟨bound, found, rfl, rfl⟩ := asked_bind lower cat aliases asked answer
      exact other (safe bound found asked.1 vendor (.inr (congrArg Prod.fst split)) known vendorOf)
    · rintro ⟨vendor, family, known, claims, -, answer, vendorOf, other⟩
      obtain ⟨bound, found, rfl, rfl⟩ := asked_bind lower cat aliases asked answer
      exact other (safe bound found asked.1 vendor (.inl claims) known vendorOf)
  · intro clear bound found unnamed vendor claims known vendorOf
    obtain ⟨asked, answer⟩ := bind_asked lower cat aliases found unnamed
    obtain ⟨consistent, kept⟩ := clear _ asked
    by_cases claimed : Claims lower (matchedName lower service bound) vendor
    · exact claimed_of_weaker lower cat claimed answer vendorOf consistent
    · have direct := claims.resolve_right claimed
      by_contra other
      exact kept ⟨vendor, bound.baseFamily, known, direct, claimed, answer, vendorOf, other⟩

/-- A family filed as `anthropic`'s by its name that the operator annotates as `openai`'s. -/
def relabelled : Catalog := ⟨[("claude-opus-4-8", some "openai")], by decide⟩

theorem relabelled_bound : bind Python.lower relabelled [] "anthropic-opus-4.8" =
    some ⟨"claude-opus-4-8", "claude-opus-4-8", none⟩ := by
  have canon : canonService Python.lower "anthropic-opus-4.8" = "anthropic-opus-4-8" := by decide +kernel
  have claimed : splitVendor "anthropic-opus-4-8" = (some "anthropic", "opus-4-8") := by decide +kernel
  have named : exactIndex Python.lower relabelled = [("claude-opus-4-8", "claude-opus-4-8")] := by decide +kernel
  have filed : bareIndex Python.lower relabelled = [("opus-4-8", "claude-opus-4-8", "anthropic")] := by decide +kernel
  have matched : matchCurated Python.lower relabelled [] "anthropic-opus-4.8" = some "claude-opus-4-8" := by
    unfold matchCurated
    rw [canon, named, filed]
    dsimp only
    rw [claimed]
    decide +kernel
  rw [Source.CuratedIndex.bind, matched]

theorem relabelled_unnamed : Unnamed Python.lower relabelled [] "anthropic-opus-4.8" := by
  have silent : (exactIndex Python.lower relabelled).lookup (canonService Python.lower "anthropic-opus-4.8") = none := by
    decide +kernel
  rintro family (⟨aliased, -⟩ | ⟨-, ⟨-, mem⟩ | ⟨-, canonical⟩⟩)
  · cases aliased
  · exact absurd mem (by decide)
  · exact (exactIndex_none Python.lower relabelled _).mp silent family canonical

theorem vendor_leaks : ¬ ∀ cat aliases service, VendorSafe Python.lower cat aliases service := by
  intro safe
  have claims : Claims Python.lower "anthropic-opus-4.8" "anthropic" := by
    unfold Claims
    decide +kernel
  have vendorOf : familyVendor Python.lower relabelled "claude-opus-4-8" = some "openai" := by decide +kernel
  have here : VendorSafe Python.lower relabelled [] "anthropic-opus-4.8" := safe relabelled [] "anthropic-opus-4.8"
  have same := here _ relabelled_bound relabelled_unnamed "anthropic" (.inl claims) "openai" vendorOf
  exact absurd same (by decide)

end Vendor

section Ambiguous

variable (lower : String → String) (cat : Catalog) (aliases : List (String × String))

/-- Two curated families have the canonical form of a name. -/
def Ambiguous (name : String) : Prop :=
  ∃ f ∈ cat.families, ∃ g ∈ cat.families, f ≠ g ∧ canonService lower f = canonService lower name ∧
    canonService lower g = canonService lower name

theorem unnamed_of_ambiguous {name : String} (noAlias : aliases.lookup name = none) (noFamily : name ∉ cat.families)
    (shared : Ambiguous lower cat name) : Unnamed lower cat aliases name := by
  rintro family (⟨aliased, -⟩ | ⟨-, ⟨-, mem⟩ | ⟨-, canonical⟩⟩)
  · rw [noAlias] at aliased
    cases aliased
  · exact noFamily mem
  · obtain ⟨f, memF, g, memG, differ, canonF, canonG⟩ := shared
    exact differ ((canonical.2.2 f memF canonF).trans (canonical.2.2 g memG canonG).symm)

/-- An ambiguous name stays unbound exactly where the vendor-aware layers do not know it either,
and nothing answers to what a marker leaves of it. -/
theorem ambiguous_unbound_iff (service : String) (noAlias : aliases.lookup service = none)
    (noFamily : service ∉ cat.families) (shared : Ambiguous lower cat service) :
    bind lower cat aliases service = none ↔
      (∀ family, ¬ Weaker lower cat service family) ∧
        ∀ base variant, splitVariant lower service = (base, some variant) →
          Unnamed lower cat aliases base ∧ ∀ family, ¬ Weaker lower cat base family := by
  have unnamed := unnamed_of_ambiguous lower cat aliases noAlias noFamily shared
  rw [bind_none, matchCurated_none]
  simp only [matchCurated_none]
  constructor
  · rintro ⟨⟨-, silent⟩, based⟩
    exact ⟨silent, based⟩
  · rintro ⟨silent, based⟩
    exact ⟨⟨unnamed, silent⟩, based⟩

/-- Two spellings of one model, and a third family that carries the vendor. -/
def spellings : Catalog := ⟨[("glm-5.1", none), ("GLM-5-1", none), ("z-ai-glm-5.1", none)], by decide⟩

theorem spellings_ambiguous : Ambiguous Python.lower spellings "glm_5.1" := by
  have name : canonService Python.lower "glm_5.1" = "glm-5-1" := by decide +kernel
  have first : canonService Python.lower "glm-5.1" = "glm-5-1" := by decide +kernel
  have second : canonService Python.lower "GLM-5-1" = "glm-5-1" := by decide +kernel
  unfold Ambiguous
  rw [name]
  exact ⟨"glm-5.1", by decide, "GLM-5-1", by decide, by decide, first, second⟩

theorem spellings_new : "glm_5.1" ∉ spellings.families := by decide

theorem spellings_answer : Weaker Python.lower spellings "glm_5.1" "z-ai-glm-5.1" := by
  have name : canonService Python.lower "glm_5.1" = "glm-5-1" := by decide +kernel
  have first : bareName Python.lower "glm-5.1" = none := by decide +kernel
  have second : bareName Python.lower "GLM-5-1" = none := by decide +kernel
  have third : bareName Python.lower "z-ai-glm-5.1" = some ("z-ai", "glm-5-1") := by decide +kernel
  have noClaim : splitVendor "glm-5-1" = (none, "glm-5-1") := by decide +kernel
  have only : ∀ other ∈ spellings.families, (∃ v, bareName Python.lower other = some (v, "glm-5-1")) →
      other = "z-ai-glm-5.1" := by
    intro other mem carries
    obtain ⟨v, carries⟩ := carries
    simp only [spellings, Catalog.families, List.map_cons, List.map_nil, List.mem_cons, List.not_mem_nil, or_false] at mem
    obtain rfl | rfl | rfl := mem
    · rw [first] at carries
      cases carries
    · rw [second] at carries
      cases carries
    · rfl
  unfold Weaker
  rw [name]
  exact .inr ⟨"glm-5-1", "z-ai", noClaim, ⟨by decide, ⟨"z-ai", third⟩, only⟩, third⟩

theorem ambiguous_unbound_sample :
    bind Python.lower spellings [] "glm_5.1" = none ↔
      (∀ family, ¬ Weaker Python.lower spellings "glm_5.1" family) ∧
        ∀ base variant, splitVariant Python.lower "glm_5.1" = (base, some variant) →
          Unnamed Python.lower spellings [] base ∧ ∀ family, ¬ Weaker Python.lower spellings base family :=
  ambiguous_unbound_iff Python.lower spellings [] "glm_5.1" rfl spellings_new spellings_ambiguous

theorem ambiguous_binds : ¬ ∀ (cat : Catalog) (aliases : List (String × String)) (service : String),
    aliases.lookup service = none → service ∉ cat.families → Ambiguous Python.lower cat service →
      bind Python.lower cat aliases service = none := by
  intro unbound
  have silent := unbound spellings [] "glm_5.1" rfl spellings_new spellings_ambiguous
  rw [bind_none, matchCurated_none] at silent
  exact silent.1.2 "z-ai-glm-5.1" spellings_answer

end Ambiguous

end Unhardcoded.Guarantees.CuratedIndex
