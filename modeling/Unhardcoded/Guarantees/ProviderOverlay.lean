import Unhardcoded.Effects.KeyedCache
import Unhardcoded.Source.ProviderOverlay

/-!
# What is added on a running router is what the next start loads

Two configurations are the same (`Same`) if they have the same providers, and each family is
served by the same rows in some order. Adding providers in another order gives the same
configuration (`same_of_perm`), and the dashboard's merge is the router's (`merge_apply`).
So while the store can be read, the router's live table is the one that the next start
builds from the store, up to posts in flight (`overlay_restart`). An add that cannot read the
store replaces all that was stored before it, and nothing else removes an entry
(`overlay_kept_iff`).
-/

namespace Unhardcoded.Guarantees.ProviderOverlay
open Source.ProviderOverlay Source Python

/-! ## Families and their rows -/

def rowsAt (models : List (String × Model)) (family : String) : List Row :=
  ((models.lookup family).bind (·.servedBy)).getD []

def Known (models : List (String × Model)) (family : String) : Prop := (models.lookup family).isSome = true

instance (models : List (String × Model)) (family : String) : Decidable (Known models family) :=
  inferInstanceAs (Decidable (_ = true))

theorem serves_servedRow (pid other : String) (sm : ServedModel) : serves pid (servedRow other sm) = decide (other = pid) := rfl

theorem serve_known (pid : String) (models : List (String × Model)) (sm : ServedModel) (family : String) :
    Known (serve pid models sm) family ↔ Known models family := by
  unfold serve Known
  split
  · exact Iff.rfl
  · rename_i model found
    dsimp only
    split
    · exact Iff.rfl
    · rw [lookup_insert]
      split
      · rename_i same
        rw [same, found]
        exact Iff.rfl
      · exact Iff.rfl

theorem rows_serve (pid : String) (models : List (String × Model)) (sm : ServedModel) (family : String) :
    rowsAt (serve pid models sm) family = rowsAt models family ++
      if sm.family = family ∧ Known models family ∧ (rowsAt models family).any (serves pid) = false then [servedRow pid sm]
      else [] := by
  unfold serve
  cases found : models.lookup sm.family with
  | none =>
    dsimp only
    rw [if_neg, List.append_nil]
    rintro ⟨rfl, known, -⟩
    rw [Known, found] at known
    cases known
  | some model =>
    dsimp only
    by_cases here : sm.family = family
    · subst here
      have rows : rowsAt models sm.family = model.servedBy.getD [] := by rw [rowsAt, found, Option.bind_some]
      have known : Known models sm.family := by rw [Known, found]; rfl
      rw [rows]
      by_cases served : (model.servedBy.getD []).any (serves pid) = true
      · rw [if_pos served, if_neg (by simp [served]), rows, List.append_nil]
      · rw [if_neg served, if_pos ⟨rfl, known, by simpa using served⟩, rowsAt, lookup_insert_self]
        rfl
    · have silent : (if sm.family = family ∧ Known models family ∧ (rowsAt models family).any (serves pid) = false then
          [servedRow pid sm] else []) = [] := if_neg fun both => here both.1
      rw [silent, List.append_nil]
      split
      · rfl
      · rw [rowsAt, lookup_insert_of_ne (Ne.symm here), ← rowsAt]

/-- The row that a provider with these models adds to a family. -/
def contribution (pid : String) (models : List (String × Model)) (served : List ServedModel) (family : String) :
    List Row :=
  if Known models family ∧ (rowsAt models family).any (serves pid) = false then
    ((served.find? fun sm => sm.family = family).map (servedRow pid)).toList
  else []

theorem serves_known (pid : String) (served : List ServedModel) (models : List (String × Model)) (family : String) :
    Known (served.foldl (serve pid) models) family ↔ Known models family := by
  induction served generalizing models with
  | nil => exact Iff.rfl
  | cons sm served ih => rw [List.foldl_cons, ih, serve_known]

theorem rows_serves (pid : String) (served : List ServedModel) (models : List (String × Model)) (family : String) :
    rowsAt (served.foldl (serve pid) models) family = rowsAt models family ++ contribution pid models served family := by
  induction served generalizing models with
  | nil => simp [contribution]
  | cons sm served ih =>
    rw [List.foldl_cons, ih, rows_serve, List.append_assoc]
    congr 1
    unfold contribution
    simp only [serve_known, rows_serve]
    by_cases known : Known models family
    · by_cases before : (rowsAt models family).any (serves pid) = false
      · by_cases here : sm.family = family
        · simp [known, before, here, serves_servedRow]
        · simp [known, before, here]
      · simp [before]
    · simp [known]

/-! ## One entry -/

/-- The same providers, and in each family the same rows. -/
structure Same (a b : Config) : Prop where
  providers : ∀ pid, a.providers.lookup pid = b.providers.lookup pid
  known : ∀ family, Known a.models family ↔ Known b.models family
  rows : ∀ family, (rowsAt a.models family).Perm (rowsAt b.models family)

theorem Same.refl (a : Config) : Same a a := ⟨fun _ => rfl, fun _ => Iff.rfl, fun _ => List.Perm.refl _⟩

theorem Same.symm {a b : Config} (h : Same a b) : Same b a :=
  ⟨fun pid => (h.providers pid).symm, fun family => (h.known family).symm, fun family => (h.rows family).symm⟩

theorem Same.trans {a b c : Config} (h : Same a b) (h' : Same b c) : Same a c :=
  ⟨fun pid => (h.providers pid).trans (h'.providers pid), fun family => (h.known family).trans (h'.known family),
    fun family => (h.rows family).trans (h'.rows family)⟩

theorem applyEntry_present {cfg : Config} {added : String × Entry} (present : (cfg.providers.lookup added.1).isSome = true) :
    applyEntry cfg added = cfg := if_pos present

theorem applyEntry_absent {cfg : Config} {added : String × Entry} (absent : cfg.providers.lookup added.1 = none) :
    applyEntry cfg added = ⟨insert added.1 (table added.2) cfg.providers, added.2.servedModels.foldl (serve added.1) cfg.models⟩ :=
  if_neg (by rw [absent]; exact Bool.false_ne_true)

theorem applyEntry_known (cfg : Config) (added : String × Entry) (family : String) :
    Known (applyEntry cfg added).models family ↔ Known cfg.models family := by
  unfold applyEntry
  split
  · exact Iff.rfl
  · exact serves_known _ _ _ _

theorem contribution_congr {pid : String} {models models' : List (String × Model)} {family : String}
    (known : Known models family ↔ Known models' family)
    (rows : (rowsAt models family).any (serves pid) = (rowsAt models' family).any (serves pid)) (served : List ServedModel) : contribution pid models served family = contribution pid models' served family := by
  unfold contribution
  rw [rows]
  by_cases here : Known models family ∧ (rowsAt models' family).any (serves pid) = false
  · rw [if_pos here, if_pos ⟨known.mp here.1, here.2⟩]
  · rw [if_neg here, if_neg fun there => here ⟨known.mpr there.1, there.2⟩]

theorem Same.applyEntry {a b : Config} (h : Same a b) (added : String × Entry) : Same (applyEntry a added) (applyEntry b added) := by
  cases found : a.providers.lookup added.1 with
  | some provider =>
    rw [applyEntry_present (by rw [found]; rfl), applyEntry_present (by rw [← h.providers, found]; rfl)]
    exact h
  | none =>
    rw [applyEntry_absent found, applyEntry_absent (by rw [← h.providers, found])]
    refine ⟨fun pid => ?_, fun family => ?_, fun family => ?_⟩
    · rw [lookup_insert, lookup_insert, h.providers]
    · rw [serves_known, serves_known, h.known]
    · rw [rows_serves, rows_serves, contribution_congr (h.known family) (h.rows family).any_eq]
      exact (h.rows family).append_right _

theorem Same.applyToHost {a b : Config} (h : Same a b) (overlay : Overlay) : Same (applyToHost a overlay) (applyToHost b overlay) := by
  induction overlay generalizing a b with
  | nil => exact h
  | cons added overlay ih => exact ih (h.applyEntry added)

/-! ## The order of the entries -/

/-- A row of another provider does not serve this one. -/
theorem contribution_serves {pid other : String} (differ : other ≠ pid) (models : List (String × Model))
    (served : List ServedModel) (family : String) : (contribution other models served family).any (serves pid) = false := by
  unfold contribution
  split
  · cases served.find? fun sm => sm.family = family with
    | none => rfl
    | some sm => simp [serves_servedRow, differ]
  · rfl

/-- Another provider's entry does not change what an entry adds. -/
theorem contribution_apply {pid : String} (cfg : Config) {other : String × Entry} (differ : other.1 ≠ pid)
    (served : List ServedModel) (family : String) :
    contribution pid (applyEntry cfg other).models served family = contribution pid cfg.models served family := by
  refine contribution_congr (applyEntry_known cfg other family) ?_ served
  unfold applyEntry
  split
  · rfl
  · rw [rows_serves, List.any_append, contribution_serves differ, Bool.or_false]

theorem lookup_applyEntry (cfg : Config) (added : String × Entry) {pid : String} (differ : pid ≠ added.1) :
    (applyEntry cfg added).providers.lookup pid = cfg.providers.lookup pid := by
  unfold applyEntry
  split
  · rfl
  · exact lookup_insert_of_ne differ _ _

/-- Two entries of different providers may be applied in either order. -/
theorem same_swap (cfg : Config) {first second : String × Entry} (differ : first.1 ≠ second.1) :
    Same (applyEntry (applyEntry cfg first) second) (applyEntry (applyEntry cfg second) first) := by
  have firstLater := lookup_applyEntry cfg second differ
  have secondLater := lookup_applyEntry cfg first (Ne.symm differ)
  cases here : cfg.providers.lookup first.1 with
  | some provider =>
    rw [here] at firstLater
    have before : applyEntry cfg first = cfg := applyEntry_present (by rw [here]; rfl)
    have after : applyEntry (applyEntry cfg second) first = applyEntry cfg second := applyEntry_present (by rw [firstLater]; rfl)
    rw [before, after]
    exact Same.refl _
  | none =>
    cases there : cfg.providers.lookup second.1 with
    | some provider =>
      rw [there] at secondLater
      have before : applyEntry cfg second = cfg := applyEntry_present (by rw [there]; rfl)
      have after : applyEntry (applyEntry cfg first) second = applyEntry cfg first := applyEntry_present (by rw [secondLater]; rfl)
      rw [before, after]
      exact Same.refl _
    | none =>
      rw [there] at secondLater
      rw [here] at firstLater
      refine ⟨fun pid => ?_, fun family => ?_, fun family => ?_⟩
      · rw [applyEntry_absent secondLater, applyEntry_absent firstLater, applyEntry_absent here, applyEntry_absent there]
        simp only [lookup_insert]
        by_cases isFirst : pid = first.1
        · rw [if_pos isFirst, if_pos isFirst, if_neg fun isSecond => differ (isFirst.symm.trans isSecond)]
        · rw [if_neg isFirst, if_neg isFirst]
      · rw [applyEntry_known, applyEntry_known, applyEntry_known, applyEntry_known]
      · have ofSecond := contribution_apply cfg differ second.2.servedModels family
        have ofFirst := contribution_apply cfg (Ne.symm differ) first.2.servedModels family
        rw [applyEntry_absent secondLater, applyEntry_absent firstLater, rows_serves, rows_serves, ofSecond, ofFirst,
          applyEntry_absent here, applyEntry_absent there, rows_serves, rows_serves, List.append_assoc, List.append_assoc]
        exact (List.perm_append_comm).append_left _

/-- The order in which an overlay lists its providers does not matter. -/
theorem same_of_perm {overlay overlay' : Overlay} (perm : overlay.Perm overlay') (distinct : (overlay.map (·.1)).Nodup) (cfg : Config) :
    Same (applyToHost cfg overlay) (applyToHost cfg overlay') := by
  induction perm generalizing cfg with
  | nil => exact Same.refl cfg
  | cons added _ ih => exact ih (List.nodup_cons.mp distinct).2 _
  | swap first second rest =>
    have differ : first.1 ≠ second.1 := by
      intro same
      exact (List.nodup_cons.mp distinct).1 (List.mem_cons.mpr (.inl same.symm))
    exact (same_swap cfg (Ne.symm differ)).applyToHost rest
  | trans perm _ ih ih' => exact (ih distinct cfg).trans (ih' ((perm.map _).nodup_iff.mp distinct) cfg)

/-- A provider is missing after an overlay was applied exactly if it was missing before and is not in it. -/
theorem lookup_applyToHost (overlay : Overlay) (cfg : Config) (pid : String) :
    (applyToHost cfg overlay).providers.lookup pid = none ↔ cfg.providers.lookup pid = none ∧ pid ∉ overlay.map (·.1) := by
  induction overlay generalizing cfg with
  | nil => simp [applyToHost]
  | cons added overlay ih =>
    rw [applyToHost, List.foldl_cons, ← applyToHost, ih, List.map_cons, List.mem_cons, not_or]
    by_cases own : pid = added.1
    · subst own
      refine ⟨fun h => ?_, fun h => absurd rfl h.2.1⟩
      cases found : cfg.providers.lookup added.1 with
      | some provider =>
        rw [applyEntry_present (by rw [found]; rfl), found] at h
        cases h.1
      | none =>
        rw [applyEntry_absent found, lookup_insert_self] at h
        cases h.1
    · rw [lookup_applyEntry cfg added own]
      exact ⟨fun h => ⟨h.1, own, h.2⟩, fun h => ⟨h.1, h.2.2⟩⟩

theorem applyToHost_known (overlay : Overlay) (cfg : Config) (family : String) :
    Known (applyToHost cfg overlay).models family ↔ Known cfg.models family := by
  induction overlay generalizing cfg with
  | nil => exact Iff.rfl
  | cons added overlay ih => exact (ih _).trans (applyEntry_known cfg added family)

/-! ## The dashboard's merge -/

/-- No family has an empty `served_by`. -/
def Filled (models : List (String × Model)) : Prop := ∀ family model, models.lookup family = some model → model.servedBy ≠ some []

theorem filled_serve {models : List (String × Model)} (filled : Filled models) (pid : String) (sm : ServedModel) :
    Filled (serve pid models sm) := by
  unfold serve
  split
  · exact filled
  · dsimp only
    split
    · exact filled
    · intro family model found
      rw [lookup_insert] at found
      split at found
      · cases found
        simp
      · exact filled family model found

theorem mergeServe_serve {models : List (String × Model)} (filled : Filled models) (pid : String) (sm : ServedModel) :
    mergeServe pid models sm = .ok (serve pid models sm) := by
  unfold mergeServe serve
  cases found : models.lookup sm.family with
  | none => rfl
  | some model =>
    have nonempty := filled sm.family model found
    dsimp only
    split
    · rename_i empty
      exact absurd empty nonempty
    · split <;> rfl

theorem merge_serves {models : List (String × Model)} (filled : Filled models) (pid : String) (served : List ServedModel) :
    served.foldlM (mergeServe pid) models = .ok (served.foldl (serve pid) models) ∧ Filled (served.foldl (serve pid) models) := by
  induction served generalizing models with
  | nil => exact ⟨rfl, filled⟩
  | cons sm served ih =>
    obtain ⟨merged, kept⟩ := ih (filled_serve filled pid sm)
    refine ⟨?_, kept⟩
    rw [List.foldlM_cons, mergeServe_serve filled]
    exact merged

/-- The dashboard's merge is the router's. -/
theorem merge_apply {cfg : Config} (filled : Filled cfg.models) (overlay : Overlay) :
    mergeProviderOverlay cfg overlay = .ok (applyToHost cfg overlay) := by
  induction overlay generalizing cfg with
  | nil => rfl
  | cons added overlay ih =>
    have entry : mergeEntry cfg added = .ok (applyEntry cfg added) ∧ Filled (applyEntry cfg added).models := by
      unfold mergeEntry applyEntry
      split
      · exact ⟨rfl, filled⟩
      · obtain ⟨merged, kept⟩ := merge_serves filled added.1 added.2.servedModels
        rw [merged]
        exact ⟨rfl, kept⟩
    rw [mergeProviderOverlay, List.foldlM_cons, entry.1]
    exact ih entry.2

/-! ## Validation -/

variable {lib : Library} {base : Config}

/-- What an entry that passes needs of the catalog. -/
theorem of_validateEntry {pid : String} {entry : Entry} {catalog : Config} {keySupplied : Bool}
    (valid : validateEntry lib pid entry catalog keySupplied = []) :
    catalog.providers.lookup pid = none ∧ ∀ sm ∈ entry.servedModels, Known catalog.models sm.family := by
  unfold validateEntry at valid
  simp only [List.append_eq_nil_iff] at valid
  obtain ⟨⟨⟨⟨⟨-, absent⟩, -⟩, -⟩, -⟩, served⟩ := valid
  constructor
  · cases found : catalog.providers.lookup pid with
    | none => rfl
    | some provider =>
      rw [found, if_pos Option.isSome_some] at absent
      cases absent
  · split at served
    · cases served
    · intro sm mem
      have passes := List.filterMap_eq_nil_iff.mp served sm mem
      split at passes
      · rename_i known
        exact known
      · cases passes

/-- With a key of its own, an entry that passes against one catalog passes against another that
has the families and does not have the provider. -/
theorem validateEntry_mono {pid : String} {entry : Entry} {catalog catalog' : Config}
    (valid : validateEntry lib pid entry catalog true = []) (absent : catalog'.providers.lookup pid = none)
    (families : ∀ family, Known catalog.models family → Known catalog'.models family) :
    validateEntry lib pid entry catalog' true = [] := by
  have known := (of_validateEntry valid).2
  unfold validateEntry at valid ⊢
  simp only [List.append_eq_nil_iff, Bool.not_true, Bool.false_and, Bool.false_eq_true, if_false] at valid ⊢
  obtain ⟨⟨⟨⟨⟨ids, -⟩, urls⟩, kinds⟩, envs⟩, served⟩ := valid
  refine ⟨⟨⟨⟨⟨ids, ?_⟩, urls⟩, kinds⟩, envs⟩, ?_⟩
  · rw [absent, if_neg (by simp)]
  · split at served
    · cases served
    · rename_i some
      rw [if_neg some, List.filterMap_eq_nil_iff]
      intro sm mem
      exact if_pos (families sm.family (known sm mem))

/-- An accepted add is new to the catalog that the dashboard has read. -/
theorem of_accepted (filled : Filled base.models) {post : Post} {first : Option Overlay}
    (ok : accepted lib base post first = true) :
    validateEntry lib post.pid post.entry (applyToHost base (first.getD [])) true = [] ∧ post.key ≠ "" := by
  unfold accepted at ok
  rw [merge_apply filled] at ok
  dsimp only at ok
  simp only [Bool.and_eq_true, decide_eq_true_eq] at ok
  obtain ⟨⟨valid, named⟩, -⟩ := ok
  have supplied : decide (post.key ≠ "") = true := decide_eq_true named
  rw [supplied] at valid
  exact ⟨valid, named⟩

/-! ## The store and the posts -/

/-- The reads of the event do not fail. -/
def Readable : Event → Prop
  | .add _ first second _ => first.isSome = true ∧ second.isSome = true
  | .arrive _ => True
  | .start read => read.isSome = true

/-- An add that is written. -/
def Saves (lib : Library) (base : Config) (pid : String) (entry : Entry) : Event → Prop
  | .add post first _ saved => (post.pid = pid ∧ post.entry = entry) ∧ accepted lib base post first = true ∧ saved.commits = true
  | .arrive _ => False
  | .start _ => False

/-- An add whose write leaves nothing of what was stored for a provider. -/
def Replaces (lib : Library) (base : Config) (pid : String) : Event → Prop
  | .add post first second saved =>
    (accepted lib base post first = true ∧ saved.commits = true) ∧ (second = none ∨ post.pid = pid)
  | .arrive _ => False
  | .start _ => False

/-- The entries that were written and never posted, since the last start of the router. -/
def unposted (lib : Library) (base : Config) (events : List Event) : Overlay :=
  events.foldl (fun left event => match event with
    | .add post first _ saved =>
      if accepted lib base post first && saved = .unanswered then left ++ [(post.pid, post.entry)] else left
    | .arrive _ => left
    | .start _ => []) []

/-- A post that the router accepts wherever its provider is new. -/
structure Ready (lib : Library) (base : Config) (post : Post) : Prop where
  keyed : post.key ≠ ""
  valid : validateEntry lib post.pid post.entry base true = []

/-- What stands before every event: `taken` are the entries that the router has loaded. -/
structure Standing (lib : Library) (base : Config) (left : Overlay) (s : State) (taken : Overlay) : Prop where
  distinct : (s.stored.map (·.1)).Nodup
  fresh : ∀ added ∈ s.stored, base.providers.lookup added.1 = none
  ready : ∀ post ∈ s.flying, Ready lib base post ∧ (post.pid, post.entry) ∈ s.stored
  once : (taken.map (·.1)).Nodup
  known : ∀ added ∈ taken, added ∈ s.stored
  rest : ∀ added ∈ s.stored, added ∈ taken ∨ (∃ post ∈ s.flying, (post.pid, post.entry) = added) ∨ added ∈ left
  live : Same s.live (applyToHost base taken)

theorem unlisted_iff {overlay : Overlay} {pid : String} : overlay.lookup pid = none ↔ pid ∉ overlay.map (·.1) := by
  rw [List.lookup_eq_none_iff, List.mem_map]
  constructor
  · rintro absent ⟨row, mem, rfl⟩
    have differ := absent row mem
    rw [bne_self_eq_false] at differ
    cases differ
  · intro absent row mem
    exact bne_iff_ne.mpr fun same => absent ⟨row, mem, same.symm⟩

/-- The provider of an accepted add is new, and nothing but its own entry decides whether it is valid. -/
theorem ready_of_accepted (filled : Filled base.models) {post : Post} {rows stored : Overlay} (perm : rows.Perm stored)
    (ok : accepted lib base post (some rows) = true) :
    Ready lib base post ∧ base.providers.lookup post.pid = none ∧ post.pid ∉ stored.map (·.1) := by
  obtain ⟨valid, keyed⟩ := of_accepted filled ok
  obtain ⟨unconfigured, unlisted⟩ := (lookup_applyToHost rows base post.pid).mp (of_validateEntry valid).1
  refine ⟨⟨keyed, validateEntry_mono valid unconfigured fun family => ?_⟩, unconfigured, ?_⟩
  · exact (applyToHost_known rows base family).mp
  · exact fun mem => unlisted ((perm.map (·.1)).mem_iff.mpr mem)

/-- What a written add leaves in the store, where its read did not fail. -/
theorem stored_add {post : Post} {rows stored : Overlay} (perm : rows.Perm stored) (unlisted : post.pid ∉ stored.map (·.1)) :
    (insert post.pid post.entry rows).Perm (stored ++ [(post.pid, post.entry)]) := by
  have absent : rows.lookup post.pid = none := unlisted_iff.mpr fun mem => unlisted ((perm.map (·.1)).mem_iff.mp mem)
  rw [insert_of_absent absent]
  exact perm.append_right _

/-- A post of a provider that the router does not have is applied. -/
theorem addLive_new {live : Config} {post : Post} {taken : Overlay} (ready : Ready lib base post)
    (same : Same live (applyToHost base taken)) (unconfigured : base.providers.lookup post.pid = none)
    (new : post.pid ∉ taken.map (·.1)) : addLive lib live post = applyEntry live (post.pid, post.entry) := by
  have missing : live.providers.lookup post.pid = none := by
    rw [same.providers]
    exact (lookup_applyToHost taken base post.pid).mpr ⟨unconfigured, new⟩
  have families : ∀ family, Known base.models family → Known live.models family := by
    intro family known
    exact (same.known family).mpr ((applyToHost_known taken base family).mpr known)
  unfold addLive
  rw [decide_eq_true ready.keyed, if_pos (validateEntry_mono ready.valid missing families)]

/-- A post of a provider that the router has changes nothing. -/
theorem addLive_old {live : Config} {post : Post} {taken : Overlay} (same : Same live (applyToHost base taken))
    (old : post.pid ∈ taken.map (·.1)) : addLive lib live post = live := by
  unfold addLive
  split
  · rename_i valid
    have missing := (of_validateEntry valid).1
    rw [same.providers] at missing
    exact absurd old ((lookup_applyToHost taken base post.pid).mp missing).2
  · rfl

theorem Standing.add (filled : Filled base.models) {left : Overlay} {s : State} {taken : Overlay}
    (st : Standing lib base left s taken) {post : Post} {seen rows : Overlay} (seenPerm : seen.Perm s.stored)
    (perm : rows.Perm s.stored) (ok : accepted lib base post (some seen) = true) (answered : Bool) :
    Standing lib base (if answered = true then left else left ++ [(post.pid, post.entry)])
      { s with
        stored := insert post.pid post.entry rows
        flying := if answered = true then s.flying ++ [post] else s.flying } taken := by
  obtain ⟨ready, unconfigured, unlisted⟩ := ready_of_accepted filled seenPerm ok
  have order := stored_add perm unlisted
  have stored : ∀ added, added ∈ insert post.pid post.entry rows ↔ added ∈ s.stored ∨ added = (post.pid, post.entry) := by
    intro added
    rw [order.mem_iff, List.mem_append, List.mem_singleton]
  refine
    { distinct := nodup_insert ((perm.map _).nodup_iff.mpr st.distinct) _ _
      fresh := fun added mem => ?_
      ready := fun sent mem => ?_
      once := st.once
      known := fun added mem => (stored added).mpr (.inl (st.known added mem))
      rest := fun added mem => ?_
      live := st.live }
  · rcases (stored added).mp mem with old | rfl
    · exact st.fresh added old
    · exact unconfigured
  · have each : sent ∈ s.flying ∨ sent = post := by
      dsimp only at mem
      split at mem
      · exact (List.mem_append.mp mem).imp_right List.mem_singleton.mp
      · exact .inl mem
    rcases each with before | rfl
    · exact ⟨(st.ready sent before).1, (stored _).mpr (.inl (st.ready sent before).2)⟩
    · exact ⟨ready, (stored _).mpr (.inr rfl)⟩
  · rcases (stored added).mp mem with old | rfl
    · rcases st.rest added old with loaded | ⟨sent, flying, same⟩ | missing
      · exact .inl loaded
      · refine .inr (.inl ⟨sent, ?_, same⟩)
        dsimp only
        split
        · exact List.mem_append_left _ flying
        · exact flying
      · refine .inr (.inr ?_)
        split
        · exact missing
        · exact List.mem_append_left _ missing
    · cases answered with
      | true => exact .inr (.inl ⟨post, List.mem_append_right _ List.mem_cons_self, rfl⟩)
      | false => exact .inr (.inr (List.mem_append_right _ List.mem_cons_self))

theorem Standing.arrive {left : Overlay} {s : State} {taken : Overlay} (st : Standing lib base left s taken) {post : Post}
    (flying : post ∈ s.flying) :
    ∃ taken', Standing lib base left { s with flying := s.flying.erase post, live := addLive lib s.live post } taken' := by
  obtain ⟨ready, stored⟩ := st.ready post flying
  have before : ∀ sent ∈ s.flying.erase post, sent ∈ s.flying := fun _ mem => List.mem_of_mem_erase mem
  by_cases old : post.pid ∈ taken.map (·.1)
  · refine ⟨taken, { st with ready := fun sent mem => st.ready sent (before sent mem), rest := fun added mem => ?_, live := ?_ }⟩
    · rcases st.rest added mem with loaded | ⟨sent, inFlight, same⟩ | missing
      · exact .inl loaded
      · by_cases own : sent = post
        · -- the entry that is loaded for this provider is the stored one
          obtain ⟨row, loaded, pid⟩ := List.mem_map.mp old
          have entry : row = added := by
            rw [← same, own] at mem ⊢
            exact Prod.ext pid (Option.some_inj.mp (by
              rw [← lookup_of_mem st.distinct (st.known row loaded), ← lookup_of_mem st.distinct mem, pid]))
          exact .inl (entry ▸ loaded)
        · exact .inr (.inl ⟨sent, (List.mem_erase_of_ne own).mpr inFlight, same⟩)
      · exact .inr (.inr missing)
    · dsimp only
      rw [addLive_old st.live old]
      exact st.live
  · refine ⟨taken ++ [(post.pid, post.entry)],
      { distinct := st.distinct, fresh := st.fresh, ready := fun sent mem => st.ready sent (before sent mem),
        once := ?_, known := fun added mem => ?_, rest := fun added mem => ?_, live := ?_ }⟩
    · rw [← insert_of_absent (unlisted_iff.mpr old)]
      exact nodup_insert st.once _ _
    · rcases List.mem_append.mp mem with loaded | here
      · exact st.known added loaded
      · rw [List.mem_singleton.mp here]
        exact stored
    · rcases st.rest added mem with loaded | ⟨sent, inFlight, same⟩ | missing
      · exact .inl (List.mem_append_left _ loaded)
      · by_cases own : sent = post
        · rw [own] at same
          exact .inl (List.mem_append_right _ (List.mem_singleton.mpr same.symm))
        · exact .inr (.inl ⟨sent, (List.mem_erase_of_ne own).mpr inFlight, same⟩)
      · exact .inr (.inr missing)
    · dsimp only
      rw [addLive_new ready st.live (st.fresh _ stored) old]
      refine (st.live.applyEntry (post.pid, post.entry)).trans ?_
      rw [applyToHost, applyToHost, List.foldl_append]
      exact Same.refl _

theorem Standing.start {left : Overlay} {s : State} {taken : Overlay} (st : Standing lib base left s taken) {rows : Overlay}
    (perm : rows.Perm s.stored) : Standing lib base [] { s with live := applyToHost base rows } rows :=
  { distinct := st.distinct
    fresh := st.fresh
    ready := st.ready
    once := (perm.map _).nodup_iff.mpr st.distinct
    known := fun _ mem => perm.mem_iff.mp mem
    rest := fun _ mem => .inl (perm.mem_iff.mpr mem)
    live := Same.refl _ }

theorem standing_step (filled : Filled base.models) {events : List Event} {s : State} {taken : Overlay}
    (st : Standing lib base (unposted lib base events) s taken) {event : Event} (sees : event.Sees s) (readable : Readable event) :
    ∃ taken', Standing lib base (unposted lib base (events ++ [event])) (step lib base s event) taken' := by
  rw [unposted, List.foldl_append, ← unposted, List.foldl_cons, List.foldl_nil]
  cases event with
  | add post first second saved =>
    obtain ⟨seen, rfl⟩ := Option.isSome_iff_exists.mp readable.1
    obtain ⟨rows, rfl⟩ := Option.isSome_iff_exists.mp readable.2
    dsimp only
    rw [step]
    by_cases ok : accepted lib base post (some seen) = true
    · rw [ok]
      cases saved with
      | failed => exact ⟨taken, st⟩
      | unanswered => exact ⟨taken, st.add filled sees.1 sees.2 ok false⟩
      | answered => exact ⟨taken, st.add filled sees.1 sees.2 ok true⟩
    · rw [Bool.eq_false_iff.mpr ok]
      exact ⟨taken, st⟩
  | arrive post => exact st.arrive sees
  | start read =>
    obtain ⟨rows, rfl⟩ := Option.isSome_iff_exists.mp readable
    exact ⟨rows, st.start sees⟩

theorem standing_run (filled : Filled base.models) {events : List Event} {s : State} (ran : Runs lib base events s)
    (readable : ∀ event ∈ events, Readable event) : ∃ taken, Standing lib base (unposted lib base events) s taken := by
  induction ran with
  | nil => exact ⟨[], ⟨List.nodup_nil, by simp, by simp, List.nodup_nil, by simp, by simp, Same.refl base⟩⟩
  | snoc ran event sees ih =>
    obtain ⟨taken, st⟩ := ih fun event mem => readable event (List.mem_append_left _ mem)
    exact standing_step filled st sees (readable event (List.mem_append_right _ List.mem_cons_self))

/-! ## What stays stored -/

/-- One event: an entry is stored if the event writes it, or it was stored and the event does not replace it. -/
theorem mem_step (lib : Library) (base : Config) {s : State} (distinct : (s.stored.map (·.1)).Nodup) {event : Event} (sees : event.Sees s) :
    ((step lib base s event).stored.map (·.1)).Nodup ∧ ∀ pid entry, (pid, entry) ∈ (step lib base s event).stored ↔
      Saves lib base pid entry event ∨ (pid, entry) ∈ s.stored ∧ ¬ Replaces lib base pid event := by
  cases event with
  | arrive post => exact ⟨distinct, fun _ _ => by simp [step, Saves, Replaces]⟩
  | start read => exact ⟨distinct, fun _ _ => by simp [step, Saves, Replaces]⟩
  | add post first second saved =>
    by_cases writes : (accepted lib base post first && saved.commits) = true
    · obtain ⟨ok, commits⟩ := Bool.and_eq_true_iff.mp writes
      have unique : ((second.getD []).map (·.1)).Nodup := by
        cases second with
        | none => exact List.nodup_nil
        | some rows => exact ((show rows.Perm s.stored from sees.2).map _).nodup_iff.mpr distinct
      have unique' := nodup_insert unique post.pid post.entry
      rw [step, if_pos writes]
      refine ⟨unique', fun pid entry => ?_⟩
      rw [← lookup_eq_some_iff_mem unique', lookup_insert]
      simp only [Saves, Replaces, ok, commits, and_self, and_true, true_and]
      by_cases own : pid = post.pid
      · subst own
        simp
      · rw [if_neg own, lookup_eq_some_iff_mem unique]
        cases second with
        | none => simp [Ne.symm own]
        | some rows =>
          have perm : rows.Perm s.stored := sees.2
          simp [Ne.symm own, perm.mem_iff]
    · rw [step, if_neg writes]
      refine ⟨distinct, fun pid entry => ?_⟩
      have never : ¬ (accepted lib base post first = true ∧ saved.commits = true) := fun both => writes (Bool.and_eq_true_iff.mpr both)
      simp [Saves, Replaces, never]

/-! ## Main results -/

/-- In every run: the store has at most one entry for a provider, and it has an entry exactly if
the entry was written and no later write replaced it, by another entry of the provider or, after
a read that failed, by everything it wrote. -/
theorem overlay_kept_iff {events : List Event} {s : State} (ran : Runs lib base events s) :
    (s.stored.map (·.1)).Nodup ∧ ∀ pid entry, (pid, entry) ∈ s.stored ↔
      ∃ before event later, events = before ++ event :: later ∧ Saves lib base pid entry event ∧
        ∀ e ∈ later, ¬ Replaces lib base pid e := by
  induction ran with
  | nil => exact ⟨List.nodup_nil, fun _ _ => by simp⟩
  | snoc ran event sees ih =>
    obtain ⟨distinct, kept⟩ := mem_step lib base ih.1 sees
    refine ⟨distinct, fun pid entry => ?_⟩
    rw [kept, ih.2, Effects.split_last]

/-- A library where every address is public, and a configuration with one family. -/
def sample : Library := ⟨fun _ => some ⟨"https", false, some "api.example.com"⟩, fun _ => some true, id⟩

def oneFamily : Config := ⟨[], [("glm", ⟨none⟩)]⟩

def samplePost (pid authEnv : String) : Post :=
  ⟨pid, ⟨"https://api.example.com", "openai_compatible", "partner", authEnv, [⟨"glm", none⟩]⟩, "secret"⟩

def sampleAdd (pid authEnv : String) (second : Option Overlay) : Event := .add (samplePost pid authEnv) (some []) second .answered

/-- An add that cannot read the store loses the provider added before it. -/
theorem overlay_kept_lost :
    ("first", (samplePost "first" "FIRST_API_KEY").entry) ∉
      (step sample oneFamily (step sample oneFamily ⟨[], [], oneFamily⟩ (sampleAdd "first" "FIRST_API_KEY" (some [])))
        (.add (samplePost "second" "SECOND_API_KEY") none none .answered)).stored := by
  have ran := Runs.snoc (Runs.snoc (@Runs.nil sample oneFamily) (sampleAdd "first" "FIRST_API_KEY" (some [])) ⟨.refl _, .refl _⟩)
    (.add (samplePost "second" "SECOND_API_KEY") none none .answered) ⟨trivial, trivial⟩
  have wiped : Replaces sample oneFamily "first" (.add (samplePost "second" "SECOND_API_KEY") none none .answered) :=
    ⟨⟨by decide, rfl⟩, .inl rfl⟩
  intro mem
  rcases Effects.split_last.mp (((overlay_kept_iff ran).2 _ _).mp mem) with saves | earlier
  · exact absurd saves.1.1 (by decide)
  · exact earlier.2 wiped

/-- While the store can be read: the dashboard's merge of the store is the configuration that the
next start of the router builds, in whatever order the rows come. The live table is the
configuration of stored entries, at most those are missing whose posts are in flight or that
were written without an answer since the last start, and where there are none of these it is
that of the next start. -/
theorem overlay_restart (filled : Filled base.models) {events : List Event} {s : State} (ran : Runs lib base events s)
    (readable : ∀ event ∈ events, Readable event) :
    (∀ rows, rows.Perm s.stored → mergeProviderOverlay base rows = .ok (applyToHost base rows) ∧
        Same (applyToHost base rows) (applyToHost base s.stored)) ∧
      (∃ taken, (taken.map (·.1)).Nodup ∧ (∀ added ∈ taken, added ∈ s.stored) ∧
        (∀ added ∈ s.stored, added ∈ taken ∨ (∃ post ∈ s.flying, (post.pid, post.entry) = added) ∨
          added ∈ unposted lib base events) ∧
        Same s.live (applyToHost base taken)) ∧
      (s.flying = [] → unposted lib base events = [] → Same s.live (applyToHost base s.stored)) := by
  obtain ⟨taken, st⟩ := standing_run filled ran readable
  refine ⟨fun rows perm => ⟨merge_apply filled rows, ?_⟩, ⟨taken, st.once, st.known, st.rest, st.live⟩, fun landed all => ?_⟩
  · exact same_of_perm perm ((perm.map _).nodup_iff.mpr st.distinct) base
  · have loads : ∀ added, added ∈ taken ↔ added ∈ s.stored := by
      refine fun added => ⟨st.known added, fun mem => ?_⟩
      rcases st.rest added mem with loaded | ⟨post, flying, -⟩ | missing
      · exact loaded
      · rw [landed] at flying
        cases flying
      · rw [all] at missing
        cases missing
    have perm : taken.Perm s.stored :=
      (List.perm_ext_iff_of_nodup (List.Nodup.of_map _ st.once) (List.Nodup.of_map _ st.distinct)).mpr loads
    exact st.live.trans (same_of_perm perm st.once base)

def firstStored : Overlay := [("first", (samplePost "first" "FIRST_API_KEY").entry)]

def bothStored : Overlay := firstStored ++ [("second", (samplePost "second" "SECOND_API_KEY").entry)]

/-- The second provider is written without an answer, and a start of the router loads it. -/
def restarted : List Event :=
  [sampleAdd "first" "FIRST_API_KEY" (some []), .add (samplePost "second" "SECOND_API_KEY") (some firstStored) (some firstStored) .unanswered,
    .arrive (samplePost "first" "FIRST_API_KEY"), .start (some bothStored)]

theorem overlay_restart_added : ∃ s, Runs sample oneFamily restarted s ∧ s.stored = bothStored ∧
    Same s.live (applyToHost oneFamily bothStored) := by
  have first := Runs.snoc (@Runs.nil sample oneFamily) (sampleAdd "first" "FIRST_API_KEY" (some [])) ⟨.refl _, .refl _⟩
  have second := Runs.snoc first (.add (samplePost "second" "SECOND_API_KEY") (some firstStored) (some firstStored) .unanswered)
    ⟨List.Perm.of_eq (by decide +kernel), List.Perm.of_eq (by decide +kernel)⟩
  have arrived := Runs.snoc second (.arrive (samplePost "first" "FIRST_API_KEY"))
    (show samplePost "first" "FIRST_API_KEY" ∈ _ by decide +kernel)
  have started := Runs.snoc arrived (.start (some bothStored)) (show bothStored.Perm _ from List.Perm.of_eq (by decide +kernel))
  obtain ⟨s, ran, stored, landed⟩ : ∃ s, Runs sample oneFamily restarted s ∧ s.stored = bothStored ∧ s.flying = [] :=
    ⟨_, started, by decide +kernel, by decide +kernel⟩
  have filled : Filled oneFamily.models := by
    intro family model found
    simp only [oneFamily, List.lookup_cons, List.lookup_nil] at found
    split at found
    · cases found
      simp
    · cases found
  have readable : ∀ event ∈ restarted, Readable event := by
    intro event mem
    simp only [restarted, List.mem_cons, List.not_mem_nil, or_false] at mem
    rcases mem with rfl | rfl | rfl | rfl
    · exact ⟨rfl, rfl⟩
    · exact ⟨rfl, rfl⟩
    · trivial
    · exact rfl
  have loaded := (overlay_restart filled ran readable).2.2 landed (by decide +kernel)
  exact ⟨s, ran, stored, stored ▸ loaded⟩

end Unhardcoded.Guarantees.ProviderOverlay
