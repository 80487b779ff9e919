import Unhardcoded.Source.CodexScarcity

/-!
# The reset of a 429 and the window of observations

The deque keeps the last 500 signals (`ingest_eq`), so what a query sees of a 429
ends with the 500th signal after it, whatever reset it announced. The demotion holds
to the announced reset exactly where no 429 that is still kept announces an infinity
or NaN (`int` raises on these) and where the kept signals demote fully by themselves
whenever a dropped 429 has its reset ahead (`demote_pinned_iff`).
-/

namespace Unhardcoded.Guarantees.CodexScarcity
open Unhardcoded.Python Source.CodexScarcity

def kept (signals : List Signal) : List Signal := signals.drop (signals.length - MAXLEN)

def dropped (signals : List Signal) : List Signal := signals.take (signals.length - MAXLEN)

theorem mem_iff_dropped_or_kept {signals : List Signal} {s : Signal} :
    s ∈ signals ↔ s ∈ dropped signals ∨ s ∈ kept signals := by
  rw [dropped, kept, ← List.mem_append, List.take_append_drop]

theorem ingest_eq (signals : List Signal) : ingest signals = kept signals := by
  induction signals using List.reverseRecOn with
  | nil => rfl
  | append_singleton front s ih =>
    rw [ingest, List.foldl_concat]
    rw [ingest] at ih
    rw [ih, append, kept, kept]
    have split : front.drop (front.length - MAXLEN) ++ [s] = (front ++ [s]).drop (front.length - MAXLEN) := by
      rw [List.drop_append_of_le_length (Nat.sub_le _ _)]
    have count : front.length - MAXLEN + (((front ++ [s]).drop (front.length - MAXLEN)).length - MAXLEN) =
        (front ++ [s]).length - MAXLEN := by
      simp only [List.length_drop, List.length_append, List.length_singleton]
      omega
    rw [split, List.drop_drop, count]

variable (float : String → Option Flt)

section Reset

/-- The first reset header that reads as a number above zero. -/
def announced : List (String × String) → Option Flt
  | [] => none
  | (name, raw) :: headers =>
    if isReset name then
      match float (strip raw) with
      | some v => if v.le (.fin 0) then announced headers else some v
      | none => announced headers
    else announced headers

/-- The epoch that an announced number stands for. -/
def epoch (now : ℚ) (ts : Option Int) (q : ℚ) : Int :=
  if 10 ^ 9 < q then towardZero q else towardZero (ts.getD (towardZero now) + q)

theorem resetAt_of_none {headers : List (String × String)} (h : announced float headers = none) (now : ℚ)
    (ts : Option Int) : resetAt float now ts headers = .ok none := by
  fun_induction announced float headers <;> simp_all [resetAt]

theorem resetAt_of_fin {headers : List (String × String)} {q : ℚ} (h : announced float headers = some (.fin q)) (now : ℚ)
    (ts : Option Int) : resetAt float now ts headers = .ok (some (epoch now ts q)) := by
  fun_induction announced float headers with
  | case1 => cases h
  | case2 name raw headers reset v parsed low ih => simp [resetAt, reset, parsed, low, ih h]
  | case3 name raw headers reset v parsed high =>
    obtain rfl := Option.some.inj h
    by_cases absolute : 10 ^ 9 < q
    · simp [resetAt, reset, parsed, high, absolute, epoch, Flt.toInt, Except.map]
    · simp [resetAt, reset, parsed, high, absolute, epoch]
  | case4 name raw headers reset unparsed ih => simp [resetAt, reset, unparsed, ih h]
  | case5 name raw headers other ih => simp [resetAt, other, ih h]

theorem resetAt_of_special {headers : List (String × String)} {v : Flt} (h : announced float headers = some v)
    (special : v.isFinite = false) (now : ℚ) (ts : Option Int) : ∃ e, resetAt float now ts headers = .error e := by
  fun_induction announced float headers with
  | case1 => cases h
  | case2 name raw headers reset v parsed low ih => simpa [resetAt, reset, parsed, low] using ih h
  | case3 name raw headers reset w parsed high =>
    obtain rfl := Option.some.inj h
    cases w with
    | fin q => cases special
    | posInf => exact ⟨_, by simp [resetAt, reset, parsed, high, Flt.lt, Flt.toInt, Except.map]; rfl⟩
    | negInf => simp [Flt.le] at high
    | nan => exact ⟨_, by simp [resetAt, reset, parsed, high, Flt.lt, Flt.toInt, Except.map]; rfl⟩
  | case4 name raw headers reset unparsed ih => simpa [resetAt, reset, unparsed] using ih h
  | case5 name raw headers other ih => simpa [resetAt, other] using ih h

/-- A 429 whose reset header, if any, is no infinity or NaN. -/
def Legible (s : Signal) : Prop := ∀ v, announced float s.headers = some v → v.isFinite = true

theorem resetAt_of_legible {s : Signal} (h : Legible float s) (now : ℚ) :
    ∃ reset, resetAt float now s.ts s.headers = .ok reset := by
  cases number : announced float s.headers with
  | none => exact ⟨none, resetAt_of_none float number now s.ts⟩
  | some v =>
    have finite := h v number
    cases v with
    | fin q => exact ⟨_, resetAt_of_fin float number now s.ts⟩
    | posInf => cases finite
    | negInf => cases finite
    | nan => cases finite

/-- A 429 whose announced reset is still ahead. -/
def Ahead (now : ℚ) (s : Signal) : Prop :=
  s.status = 429 ∧ ∃ reset : Int, resetAt float now s.ts s.headers = .ok (some reset) ∧ now < reset

end Reset

section Fold

/-- The percentage that one header gives. -/
def reading (header : String × String) : Option Flt :=
  if contains "used-percent" header.1 then (float header.2).map percent else none

/-- Every percentage in the kept signals, in their order; the last one counts. -/
def readings (events : List Signal) : List Flt := events.flatMap fun e => e.headers.filterMap (reading float)

theorem headers_spec (headers : List (String × String)) (p : Pressure) :
    (headers.foldl (observeHeader float) p).usedFraction = (headers.filterMap (reading float)).getLast?.or p.usedFraction ∧
      (headers.foldl (observeHeader float) p).recent429 = p.recent429 ∧
      (headers.foldl (observeHeader float) p).resetAt = p.resetAt := by
  induction headers generalizing p with
  | nil => exact ⟨rfl, rfl, rfl⟩
  | cons header headers ih =>
    obtain ⟨used, count, reset⟩ := ih (observeHeader float p header)
    rw [List.foldl_cons, used, count, reset]
    by_cases shows : contains "used-percent" header.1
    · cases parsed : float header.2 with
      | none => simp [observeHeader, reading, shows, parsed]
      | some v =>
        simp only [observeHeader, reading, shows, parsed, if_true, Option.map_some, List.filterMap_cons,
          List.getLast?_cons, Option.or_some, and_self, and_true]
        cases (headers.filterMap (reading float)).getLast? <;> rfl
    · simp [observeHeader, reading, shows]

variable (knobs : Knobs) (now : ℚ)

/-- A 429 that counts toward the ramp. -/
def counts (e : Signal) : Bool := e.status = 429 && recent knobs now e.ts

theorem held_later (p q : Option Int) : held now (later p q) = (held now p || held now q) := by
  cases p with
  | none => cases q <;> simp [later, held]
  | some p =>
    cases q with
    | none => simp [later, held]
    | some q =>
      by_cases larger : p < q
      · have above : (p : ℚ) < q := by exact_mod_cast larger
        have absorbed : now < p → now < q := fun h => lt_trans h above
        simpa [later, larger, held] using absorbed
      · have below : (q : ℚ) ≤ p := by exact_mod_cast not_lt.mp larger
        have absorbed : now < q → now < p := fun h => lt_of_lt_of_le h below
        simpa [later, larger, held] using absorbed

/-- One signal: it raises on a 429 with an illegible reset, and otherwise adds what it shows. -/
theorem observe_spec (p : Pressure) {e : Signal} (legible : e.status = 429 → Legible float e) :
    ∃ q, observe float knobs now p e = .ok q ∧
      q.usedFraction = (e.headers.filterMap (reading float)).getLast?.or p.usedFraction ∧
      q.recent429 = p.recent429 + [e].countP (counts knobs now) ∧
      (held now q.resetAt = true ↔
        held now p.resetAt = true ∨ Ahead float now e) := by
  obtain ⟨used, count, still⟩ := headers_spec float e.headers p
  unfold observe
  by_cases limited : e.status = 429
  · obtain ⟨reset, read⟩ := resetAt_of_legible float (legible limited) now
    rw [if_pos limited, read]
    refine ⟨_, rfl, used, ?_, ?_⟩
    · by_cases fresh : recent knobs now e.ts
      · simp [counts, limited, fresh, count]
      · simp [counts, limited, fresh, count]
    · dsimp only
      rw [held_later, still, Bool.or_eq_true]
      have own : held now reset = true ↔ Ahead float now e := by
        cases reset with
        | none => simp [Ahead, read, held]
        | some reset => simp [Ahead, limited, read, held]
      rw [own]
  · rw [if_neg limited]
    refine ⟨_, rfl, used, ?_, ?_⟩
    · simp [counts, limited, count]
    · simp [Ahead, limited, still]

theorem foldlM_spec (events : List Signal) (p : Pressure) (legible : ∀ e ∈ events, e.status = 429 → Legible float e) :
    ∃ q, events.foldlM (observe float knobs now) p = .ok q ∧
      q.usedFraction = (readings float events).getLast?.or p.usedFraction ∧
      q.recent429 = p.recent429 + events.countP (counts knobs now) ∧
      (held now q.resetAt = true ↔
        held now p.resetAt = true ∨ ∃ e ∈ events, Ahead float now e) := by
  induction events generalizing p with
  | nil => exact ⟨p, rfl, rfl, rfl, by simp⟩
  | cons e events ih =>
    obtain ⟨mid, stepped, used, count, reset⟩ := observe_spec float knobs now p (legible e List.mem_cons_self)
    obtain ⟨q, folded, used', count', reset'⟩ := ih mid fun e' mem => legible e' (List.mem_cons_of_mem _ mem)
    refine ⟨q, ?_, ?_, ?_, ?_⟩
    · rw [List.foldlM_cons, stepped]
      exact folded
    · have shown : readings float (e :: events) = e.headers.filterMap (reading float) ++ readings float events :=
        List.flatMap_cons
      rw [used', used, shown, List.getLast?_append, Option.or_assoc]
    · have tally : (e :: events).countP (counts knobs now) = [e].countP (counts knobs now) + events.countP (counts knobs now) :=
        @List.countP_append _ _ [e] events
      rw [count', count, tally, Nat.add_assoc]
    · rw [reset', reset, List.exists_mem_cons_iff, or_assoc]

theorem foldlM_raises (events : List Signal) (p : Pressure) {e : Signal} (mem : e ∈ events) (limited : e.status = 429)
    (illegible : ¬Legible float e) : ∃ raised, events.foldlM (observe float knobs now) p = .error raised := by
  induction events generalizing p with
  | nil => cases mem
  | cons first events ih =>
    rw [List.foldlM_cons]
    cases stepped : observe float knobs now p first with
    | error raised => exact ⟨raised, rfl⟩
    | ok mid =>
      rcases List.mem_cons.mp mem with rfl | mem
      · unfold Legible at illegible
        push Not at illegible
        obtain ⟨v, number, special⟩ := illegible
        obtain ⟨raised, read⟩ := resetAt_of_special float number (Bool.eq_false_iff.mpr special) now e.ts
        rw [observe, if_pos limited, read] at stepped
        cases stepped
      · exact ih mid mem

end Fold

section Fraction

variable (knobs : Knobs) (now : ℚ)

/-- The last percentage demotes fully. -/
def Exhausted (start : Flt) (used : Option Flt) : Prop :=
  ∃ first : ℚ, start = .fin first ∧ first < 1 ∧ ∃ last, used = some last ∧ (Flt.fin 1).le last = true

/-- So many recent 429s demote fully. -/
def Shed (shed : Flt) (recent429 : Nat) : Prop := (Flt.fin 0).lt shed = true ∧ shed.le (.fin recent429) = true

theorem headerFrac_spec (start : Flt) (used : Option Flt) :
    ∃ frac, headerFrac start used = .ok frac ∧ frac ≠ .nan ∧ ((Flt.fin 1).le frac = true ↔ Exhausted start used) := by
  cases used with
  | none => exact ⟨.fin 0, rfl, by simp, by simp [Exhausted]⟩
  | some used =>
    cases start with
    | fin first =>
      by_cases below : first < 1
      · have pos : 0 < 1 - first := sub_pos.mpr below
        have asked : headerFrac (.fin first) (some used) =
            .ok (Flt.max (.fin 0) ((used.sub (.fin first)).scale (1 - first))) := by
          simp only [headerFrac, Flt.fin_lt_fin, below, decide_true, if_true, Flt.sub, Flt.div_of_pos pos]
          rfl
        refine ⟨_, asked, Flt.max_ne_nan (by simp), ?_⟩
        have full : (Flt.fin 1).le ((used.sub (.fin first)).scale (1 - first)) = (Flt.fin 1).le used := by
          cases used with
          | fin last => simp [Flt.sub, Flt.scale, le_div_iff₀ pos]
          | posInf => rfl
          | negInf => rfl
          | nan => rfl
        rw [Flt.le_max_iff (by simp), full]
        simp [Exhausted, below]
      · exact ⟨.fin 0, by simp [headerFrac, below]; rfl, by simp, by simp [Exhausted, below]⟩
    | posInf => exact ⟨.fin 0, rfl, by simp, by simp [Exhausted]⟩
    | negInf =>
      refine ⟨.fin 0, ?_, by simp, by simp [Exhausted]⟩
      cases used <;> rfl
    | nan => exact ⟨.fin 0, rfl, by simp, by simp [Exhausted]⟩

theorem rlFrac_spec (shed : Flt) (recent429 : Nat) :
    ∃ frac, rlFrac shed recent429 = .ok frac ∧ frac ≠ .nan ∧ ((Flt.fin 1).le frac = true ↔ Shed shed recent429) := by
  unfold rlFrac Shed
  by_cases pos : (Flt.fin 0).lt shed
  · cases shed with
    | fin shed =>
      have pos : 0 < shed := by simpa using pos
      refine ⟨Flt.min (.fin 1) (.fin (recent429 / shed)), ?_, ?_, ?_⟩
      · rw [if_pos (by simpa using pos), Flt.div_of_pos pos]
        rfl
      · unfold Flt.min
        split <;> simp
      · by_cases below : (recent429 : ℚ) / shed < 1
        · simp [Flt.min, below, one_le_div pos, pos]
        · have enough : shed ≤ recent429 := (one_le_div pos).mp (not_lt.mp below)
          simp [Flt.min, below, enough, pos]
    | posInf => exact ⟨.fin 0, by simp [pos, Flt.div, Flt.min, bind, Except.bind]; rfl, by simp, by simp [Flt.le]⟩
    | negInf => cases pos
    | nan => cases pos
  · exact ⟨.fin 0, by rw [if_neg pos]; rfl, by simp, by simp [pos]⟩

theorem one_le_resetFrac (reset : Option Int) : (Flt.fin 1).le (resetFrac now reset) = true ↔ held now reset = true := by
  unfold resetFrac
  by_cases ahead : held now reset <;> simp [ahead]

/-- What the kept signals demote fully by: a reset ahead, enough recent 429s, a quota
that is used up. -/
def DemotesFully (events : List Signal) : Prop :=
  (∃ e ∈ events, Ahead float now e) ∨ Shed knobs.shed429 (events.countP (counts knobs now)) ∨
    Exhausted knobs.demoteStart (readings float events).getLast?

theorem demoteFrac_spec (events : List Signal) (legible : ∀ e ∈ events, e.status = 429 → Legible float e) :
    ∃ frac : ℚ, demoteFrac float knobs now events = .ok (.fin frac) ∧ 0 ≤ frac ∧ frac ≤ 1 ∧
      (frac = 1 ↔ DemotesFully float knobs now events) := by
  obtain ⟨detail, folded, used, count, reset⟩ := foldlM_spec float knobs now events .none legible
  obtain ⟨header, headed, header_num, header_full⟩ := headerFrac_spec knobs.demoteStart detail.usedFraction
  obtain ⟨rl, limited, rl_num, rl_full⟩ := rlFrac_spec knobs.shed429 detail.recent429
  have pushed_num := Flt.max_ne_nan (b := rl) header_num
  obtain ⟨frac, clamped, low, high, full⟩ := Flt.clamp_spec (Flt.max_ne_nan (b := resetFrac now detail.resetAt) pushed_num)
  refine ⟨frac, ?_, low, high, ?_⟩
  · simp only [demoteFrac, balancesSync, folded, headed, limited, clamped, bind, Except.bind, pure, Except.pure]
  · rw [full, Flt.le_max_iff pushed_num, Flt.le_max_iff header_num, header_full, rl_full, one_le_resetFrac, reset, used, count]
    simp only [Pressure.none, held, Option.any_none, Bool.false_eq_true, false_or, Option.or_none, Nat.zero_add]
    rw [DemotesFully, or_comm, or_comm (a := Exhausted _ _)]

/-- A fraction from 0 to 1, and 1 while the reset of any 429 ingested so far is ahead. -/
def Pinned (signals : List Signal) : Prop :=
  ∃ frac : ℚ, demoteFrac float knobs now (ingest signals) = .ok (.fin frac) ∧ 0 ≤ frac ∧ frac ≤ 1 ∧
    ((∃ s ∈ signals, Ahead float now s) → frac = 1)

theorem demote_pinned_iff (signals : List Signal) :
    Pinned float knobs now signals ↔
      (∀ s ∈ kept signals, s.status = 429 → Legible float s) ∧
        ((∃ s ∈ dropped signals, Ahead float now s) → DemotesFully float knobs now (kept signals)) := by
  unfold Pinned
  rw [ingest_eq]
  constructor
  · rintro ⟨frac, asked, _, _, full⟩
    have legible : ∀ s ∈ kept signals, s.status = 429 → Legible float s := by
      intro s mem limited
      by_contra illegible
      obtain ⟨raised, folded⟩ := foldlM_raises float knobs now (kept signals) .none mem limited illegible
      rw [demoteFrac, balancesSync, folded] at asked
      cases asked
    obtain ⟨frac', asked', _, _, full'⟩ := demoteFrac_spec float knobs now (kept signals) legible
    obtain rfl : frac = frac' := Flt.fin.inj (Except.ok.inj (asked.symm.trans asked'))
    refine ⟨legible, ?_⟩
    rintro ⟨s, mem, ahead⟩
    exact full'.mp (full ⟨s, mem_iff_dropped_or_kept.mpr (.inl mem), ahead⟩)
  · rintro ⟨legible, backed⟩
    obtain ⟨frac, asked, low, high, full⟩ := demoteFrac_spec float knobs now (kept signals) legible
    refine ⟨frac, asked, low, high, ?_⟩
    rintro ⟨s, mem, ahead⟩
    rcases mem_iff_dropped_or_kept.mp mem with mem | mem
    · exact full.mpr (backed ⟨s, mem, ahead⟩)
    · exact full.mpr (.inl ⟨s, mem, ahead⟩)

end Fraction

/-- A 429 that announces a day, then 500 healthy calls in its first seconds. -/
def evicted : List Signal := ⟨429, [("retry-after", "86400")], some 0⟩ :: List.replicate 500 ⟨200, [], some 1⟩

def decimal (text : String) : Option Flt := if text = "86400" then some (.fin 86400) else none

def defaults : Knobs := ⟨.fin (1 / 2), .fin 3, .fin 120⟩

theorem evicted_unpinned : ¬Pinned decimal defaults 10 evicted := by
  rintro ⟨frac, asked, _, _, full⟩
  have healthy : demoteFrac decimal defaults 10 (ingest evicted) = .ok (.fin 0) := by
    rw [ingest_eq]
    decide +kernel
  obtain rfl : frac = 0 := Flt.fin.inj (Except.ok.inj (asked.symm.trans healthy))
  have ahead : ∃ s ∈ evicted, Ahead decimal 10 s := by
    refine ⟨_, List.mem_cons_self, rfl, 86400, ?_, by norm_num⟩
    decide +kernel
  exact absurd (full ahead) (by decide)

end Unhardcoded.Guarantees.CodexScarcity
