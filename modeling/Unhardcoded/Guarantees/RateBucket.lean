import Mathlib.Algebra.Order.Field.Basic
import Mathlib.Algebra.Order.Floor.Ring
import Mathlib.Data.Rat.Floor
import Mathlib.Tactic.FieldSimp
import Mathlib.Tactic.Linarith
import Mathlib.Tactic.Positivity
import Mathlib.Tactic.Ring
import Unhardcoded.Source.RateBucket

/-!
# What the rate-limit bucket admits

Tokens and admitted calls together never exceed the burst and the refills, and a
refill follows the forward movement of the stamps (`Accounted`). A stamp that
steps back takes `updated_at` with it, so what has been refilled once may be
refilled again: the bound of burst and refill over the spread of the stamps holds,
for every rate, burst and number of calls at each stamp, exactly where the forward
movements add up to no more than the spread (`rate_bucket_bound`).
-/

namespace Unhardcoded.Guarantees.RateBucket
open Effects Source Source.RateBucket

section Path

/-- How far a path of stamps moves forward, step by step. -/
def forward : List ℚ → ℚ
  | a :: b :: rest => max 0 (b - a) + forward (b :: rest)
  | _ => 0

/-- The largest stamp less the smallest. -/
def spread (path : List ℚ) : ℚ :=
  match path.max?, path.min? with
  | some largest, some smallest => largest - smallest
  | _, _ => 0

/-- The path with each stamp this many times. -/
def repeated (n : Nat) (path : List ℚ) : List ℚ := path.flatMap (List.replicate n)

theorem forward_nonneg (path : List ℚ) : 0 ≤ forward path := by
  induction path with
  | nil => exact le_refl _
  | cons a rest ih =>
    cases rest with
    | nil => exact le_refl _
    | cons b rest =>
      rw [forward]
      have := le_max_left 0 (b - a)
      linarith

theorem forward_concat (front : List ℚ) (a b : ℚ) :
    forward (front ++ [a, b]) = forward (front ++ [a]) + max 0 (b - a) := by
  induction front with
  | nil => simp [forward]
  | cons x front ih =>
    cases front with
    | nil => simp [forward]
    | cons y front =>
      simp only [List.cons_append, forward] at ih ⊢
      rw [ih]
      ring

/-- Each of its steps is part of the forward movement. -/
theorem step_le_forward (front rest : List ℚ) (a b : ℚ) :
    max 0 (b - a) ≤ forward (front ++ a :: b :: rest) := by
  induction front with
  | nil =>
    have := forward_nonneg (b :: rest)
    simp only [List.nil_append, forward]
    linarith
  | cons x front ih =>
    have : forward (front ++ a :: b :: rest) ≤ forward (x :: (front ++ a :: b :: rest)) := by
      cases front with
      | nil => simp [forward]
      | cons y front => simp [forward]
    exact le_trans ih this

theorem forward_replicate (n : Nat) (a : ℚ) (rest : List ℚ) :
    forward (List.replicate (n + 1) a ++ rest) = forward (a :: rest) := by
  induction n with
  | zero => rfl
  | succ n ih =>
    rw [List.replicate_succ, List.replicate_succ, List.cons_append, List.cons_append, forward]
    rw [List.replicate_succ, List.cons_append] at ih
    rw [ih]
    simp

theorem forward_repeated (n : Nat) (path : List ℚ) : forward (repeated (n + 1) path) = forward path := by
  induction path with
  | nil => rfl
  | cons a rest ih =>
    have first : repeated (n + 1) (a :: rest) = List.replicate (n + 1) a ++ repeated (n + 1) rest := rfl
    rw [first, forward_replicate]
    cases rest with
    | nil => rfl
    | cons b rest =>
      have second : repeated (n + 1) (b :: rest) = b :: (List.replicate n b ++ repeated (n + 1) rest) := rfl
      rw [second] at ih ⊢
      rw [forward, ih, forward]

theorem mem_repeated (n : Nat) (path : List ℚ) (x : ℚ) : x ∈ repeated (n + 1) path ↔ x ∈ path := by
  simp [repeated]

/-- The spread depends on which stamps there are, not on how often. -/
theorem spread_congr {path path' : List ℚ} (same : ∀ x, x ∈ path ↔ x ∈ path') : spread path = spread path' := by
  have max_eq : path.max? = path'.max? := by
    cases largest : path'.max? with
    | none =>
      rw [List.max?_eq_none_iff] at largest ⊢
      refine List.eq_nil_iff_forall_not_mem.mpr fun x hx => ?_
      rw [same, largest] at hx
      cases hx
    | some m =>
      rw [List.max?_eq_some_iff] at largest ⊢
      simpa only [same] using largest
  have min_eq : path.min? = path'.min? := by
    cases smallest : path'.min? with
    | none =>
      rw [List.min?_eq_none_iff] at smallest ⊢
      refine List.eq_nil_iff_forall_not_mem.mpr fun x hx => ?_
      rw [same, smallest] at hx
      cases hx
    | some m =>
      rw [List.min?_eq_some_iff] at smallest ⊢
      simpa only [same] using smallest
  rw [spread, spread, max_eq, min_eq]

end Path

section Call

/-- Whether a call was admitted, as a number of tokens. -/
def taken (answer : Answer) : Nat := if answer.allowed then 1 else 0

theorem one_le_capacity (call : RateCall) : 1 ≤ call.capacity := by
  simp [RateCall.capacity]

theorem refillPerS_pos (call : RateCall) : 0 < call.refillPerS := by
  have one_le : (1 : ℚ) ≤ (max 1 call.ratePerMin : Int) := by exact_mod_cast le_max_left 1 call.ratePerMin
  unfold RateCall.refillPerS
  positivity

/-- A call takes its token, if any, from the refilled bucket, and moves `updated_at`
to its stamp, forward or back. -/
theorem consume_spec (row : Option Bucket) (call : RateCall) :
    (consumeRateToken row call).2.updatedAt = call.stamp ∧
      (consumeRateToken row call).2.tokens + taken (consumeRateToken row call).1 =
        call.refill (row.getD ⟨call.capacity, call.stamp⟩) ∧
      (0 ≤ call.refill (row.getD ⟨call.capacity, call.stamp⟩) → 0 ≤ (consumeRateToken row call).2.tokens) ∧
      (1 ≤ call.refill (row.getD ⟨call.capacity, call.stamp⟩) → taken (consumeRateToken row call).1 = 1) := by
  unfold consumeRateToken
  dsimp only
  split
  · rename_i enough
    exact ⟨rfl, by simp [taken], fun _ => by linarith, fun _ => rfl⟩
  · rename_i short
    exact ⟨rfl, by simp [taken], id, fun enough => absurd enough short⟩

theorem refill_le (call : RateCall) (row : Bucket) :
    call.refill row ≤ call.capacity ∧
      call.refill row ≤ row.tokens + max 0 (call.stamp - row.updatedAt) * call.refillPerS :=
  ⟨min_le_left _ _, min_le_right _ _⟩

theorem refill_nonneg (call : RateCall) {row : Bucket} (h : 0 ≤ row.tokens) : 0 ≤ call.refill row := by
  have capacity := one_le_capacity call
  have moved := mul_nonneg (le_max_left 0 (call.stamp - row.updatedAt)) (refillPerS_pos call).le
  exact le_min (by linarith) (by linarith)

/-- The account of one consumer: the stamps of its calls, how many were admitted, and
its row. -/
def Accounted (perS capacity : ℚ) (stamps : List ℚ) (count : Nat) : Option Bucket → Prop
  | none => stamps = [] ∧ count = 0
  | some b => (∃ front, stamps = front ++ [b.updatedAt]) ∧ 0 ≤ b.tokens ∧ b.tokens ≤ capacity ∧
      b.tokens + count ≤ capacity + forward stamps * perS

theorem accounted_consume {perS capacity : ℚ} {stamps : List ℚ} {count : Nat} {row : Option Bucket}
    {call : RateCall} (h : Accounted perS capacity stamps count row) (perS_eq : call.refillPerS = perS)
    (capacity_eq : call.capacity = capacity) :
    Accounted perS capacity (stamps ++ [call.stamp]) (count + taken (consumeRateToken row call).1)
      (some (consumeRateToken row call).2) := by
  subst perS_eq capacity_eq
  obtain ⟨stamp, balance, nonneg, -⟩ := consume_spec row call
  obtain ⟨full, credit⟩ := refill_le call (row.getD ⟨call.capacity, call.stamp⟩)
  have capacity := one_le_capacity call
  have taken_nonneg : (0 : ℚ) ≤ taken (consumeRateToken row call).1 := Nat.cast_nonneg _
  cases row with
  | none =>
    obtain ⟨rfl, rfl⟩ := h
    refine ⟨⟨[], by rw [stamp]⟩, nonneg (refill_nonneg call (by simp only [Option.getD_none]; linarith)),
      by linarith, ?_⟩
    have still : forward ([] ++ [call.stamp]) = 0 := rfl
    push_cast
    rw [still]
    linarith
  | some b =>
    obtain ⟨⟨front, path⟩, held, -, within⟩ := h
    refine ⟨⟨stamps, by rw [stamp]⟩, nonneg (refill_nonneg call held), by linarith, ?_⟩
    have moved : forward (stamps ++ [call.stamp]) = forward stamps + max 0 (call.stamp - b.updatedAt) := by
      rw [path, List.append_assoc]
      exact forward_concat front b.updatedAt call.stamp
    simp only [Option.getD_some] at balance credit
    rw [moved, add_mul]
    push_cast
    linarith

end Call

section Runs

/-- The stamps of one consumer's calls, in order. -/
def stampsOf (consumer : String) (calls : List RateCall) : List ℚ :=
  (calls.filter fun call => call.consumer = consumer).map (·.stamp)

/-- How many calls of a consumer were allowed. -/
def admitted (consumer : String) (s : RateState) : Nat :=
  (s.allowed.filter fun call => call.consumer = consumer).length

/-- All calls of the consumer come with this rate and burst. -/
def Uniform (consumer : String) (rate burst : Int) (calls : List RateCall) : Prop :=
  ∀ call ∈ calls, call.consumer = consumer → call.ratePerMin = rate ∧ call.burst = burst

/-- The row of a consumer after a call of its own. -/
theorem step_own {s s' : RateState} {call : RateCall} (stepped : s.step call = some s') :
    s'.buckets call.consumer = some (consumeRateToken (s.buckets call.consumer) call).2 ∧
      admitted call.consumer s' =
        admitted call.consumer s + taken (consumeRateToken (s.buckets call.consumer) call).1 := by
  obtain rfl := Option.some.inj stepped
  refine ⟨if_pos rfl, ?_⟩
  unfold admitted taken
  dsimp only
  split <;> simp

/-- A call of another consumer leaves the row and the count alone. -/
theorem step_other {s s' : RateState} {call : RateCall} {consumer : String} (other : consumer ≠ call.consumer)
    (stepped : s.step call = some s') :
    s'.buckets consumer = s.buckets consumer ∧ admitted consumer s' = admitted consumer s := by
  obtain rfl := Option.some.inj stepped
  refine ⟨if_neg other, ?_⟩
  unfold admitted
  dsimp only
  split <;> simp [Ne.symm other]

theorem accounted_run {consumer : String} {rate burst : Int} {calls : List RateCall} {s : RateState}
    (ran : runBuckets calls = some s) (uniform : Uniform consumer rate burst calls) :
    Accounted (max 1 rate / 60) (max 1 burst) (stampsOf consumer calls) (admitted consumer s)
      (s.buckets consumer) := by
  have along : Uniform consumer rate burst calls → Accounted (max 1 rate / 60) (max 1 burst)
      (stampsOf consumer calls) (admitted consumer s) (s.buckets consumer) := by
    refine Machine.run_history (I := fun calls s => Uniform consumer rate burst calls →
      Accounted (max 1 rate / 60) (max 1 burst) (stampsOf consumer calls) (admitted consumer s)
        (s.buckets consumer)) ?_ ?_ ran
    · exact fun _ => ⟨rfl, rfl⟩
    · intro before s call s' earlier stepped uniform
      have account := earlier fun c hc => uniform c (List.mem_append_left _ hc)
      by_cases own : call.consumer = consumer
      · subst own
        obtain ⟨rate_eq, burst_eq⟩ := uniform call (by simp) rfl
        obtain ⟨row, count⟩ := step_own stepped
        have stamps : stampsOf call.consumer (before ++ [call]) =
            stampsOf call.consumer before ++ [call.stamp] := by simp [stampsOf]
        rw [row, count, stamps]
        exact accounted_consume account (by rw [RateCall.refillPerS, rate_eq]) (by rw [RateCall.capacity, burst_eq])
      · obtain ⟨row, count⟩ := step_other (Ne.symm own) stepped
        have stamps : stampsOf consumer (before ++ [call]) = stampsOf consumer before := by
          simp [stampsOf, own]
        rw [row, count, stamps]
        exact account
  exact along uniform

end Runs

section Drain

variable {consumer : String} {rate burst : Int} {s : RateState}

/-- The row of the consumer as a call at this stamp would refill it. -/
def refilled (call : RateCall) (s : RateState) : ℚ :=
  call.refill ((s.buckets call.consumer).getD ⟨call.capacity, call.stamp⟩)

/-- One call at a stamp, in a state that always has a successor. -/
theorem step_refilled (call : RateCall) (nonneg : 0 ≤ refilled call s) : ∃ s' t, s.step call = some s' ∧
    s'.buckets call.consumer = some ⟨t, call.stamp⟩ ∧ 0 ≤ t ∧ refilled call s' = t ∧
    t + admitted call.consumer s' = refilled call s + admitted call.consumer s ∧
    (t < 1 ∨ t = refilled call s - 1) := by
  obtain ⟨s', stepped⟩ : ∃ s', s.step call = some s' := ⟨_, rfl⟩
  obtain ⟨row, count⟩ := step_own stepped
  obtain ⟨stamp, balance, held, one⟩ := consume_spec (s.buckets call.consumer) call
  obtain ⟨full, -⟩ := refill_le call ((s.buckets call.consumer).getD ⟨call.capacity, call.stamp⟩)
  change _ = refilled call s at balance
  change refilled call s ≤ _ at full
  generalize consumeRateToken (s.buckets call.consumer) call = result at row count stamp balance held one
  have taken_nonneg : (0 : ℚ) ≤ taken result.1 := Nat.cast_nonneg _
  refine ⟨s', result.2.tokens, stepped, by rw [row, ← stamp], held nonneg, ?_, ?_, ?_⟩
  · rw [refilled, row, Option.getD_some, RateCall.refill, stamp, sub_self, max_self, zero_mul, add_zero]
    exact min_eq_right (by linarith)
  · rw [count]
    push_cast
    linarith
  · by_cases enough : 1 ≤ refilled call s
    · have : (taken result.1 : ℚ) = 1 := by rw [one enough, Nat.cast_one]
      exact .inr (by linarith)
    · exact .inl (by linarith)

/-- Calls at one stamp use up whole tokens until none is left, and lose nothing. -/
theorem drain_run (call : RateCall) (n : Nat) (nonneg : 0 ≤ refilled call s) (enough : refilled call s < n + 2) :
    ∃ s' t, Machine.run RateState.step s (List.replicate (n + 1) call) = some s' ∧
      s'.buckets call.consumer = some ⟨t, call.stamp⟩ ∧ 0 ≤ t ∧ t < 1 ∧
      t + admitted call.consumer s' = refilled call s + admitted call.consumer s := by
  induction n generalizing s with
  | zero =>
    obtain ⟨s', t, stepped, row, held, -, balance, one⟩ := step_refilled call nonneg
    refine ⟨s', t, Machine.run_cons.mpr ⟨s', stepped, rfl⟩, row, held, ?_, balance⟩
    push_cast at enough
    rcases one with short | whole
    · exact short
    · linarith
  | succ n ih =>
    obtain ⟨mid, t, stepped, row, held, again, balance, one⟩ := step_refilled call nonneg
    have less : refilled call mid < n + 2 := by
      rw [again]
      push_cast at enough
      rcases one with short | whole
      · have : (0 : ℚ) ≤ n := Nat.cast_nonneg n
        linarith
      · linarith
    obtain ⟨s', t', ran, row', held', short, balance'⟩ := ih (again ▸ held) less
    refine ⟨s', t', Machine.run_cons.mpr ⟨mid, stepped, ran⟩, row', held', short, ?_⟩
    rw [balance', again, balance]

/-- A call of the consumer with this rate and burst. -/
def callAt (consumer : String) (rate burst : Int) (stamp : ℚ) : RateCall := ⟨consumer, rate, burst, stamp⟩

/-- The bucket has less than one token left, and none was lost on the way. -/
def Drained (consumer : String) (rate burst : Int) (stamp : ℚ) (moved : ℚ) (s : RateState) : Prop :=
  ∃ t, s.buckets consumer = some ⟨t, stamp⟩ ∧ 0 ≤ t ∧ t < 1 ∧
    t + admitted consumer s = max 1 (burst : ℚ) + moved * (max 1 (rate : ℚ) / 60)

/-- A path whose refills fit into the bucket, with enough calls at each stamp, drains
every refill. -/
theorem drained_path {n : Nat} (capacity_lt : max 1 (burst : ℚ) < n + 2) (rest : List ℚ) {front : List ℚ}
    {a : ℚ} (fits : ∀ x y, max 0 (y - x) ≤ forward (front ++ a :: rest) →
      1 + max 0 (y - x) * (max 1 (rate : ℚ) / 60) ≤ max 1 (burst : ℚ))
    (drained : Drained consumer rate burst a (forward (front ++ [a])) s) :
    ∃ s' last, Machine.run RateState.step s ((repeated (n + 1) rest).map (callAt consumer rate burst)) = some s' ∧
      Drained consumer rate burst last (forward (front ++ a :: rest)) s' := by
  induction rest generalizing front a s with
  | nil => exact ⟨s, a, rfl, drained⟩
  | cons b rest ih =>
    obtain ⟨t, row, held, short, balance⟩ := drained
    have refill_eq : refilled (callAt consumer rate burst b) s =
        t + max 0 (b - a) * (max 1 (rate : ℚ) / 60) := by
      have fit := fits a b (step_le_forward front rest a b)
      have room : t + max 0 (b - a) * (max 1 (rate : ℚ) / 60) ≤ max 1 (burst : ℚ) := by linarith
      have own : s.buckets (callAt consumer rate burst b).consumer = some ⟨t, a⟩ := row
      rw [refilled, own]
      simpa [RateCall.refill, RateCall.capacity, RateCall.refillPerS, callAt] using room
    have nonneg : 0 ≤ refilled (callAt consumer rate burst b) s := by
      apply refill_nonneg
      change 0 ≤ ((s.buckets consumer).getD _).tokens
      rw [row]
      exact held
    have enough : refilled (callAt consumer rate burst b) s < n + 2 :=
      lt_of_le_of_lt (refill_le (callAt consumer rate burst b) _).1 capacity_lt
    obtain ⟨mid, t', ran, row', held', short', balance'⟩ := drain_run (callAt consumer rate burst b) n nonneg enough
    have next : Drained consumer rate burst b (forward ((front ++ [a]) ++ [b])) mid := by
      refine ⟨t', row', held', short', ?_⟩
      change t' + (admitted consumer mid : ℚ) = _ + (admitted consumer s : ℚ) at balance'
      rw [balance', refill_eq, List.append_assoc, List.singleton_append, forward_concat, add_mul]
      linarith
    have path : (front ++ [a]) ++ b :: rest = front ++ a :: b :: rest := by simp
    obtain ⟨s', last, ran', drained'⟩ := ih (by rw [path]; exact fits) next
    rw [path] at drained'
    refine ⟨s', last, ?_, drained'⟩
    have split : repeated (n + 1) (b :: rest) = List.replicate (n + 1) b ++ repeated (n + 1) rest := rfl
    rw [split, List.map_append, List.map_replicate]
    exact Machine.run_append.mpr ⟨mid, ran, ran'⟩

theorem stampsOf_callAt (consumer : String) (rate burst : Int) (stamps : List ℚ) :
    stampsOf consumer (stamps.map (callAt consumer rate burst)) = stamps := by
  induction stamps with
  | nil => rfl
  | cons stamp stamps ih => simpa [stampsOf, callAt] using ih

/-- Where the stamps move forward by more than their spread, some rate and burst
admit more than the spread accounts for. -/
theorem overdrawn (consumer : String) {path : List ℚ} (back : spread path < forward path) :
    ∃ (rate burst : Int) (n : Nat) (s : RateState), 0 < rate ∧ 0 < burst ∧
      runBuckets ((repeated (n + 1) path).map (callAt consumer rate burst)) = some s ∧
      burst + spread path * (rate / 60) < admitted consumer s := by
  cases path with
  | nil => exact absurd back (lt_irrefl _)
  | cons a rest =>
    -- a rate that refills a token over the gap, and a burst that spills none
    have gap : 0 < forward (a :: rest) - spread (a :: rest) := sub_pos.mpr back
    obtain ⟨rate, rate_ge⟩ : ∃ rate : Int, 60 / (forward (a :: rest) - spread (a :: rest)) ≤ rate :=
      ⟨_, Int.le_ceil _⟩
    have rate_pos : (0 : ℚ) < rate := lt_of_lt_of_le (by positivity) rate_ge
    have one_le_rate : (1 : ℚ) ≤ rate := by exact_mod_cast rate_pos
    obtain ⟨burst, burst_ge⟩ : ∃ burst : Int, 1 + forward (a :: rest) * ((rate : ℚ) / 60) ≤ burst :=
      ⟨_, Int.le_ceil _⟩
    have one_le_burst : (1 : ℚ) ≤ burst := by
      have := mul_nonneg (forward_nonneg (a :: rest)) (div_pos rate_pos (by norm_num : (0 : ℚ) < 60)).le
      linarith
    have burst_pos : 0 < burst := by exact_mod_cast one_le_burst
    have capacity_lt : max 1 (burst : ℚ) < burst.toNat + 2 := by
      have : ((burst.toNat : Int) : ℚ) = burst := by rw [Int.toNat_of_nonneg burst_pos.le]
      rw [max_eq_right one_le_burst, ← this]
      push_cast
      linarith
    -- the first stamp finds a full bucket and drains it
    have full : refilled (callAt consumer rate burst a) .empty = max 1 (burst : ℚ) := by
      simp [refilled, RateState.empty, RateCall.refill, RateCall.capacity, callAt]
    obtain ⟨mid, t, ran, row, held, short, balance⟩ := drain_run (callAt consumer rate burst a) burst.toNat
      (by rw [full, max_eq_right one_le_burst]; linarith) (by rw [full]; exact capacity_lt)
    have start : Drained consumer rate burst a (forward ([] ++ [a])) mid := by
      refine ⟨t, row, held, short, ?_⟩
      have none_yet : admitted consumer .empty = 0 := rfl
      change t + (admitted consumer mid : ℚ) = _ + (admitted consumer .empty : ℚ) at balance
      rw [balance, full, none_yet]
      simp [forward]
    obtain ⟨s, last, ran', t', -, -, short', balance'⟩ := drained_path capacity_lt rest
      (by
        intro x y within
        have := mul_le_mul_of_nonneg_right within (div_pos rate_pos (by norm_num : (0 : ℚ) < 60)).le
        rw [max_eq_right one_le_rate, max_eq_right one_le_burst]
        simp only [List.nil_append] at this
        linarith) start
    refine ⟨rate, burst, burst.toNat, s, by exact_mod_cast rate_pos, burst_pos, ?_, ?_⟩
    · have split : repeated (burst.toNat + 1) (a :: rest) =
          List.replicate (burst.toNat + 1) a ++ repeated (burst.toNat + 1) rest := rfl
      rw [split, List.map_append, List.map_replicate]
      exact Machine.run_append.mpr ⟨mid, ran, ran'⟩
    · have token : 1 ≤ (forward (a :: rest) - spread (a :: rest)) * (rate / 60) := by
        rw [div_le_iff₀ gap] at rate_ge
        linarith
      rw [max_eq_right one_le_rate, max_eq_right one_le_burst, List.nil_append] at balance'
      rw [sub_mul] at token
      linarith

end Drain

/-- Whatever the stamps, the stored tokens lie between zero and the burst. Over every
run with these stamps, any number of times each, the admitted calls keep to burst and
refill over the spread exactly where the stamps move forward by no more than it. -/
theorem rate_bucket_bound (consumer : String) (path : List ℚ) :
    ((∀ (rate burst : Int) (calls : List RateCall) (s : RateState), 0 < rate → 0 < burst →
        runBuckets calls = some s → Uniform consumer rate burst calls →
        (∃ n, stampsOf consumer calls = repeated (n + 1) path) →
        (admitted consumer s : ℚ) ≤ burst + spread (stampsOf consumer calls) * (rate / 60)) ↔
      forward path ≤ spread path) ∧
    ∀ (rate burst : Int) (calls : List RateCall) (s : RateState), 0 < rate → 0 < burst →
      runBuckets calls = some s → Uniform consumer rate burst calls →
      ∀ row ∈ s.buckets consumer, 0 ≤ row.tokens ∧ row.tokens ≤ burst := by
  have rate_eq {rate : Int} (pos : 0 < rate) : max 1 rate = rate := max_eq_right pos
  have burst_eq {burst : Int} (pos : 0 < burst) : max 1 (burst : ℚ) = burst := max_eq_right (by exact_mod_cast pos)
  refine ⟨⟨fun bound => ?_, fun small => ?_⟩, ?_⟩
  · by_contra back
    obtain ⟨rate, burst, n, s, rate_pos, burst_pos, ran, above⟩ := overdrawn consumer (not_le.mp back)
    have stamps := stampsOf_callAt consumer rate burst (repeated (n + 1) path)
    have uniform : Uniform consumer rate burst ((repeated (n + 1) path).map (callAt consumer rate burst)) := by
      intro call mem _
      obtain ⟨stamp, -, rfl⟩ := List.mem_map.mp mem
      exact ⟨rfl, rfl⟩
    have le := bound rate burst _ s rate_pos burst_pos ran uniform ⟨n, stamps⟩
    rw [stamps, spread_congr (mem_repeated n path)] at le
    linarith
  · intro rate burst calls s rate_pos burst_pos ran uniform ⟨n, stamps⟩
    have account := accounted_run ran uniform
    have small_refill : forward path * ((rate : ℚ) / 60) ≤ spread path * (rate / 60) :=
      mul_le_mul_of_nonneg_right small (by positivity)
    rw [stamps, spread_congr (mem_repeated n path)]
    rw [stamps, rate_eq rate_pos, burst_eq burst_pos] at account
    cases row : s.buckets consumer with
    | none =>
      rw [row] at account
      obtain ⟨-, none_yet⟩ := account
      have := mul_nonneg (forward_nonneg path) (by positivity : (0 : ℚ) ≤ (rate : ℚ) / 60)
      rw [none_yet, Nat.cast_zero]
      have : (0 : ℚ) < burst := by exact_mod_cast burst_pos
      linarith
    | some b =>
      rw [row] at account
      obtain ⟨-, held, -, within⟩ := account
      rw [forward_repeated] at within
      linarith
  · intro rate burst calls s rate_pos burst_pos ran uniform row mem
    have account := accounted_run ran uniform
    rw [Option.mem_def.mp mem] at account
    obtain ⟨-, held, full, -⟩ := account
    exact ⟨held, by rwa [burst_eq burst_pos] at full⟩

/-- A replica whose clock is a minute behind opens the interval again for the next one:
rate and burst one admit three calls within a minute. -/
theorem interval_refilled_twice :
    ¬ ∀ (consumer : String) (rate burst : Int) (calls : List RateCall) (s : RateState), 0 < rate → 0 < burst →
      runBuckets calls = some s → Uniform consumer rate burst calls →
      (admitted consumer s : ℚ) ≤ burst + spread (stampsOf consumer calls) * (rate / 60) := by
  intro bound
  obtain ⟨s, ran⟩ : ∃ s, runBuckets ([0, 60, 0, 60].map (callAt "api" 1 1)) = some s := ⟨_, rfl⟩
  have uniform : Uniform "api" 1 1 ([0, 60, 0, 60].map (callAt "api" 1 1)) := by
    intro call mem _
    obtain ⟨stamp, -, rfl⟩ := List.mem_map.mp mem
    exact ⟨rfl, rfl⟩
  have three : (runBuckets ([0, 60, 0, 60].map (callAt "api" 1 1))).map (admitted "api") = some 3 := by
    decide +kernel
  have two : spread (stampsOf "api" ([0, 60, 0, 60].map (callAt "api" 1 1))) = 60 := by decide +kernel
  have le := bound "api" 1 1 _ s (by decide) (by decide) ran uniform
  rw [ran, Option.map_some, Option.some_inj] at three
  rw [three, two] at le
  norm_num at le

end Unhardcoded.Guarantees.RateBucket
