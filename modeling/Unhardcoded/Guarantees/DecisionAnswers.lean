import Unhardcoded.Python.Checks
import Unhardcoded.Python.Lists
import Unhardcoded.Source.DecisionAnswers

/-!
# Malformed decision answers

Each check of an answer refuses by an exception that the callers turn into a fallback,
with one exception: `math.isfinite` raises `OverflowError` on an integer past the doubles,
and none of the handlers names it. Which checks an answer reaches decides whether such an
integer is looked at (`AnswerHuge`, `ParseHuge`, `ResponseHuge`); on every other body
`_parse` returns a sound result or raises `DecisionError`, and `send` returns
(`answers_fall_back_iff`).
-/

namespace Unhardcoded.Guarantees.DecisionAnswers
open Unhardcoded.Python Source Source.DecisionAnswers

/-- An integer that `float` cannot convert. -/
def Huge : Value → Prop
  | .int n => Flt.tooLarge ≤ n.natAbs
  | _ => False

section Numbers

theorem require_bind_error {c : Bool} {r e : Raised} {α : Type} {k : Unit → Except Raised α} (h : r ≠ e) :
    (require c r >>= k) = .error e ↔ c = true ∧ k () = .error e := by
  rw [bind_error_iff]
  unfold require
  cases c with
  | true => simpa using ⟨fun ⟨_, raised⟩ => raised, fun raised => ⟨(), raised⟩⟩
  | false => simp [h]

theorem require_raises {P : Raised → Prop} {c : Bool} {r : Raised} (h : P r) : OnlyRaises P (require c r) := by
  unfold require
  split
  · exact .ok _
  · exact .error h

theorem require_ok {c : Bool} {r : Raised} {u : Unit} : require c r = .ok u ↔ c = true := by
  unfold require
  cases c <;> simp

theorem numberWithin_error (within : ℚ → Bool) (v : Value) : numberWithin within v = .error Flt.intTooLarge ↔ Huge v := by
  unfold numberWithin
  split
  · split
    · rename_i fits
      simp [Huge, fits]
    · rename_i large
      simpa [Huge] using large
  · simp [Huge]
  · rename_i int _
    cases v with
    | int n => exact absurd rfl (int n)
    | _ => simp [Huge]

theorem numberWithin_raises (within : ℚ → Bool) (v : Value) : OnlyRaises (· = Flt.intTooLarge) (numberWithin within v) := by
  unfold numberWithin
  split
  · split
    · exact .ok _
    · exact .error rfl
  · exact .ok _
  · exact .ok _

/-- The first value that is no probability is an integer too large. -/
def HugeFirst : List Value → Prop
  | [] => False
  | v :: values => Huge v ∨ probability v = .ok true ∧ HugeFirst values

theorem probabilities_error (values : List Value) : probabilities values = .error Flt.intTooLarge ↔ HugeFirst values := by
  induction values with
  | nil => simp [probabilities, HugeFirst]
  | cons v values ih =>
    rw [probabilities, bind_error_iff, HugeFirst, ← ih]
    unfold probability
    rw [numberWithin_error]
    constructor
    · rintro (huge | ⟨b, checked, rest⟩)
      · exact .inl huge
      · cases b with
        | true => exact .inr ⟨checked, by simpa using rest⟩
        | false => cases rest
    · rintro (huge | ⟨checked, rest⟩)
      · exact .inl huge
      · exact .inr ⟨true, checked, by simpa using rest⟩

theorem probabilities_raises (values : List Value) : OnlyRaises (· = Flt.intTooLarge) (probabilities values) := by
  induction values with
  | nil => exact .ok _
  | cons v values ih =>
    refine (numberWithin_raises _ v).bind fun b checked => ?_
    cases b with
    | true => exact ih
    | false => exact .ok _

theorem probability_mem {v : Value} (h : probability v = .ok true) : 0 ≤ rational v ∧ rational v ≤ 1 := by
  unfold probability numberWithin at h
  split at h
  · split at h
    · simpa [rational] using h
    · cases h
  · simpa [rational] using h
  · cases h

theorem probabilities_mem {values : List Value} (h : probabilities values = .ok true) :
    ∀ v ∈ values, 0 ≤ rational v ∧ rational v ≤ 1 := by
  induction values with
  | nil => exact fun v mem => by cases mem
  | cons first values ih =>
    obtain ⟨b, checked, rest⟩ := ok_of_bind h
    cases b with
    | false => cases rest
    | true =>
      intro v mem
      rcases List.mem_cons.mp mem with rfl | mem
      · exact probability_mem checked
      · exact ih rest v mem

theorem rationals_nonneg {values : List Value} (h : probabilities values = .ok true) : ∀ q ∈ values.map rational, 0 ≤ q := by
  intro q mem
  obtain ⟨v, here, rfl⟩ := List.mem_map.mp mem
  exact (probabilities_mem h v here).1

theorem probabilitySumValid_of_probabilities (decimals : Option Nat) {values : List Value}
    (h : probabilities values = .ok true) : ∃ b, probabilitySumValid decimals values = .ok b := by
  unfold probabilitySumValid
  rw [h]
  split
  · exact ⟨_, rfl⟩
  · exact ⟨_, rfl⟩

/-- The sum of probabilities is zero only where none is positive, so no share is undefined. -/
theorem entropyOf_ok (log : ℚ → ℚ) (values : List ℚ) (choices : Nat) (nonneg : ∀ q ∈ values, 0 ≤ q) :
    ∃ entropy, entropyOf log values choices = .ok entropy := by
  unfold entropyOf
  split
  · have each : ∀ p ∈ values.filter (0 < ·), ∃ y, (if values.sum = 0 then .error (.other "ZeroDivisionError" "float division by zero")
        else if p / values.sum ≤ 0 then .error .valueError
        else .ok (p / values.sum * log (p / values.sum)) : Except Raised ℚ) = .ok y := by
      intro p mem
      obtain ⟨mem, positive⟩ := List.mem_filter.mp mem
      have positive : 0 < p := by simpa using positive
      have total : 0 < values.sum := lt_of_lt_of_le positive (List.single_le_sum nonneg p mem)
      rw [if_neg (ne_of_gt total), if_neg (not_le.mpr (div_pos positive total))]
      exact ⟨_, rfl⟩
    obtain ⟨terms, computed⟩ := mapM_ok each
    rw [computed]
    exact ⟨_, rfl⟩
  · exact ⟨_, rfl⟩

theorem confident_error (confidence : Value) : confident confidence = .error Flt.intTooLarge ↔ Huge confidence := by
  unfold confident
  split
  · rename_i null
    cases confidence <;> simp_all [Huge, Value.isNull]
  · exact numberWithin_error _ _

theorem confident_raises (confidence : Value) : OnlyRaises (· = Flt.intTooLarge) (confident confidence) := by
  unfold confident
  split
  · exact .ok _
  · exact numberWithin_raises _ _

theorem isCost_error (cost : Value) : isCost cost = .error Flt.intTooLarge ↔ Huge cost := by
  unfold isCost
  split
  · rename_i null
    cases cost <;> simp_all [Huge, Value.isNull]
  · exact numberWithin_error _ _

theorem isCost_raises (cost : Value) : OnlyRaises (· = Flt.intTooLarge) (isCost cost) := by
  unfold isCost
  split
  · exact .ok _
  · exact numberWithin_raises _ _

end Numbers

section Answer

variable (log : ℚ → ℚ) (decimals : Option Nat) (choices : List String)

/-- A distribution over the choices, whose first improper value is an integer too large. -/
def DistributionHuge (names : List String) (v : Value) : Prop :=
  ∃ d, v = .obj d ∧ sameKeys (d.map (·.1)) names = true ∧ HugeFirst (Distribution.values d)

theorem decisionError_ne (reason : String) : decisionError reason ≠ Flt.intTooLarge := by
  unfold decisionError Flt.intTooLarge overflowError
  simp

theorem valueError_ne (message : String) : refuse message ≠ Flt.intTooLarge := by
  unfold refuse FlowData.valueError Flt.intTooLarge overflowError
  simp

theorem validateDistribution_error (selected : String) (v : Value) :
    validateDistribution log decimals choices selected v = .error Flt.intTooLarge ↔ DistributionHuge choices v := by
  unfold validateDistribution DistributionHuge
  split
  · simp
  · rename_i d
    rw [require_bind_error (decisionError_ne _), bind_error_iff, probabilities_error]
    constructor
    · rintro ⟨same, huge | ⟨b, checked, rest⟩⟩
      · exact ⟨d, rfl, same, huge⟩
      · -- past the probabilities nothing converts an integer
        rw [require_bind_error (decisionError_ne _)] at rest
        obtain ⟨rfl, rest⟩ := rest
        obtain ⟨valid, summed⟩ := probabilitySumValid_of_probabilities decimals checked
        rcases bind_error_iff.mp rest with raised | ⟨_, -, rest⟩
        · rw [summed] at raised
          cases raised
        · rw [require_bind_error (decisionError_ne _), require_bind_error (decisionError_ne _)] at rest
          obtain ⟨entropy, computed⟩ := entropyOf_ok log ((Distribution.values d).map rational) choices.length
            (rationals_nonneg checked)
          rw [computed] at rest
          cases rest.2.2
    · rintro ⟨d', same, keys, huge⟩
      cases same
      exact ⟨keys, .inl huge⟩
  · rename_i obj
    have other := decisionError_ne "invalid_probabilities"
    simp only [Except.error.injEq, other, false_iff]
    rintro ⟨d, rfl, -⟩
    exact obj d rfl

theorem validateDistribution_raises (selected : String) (v : Value) :
    OnlyRaises (fun e => e = Flt.intTooLarge ∨ ∃ reason, e = decisionError reason)
      (validateDistribution log decimals choices selected v) := by
  unfold validateDistribution
  split
  · exact .ok _
  · rename_i d
    refine (require_raises (.inr ⟨_, rfl⟩)).bind fun _ _ => ?_
    refine ((probabilities_raises _).mono fun e => .inl).bind fun b checked => ?_
    refine (require_raises (.inr ⟨_, rfl⟩)).bind fun _ passed => ?_
    obtain rfl := require_ok.mp passed
    obtain ⟨valid, summed⟩ := probabilitySumValid_of_probabilities decimals checked
    obtain ⟨entropy, computed⟩ := entropyOf_ok log ((Distribution.values d).map rational) choices.length
      (rationals_nonneg checked)
    rw [summed, computed]
    refine (OnlyRaises.ok valid).bind fun _ _ => ?_
    refine (require_raises (.inr ⟨_, rfl⟩)).bind fun _ _ => ?_
    refine (require_raises (.inr ⟨_, rfl⟩)).bind fun _ _ => ?_
    exact .ok _
  · exact .error (.inr ⟨_, rfl⟩)

/-- An answer with a declared choice, where an integer too large is its confidence or the
first improper value of its distribution. -/
def AnswerHuge (names : List String) (answer : Value) : Prop :=
  (answer.isObj && (answer.field "type").isText "choice") = true ∧
    (∃ selected ∈ names, answer.field "choice" = .str selected) ∧
    (Huge (answer.field "confidence") ∨
      confident (answer.field "confidence") = .ok true ∧ DistributionHuge names (answer.field "probabilities"))

theorem choiceOf_ok {v : Value} {selected : String} :
    choiceOf choices v = .ok selected ↔ selected ∈ choices ∧ v = .str selected := by
  unfold choiceOf
  split
  · rename_i text
    split
    · rename_i mem
      constructor
      · intro same
        cases same
        exact ⟨mem, rfl⟩
      · rintro ⟨-, same⟩
        cases same
        rfl
    · rename_i absent
      constructor
      · intro same
        cases same
      · rintro ⟨mem, same⟩
        cases same
        exact absurd mem absent
  · rename_i other
    constructor
    · intro same
      cases same
    · rintro ⟨-, same⟩
      exact absurd same (other selected)

theorem choiceOf_raises (v : Value) : OnlyRaises (fun e => ∃ reason, e = decisionError reason) (choiceOf choices v) := by
  unfold choiceOf
  split
  · split
    · exact .ok _
    · exact .error ⟨_, rfl⟩
  · exact .error ⟨_, rfl⟩

theorem validateAnswer_error (answer : Value) :
    validateAnswer log decimals choices answer = .error Flt.intTooLarge ↔ AnswerHuge choices answer := by
  unfold validateAnswer AnswerHuge
  rw [require_bind_error (decisionError_ne _), bind_error_iff]
  refine and_congr_right fun _ => ?_
  constructor
  · rintro (raised | ⟨selected, chosen, rest⟩)
    · obtain ⟨reason, same⟩ := choiceOf_raises choices _ _ raised
      exact absurd same.symm (decisionError_ne reason)
    · obtain ⟨mem, named⟩ := (choiceOf_ok choices).mp chosen
      refine ⟨⟨selected, mem, named⟩, ?_⟩
      rcases bind_error_iff.mp rest with raised | ⟨b, sure, rest⟩
      · exact .inl ((confident_error _).mp raised)
      · rw [require_bind_error (decisionError_ne _)] at rest
        obtain ⟨rfl, rest⟩ := rest
        rcases bind_error_iff.mp rest with raised | ⟨pair, -, done⟩
        · exact .inr ⟨sure, (validateDistribution_error log decimals choices selected _).mp raised⟩
        · cases done
  · rintro ⟨⟨selected, mem, named⟩, huge⟩
    refine .inr ⟨selected, (choiceOf_ok choices).mpr ⟨mem, named⟩, ?_⟩
    rw [bind_error_iff, confident_error]
    rcases huge with huge | ⟨sure, huge⟩
    · exact .inl huge
    · refine .inr ⟨true, sure, ?_⟩
      rw [require_bind_error (decisionError_ne _), bind_error_iff]
      exact ⟨rfl, .inl ((validateDistribution_error log decimals choices selected _).mpr huge)⟩

theorem validateAnswer_raises (answer : Value) :
    OnlyRaises (fun e => e = Flt.intTooLarge ∨ ∃ reason, e = decisionError reason)
      (validateAnswer log decimals choices answer) := by
  unfold validateAnswer
  refine (require_raises (.inr ⟨_, rfl⟩)).bind fun _ _ => ?_
  refine ((choiceOf_raises choices _).mono fun e => .inr).bind fun selected _ => ?_
  refine ((confident_raises _).mono fun e => .inl).bind fun _ _ => ?_
  refine (require_raises (.inr ⟨_, rfl⟩)).bind fun _ _ => ?_
  refine (validateDistribution_raises log decimals choices selected _).bind fun _ _ => ?_
  exact .ok _

/-- A distribution that was accepted: over exactly the choices, and the selected one
within 1e-9 of the largest. -/
def Backed (selected : String) (d : Distribution) : Prop :=
  (∀ name, name ∈ d.map (·.1) ↔ name ∈ choices) ∧
    ∀ entry ∈ d, rational entry.2 ≤ rational ((d.lookup selected).getD .null) + 1 / 10 ^ 9

theorem sameKeys_iff {keys names : List String} : sameKeys keys names = true ↔ ∀ name, name ∈ keys ↔ name ∈ names := by
  unfold sameKeys
  simp only [Bool.and_eq_true, List.all_eq_true, decide_eq_true_eq]
  exact ⟨fun both name => ⟨both.1 name, both.2 name⟩, fun same => ⟨fun name => (same name).mp, fun name => (same name).mpr⟩⟩

theorem validateDistribution_sound {selected : String} {v : Value} {d : Distribution} {entropy : Option ℚ}
    (h : validateDistribution log decimals choices selected v = .ok (some d, entropy)) : Backed choices selected d := by
  unfold validateDistribution at h
  split at h
  · cases h
  · obtain ⟨_, keys, h⟩ := ok_of_bind h
    obtain ⟨b, -, h⟩ := ok_of_bind h
    obtain ⟨_, -, h⟩ := ok_of_bind h
    obtain ⟨b', -, h⟩ := ok_of_bind h
    obtain ⟨_, -, h⟩ := ok_of_bind h
    obtain ⟨_, largest, h⟩ := ok_of_bind h
    obtain ⟨_, -, h⟩ := ok_of_bind h
    cases h
    refine ⟨sameKeys_iff.mp (require_ok.mp keys), ?_⟩
    have largest := require_ok.mp largest
    rw [Bool.not_eq_true', below, List.any_eq_false] at largest
    exact fun entry mem => by simpa using largest entry mem
  · cases h

theorem validateAnswer_sound {answer : Value} {result : Answer} (h : validateAnswer log decimals choices answer = .ok result) :
    result.selected ∈ choices ∧ ∀ d, result.probabilities = some d → Backed choices result.selected d := by
  unfold validateAnswer at h
  obtain ⟨_, -, h⟩ := ok_of_bind h
  obtain ⟨selected, chosen, h⟩ := ok_of_bind h
  obtain ⟨_, -, h⟩ := ok_of_bind h
  obtain ⟨_, -, h⟩ := ok_of_bind h
  obtain ⟨⟨distribution, entropy⟩, valid, h⟩ := ok_of_bind h
  cases h
  refine ⟨((choiceOf_ok choices).mp chosen).1, ?_⟩
  rintro d rfl
  exact validateDistribution_sound log decimals choices valid

end Answer

section Parse

variable (log : ℚ → ℚ) (decimals : String → Option Nat)

theorem loads_error (body : Value) : loads body ≠ .error Flt.intTooLarge := by
  unfold DecisionAnswers.loads
  split <;> simp [Flt.intTooLarge, overflowError]

theorem loads_ok {body data : Value} : loads body = .ok data ↔ uniqueKeys body = true ∧ body = data := by
  unfold DecisionAnswers.loads
  split <;> simp_all

theorem get_ok {v found : Value} {key : String} : v.get key = .ok found ↔ v.isObj = true ∧ v.field key = found := by
  unfold Value.get
  split <;> simp_all

theorem get_error (v : Value) (key : String) : v.get key ≠ .error Flt.intTooLarge := by
  unfold Value.get
  split <;> simp [Flt.intTooLarge, overflowError]

/-- The usage that `_parse` reads. -/
def usageOf (body : Value) : Value := (body.field "usage").orDict

theorem readCost_ok {body data cost : Value} :
    readCost body = .ok (data, cost) ↔ uniqueKeys body = true ∧ body = data ∧ body.isObj = true ∧
      (usageOf body).isObj = true ∧ (usageOf body).field "cost" = cost ∧ isCost cost = .ok true := by
  unfold readCost
  simp only [bind_ok_iff, loads_ok, get_ok, require_ok]
  constructor
  · rintro ⟨_, ⟨unique, rfl⟩, _, ⟨obj, rfl⟩, _, ⟨usage, rfl⟩, _, valid, _, rfl, same⟩
    cases same
    exact ⟨unique, rfl, obj, usage, rfl, valid⟩
  · rintro ⟨unique, rfl, obj, usage, rfl, valid⟩
    exact ⟨_, ⟨unique, rfl⟩, _, ⟨obj, rfl⟩, _, ⟨usage, rfl⟩, true, valid, (), rfl, rfl⟩

theorem readCost_error (body : Value) :
    readCost body = .error Flt.intTooLarge ↔ uniqueKeys body = true ∧ body.isObj = true ∧ (usageOf body).isObj = true ∧
      Huge ((usageOf body).field "cost") := by
  unfold readCost
  simp only [bind_error_iff, loads_error, get_error, false_or, loads_ok, get_ok, isCost_error]
  constructor
  · rintro ⟨_, ⟨unique, rfl⟩, _, ⟨obj, rfl⟩, _, ⟨usage, rfl⟩, huge | ⟨b, -, raised | ⟨_, -, raised⟩⟩⟩
    · exact ⟨unique, obj, usage, huge⟩
    · unfold require at raised
      split at raised
      · cases raised
      · cases raised
    · cases raised
  · rintro ⟨unique, obj, usage, huge⟩
    exact ⟨_, ⟨unique, rfl⟩, _, ⟨obj, rfl⟩, _, ⟨usage, rfl⟩, .inl huge⟩

/-- A token count that is none, or no natural number, is refused. -/
def TokensOk (body : Value) : Prop :=
  (((usageOf body).field "input_tokens").isNull || isCount ((usageOf body).field "input_tokens")) = true

def answersOf (body : Value) : Value := (body.fields.lookup "answers").getD (.obj [])

theorem modelOf_raises (v : Value) : OnlyRaises (· = .valueError) (modelOf v) := by
  unfold modelOf
  split
  · split
    · exact .ok _
    · exact .error rfl
  · exact .error rfl

theorem readAnswer_error (choices : List String) (body : Value) :
    readAnswer log decimals choices body = .error Flt.intTooLarge ↔ TokensOk body ∧
      (∃ model, modelOf (body.field "model") = .ok model) ∧ (answersOf body).isObj = true ∧
      AnswerHuge choices ((answersOf body).field "selection") := by
  unfold readAnswer
  rw [require_bind_error (by simp [Flt.intTooLarge, overflowError])]
  refine and_congr_right fun _ => ?_
  rw [bind_error_iff]
  constructor
  · rintro (raised | ⟨model, named, rest⟩)
    · have := modelOf_raises _ _ raised
      simp [Flt.intTooLarge, overflowError] at this
    · refine ⟨⟨model, named⟩, ?_⟩
      rcases bind_error_iff.mp rest with raised | ⟨selection, found, rest⟩
      · exact absurd raised (get_error _ _)
      · obtain ⟨obj, rfl⟩ := get_ok.mp found
        refine ⟨obj, ?_⟩
        rcases bind_error_iff.mp rest with raised | ⟨answer, -, done⟩
        · exact (validateAnswer_error log (decimals model) choices _).mp raised
        · cases done
  · rintro ⟨⟨model, named⟩, obj, huge⟩
    refine .inr ⟨model, named, ?_⟩
    rw [bind_error_iff]
    refine .inr ⟨_, get_ok.mpr ⟨obj, rfl⟩, ?_⟩
    rw [bind_error_iff]
    exact .inl ((validateAnswer_error log (decimals model) choices _).mpr huge)

/-- The handlers of `_parse` name the exception. -/
def Handled (e : Raised) : Prop := e = Flt.intTooLarge ∨ (reasonOf e).isSome = true

theorem readCost_raises (body : Value) : OnlyRaises Handled (readCost body) := by
  unfold readCost
  have loaded : OnlyRaises Handled (loads body) := by
    unfold DecisionAnswers.loads
    split
    · exact .ok _
    · exact .error (.inr rfl)
  have got (v : Value) (key : String) : OnlyRaises Handled (v.get key) := by
    unfold Value.get
    split
    · exact .ok _
    · exact .error (.inr rfl)
  refine loaded.bind fun data _ => ?_
  refine (got _ _).bind fun usage _ => ?_
  refine (got _ _).bind fun cost _ => ?_
  refine ((isCost_raises cost).mono fun e => .inl).bind fun _ _ => ?_
  refine (require_raises (.inr rfl)).bind fun _ _ => ?_
  exact .ok _

theorem readAnswer_raises (choices : List String) (body : Value) :
    OnlyRaises Handled (readAnswer log decimals choices body) := by
  unfold readAnswer
  refine (require_raises (.inr rfl)).bind fun _ _ => ?_
  have named : OnlyRaises Handled (modelOf (body.field "model")) :=
    (modelOf_raises _).mono fun e same => by rw [same]; exact .inr rfl
  refine named.bind fun model _ => ?_
  have got : OnlyRaises Handled ((answersOf body).get "selection") := by
    unfold Value.get
    split
    · exact .ok _
    · exact .error (.inr rfl)
  refine got.bind fun selection _ => ?_
  have answered : OnlyRaises Handled (validateAnswer log (decimals model) choices selection) := by
    refine (validateAnswer_raises log (decimals model) choices selection).mono ?_
    rintro e (same | ⟨reason, rfl⟩)
    · exact .inl same
    · exact .inr rfl
  refine answered.bind fun answer _ => ?_
  exact .ok _

/-- An integer too large is reached as the cost, or in an answer whose cost, token count
and model pass. -/
def ParseHuge (choices : List String) (body : Value) : Prop :=
  uniqueKeys body = true ∧ body.isObj = true ∧ (usageOf body).isObj = true ∧
    (Huge ((usageOf body).field "cost") ∨
      isCost ((usageOf body).field "cost") = .ok true ∧ TokensOk body ∧ (∃ model, modelOf (body.field "model") = .ok model) ∧
        (answersOf body).isObj = true ∧ AnswerHuge choices ((answersOf body).field "selection"))

/-- `_parse` returns a declared choice backed by its distribution, or raises `DecisionError`. -/
def ParseSettles (call : Attempt) (body : Value) : Prop :=
  match parse log decimals call body with
  | .ok result => result.selectedId ∈ call.choices ∧ ∀ d, result.probabilities = some d → Backed call.choices result.selectedId d
  | .error (.decision ..) => True
  | .error (.escaped _) => False

theorem fail_decision (call : Attempt) (cost : Value) {e : Raised} (named : (reasonOf e).isSome = true) :
    ∃ reason, (call.fail cost e : Except ParseFailure DecisionResult) = .error (.decision reason (call.cost cost) call.attempts) := by
  obtain ⟨reason, named⟩ := Option.isSome_iff_exists.mp named
  unfold Attempt.fail
  rw [named]
  exact ⟨reason, rfl⟩

theorem reasonOf_intTooLarge : ¬(reasonOf Flt.intTooLarge).isSome = true := by
  simp [reasonOf, Flt.intTooLarge, overflowError]

theorem parse_settles_iff (call : Attempt) (body : Value) :
    ParseSettles log decimals call body ↔ ¬ParseHuge call.choices body := by
  unfold ParseSettles parse
  cases costed : readCost body with
  | error e =>
    dsimp only
    rcases readCost_raises body e costed with rfl | named
    · obtain ⟨unique, obj, usage, huge⟩ := (readCost_error body).mp costed
      exact iff_of_false id (not_not.mpr ⟨unique, obj, usage, .inl huge⟩)
    · obtain ⟨reason, failed⟩ := fail_decision call .null named
      rw [failed]
      refine iff_of_true trivial ?_
      rintro ⟨unique, obj, usage, huge | ⟨valid, -⟩⟩
      · rw [(readCost_error body).mpr ⟨unique, obj, usage, huge⟩] at costed
        cases costed
        exact reasonOf_intTooLarge named
      · rw [readCost_ok.mpr ⟨unique, rfl, obj, usage, rfl, valid⟩] at costed
        cases costed
  | ok pair =>
    obtain ⟨data, cost⟩ := pair
    obtain ⟨unique, rfl, obj, usage, rfl, valid⟩ := readCost_ok.mp costed
    dsimp only
    have sized : ¬Huge ((usageOf body).field "cost") := by
      intro huge
      rw [(isCost_error _).mpr huge] at valid
      cases valid
    have reached : ParseHuge call.choices body ↔ readAnswer log decimals call.choices body = .error Flt.intTooLarge := by
      rw [readAnswer_error]
      constructor
      · rintro ⟨-, -, -, huge | ⟨-, rest⟩⟩
        · exact absurd huge sized
        · exact rest
      · exact fun rest => ⟨unique, obj, usage, .inr ⟨valid, rest⟩⟩
    rw [reached]
    cases answered : readAnswer log decimals call.choices body with
    | error e =>
      dsimp only
      rcases readAnswer_raises log decimals call.choices body e answered with rfl | named
      · exact iff_of_false id (not_not.mpr rfl)
      · obtain ⟨reason, failed⟩ := fail_decision call ((usageOf body).field "cost") named
        rw [failed]
        refine iff_of_true trivial fun same => ?_
        cases same
        exact reasonOf_intTooLarge named
    | ok result =>
      obtain ⟨tokens, model, answer⟩ := result
      dsimp only
      refine iff_of_true ?_ (by simp)
      obtain ⟨_, -, rest⟩ := ok_of_bind answered
      obtain ⟨model', -, rest⟩ := ok_of_bind rest
      obtain ⟨selection, -, rest⟩ := ok_of_bind rest
      obtain ⟨answer', valid, rest⟩ := ok_of_bind rest
      cases rest
      exact validateAnswer_sound log (decimals model) call.choices valid

end Parse

section Response

variable (log : ℚ → ℚ)

/-- `send` turns the exception into a bad response. -/
def Refused (e : Raised) : Prop := e = Flt.intTooLarge ∨ isBadResponse e = true

theorem refuse_refused (message : String) : Refused (refuse message) := .inr rfl

theorem asValueError_error {α : Type} {x : Except Raised α} : asValueError x = .error Flt.intTooLarge ↔ x = .error Flt.intTooLarge := by
  unfold asValueError
  split
  · rename_i reason
    exact iff_of_false (by intro same; exact valueError_ne _ (Except.error.inj same))
      (by intro same; exact decisionError_ne reason (Except.error.inj same))
  · exact Iff.rfl

theorem asValueError_raises {α : Type} {x : Except Raised α}
    (h : OnlyRaises (fun e => e = Flt.intTooLarge ∨ ∃ reason, e = decisionError reason) x) : OnlyRaises Refused (asValueError x) := by
  unfold asValueError
  split
  · exact .error (refuse_refused _)
  · rename_i other
    intro e raised
    rcases h e raised with same | ⟨reason, rfl⟩
    · exact .inl same
    · exact absurd raised (other reason)

/-- A score that is an integer too large, or a distribution of a valid score reaching one. -/
def ScoreHuge (answer : Value) (criteria : Nat) : Prop :=
  Huge (answer.field "score") ∨
    numberWithin (fun q => 0 ≤ q ∧ q ≤ (criteria : ℚ) - 1) (answer.field "score") = .ok true ∧
      DistributionHuge ((List.range criteria).map toString) (answer.field "probabilities")

theorem validateScore_error (decimals : Option Nat) (answer : Value) (criteria : Nat) :
    validateScore decimals answer criteria = .error Flt.intTooLarge ↔ ScoreHuge answer criteria := by
  unfold validateScore ScoreHuge DistributionHuge
  rw [bind_error_iff, numberWithin_error]
  refine or_congr_right ?_
  constructor
  · rintro ⟨b, scored, rest⟩
    rw [require_bind_error (valueError_ne _)] at rest
    obtain ⟨rfl, rest⟩ := rest
    refine ⟨scored, ?_⟩
    split at rest
    · cases rest
    · rename_i d given
      rw [require_bind_error (valueError_ne _), bind_error_iff, probabilities_error] at rest
      obtain ⟨keys, huge | ⟨b, checked, rest⟩⟩ := rest
      · exact ⟨d, given, keys, huge⟩
      · rw [require_bind_error (valueError_ne _)] at rest
        obtain ⟨rfl, rest⟩ := rest
        obtain ⟨valid, summed⟩ := probabilitySumValid_of_probabilities decimals checked
        rw [summed] at rest
        rcases bind_error_iff.mp rest with raised | ⟨_, -, raised⟩
        · cases raised
        · exact absurd (require_raises (P := (· = refuse "Invalid score distribution.")) rfl _ raised) (valueError_ne _).symm
    · exact absurd (Except.error.inj rest) (valueError_ne _)
  · rintro ⟨scored, d, given, keys, huge⟩
    refine ⟨true, scored, ?_⟩
    rw [require_bind_error (valueError_ne _), given]
    refine ⟨rfl, ?_⟩
    dsimp only
    rw [require_bind_error (valueError_ne _), bind_error_iff, probabilities_error]
    exact ⟨keys, .inl huge⟩

theorem validateScore_raises (decimals : Option Nat) (answer : Value) (criteria : Nat) :
    OnlyRaises Refused (validateScore decimals answer criteria) := by
  unfold validateScore
  refine ((numberWithin_raises _ _).mono fun e => .inl).bind fun _ _ => ?_
  refine (require_raises (refuse_refused _)).bind fun _ _ => ?_
  split
  · exact .ok _
  · refine (require_raises (refuse_refused _)).bind fun _ _ => ?_
    refine ((probabilities_raises _).mono fun e => .inl).bind fun b checked => ?_
    refine (require_raises (refuse_refused _)).bind fun _ passed => ?_
    obtain rfl := require_ok.mp passed
    obtain ⟨valid, summed⟩ := probabilitySumValid_of_probabilities decimals checked
    rw [summed]
    refine (OnlyRaises.ok valid).bind fun _ _ => ?_
    exact require_raises (refuse_refused _)
  · exact .error (refuse_refused _)

/-- The part of an answer that its kind asks for reaches an integer too large. -/
def KindHuge (question : Json) (answer : Value) : Prop :=
  let kind := question.field "type"
  if kind.isText "choice" then AnswerHuge (DecisionProtocol.names (question.field "criteria")) answer
  else if kind.isText "noul" then Huge (answer.field "noul")
  else ScoreHuge answer (question.field "criteria").elems.length

theorem map_error {α β : Type} {x : Except Raised α} {f : α → β} {e : Raised} : x.map f = .error e ↔ x = .error e := by
  cases x <;> simp [Except.map]

theorem validateKind_error (decimals : Option Nat) (question : Json) (answer : Value) :
    validateKind log decimals question answer = .error Flt.intTooLarge ↔ KindHuge question answer := by
  unfold validateKind KindHuge
  dsimp only
  split
  · rw [map_error, asValueError_error, validateAnswer_error]
  · split
    · rw [bind_error_iff, probability, numberWithin_error]
      refine or_iff_left ?_
      rintro ⟨b, -, raised⟩
      exact absurd (require_raises (P := (· = refuse "Invalid noul answer.")) rfl _ raised) (valueError_ne _).symm
    · exact validateScore_error decimals answer _

theorem validateKind_raises (decimals : Option Nat) (question : Json) (answer : Value) :
    OnlyRaises Refused (validateKind log decimals question answer) := by
  unfold validateKind
  dsimp only
  split
  · intro e raised
    exact asValueError_raises (validateAnswer_raises log decimals _ answer) e (map_error.mp raised)
  · split
    · refine ((numberWithin_raises _ _).mono fun e => .inl).bind fun _ _ => ?_
      exact require_raises (refuse_refused _)
    · exact validateScore_raises decimals answer _

/-- An answer of the right type, where an integer too large is its confidence or in what
its kind asks for. -/
def ReplyHuge (question : Json) (answer : Value) : Prop :=
  typed question answer = true ∧
    (Huge (answer.field "confidence") ∨ confident (answer.field "confidence") = .ok true ∧ KindHuge question answer)

theorem validateReply_error (decimals : Option Nat) (question : Json) (answer : Value) :
    validateReply log decimals question answer = .error Flt.intTooLarge ↔ ReplyHuge question answer := by
  unfold validateReply ReplyHuge
  rw [require_bind_error (valueError_ne _), bind_error_iff, confident_error]
  refine and_congr_right fun _ => or_congr_right ?_
  constructor
  · rintro ⟨b, sure, rest⟩
    rw [require_bind_error (valueError_ne _), validateKind_error] at rest
    obtain ⟨rfl, huge⟩ := rest
    exact ⟨sure, huge⟩
  · rintro ⟨sure, huge⟩
    refine ⟨true, sure, ?_⟩
    rw [require_bind_error (valueError_ne _), validateKind_error]
    exact ⟨rfl, huge⟩

theorem validateReply_raises (decimals : Option Nat) (question : Json) (answer : Value) :
    OnlyRaises Refused (validateReply log decimals question answer) := by
  unfold validateReply
  refine (require_raises (refuse_refused _)).bind fun _ _ => ?_
  refine ((confident_raises _).mono fun e => .inl).bind fun _ _ => ?_
  refine (require_raises (refuse_refused _)).bind fun _ _ => ?_
  exact validateKind_raises log decimals question answer

/-- The first question whose answer is not valid reaches an integer too large. -/
def RepliesHuge (decimals : Option Nat) (answers : Value) : FlowData.Fields → Prop
  | [] => False
  | (name, question) :: questions => ReplyHuge question (answers.field name) ∨
      validateReply log decimals question (answers.field name) = .ok () ∧ RepliesHuge decimals answers questions

theorem validateReplies_error (decimals : Option Nat) (answers : Value) (questions : FlowData.Fields) :
    validateReplies log decimals answers questions = .error Flt.intTooLarge ↔ RepliesHuge log decimals answers questions := by
  induction questions with
  | nil => simp [validateReplies, RepliesHuge, pure, Except.pure]
  | cons entry questions ih =>
    rw [validateReplies, RepliesHuge, bind_error_iff, validateReply_error, ← ih]
    refine or_congr_right ?_
    constructor
    · rintro ⟨u, valid, rest⟩
      exact ⟨valid, rest⟩
    · rintro ⟨valid, rest⟩
      exact ⟨(), valid, rest⟩

theorem validateReplies_raises (decimals : Option Nat) (answers : Value) (questions : FlowData.Fields) :
    OnlyRaises Refused (validateReplies log decimals answers questions) := by
  induction questions with
  | nil => exact .ok _
  | cons entry questions ih => exact (validateReply_raises log decimals _ _).bind fun _ _ => ih

/-- The token counts of a usage pass. -/
def countsOk (usage : Value) : Bool :=
  ["input_tokens", "output_tokens", "total_tokens"].all fun key => (usage.fields.lookup key).all isCount

theorem validateUsage_error (usage : Value) :
    validateUsage usage = .error Flt.intTooLarge ↔ usage.isObj = true ∧ countsOk usage = true ∧ Huge (usage.field "cost") := by
  unfold validateUsage countsOk
  rw [require_bind_error (valueError_ne _), require_bind_error (valueError_ne _), bind_error_iff, isCost_error]
  refine and_congr_right fun _ => and_congr_right fun _ => or_iff_left ?_
  rintro ⟨b, -, raised⟩
  exact absurd (require_raises (P := (· = refuse "Invalid cost.")) rfl _ raised) (valueError_ne _).symm

theorem validateUsage_raises (usage : Value) : OnlyRaises Refused (validateUsage usage) := by
  unfold validateUsage
  refine (require_raises (refuse_refused _)).bind fun _ _ => ?_
  refine (require_raises (refuse_refused _)).bind fun _ _ => ?_
  refine ((isCost_raises _).mono fun e => .inl).bind fun _ _ => ?_
  exact require_raises (refuse_refused _)

variable (decimals : String → Option Nat)

/-- An integer too large is reached in the answers, or as the cost after valid answers. -/
def ResponseHuge (questions : FlowData.Fields) (data : Value) : Prop :=
  ∃ model, namedModel (data.field "model") = .ok model ∧
    ((data.field "answers").isObj && sameKeys ((data.field "answers").fields.map (·.1)) (questions.map (·.1))) = true ∧
    (RepliesHuge log (decimals model) (data.field "answers") questions ∨
      validateReplies log (decimals model) (data.field "answers") questions = .ok () ∧
        (usageOf data).isObj = true ∧ countsOk (usageOf data) = true ∧ Huge ((usageOf data).field "cost"))

theorem namedModel_raises (v : Value) : OnlyRaises (fun e => ∃ message, e = refuse message) (namedModel v) := by
  unfold namedModel
  split
  · split
    · exact .ok _
    · exact .error ⟨_, rfl⟩
  · exact .error ⟨_, rfl⟩

theorem validateResponse_error (questions : FlowData.Fields) (data : Value) :
    validateResponse log decimals questions data = .error Flt.intTooLarge ↔ ResponseHuge log decimals questions data := by
  unfold validateResponse ResponseHuge
  rw [bind_error_iff, or_iff_right]
  · refine exists_congr fun model => and_congr_right fun _ => ?_
    rw [require_bind_error (valueError_ne _), bind_error_iff, validateReplies_error]
    refine and_congr_right fun _ => or_congr_right ?_
    constructor
    · rintro ⟨u, valid, rest⟩
      refine ⟨valid, ?_⟩
      rcases bind_error_iff.mp rest with raised | ⟨_, -, done⟩
      · exact (validateUsage_error _).mp raised
      · cases done
    · rintro ⟨valid, huge⟩
      refine ⟨(), valid, ?_⟩
      rw [bind_error_iff]
      exact .inl ((validateUsage_error _).mpr huge)
  · intro raised
    obtain ⟨message, same⟩ := namedModel_raises _ _ raised
    exact valueError_ne message same.symm

theorem validateResponse_raises (questions : FlowData.Fields) (data : Value) :
    OnlyRaises Refused (validateResponse log decimals questions data) := by
  unfold validateResponse
  have named : OnlyRaises Refused (namedModel (data.field "model")) := by
    refine (namedModel_raises _).mono ?_
    rintro e ⟨message, rfl⟩
    exact refuse_refused message
  refine named.bind fun model _ => ?_
  refine (require_raises (refuse_refused _)).bind fun _ _ => ?_
  refine (validateReplies_raises log _ _ _).bind fun _ _ => ?_
  refine (validateUsage_raises _).bind fun _ _ => ?_
  exact .ok _

/-- `send` returns an answer or a bad response. -/
def SendSettles (questions : FlowData.Fields) (body : Value) : Prop := ∃ reply, send log decimals questions body = .ok reply

theorem send_settles_iff (questions : FlowData.Fields) (body : Value) :
    SendSettles log decimals questions body ↔ ¬(uniqueKeys body = true ∧ ResponseHuge log decimals questions body) := by
  have reached : (uniqueKeys body = true ∧ ResponseHuge log decimals questions body) ↔
      (loads body >>= validateResponse log decimals questions) = .error Flt.intTooLarge := by
    rw [bind_error_iff, or_iff_right (loads_error body)]
    constructor
    · rintro ⟨unique, huge⟩
      exact ⟨body, loads_ok.mpr ⟨unique, rfl⟩, (validateResponse_error log decimals questions body).mpr huge⟩
    · rintro ⟨data, loaded, raised⟩
      obtain ⟨unique, rfl⟩ := loads_ok.mp loaded
      exact ⟨unique, (validateResponse_error log decimals questions body).mp raised⟩
  have raises : OnlyRaises Refused (loads body >>= validateResponse log decimals questions) := by
    have loaded : OnlyRaises Refused (loads body) := by
      unfold DecisionAnswers.loads
      split
      · exact .ok _
      · exact .error (.inr rfl)
    exact loaded.bind fun data _ => validateResponse_raises log decimals questions data
  rw [reached]
  unfold SendSettles send
  cases sent : loads body >>= validateResponse log decimals questions with
  | ok decision => exact iff_of_true ⟨_, rfl⟩ (by simp)
  | error e =>
    dsimp only
    rcases raises e sent with rfl | bad
    · refine iff_of_false ?_ (by simp)
      rintro ⟨reply, same⟩
      cases same
    · rw [if_pos bad]
      refine iff_of_true ⟨_, rfl⟩ fun same => ?_
      cases same
      cases bad

end Response

section Settles

variable (log : ℚ → ℚ) (decimals : String → Option Nat)

/-- A body is an ordinary answer or an ordinary refusal, to `_parse` and to `send`. -/
def Settles (call : Attempt) (questions : FlowData.Fields) (body : Value) : Prop :=
  ParseSettles log decimals call body ∧ SendSettles log decimals questions body

theorem answers_fall_back_iff (call : Attempt) (questions : FlowData.Fields) (body : Value) :
    Settles log decimals call questions body ↔
      ¬ParseHuge call.choices body ∧ ¬(uniqueKeys body = true ∧ ResponseHuge log decimals questions body) := by
  unfold Settles
  rw [parse_settles_iff, send_settles_iff]

/-- A cost that is the least integer past the doubles. -/
def costly : Value :=
  .obj [("model", .str "jev-1.13"),
    ("answers", .obj [("selection", .obj [("type", .str "choice"), ("choice", .str "general")])]),
    ("usage", .obj [("cost", .int Flt.tooLarge)])]

theorem costly_escapes : ¬∀ log decimals call questions body, Settles log decimals call questions body := by
  intro settles
  obtain ⟨parsed, -⟩ := settles (fun _ => 0) (fun _ => some 2) ⟨"openrouter", ["general"], 0, 1, false⟩ [] costly
  have cost : (usageOf costly).field "cost" = .int Flt.tooLarge := rfl
  have huge : Huge ((usageOf costly).field "cost") := by
    rw [cost, Huge, Int.natAbs_natCast]
  exact (parse_settles_iff _ _ _ _).mp parsed ⟨by decide, by decide, by decide, .inl huge⟩

end Settles

end Unhardcoded.Guarantees.DecisionAnswers
