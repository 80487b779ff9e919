import Mathlib.Algebra.Order.Ring.Rat
import Unhardcoded.Effects.Machine

/-!
# The rate-limit bucket

Source: `consume_rate_token` of host_store.py, and the `consumer_rate_buckets`
table. Tokens and stamps are exact rationals. The row is locked from the insert
to the commit, so a call is one step; a transaction that fails changes nothing,
admits nothing and is no step. Calls may carry any stamp.
-/

namespace Unhardcoded.Source

open Effects

namespace RateBucket

structure Bucket where
  tokens : ℚ
  updatedAt : ℚ
  deriving DecidableEq

/-- What `consume_rate_token` returns. -/
structure Answer where
  allowed : Bool
  storeOk : Bool
  retryAfterS : ℚ
  deriving DecidableEq

structure RateCall where
  consumer : String
  ratePerMin : Int
  burst : Int
  stamp : ℚ
  deriving DecidableEq

/-- `rate / 60.0`. -/
def RateCall.refillPerS (call : RateCall) : ℚ := max 1 call.ratePerMin / 60

def RateCall.capacity (call : RateCall) : ℚ := max 1 call.burst

/-- The refilled row, before this call takes its token. -/
def RateCall.refill (call : RateCall) (row : Bucket) : ℚ :=
  min call.capacity (row.tokens + max 0 (call.stamp - row.updatedAt) * call.refillPerS)

/-- `consume_rate_token` on the row of its consumer, which a first call inserts full. -/
def consumeRateToken (row : Option Bucket) (call : RateCall) : Answer × Bucket :=
  let tokens := call.refill (row.getD ⟨call.capacity, call.stamp⟩)
  if 1 ≤ tokens then (⟨true, true, 0⟩, ⟨tokens - 1, call.stamp⟩)
  else (⟨false, true, max (1 / 100) ((1 - tokens) / call.refillPerS)⟩, ⟨tokens, call.stamp⟩)

/-- The table, and the history of the calls that were allowed. -/
structure RateState where
  buckets : String → Option Bucket
  allowed : List RateCall

def RateState.empty : RateState := ⟨fun _ => none, []⟩

def RateState.step (s : RateState) (call : RateCall) : Option RateState :=
  let result := consumeRateToken (s.buckets call.consumer) call
  some ⟨fun consumer => if consumer = call.consumer then some result.2 else s.buckets consumer,
    if result.1.allowed then s.allowed ++ [call] else s.allowed⟩

/-- Calls from any number of replicas, in the order their transactions commit. -/
abbrev runBuckets (calls : List RateCall) : Option RateState := Machine.run RateState.step .empty calls

end RateBucket

end Unhardcoded.Source
