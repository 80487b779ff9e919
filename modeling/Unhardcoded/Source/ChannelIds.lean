import Mathlib.Data.Finset.Dedup
import Unhardcoded.Python.Json
import Unhardcoded.Source.WalletKeeper

/-!
# Payment-channel ids between the keeper and the sidecar

Source: antseed/ids.js, and the id list of `_maybe_reclaim` in wallet_keeper.py
(`channelIds`, the cap and the emptiness check). A JavaScript `Set` is a finite set;
the order in which it was filled is left out, the echo being compared as a set.
-/

namespace Unhardcoded.Source

open Python (Json)

def maxIds : Nat := 32

/-- One character behind the first: `[A-Za-z0-9_.:-]`. -/
def idFollows (c : Char) : Bool := c.isAlphanum || c ∈ ['_', '.', ':', '-']

/-- `validChannelId` on a string: without the `m` flag `$` is the end of the text. -/
def validChannelId (s : String) : Bool :=
  match s.toList with
  | [] => false
  | first :: rest => first.isAlphanum && decide (rest.length ≤ 127) && rest.all idFollows

/-- What `encodeIds` answers. -/
inductive Encoded where
  | refused (error : String)
  /-- `ids` and `value` are null: every eligible channel. -/
  | unselected
  | selected (ids : List String) (value : String)
  deriving DecidableEq, Repr

/-- The loop of `encodeIds`, with the ids pushed so far; `none` is a malformed id. -/
def collectIds : List Json → List String → Option (List String)
  | [], ids => some ids
  | .str id :: rest, ids =>
    if validChannelId id then collectIds rest (if id ∈ ids then ids else ids ++ [id]) else none
  | _ :: _, _ => none

/-- `ids.join(",")`. -/
def joinIds (ids : List String) : String :=
  String.ofList ([','].intercalate (ids.map String.toList))

/-- `encodeIds`; `none` is `undefined`. -/
def encodeIds (raw : Option Json) : Encoded :=
  match raw with
  | none | some .null => .unselected
  | some (.arr items) =>
    if items = [] then .refused "ids must not be empty (omit it to act on every eligible channel)"
    else if maxIds < items.length then .refused "at most 32 channel ids per call"
    else match collectIds items [] with
    | none => .refused "malformed channel id"
    | some ids => .selected ids (joinIds ids)
  | some _ => .refused "ids must be an array of channel ids"

/-- `argv.split(",")`. -/
def splitIds (argv : String) : List String := (argv.toList.splitOn ',').map String.ofList

/-- `parseIds`; `none` in is an absent argument, `none` out is no selection. -/
def parseIds (argv : Option String) : Option (Finset String) :=
  match argv with
  | none => none
  | some text =>
    if text = "" then none
    else some ((((splitIds text).filter (· ≠ "")).filter validChannelId).toFinset)

/-- The lists the keeper may send: the first ids of a batch it could name in full. -/
def KeeperMaySend (ids : List String) : Prop :=
  ∃ batch : List Channel, batch ≠ [] ∧ (channelIds batch).length = batch.length ∧
    ids = (channelIds batch).take maxTxPerCycle

end Unhardcoded.Source
