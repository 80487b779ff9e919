import Unhardcoded.Python.Json

/-!
# Bytes as text

`data.decode("utf-8", "replace")`: a byte that no character can go on with ends the
character before it, and U+FFFD stands for what was read of it.
-/

namespace Unhardcoded.Python

/-- A character of which some bytes are still to come, the next one within bounds. -/
structure Pending where
  owed : Nat
  low : Nat
  high : Nat
  value : Nat
  deriving DecidableEq, Repr

def replacement : Char := Char.ofNat 0xFFFD

/-- The first byte of a character. -/
def lead (b : Nat) : List Char × Option Pending :=
  if b < 0x80 then ([Char.ofNat b], none)
  else if 0xC2 ≤ b ∧ b ≤ 0xDF then ([], some ⟨1, 0x80, 0xBF, b - 0xC0⟩)
  else if b = 0xE0 then ([], some ⟨2, 0xA0, 0xBF, 0⟩)
  else if b = 0xED then ([], some ⟨2, 0x80, 0x9F, 0xD⟩)
  else if 0xE1 ≤ b ∧ b ≤ 0xEF then ([], some ⟨2, 0x80, 0xBF, b - 0xE0⟩)
  else if b = 0xF0 then ([], some ⟨3, 0x90, 0xBF, 0⟩)
  else if 0xF1 ≤ b ∧ b ≤ 0xF3 then ([], some ⟨3, 0x80, 0xBF, b - 0xF0⟩)
  else if b = 0xF4 then ([], some ⟨3, 0x80, 0x8F, 4⟩)
  else ([replacement], none)

/-- A byte behind what is pending. -/
def decodeByte (pending : Option Pending) (b : Nat) : List Char × Option Pending :=
  match pending with
  | none => lead b
  | some p =>
    if p.low ≤ b ∧ b ≤ p.high then
      let value := p.value * 64 + (b - 0x80)
      if p.owed = 1 then ([Char.ofNat value], none) else ([], some ⟨p.owed - 1, 0x80, 0xBF, value⟩)
    else (replacement :: (lead b).1, (lead b).2)

def decodeFrom : Option Pending → List UInt8 → List Char
  | none, [] => []
  | some _, [] => [replacement]
  | pending, b :: bytes => (decodeByte pending b.toNat).1 ++ decodeFrom (decodeByte pending b.toNat).2 bytes

/-- `data.decode("utf-8", "replace")`. -/
def decode (data : List UInt8) : String := String.ofList (decodeFrom none data)

/-- `text.encode()` of ASCII characters. -/
def ascii (chars : List Char) : List UInt8 := chars.map fun c => UInt8.ofNat c.toNat

example : decode [0x61, 0xC3, 0xA9, 0xE2, 0x82, 0x62, 0xFF] = "a\u00E9\uFFFDb\uFFFD" := by decide +kernel

section Ascii

/-- ASCII bytes are their characters. -/
theorem decode_ascii {chars : List Char} (plain : ∀ c ∈ chars, c.toNat < 0x80) : decode (ascii chars) = String.ofList chars := by
  unfold decode
  congr 1
  induction chars with
  | nil => rfl
  | cons c chars ih =>
    have small : c.toNat < 0x80 := plain c List.mem_cons_self
    have byte : (UInt8.ofNat c.toNat).toNat = c.toNat := by
      rw [UInt8.toNat_ofNat']
      omega
    have first : decodeByte none (UInt8.ofNat c.toNat).toNat = ([c], none) := by
      rw [byte]
      unfold decodeByte lead
      dsimp only
      rw [if_pos small, Char.ofNat_toNat]
    rw [ascii, List.map_cons, decodeFrom, first, ← ascii, ih fun d mem => plain d (List.mem_cons_of_mem _ mem)]
    rfl

theorem ascii_append (first second : List Char) : ascii (first ++ second) = ascii first ++ ascii second := List.map_append

end Ascii

section Feeds

/-- No character goes on with a byte of ASCII. -/
def Pending.Late (p : Pending) : Prop := 0x80 ≤ p.low

theorem lead_late {b : Nat} {p : Pending} (h : (lead b).2 = some p) : p.Late := by
  unfold lead at h
  unfold Pending.Late
  split_ifs at h
  all_goals cases h
  all_goals simp

theorem decodeByte_late {pending : Option Pending} {b : Nat} {p : Pending} (h : (decodeByte pending b).2 = some p) : p.Late := by
  unfold decodeByte at h
  split at h
  · exact lead_late h
  · split at h
    · dsimp only at h
      split at h
      · cases h
      · cases h
        exact Nat.le_refl _
    · exact lead_late h

/-- Behind a line feed the text is that of the bytes there. -/
theorem decodeFrom_feed {pending : Option Pending} (late : ∀ p ∈ pending, p.Late) (before : List UInt8) :
    ∃ chars, ∀ rest, decodeFrom pending (before ++ 10 :: rest) = chars ++ '\n' :: decodeFrom none rest := by
  induction before generalizing pending with
  | nil =>
    cases pending with
    | none => exact ⟨[], fun rest => rfl⟩
    | some p =>
      have outside : ¬ (p.low ≤ (10 : UInt8).toNat ∧ (10 : UInt8).toNat ≤ p.high) := by
        have first : 0x80 ≤ p.low := late p rfl
        have feed : (10 : UInt8).toNat = 10 := rfl
        omega
      refine ⟨[replacement], fun rest => ?_⟩
      rw [List.nil_append, decodeFrom, decodeByte, if_neg outside]
      rfl
  | cons b before ih =>
    obtain ⟨chars, split⟩ := ih fun p mem => @decodeByte_late pending b.toNat p mem
    refine ⟨(decodeByte pending b.toNat).1 ++ chars, fun rest => ?_⟩
    rw [List.cons_append, decodeFrom, split, List.append_assoc]

end Feeds

end Unhardcoded.Python
