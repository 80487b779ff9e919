import Mathlib.Data.Nat.Notation
import Mathlib.Data.List.Basic
import Mathlib.Data.String.Basic

/-!
# URL-safe Base64

`base64.urlsafe_b64encode` and `base64.urlsafe_b64decode`. The decoder is lenient, as
`binascii.a2b_base64` is without `strict_mode`: characters outside the alphabet are skipped,
and the first padding that completes a quantum ends the data.
-/

namespace Unhardcoded.Python.Base64

def alphabet : List Char := "ABCDEFGHIJKLMNOPQRSTUVWXYZabcdefghijklmnopqrstuvwxyz0123456789-_".toList

def digit (n : Nat) : Char := alphabet.getD n 'A'

/-- The characters of some bytes, without the padding. -/
def core : List UInt8 → List Char
  | [] => []
  | [a] => [digit (a.toNat / 4), digit (a.toNat % 4 * 16)]
  | [a, b] => [digit (a.toNat / 4), digit (a.toNat % 4 * 16 + b.toNat / 16), digit (b.toNat % 16 * 4)]
  | a :: b :: c :: rest =>
    digit (a.toNat / 4) :: digit (a.toNat % 4 * 16 + b.toNat / 16) :: digit (b.toNat % 16 * 4 + c.toNat / 64) ::
      digit (c.toNat % 64) :: core rest

/-- `urlsafe_b64encode(data)`. -/
def encode (data : List UInt8) : List Char := core data ++ List.replicate ((3 - data.length % 3) % 3) '='

/-- The six bits of a character; the decoder takes the standard alphabet too. -/
def value (c : Char) : Option Nat :=
  if c = '+' then some 62 else if c = '/' then some 63
  else if alphabet.contains c then some (alphabet.idxOf c) else none

/-- `a2b_base64` from a place in a quantum, with the bits left over and the paddings seen there. -/
def scan : Nat → Nat → Nat → List Char → Option (List UInt8)
  | place, _, _, [] => if place = 0 then some [] else none
  | place, left, pads, c :: cs =>
    if c = '=' then
      if 2 ≤ place then
        if 4 ≤ place + (pads + 1) then some [] else scan place left (pads + 1) cs
      else scan place left pads cs
    else match value c with
      | none => scan place left pads cs
      | some v => match place with
        | 0 => scan 1 v 0 cs
        | 1 => (scan 2 (v % 16) 0 cs).map (UInt8.ofNat (left * 4 + v / 16) :: ·)
        | 2 => (scan 3 (v % 4) 0 cs).map (UInt8.ofNat (left * 16 + v / 4) :: ·)
        | _ => (scan 0 0 0 cs).map (UInt8.ofNat (left * 64 + v) :: ·)

/-- `urlsafe_b64decode(text)`; `none` where it raises. -/
def decode (text : List Char) : Option (List UInt8) :=
  if text.all fun c => c.toNat < 128 then scan 0 0 0 text else none

example : encode [77, 97] = ['T', 'W', 'E', '='] := by decide

theorem digit_spec : ∀ n < 64, value (digit n) = some n ∧ digit n ≠ '=' ∧ digit n ∈ alphabet := by decide +kernel

theorem alphabet_ascii {c : Char} (mem : c ∈ alphabet) : c.toNat < 128 := by
  have all : alphabet.all (fun c => c.toNat < 128) = true := by decide +kernel
  exact of_decide_eq_true (List.all_eq_true.mp all c mem)

theorem mem_core {data : List UInt8} : ∀ c ∈ core data, c ∈ alphabet := by
  fun_induction core data with
  | case1 => intro c mem; cases mem
  | case2 a =>
    have := a.toNat_lt
    intro c mem
    simp only [List.mem_cons, List.not_mem_nil, or_false] at mem
    rcases mem with rfl | rfl <;> exact (digit_spec _ (by omega)).2.2
  | case3 a b =>
    have := a.toNat_lt
    have := b.toNat_lt
    intro c mem
    simp only [List.mem_cons, List.not_mem_nil, or_false] at mem
    rcases mem with rfl | rfl | rfl <;> exact (digit_spec _ (by omega)).2.2
  | case4 a b d rest ih =>
    have := a.toNat_lt
    have := b.toNat_lt
    have := d.toNat_lt
    intro c mem
    simp only [List.mem_cons] at mem
    rcases mem with rfl | rfl | rfl | rfl | later
    · exact (digit_spec _ (by omega)).2.2
    · exact (digit_spec _ (by omega)).2.2
    · exact (digit_spec _ (by omega)).2.2
    · exact (digit_spec _ (by omega)).2.2
    · exact ih c later

section Scan

variable {n left pads : Nat} {cs : List Char}

theorem scan_zero (small : n < 64) : scan 0 left pads (digit n :: cs) = scan 1 n 0 cs := by
  obtain ⟨bits, plain, -⟩ := digit_spec n small
  rw [scan, if_neg plain, bits]
  rfl

theorem scan_one (small : n < 64) :
    scan 1 left pads (digit n :: cs) = (scan 2 (n % 16) 0 cs).map (UInt8.ofNat (left * 4 + n / 16) :: ·) := by
  obtain ⟨bits, plain, -⟩ := digit_spec n small
  rw [scan, if_neg plain, bits]
  rfl

theorem scan_two (small : n < 64) :
    scan 2 left pads (digit n :: cs) = (scan 3 (n % 4) 0 cs).map (UInt8.ofNat (left * 16 + n / 4) :: ·) := by
  obtain ⟨bits, plain, -⟩ := digit_spec n small
  rw [scan, if_neg plain, bits]
  rfl

theorem scan_three (small : n < 64) :
    scan 3 left pads (digit n :: cs) = (scan 0 0 0 cs).map (UInt8.ofNat (left * 64 + n) :: ·) := by
  obtain ⟨bits, plain, -⟩ := digit_spec n small
  rw [scan, if_neg plain, bits]
  rfl

/-- The first byte of a quantum is in its first two characters, the second in the next. -/
theorem scan_first (a : UInt8) (high : Nat) (small : high < 16) :
    scan 0 left pads (digit (a.toNat / 4) :: digit (a.toNat % 4 * 16 + high) :: cs) = (scan 2 high 0 cs).map (a :: ·) := by
  have := a.toNat_lt
  have low : (a.toNat % 4 * 16 + high) % 16 = high := by omega
  have whole : a.toNat / 4 * 4 + (a.toNat % 4 * 16 + high) / 16 = a.toNat := by omega
  rw [scan_zero (by omega), scan_one (by omega), low, whole, UInt8.ofNat_toNat]

theorem scan_second (b : UInt8) (high : Nat) (small : high < 4) :
    scan 2 (b.toNat / 16) 0 (digit (b.toNat % 16 * 4 + high) :: cs) = (scan 3 high 0 cs).map (b :: ·) := by
  have := b.toNat_lt
  have low : (b.toNat % 16 * 4 + high) % 4 = high := by omega
  have whole : b.toNat / 16 * 16 + (b.toNat % 16 * 4 + high) / 4 = b.toNat := by omega
  rw [scan_two (by omega), low, whole, UInt8.ofNat_toNat]

theorem scan_third (c : UInt8) : scan 3 (c.toNat / 64) 0 (digit (c.toNat % 64) :: cs) = (scan 0 0 0 cs).map (c :: ·) := by
  have := c.toNat_lt
  have whole : c.toNat / 64 * 64 + c.toNat % 64 = c.toNat := by omega
  rw [scan_three (by omega), whole, UInt8.ofNat_toNat]

end Scan

theorem scan_encode (data : List UInt8) : scan 0 0 0 (encode data) = some data := by
  unfold encode
  fun_induction core data with
  | case1 => rfl
  | case2 a =>
    exact @scan_first 0 0 ['=', '='] a 0 (by omega)
  | case3 a b =>
    have := b.toNat_lt
    have first := @scan_first 0 0 (digit (b.toNat % 16 * 4) :: ['=']) a (b.toNat / 16) (by omega)
    have second := @scan_second ['='] b 0 (by omega)
    rw [Nat.add_zero] at second
    exact first.trans (by rw [second]; rfl)
  | case4 a b c rest ih =>
    have := b.toNat_lt
    have := c.toNat_lt
    have length : (a :: b :: c :: rest).length % 3 = rest.length % 3 := by
      rw [List.length_cons, List.length_cons, List.length_cons]
      omega
    rw [length, List.cons_append, List.cons_append, List.cons_append, List.cons_append, scan_first a _ (by omega),
      scan_second b _ (by omega), scan_third c, ih]
    rfl

/-- The characters without padding have the length of the padded text but for the padding. -/
theorem length_core (data : List UInt8) : (core data).length % 4 = (if data.length % 3 = 0 then 0 else data.length % 3 + 1) := by
  fun_induction core data with
  | case1 => rfl
  | case2 a => rfl
  | case3 a b => rfl
  | case4 a b c rest ih =>
    simp only [List.length_cons]
    have three : (rest.length + 1 + 1 + 1) % 3 = rest.length % 3 := by omega
    rw [three, ← ih]
    omega

/-- `base64.urlsafe_b64encode(raw).decode().rstrip("=")`. -/
def unpadded (data : List UInt8) : List Char := ((encode data).reverse.dropWhile (· = '=')).reverse

/-- `base64.urlsafe_b64decode(raw + "=" * (-len(raw) % 4))`. -/
def decodeUnpadded (text : List Char) : Option (List UInt8) :=
  decode (text ++ List.replicate ((4 - text.length % 4) % 4) '=')

theorem unpadded_eq_core (data : List UInt8) : unpadded data = core data := by
  have plain : ∀ c ∈ core data, c ≠ '=' := by
    intro c mem same
    exact absurd (same ▸ mem_core c mem) (by decide)
  rw [unpadded, encode, List.reverse_append, List.reverse_replicate,
    List.dropWhile_append_of_pos (by simp)]
  have kept : (core data).reverse.dropWhile (· = '=') = (core data).reverse := by
    cases reversed : (core data).reverse with
    | nil => rfl
    | cons c cs =>
      have mem : c ∈ core data := by
        rw [← List.mem_reverse, reversed]
        exact List.mem_cons_self
      rw [List.dropWhile_cons, if_neg (by simpa using plain c mem)]
  rw [kept, List.reverse_reverse]

/-- Decoding what was encoded, with the padding cut off and put back. -/
theorem decode_unpadded (data : List UInt8) : decodeUnpadded (unpadded data) = some data := by
  have lengths := length_core data
  have padding : (4 - (core data).length % 4) % 4 = (3 - data.length % 3) % 3 := by
    rw [lengths]
    split <;> omega
  have whole : unpadded data ++ List.replicate ((4 - (unpadded data).length % 4) % 4) '=' = encode data := by
    rw [unpadded_eq_core, padding, encode]
  have plain : (encode data).all (fun c => c.toNat < 128) = true := by
    rw [List.all_eq_true]
    intro c mem
    rcases List.mem_append.mp mem with inCore | pad
    · exact decide_eq_true (alphabet_ascii (mem_core c inCore))
    · rw [List.eq_of_mem_replicate pad]
      rfl
  rw [decodeUnpadded, whole, decode, if_pos plain, scan_encode]

end Unhardcoded.Python.Base64
