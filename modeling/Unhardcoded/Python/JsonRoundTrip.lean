import Mathlib.Data.List.Induction
import Mathlib.Data.List.TakeWhile
import Unhardcoded.Python.Dict
import Unhardcoded.Python.JsonSize
import Unhardcoded.Python.JsonText

/-!
# What is dumped is loaded

The scanner reads a value from the text that `json.dumps` writes for it, whatever comes
behind (`scanValue_dumps`), so `json.loads` undoes `json.dumps` (`loads_dumps`). The text
is printable ASCII (`dumps_printable`), so it stays on one line.
-/

namespace Unhardcoded.Python

section Strings

theorem hexVal_hexDigit {n : Nat} (h : n < 16) : hexVal (hexDigit n) = some n := by
  have each : ∀ d < 16, hexVal (hexDigit d) = some d := by decide +kernel
  exact each n h

/-- Four digits read back the number they write. -/
theorem hexFour_unicodeEscape {n : Nat} (h : n < 0x10000) (rest : List Char) :
    hexFour ([hexDigit (n / 4096 % 16), hexDigit (n / 256 % 16), hexDigit (n / 16 % 16), hexDigit (n % 16)] ++ rest) =
      some (n, rest) := by
  have value : ((n / 4096 % 16 * 16 + n / 256 % 16) * 16 + n / 16 % 16) * 16 + n % 16 = n := by omega
  simp only [List.cons_append, List.nil_append, hexFour, hexVal_hexDigit (Nat.mod_lt _ (show 16 > 0 by decide)),
    Option.bind_eq_bind, Option.bind_some, Option.pure_def, value]

theorem unicodeEscape_cons (n : Nat) (rest : List Char) :
    (unicodeEscape n).toList ++ rest = '\\' :: ((unicodeEscape n).toList.tail ++ rest) := by
  unfold unicodeEscape
  rw [String.toList_ofList]
  rfl

theorem readEscape_unicode {n : Nat} (h : n < 0x10000) (rest : List Char) :
    readEscape ((unicodeEscape n).toList.tail ++ rest) =
      if 0xD800 ≤ n ∧ n < 0xDC00 then lowSurrogate n rest
      else if 0xDC00 ≤ n ∧ n < 0xE000 then none
      else some (Char.ofNat n, rest) := by
  have text : (unicodeEscape n).toList.tail ++ rest =
      'u' :: ([hexDigit (n / 4096 % 16), hexDigit (n / 256 % 16), hexDigit (n / 16 % 16), hexDigit (n % 16)] ++ rest) := by
    unfold unicodeEscape
    rw [String.toList_ofList]
    rfl
  rw [text, readEscape, if_pos rfl, hexFour_unicodeEscape h]
  rfl

theorem lowSurrogate_unicode {high low : Nat} (h : 0xDC00 ≤ low ∧ low < 0xE000) (rest : List Char) :
    lowSurrogate high ((unicodeEscape low).toList ++ rest) =
      some (Char.ofNat (0x10000 + (high - 0xD800) * 0x400 + (low - 0xDC00)), rest) := by
  have text : (unicodeEscape low).toList ++ rest =
      '\\' :: 'u' :: ([hexDigit (low / 4096 % 16), hexDigit (low / 256 % 16), hexDigit (low / 16 % 16),
        hexDigit (low % 16)] ++ rest) := by
    unfold unicodeEscape
    rw [String.toList_ofList]
    rfl
  rw [text, lowSurrogate, if_pos ⟨rfl, rfl⟩, hexFour_unicodeEscape (by omega)]
  exact if_pos h

theorem scanString_backslash {cs rest : List Char} {c : Char} (h : readEscape cs = some (c, rest)) (fuel : Nat) :
    scanString (fuel + 1) ('\\' :: cs) = (scanString fuel rest).map fun p => (c :: p.1, p.2) := by
  rw [scanString, if_neg (by decide), if_pos rfl, h, Option.bind_eq_bind, Option.bind_some]
  dsimp only
  cases scanString fuel rest <;> rfl

/-- The scanner reads a character back from what stands for it. -/
theorem scanString_escapeChar (c : Char) (fuel : Nat) (rest : List Char) :
    scanString (fuel + 1) ((escapeChar c).toList ++ rest) = (scanString fuel rest).map fun p => (c :: p.1, p.2) := by
  have back : Char.ofNat c.toNat = c := Char.ofNat_toNat c
  have simple (e : Char) (text : (escapeChar c).toList = ['\\', e]) (other : e ≠ 'u') (read : simpleEscape e = some c) :
      scanString (fuel + 1) ((escapeChar c).toList ++ rest) = (scanString fuel rest).map fun p => (c :: p.1, p.2) := by
    rw [text]
    have next : readEscape (e :: rest) = some (c, rest) := by
      rw [readEscape, if_neg other, read]
      rfl
    exact scanString_backslash next fuel
  unfold escapeChar at simple ⊢
  dsimp only at simple ⊢
  split
  case isTrue quote =>
    rw [if_pos quote] at simple
    exact simple '"' rfl (by decide) (by rw [quote]; rfl)
  rename_i noQuote
  split
  case isTrue backslash =>
    rw [if_neg noQuote, if_pos backslash] at simple
    exact simple '\\' rfl (by decide) (by rw [backslash]; rfl)
  rename_i noBackslash
  rw [if_neg noQuote, if_neg noBackslash] at simple
  split
  case isTrue here =>
    rw [if_pos here] at simple
    exact simple 'b' rfl (by decide) (back ▸ here ▸ rfl)
  rename_i no8
  rw [if_neg no8] at simple
  split
  case isTrue here =>
    rw [if_pos here] at simple
    exact simple 't' rfl (by decide) (back ▸ here ▸ rfl)
  rename_i no9
  rw [if_neg no9] at simple
  split
  case isTrue here =>
    rw [if_pos here] at simple
    exact simple 'n' rfl (by decide) (back ▸ here ▸ rfl)
  rename_i no10
  rw [if_neg no10] at simple
  split
  case isTrue here =>
    rw [if_pos here] at simple
    exact simple 'f' rfl (by decide) (back ▸ here ▸ rfl)
  rename_i no12
  rw [if_neg no12] at simple
  split
  case isTrue here =>
    rw [if_pos here] at simple
    exact simple 'r' rfl (by decide) (back ▸ here ▸ rfl)
  clear simple
  split
  case isTrue printable =>
    rw [String.toList_singleton, List.singleton_append, scanString, if_neg noQuote, if_neg noBackslash, if_neg (by omega)]
    cases scanString fuel rest <;> rfl
  rename_i special
  have valid : c.toNat < 0xD800 ∨ 0xDFFF < c.toNat ∧ c.toNat < 0x110000 := c.valid
  split
  case isTrue small =>
    have next := readEscape_unicode small rest
    rw [if_neg (by omega), if_neg (by omega), back] at next
    rw [unicodeEscape_cons]
    exact scanString_backslash next fuel
  rename_i large
  have low : 0xDC00 ≤ 0xDC00 + (c.toNat - 0x10000) % 0x400 ∧ 0xDC00 + (c.toNat - 0x10000) % 0x400 < 0xE000 := by omega
  have next := @readEscape_unicode (0xD800 + (c.toNat - 0x10000) / 0x400) (by omega)
    ((unicodeEscape (0xDC00 + (c.toNat - 0x10000) % 0x400)).toList ++ rest)
  have value : 0x10000 + (0xD800 + (c.toNat - 0x10000) / 0x400 - 0xD800) * 0x400 +
      (0xDC00 + (c.toNat - 0x10000) % 0x400 - 0xDC00) = c.toNat := by omega
  rw [if_pos (by omega), lowSurrogate_unicode low, value, back] at next
  rw [String.toList_append, List.append_assoc, unicodeEscape_cons]
  exact scanString_backslash next fuel

/-- A text between its quotes. -/
theorem toList_quote (text : String) :
    (quote text).toList = '"' :: (text.toList.flatMap (fun c => (escapeChar c).toList) ++ ['"']) := by
  unfold quote
  rw [String.toList_append, String.toList_append, toList_join, List.flatMap_map]
  rfl

theorem scanString_body (chars rest : List Char) {fuel : Nat} (enough : chars.length < fuel) :
    scanString fuel (chars.flatMap (fun c => (escapeChar c).toList) ++ '"' :: rest) = some (chars, rest) := by
  induction chars generalizing fuel with
  | nil =>
    obtain ⟨fuel, rfl⟩ : ∃ n, fuel = n + 1 := ⟨fuel - 1, by simp at enough; omega⟩
    rw [List.flatMap_nil, List.nil_append, scanString, if_pos rfl]
  | cons c chars ih =>
    rw [List.length_cons] at enough
    obtain ⟨fuel, rfl⟩ : ∃ n, fuel = n + 1 := ⟨fuel - 1, by omega⟩
    rw [List.flatMap_cons, List.append_assoc, scanString_escapeChar, ih (by omega)]
    rfl

theorem length_le_body (chars : List Char) : chars.length ≤ (chars.flatMap fun c => (escapeChar c).toList).length := by
  induction chars with
  | nil => exact Nat.le_refl _
  | cons c chars ih =>
    have : (escapeChar c).toList ≠ [] := mt String.toList_eq_nil_iff.mp (escapeChar_ne_empty c)
    have := List.length_pos_iff.mpr this
    rw [List.flatMap_cons, List.length_append, List.length_cons]
    omega

end Strings

section Numbers

/-- No character that goes on with a number. -/
def Stops (rest : List Char) : Prop := ∀ c ∈ rest.head?, isNumberChar c = false

theorem stops_nil : Stops [] := fun c mem => by cases mem

theorem stops_cons {c : Char} {rest : List Char} (h : isNumberChar c = false) : Stops (c :: rest) := by
  intro d mem
  obtain rfl := Option.some.inj mem
  exact h

theorem span_number {text rest : List Char} (all : text.all isNumberChar = true) (stops : Stops rest) :
    (text ++ rest).takeWhile isNumberChar = text ∧ (text ++ rest).dropWhile isNumberChar = rest := by
  have each : ∀ c ∈ text, isNumberChar c = true := List.all_eq_true.mp all
  rw [List.takeWhile_append_of_pos each, List.dropWhile_append_of_pos each]
  cases rest with
  | nil => simp
  | cons c rest =>
    have : isNumberChar c = false := stops c rfl
    simp [this]

theorem isNumberChar_of_isDigit {c : Char} (h : c.isDigit = true) : isNumberChar c = true := by
  unfold isNumberChar
  rw [h]
  rfl

/-- A number above zero has no leading zero. -/
theorem head_toDigits {n : Nat} (h : 0 < n) : (Nat.toDigits 10 n).head? ≠ some '0' := by
  induction n using Nat.strongRecOn with
  | ind n ih =>
    by_cases small : n < 10
    · rw [Nat.toDigits_of_lt_base small]
      have each : ∀ d < 10, 0 < d → [Nat.digitChar d].head? ≠ some '0' := by decide
      exact each n small h
    · rw [Nat.toDigits_of_base_le (by decide) (by omega), List.head?_append_of_ne_nil _ Nat.toDigits_ne_nil]
      exact ih (n / 10) (by omega) (by omega)

theorem all_isDigit_toDigits (n : Nat) : (Nat.toDigits 10 n).all Char.isDigit = true :=
  List.all_eq_true.mpr fun _ mem => Nat.isDigit_of_mem_toDigits (by decide) (by decide) mem

theorem isNatural_toDigits (n : Nat) : isNatural (Nat.toDigits 10 n) = true := by
  unfold isNatural
  split
  · rename_i cs text
    by_cases zero : n = 0
    · subst zero
      cases text
      rfl
    · exact absurd (text ▸ rfl) (head_toDigits (Nat.pos_of_ne_zero zero))
  · unfold digits
    rw [all_isDigit_toDigits]
    simp [Nat.toDigits_ne_nil]

/-- The text of an integer, read back. -/
theorem scanInteger (n : Int) : (toString n).toList.all isNumberChar = true ∧ isInteger (toString n).toList = true ∧
    intOf (toString n).toList = n := by
  have number (m : Nat) : (Nat.toDigits 10 m).all isNumberChar = true :=
    List.all_eq_true.mpr fun c mem => isNumberChar_of_isDigit (List.all_eq_true.mp (all_isDigit_toDigits m) c mem)
  have unsigned (m : Nat) : ∀ cs, Nat.toDigits 10 m ≠ '-' :: cs := by
    intro cs same
    have := all_isDigit_toDigits m
    rw [same] at this
    exact absurd this (by simp [Char.isDigit])
  cases n with
  | ofNat m =>
    have text : (toString (Int.ofNat m)).toList = Nat.toDigits 10 m := Nat.toList_repr
    rw [text]
    refine ⟨number m, ?_, ?_⟩
    · unfold isInteger dropMinus
      split
      · rename_i same
        exact absurd same (unsigned m _)
      · exact isNatural_toDigits m
    · unfold intOf
      split
      · rename_i same
        exact absurd same (unsigned m _)
      · rw [Nat.ofDigitChars_ten_toDigits]
        rfl
  | negSucc m =>
    have text : (toString (Int.negSucc m)).toList = '-' :: Nat.toDigits 10 (m + 1) := by
      have : toString (Int.negSucc m) = "-" ++ Nat.repr (m + 1) := rfl
      rw [this, String.toList_append, Nat.toList_repr]
      rfl
    rw [text]
    refine ⟨?_, isNatural_toDigits _, ?_⟩
    · rw [List.all_cons, number]
      rfl
    · rw [intOf, Nat.ofDigitChars_ten_toDigits]
      rfl

theorem dropMinus_cases (cs : List Char) : cs = dropMinus cs ∨ cs = '-' :: dropMinus cs := by
  unfold dropMinus
  split
  · exact .inr rfl
  · exact .inl rfl

theorem digits_iff {cs : List Char} : digits cs = true ↔ cs ≠ [] ∧ cs.all Char.isDigit = true := by
  unfold digits
  cases cs <;> simp

theorem isNatural_digits {cs : List Char} (h : isNatural cs = true) : cs ≠ [] ∧ cs.all Char.isDigit = true := by
  unfold isNatural at h
  split at h
  · rw [List.isEmpty_iff.mp h]
    exact ⟨List.cons_ne_nil _ _, rfl⟩
  · exact digits_iff.mp h

theorem all_number_of_digits {cs : List Char} (h : cs.all Char.isDigit = true) : cs.all isNumberChar = true :=
  List.all_eq_true.mpr fun c mem => isNumberChar_of_isDigit (List.all_eq_true.mp h c mem)

theorem isExponent_number {cs : List Char} (h : isExponent cs = true) : cs ≠ [] ∧ cs.all isNumberChar = true := by
  unfold isExponent at h
  split at h
  · rename_i e sign cs
    obtain ⟨mark, h⟩ := Bool.and_eq_true_iff.mp h
    have first : isNumberChar e = true := by
      unfold isNumberChar
      rw [Bool.or_assoc, mark, Bool.or_true]
    refine ⟨List.cons_ne_nil _ _, ?_⟩
    rw [List.all_cons, first, Bool.true_and]
    split at h
    · rename_i signed
      have second : isNumberChar sign = true := by
        rcases Bool.or_eq_true_iff.mp signed with plus | minus
        · rw [of_decide_eq_true plus]
          rfl
        · rw [of_decide_eq_true minus]
          rfl
      rw [List.all_cons, second, all_number_of_digits (digits_iff.mp h).2]
      rfl
    · exact all_number_of_digits (digits_iff.mp h).2
  · cases h

/-- What a float text consists of. -/
theorem isFloatText_number {cs : List Char} (h : isFloatText cs = true) :
    cs.all isNumberChar = true ∧ isInteger cs = false ∧ ∃ c rest, cs = c :: rest ∧ (c = '-' ∨ c.isDigit = true) := by
  unfold isFloatText at h
  obtain ⟨whole, h⟩ := Bool.and_eq_true_iff.mp h
  obtain ⟨nonempty, inDigits⟩ := isNatural_digits whole
  have parts : (dropMinus cs).takeWhile Char.isDigit ++ (dropMinus cs).dropWhile Char.isDigit = dropMinus cs :=
    List.takeWhile_append_dropWhile
  have tail : (dropMinus cs).dropWhile Char.isDigit ≠ [] ∧ ((dropMinus cs).dropWhile Char.isDigit).all isNumberChar = true := by
    split at h
    · rename_i rest behind
      rw [behind]
      obtain ⟨fraction, h⟩ := Bool.and_eq_true_iff.mp h
      refine ⟨List.cons_ne_nil _ _, ?_⟩
      rw [← @List.takeWhile_append_dropWhile _ Char.isDigit rest, List.all_cons, List.all_append,
        all_number_of_digits (digits_iff.mp fraction).2]
      rcases Bool.or_eq_true_iff.mp h with none | exponent
      · rw [List.isEmpty_iff.mp none]
        rfl
      · rw [(isExponent_number exponent).2]
        rfl
    · exact isExponent_number h
  have inside : (dropMinus cs).all isNumberChar = true := by
    rw [← parts, List.all_append, all_number_of_digits inDigits, tail.2]
    rfl
  have fractional : isInteger cs = false := by
    cases integer : isInteger cs with
    | false => rfl
    | true =>
      have all := List.all_eq_true.mp (isNatural_digits integer).2
      exact absurd (List.dropWhile_eq_nil_iff.mpr all) tail.1
  have opened : ∃ c rest, dropMinus cs = c :: rest ∧ c.isDigit = true := by
    cases first : dropMinus cs with
    | nil =>
      rw [first] at nonempty
      exact absurd rfl nonempty
    | cons c rest =>
      refine ⟨c, rest, rfl, ?_⟩
      by_contra other
      rw [first, List.takeWhile_cons_of_neg other] at nonempty
      exact nonempty rfl
  obtain ⟨c, rest, first, digit⟩ := opened
  rcases dropMinus_cases cs with unsigned | signed
  · rw [← unsigned] at inside first
    exact ⟨inside, fractional, c, rest, first, .inr digit⟩
  · refine ⟨?_, fractional, '-', _, signed, .inl rfl⟩
    rw [signed, List.all_cons, inside]
    rfl

end Numbers

section Values

variable (float : String → Json)

mutual

/-- A value of Python: a float has a text that `float` reads back, and the keys of a dictionary differ. -/
def Json.Sound : Json → Prop
  | .float q repr => isFloatText repr.toList = true ∧ float repr = .float q repr
  | .arr items => SoundItems items
  | .obj fields => (fields.map (·.1)).Nodup ∧ SoundFields fields
  | _ => True

def SoundItems : List Json → Prop
  | [] => True
  | item :: items => item.Sound ∧ SoundItems items

def SoundFields : List (String × Json) → Prop
  | [] => True
  | entry :: fields => entry.2.Sound ∧ SoundFields fields

end

theorem soundItems_iff (items : List Json) : SoundItems float items ↔ ∀ item ∈ items, item.Sound float := by
  induction items with
  | nil => simp [SoundItems]
  | cons item items ih => rw [SoundItems, ih, List.forall_mem_cons]

theorem soundFields_iff (fields : List (String × Json)) : SoundFields float fields ↔ ∀ entry ∈ fields, entry.2.Sound float := by
  induction fields with
  | nil => simp [SoundFields]
  | cons entry fields ih => rw [SoundFields, ih, List.forall_mem_cons]

/-- The items of an array, as they are written. -/
def itemsText (items : List Json) : List Char := (String.intercalate ", " (dumpsItems items)).toList

/-- The entries of an object, as they are written. -/
def fieldsText (fields : List (String × Json)) : List Char := (String.intercalate ", " (dumpsFields fields)).toList

/-- The first character of a value: no space, and nothing that ends a list. -/
def Opens (c : Char) : Prop := isJsonSpace c = false ∧ c ≠ ']' ∧ c ≠ '\x7d'

instance (c : Char) : Decidable (Opens c) := inferInstanceAs (Decidable (_ ∧ _))

theorem opens_of_number {c : Char} (h : c = '-' ∨ c.isDigit = true) :
    Opens c ∧ c ≠ '"' ∧ c ≠ '[' ∧ c ≠ '\x7b' ∧ c ≠ 'n' ∧ c ≠ 't' ∧ c ≠ 'f' := by
  have low : c = '-' ∨ 48 ≤ c.toNat ∧ c.toNat ≤ 57 := h.imp_right fun digit => by
    simpa [Char.isDigit, UInt32.le_iff_toNat_le] using digit
  have differs (d : Char) (other : d ≠ '-') (far : d.toNat < 48 ∨ 57 < d.toNat) : c ≠ d := by
    rintro rfl
    rcases low with same | within
    · exact other same
    · omega
  refine ⟨⟨?_, differs _ (by decide) (by decide), differs _ (by decide) (by decide)⟩, differs _ (by decide) (by decide),
    differs _ (by decide) (by decide), differs _ (by decide) (by decide), differs _ (by decide) (by decide),
    differs _ (by decide) (by decide), differs _ (by decide) (by decide)⟩
  unfold isJsonSpace
  simp only [Bool.or_eq_false_iff, decide_eq_false_iff_not]
  exact ⟨⟨⟨differs _ (by decide) (by decide), differs _ (by decide) (by decide)⟩, differs _ (by decide) (by decide)⟩,
    differs _ (by decide) (by decide)⟩

theorem skipSpace_of_opens {c : Char} (h : Opens c) (cs : List Char) : skipSpace (c :: cs) = c :: cs :=
  List.dropWhile_cons_of_neg (by simp [h.1])

theorem integer_opens (n : Int) : ∃ c cs, (toString n).toList = c :: cs ∧ (c = '-' ∨ c.isDigit = true) := by
  cases n with
  | ofNat m =>
    have text : (toString (Int.ofNat m)).toList = Nat.toDigits 10 m := Nat.toList_repr
    rw [text]
    cases shape : Nat.toDigits 10 m with
    | nil => exact absurd shape Nat.toDigits_ne_nil
    | cons c cs =>
      refine ⟨c, cs, rfl, .inr ?_⟩
      exact List.all_eq_true.mp (all_isDigit_toDigits m) c (shape ▸ List.mem_cons_self)
  | negSucc m =>
    have text : (toString (Int.negSucc m)).toList = '-' :: (Nat.repr (m + 1)).toList := by
      have : toString (Int.negSucc m) = "-" ++ Nat.repr (m + 1) := rfl
      rw [this, String.toList_append]
      rfl
    exact ⟨'-', _, text, .inl rfl⟩

theorem toList_dumps_arr (items : List Json) : (Json.arr items).dumps.toList = '[' :: (itemsText items ++ [']']) := by
  rw [Json.dumps, String.toList_append, String.toList_append]
  rfl

theorem toList_dumps_obj (fields : List (String × Json)) :
    (Json.obj fields).dumps.toList = '\x7b' :: (fieldsText fields ++ ['\x7d']) := by
  rw [Json.dumps, String.toList_append, String.toList_append]
  rfl

theorem itemsText_singleton (item : Json) : itemsText [item] = item.dumps.toList := by
  unfold itemsText
  rw [dumpsItems, dumpsItems, String.intercalate_singleton]

theorem itemsText_cons (item next : Json) (items : List Json) :
    itemsText (item :: next :: items) = item.dumps.toList ++ (',' :: ' ' :: itemsText (next :: items)) := by
  unfold itemsText
  rw [dumpsItems, dumpsItems, String.intercalate_cons_cons, String.toList_append, String.toList_append, List.append_assoc]
  rfl

/-- What an entry of an object is written as. -/
def entryText (entry : String × Json) : List Char := (quote entry.1).toList ++ (':' :: ' ' :: entry.2.dumps.toList)

theorem fieldsText_singleton (entry : String × Json) : fieldsText [entry] = entryText entry := by
  unfold fieldsText
  rw [dumpsFields, dumpsFields, String.intercalate_singleton, String.toList_append, String.toList_append, List.append_assoc]
  rfl

theorem fieldsText_cons (entry next : String × Json) (fields : List (String × Json)) :
    fieldsText (entry :: next :: fields) = entryText entry ++ (',' :: ' ' :: fieldsText (next :: fields)) := by
  unfold fieldsText
  rw [dumpsFields, dumpsFields, String.intercalate_cons_cons]
  unfold entryText
  simp only [String.toList_append, List.append_assoc, List.cons_append]
  rfl

/-- How the text of a value begins. -/
theorem dumps_opens {v : Json} (sound : v.Sound float) : ∃ c cs, v.dumps.toList = c :: cs ∧ Opens c := by
  cases v with
  | null => exact ⟨'n', _, rfl, by decide, by decide, by decide⟩
  | bool b => cases b <;> exact ⟨_, _, rfl, by decide, by decide, by decide⟩
  | int n =>
    obtain ⟨c, cs, text, first⟩ := integer_opens n
    exact ⟨c, cs, by rw [Json.dumps, text], (opens_of_number first).1⟩
  | float q repr =>
    obtain ⟨-, -, c, cs, text, first⟩ := isFloatText_number sound.1
    exact ⟨c, cs, by rw [Json.dumps, text], (opens_of_number first).1⟩
  | str text => exact ⟨'"', _, by rw [Json.dumps, toList_quote], by decide, by decide, by decide⟩
  | arr items => exact ⟨'[', _, toList_dumps_arr items, by decide, by decide, by decide⟩
  | obj fields => exact ⟨'\x7b', _, toList_dumps_obj fields, by decide, by decide, by decide⟩

/-- A quoted text, read with the bound that the scanner takes. -/
theorem scanString_quote (text : String) (rest : List Char) :
    ∃ cs, (quote text).toList ++ rest = '"' :: cs ∧ scanString (cs.length + 1) cs = some (text.toList, rest) := by
  refine ⟨text.toList.flatMap (fun c => (escapeChar c).toList) ++ '"' :: rest, ?_, ?_⟩
  · rw [toList_quote]
    simp
  · refine scanString_body _ _ ?_
    have := length_le_body text.toList
    rw [List.length_append, List.length_cons]
    omega

/-- A text that begins as a number goes to the scanner of numbers. -/
theorem scanValue_number {cs : List Char} (opened : ∃ c rest, cs = c :: rest ∧ (c = '-' ∨ c.isDigit = true)) (fuel : Nat) :
    scanValue float (fuel + 1) cs = scanNumber float cs := by
  obtain ⟨c, rest, rfl, first⟩ := opened
  obtain ⟨-, noQuote, noBracket, noBrace, noN, noT, noF⟩ := opens_of_number first
  rw [scanValue, if_neg noQuote, if_neg noBracket, if_neg noBrace, if_neg noN, if_neg noT, if_neg noF]

theorem scanNumber_int (n : Int) {rest : List Char} (stops : Stops rest) :
    scanNumber float ((toString n).toList ++ rest) = some (.int n, rest) := by
  obtain ⟨number, integer, value⟩ := scanInteger n
  obtain ⟨text, left⟩ := span_number number stops
  unfold scanNumber
  rw [text, left, if_pos integer, value]

theorem scanNumber_float {q : ℚ} {repr : String} (sound : (Json.float q repr).Sound float) {rest : List Char} (stops : Stops rest) :
    scanNumber float (repr.toList ++ rest) = some (.float q repr, rest) := by
  obtain ⟨shape, value⟩ := sound
  obtain ⟨number, fractional, -⟩ := isFloatText_number shape
  obtain ⟨text, left⟩ := span_number number stops
  unfold scanNumber
  dsimp only
  rw [text, left, if_neg (by rw [fractional]; exact Bool.false_ne_true), if_pos shape, String.ofList_toList, value]

theorem opened_append {cs : List Char} (opened : ∃ c rest, cs = c :: rest ∧ (c = '-' ∨ c.isDigit = true)) (rest : List Char) :
    ∃ c later, cs ++ rest = c :: later ∧ (c = '-' ∨ c.isDigit = true) := by
  obtain ⟨c, cs, rfl, first⟩ := opened
  exact ⟨c, cs ++ rest, rfl, first⟩

theorem succ_of_opened {cs : List Char} {fuel : Nat} (opened : ∃ c rest, cs = c :: rest ∧ (c = '-' ∨ c.isDigit = true))
    (enough : cs.length ≤ fuel) : ∃ n, fuel = n + 1 := by
  obtain ⟨c, cs, rfl, -⟩ := opened
  rw [List.length_cons] at enough
  exact ⟨fuel - 1, by omega⟩

theorem itemsText_opens {item : Json} {items : List Json} (sound : SoundItems float (item :: items)) :
    ∃ c cs, itemsText (item :: items) = c :: cs ∧ Opens c := by
  obtain ⟨c, cs, text, opens⟩ := dumps_opens float sound.1
  cases items with
  | nil => exact ⟨c, cs, by rw [itemsText_singleton, text], opens⟩
  | cons next items => exact ⟨c, _, by rw [itemsText_cons, text, List.cons_append], opens⟩

theorem fieldsText_opens (entry : String × Json) (fields : List (String × Json)) :
    ∃ cs, fieldsText (entry :: fields) = '"' :: cs := by
  have first : ∃ cs, entryText entry = '"' :: cs := by
    unfold entryText
    rw [toList_quote]
    exact ⟨_, rfl⟩
  obtain ⟨cs, text⟩ := first
  cases fields with
  | nil => exact ⟨cs, by rw [fieldsText_singleton, text]⟩
  | cons next fields => exact ⟨_, by rw [fieldsText_cons, text, List.cons_append]⟩

/-- The scanner reads a value from its text, whatever stops it behind. -/
def Reads (v : Json) : Prop :=
  ∀ (fuel : Nat) (rest : List Char), v.dumps.toList.length ≤ fuel → Stops rest →
    scanValue float fuel (v.dumps.toList ++ rest) = some (v, rest)

variable {float}

theorem scanItems_dumps {item : Json} {items : List Json} (sound : SoundItems float (item :: items))
    (reads : ∀ v ∈ item :: items, Reads float v) {fuel : Nat} (rest : List Char)
    (enough : (itemsText (item :: items)).length < fuel) :
    scanItems float fuel (itemsText (item :: items) ++ ']' :: rest) = some (item :: items, rest) := by
  induction items generalizing item fuel with
  | nil =>
    obtain ⟨fuel, rfl⟩ : ∃ n, fuel = n + 1 := ⟨fuel - 1, by omega⟩
    rw [itemsText_singleton] at enough ⊢
    have read := reads item List.mem_cons_self fuel (']' :: rest) (by omega) (stops_cons (by decide))
    rw [scanItems, read, Option.bind_eq_bind, Option.bind_some]
    rfl
  | cons next items ih =>
    obtain ⟨fuel, rfl⟩ : ∃ n, fuel = n + 1 := ⟨fuel - 1, by omega⟩
    rw [itemsText_cons, List.length_append, List.length_cons, List.length_cons] at enough
    obtain ⟨c, cs, text, opens⟩ := itemsText_opens float sound.2
    have later := ih sound.2 (fun v mem => reads v (List.mem_cons_of_mem _ mem)) (by omega : _ < fuel)
    have read := reads item List.mem_cons_self fuel (',' :: ' ' :: (itemsText (next :: items) ++ ']' :: rest)) (by omega)
      (stops_cons (by decide))
    have spaced : skipSpace (' ' :: (itemsText (next :: items) ++ ']' :: rest)) = itemsText (next :: items) ++ ']' :: rest := by
      rw [text]
      exact skipSpace_of_opens opens _
    rw [itemsText_cons, List.append_assoc, List.cons_append, List.cons_append, scanItems, read, Option.bind_eq_bind,
      Option.bind_some]
    dsimp only
    rw [show skipSpace (',' :: ' ' :: (itemsText (next :: items) ++ ']' :: rest)) =
      ',' :: ' ' :: (itemsText (next :: items) ++ ']' :: rest) from rfl]
    dsimp only
    rw [if_neg (by decide), if_pos rfl, spaced, later]
    rfl

/-- A key and its value, up to what follows the entry. -/
theorem scanFields_entry {entry : String × Json} (sound : entry.2.Sound float) (reads : Reads float entry.2) {fuel : Nat}
    {after : List Char} (stops : Stops after) (enough : (entryText entry).length ≤ fuel) :
    scanFields float (fuel + 1) (entryText entry ++ after) =
      match skipSpace after with
      | [] => none
      | c :: rest =>
        if c = '\x7d' then some ([entry], rest)
        else if c = ',' then (scanFields float fuel (skipSpace rest)).map fun p => (entry :: p.1, p.2)
        else none := by
  obtain ⟨c, text, value, opens⟩ := dumps_opens float sound
  unfold entryText at enough ⊢
  rw [List.length_append, List.length_cons, List.length_cons] at enough
  have read := reads fuel after (by omega) stops
  obtain ⟨cs, quoted, key⟩ := scanString_quote entry.1 (':' :: ' ' :: (entry.2.dumps.toList ++ after))
  have spaced : skipSpace (' ' :: (entry.2.dumps.toList ++ after)) = entry.2.dumps.toList ++ after := by
    rw [value]
    exact skipSpace_of_opens opens _
  rw [List.append_assoc, List.cons_append, List.cons_append, quoted, scanFields, if_pos rfl, key, Option.bind_eq_bind,
    Option.bind_some]
  dsimp only
  rw [show skipSpace (':' :: ' ' :: (entry.2.dumps.toList ++ after)) = ':' :: ' ' :: (entry.2.dumps.toList ++ after) from rfl]
  dsimp only
  rw [if_pos rfl, spaced, read, Option.bind_eq_bind, Option.bind_some, String.ofList_toList]
  dsimp only
  cases skipSpace after with
  | nil => rfl
  | cons c rest =>
    dsimp only
    split_ifs
    · rfl
    · cases scanFields float fuel (skipSpace rest) <;> rfl
    · rfl

theorem scanFields_dumps {entry : String × Json} {fields : List (String × Json)} (sound : SoundFields float (entry :: fields))
    (reads : ∀ e ∈ entry :: fields, Reads float e.2) {fuel : Nat} (rest : List Char)
    (enough : (fieldsText (entry :: fields)).length < fuel) :
    scanFields float fuel (fieldsText (entry :: fields) ++ '\x7d' :: rest) = some (entry :: fields, rest) := by
  induction fields generalizing entry fuel with
  | nil =>
    obtain ⟨fuel, rfl⟩ : ∃ n, fuel = n + 1 := ⟨fuel - 1, by omega⟩
    rw [fieldsText_singleton] at enough ⊢
    exact scanFields_entry sound.1 (reads entry List.mem_cons_self) (stops_cons (by decide)) (by omega)
  | cons next fields ih =>
    obtain ⟨fuel, rfl⟩ : ∃ n, fuel = n + 1 := ⟨fuel - 1, by omega⟩
    rw [fieldsText_cons, List.length_append, List.length_cons, List.length_cons] at enough
    have later := ih sound.2 (fun e mem => reads e (List.mem_cons_of_mem _ mem)) (by omega : _ < fuel)
    obtain ⟨cs, text⟩ := fieldsText_opens next fields
    have spaced : skipSpace (' ' :: (fieldsText (next :: fields) ++ '\x7d' :: rest)) =
        fieldsText (next :: fields) ++ '\x7d' :: rest := by
      rw [text]
      rfl
    rw [fieldsText_cons, List.append_assoc, List.cons_append, List.cons_append,
      scanFields_entry sound.1 (reads entry List.mem_cons_self) (stops_cons (by decide)) (by omega),
      show skipSpace (',' :: ' ' :: (fieldsText (next :: fields) ++ '\x7d' :: rest)) =
        ',' :: ' ' :: (fieldsText (next :: fields) ++ '\x7d' :: rest) from rfl]
    dsimp only
    rw [if_neg (by decide), if_pos rfl, spaced, later]
    rfl

theorem scanValue_dumps : ∀ (v : Json), v.Sound float → Reads float v
  | .null, _, fuel, rest, enough, _ => by
    obtain ⟨fuel, rfl⟩ : ∃ n, fuel = n + 1 := ⟨fuel - 1, by have : 4 ≤ fuel := enough; omega⟩
    rfl
  | .bool b, _, fuel, rest, enough, _ => by
    obtain ⟨fuel, rfl⟩ : ∃ n, fuel = n + 1 := by
      refine ⟨fuel - 1, ?_⟩
      cases b with
      | false =>
        have : 5 ≤ fuel := enough
        omega
      | true =>
        have : 4 ≤ fuel := enough
        omega
    cases b <;> rfl
  | .int n, _, fuel, rest, enough, stops => by
    rw [Json.dumps] at enough ⊢
    obtain ⟨fuel, rfl⟩ := succ_of_opened (integer_opens n) enough
    rw [scanValue_number float (opened_append (integer_opens n) rest), scanNumber_int float n stops]
  | .float q repr, sound, fuel, rest, enough, stops => by
    rw [Json.dumps] at enough ⊢
    have opened := (isFloatText_number sound.1).2.2
    obtain ⟨fuel, rfl⟩ := succ_of_opened opened enough
    rw [scanValue_number float (opened_append opened rest), scanNumber_float float sound stops]
  | .str text, _, fuel, rest, enough, _ => by
    rw [Json.dumps] at enough ⊢
    obtain ⟨fuel, rfl⟩ : ∃ n, fuel = n + 1 := by
      rw [toList_quote, List.length_cons] at enough
      exact ⟨fuel - 1, by omega⟩
    obtain ⟨cs, quoted, read⟩ := scanString_quote text rest
    rw [quoted, scanValue, if_pos rfl, read, Option.bind_eq_bind, Option.bind_some]
    dsimp only
    rw [String.ofList_toList]
    rfl
  | .arr [], _, fuel, rest, enough, _ => by
    obtain ⟨fuel, rfl⟩ : ∃ n, fuel = n + 1 := ⟨fuel - 1, by have : 2 ≤ fuel := enough; omega⟩
    rfl
  | .arr (item :: items), sound, fuel, rest, enough, _ => by
    have each : ∀ v ∈ item :: items, Reads float v := fun v mem =>
      scanValue_dumps v ((soundItems_iff float _).mp sound v mem)
    rw [toList_dumps_arr, List.length_cons, List.length_append, List.length_singleton] at enough
    obtain ⟨fuel, rfl⟩ : ∃ n, fuel = n + 1 := ⟨fuel - 1, by omega⟩
    have read := scanItems_dumps sound each rest (by omega : _ < fuel)
    obtain ⟨c, cs, text, opens⟩ := itemsText_opens float sound
    rw [toList_dumps_arr, List.cons_append, List.append_assoc, List.singleton_append, scanValue, if_neg (by decide), if_pos rfl]
    rw [text, List.cons_append] at read ⊢
    rw [skipSpace_of_opens opens, if_neg (by simp [opens.2.1]), read]
    rfl
  | .obj [], _, fuel, rest, enough, _ => by
    obtain ⟨fuel, rfl⟩ : ∃ n, fuel = n + 1 := ⟨fuel - 1, by have : 2 ≤ fuel := enough; omega⟩
    rfl
  | .obj (entry :: fields), sound, fuel, rest, enough, _ => by
    have each : ∀ e ∈ entry :: fields, Reads float e.2 := fun e mem =>
      scanValue_dumps e.2 ((soundFields_iff float _).mp sound.2 e mem)
    rw [toList_dumps_obj, List.length_cons, List.length_append, List.length_singleton] at enough
    obtain ⟨fuel, rfl⟩ : ∃ n, fuel = n + 1 := ⟨fuel - 1, by omega⟩
    have read := scanFields_dumps sound.2 each rest (by omega : _ < fuel)
    obtain ⟨cs, text⟩ := fieldsText_opens entry fields
    have noBrace : ¬ ('"' :: (cs ++ '\x7d' :: rest)).head? = some '\x7d' := by
      rw [List.head?_cons]
      decide
    rw [toList_dumps_obj, List.cons_append, List.append_assoc, List.singleton_append, scanValue, if_neg (by decide),
      if_neg (by decide), if_pos rfl]
    rw [text, List.cons_append] at read ⊢
    rw [skipSpace_of_opens (by decide : Opens '"'), if_neg noBrace, read, Option.bind_eq_bind, Option.bind_some]
    dsimp only
    rw [foldl_insert_nodup sound.1]
    rfl
termination_by v => sizeOf v
decreasing_by
  · have := List.sizeOf_lt_of_mem mem
    simp only [Json.arr.sizeOf_spec]
    omega
  · have := List.sizeOf_lt_of_mem mem
    have : sizeOf e.2 < sizeOf e := by
      cases e
      simp only [Prod.mk.sizeOf_spec]
      omega
    simp only [Json.obj.sizeOf_spec]
    omega

/-- `json.loads(json.dumps(v)) == v`. -/
theorem loads_dumps {v : Json} (sound : v.Sound float) : loads float v.dumps = some v := by
  obtain ⟨c, cs, text, opens⟩ := dumps_opens float sound
  have read := scanValue_dumps v sound (v.dumps.toList.length + 1) [] (Nat.le_succ _) stops_nil
  rw [List.append_nil] at read
  unfold loads
  rw [text] at read ⊢
  rw [skipSpace_of_opens opens, read]
  rfl

end Values

section Printable

/-- The characters from the space to the tilde. -/
def printable (c : Char) : Bool := 32 ≤ c.toNat && c.toNat ≤ 126

theorem hexDigit_printable {n : Nat} (h : n < 16) : printable (hexDigit n) = true := by
  have each : ∀ d < 16, printable (hexDigit d) = true := by decide +kernel
  exact each n h

theorem unicodeEscape_printable (n : Nat) : (unicodeEscape n).toList.all printable = true := by
  have small (m : Nat) : printable (hexDigit (m % 16)) = true := hexDigit_printable (Nat.mod_lt _ (by decide))
  unfold unicodeEscape
  rw [String.toList_ofList]
  simp only [List.all_cons, List.all_nil, small]
  decide

theorem escapeChar_printable (c : Char) : (escapeChar c).toList.all printable = true := by
  unfold escapeChar
  dsimp only
  split_ifs with h₁ h₂ h₃ h₄ h₅ h₆ h₇ h₈ h₉
  case pos => decide
  case pos => decide
  case pos => decide
  case pos => decide
  case pos => decide
  case pos => decide
  case pos => decide
  case pos =>
    rw [String.toList_singleton, List.all_cons, List.all_nil, Bool.and_true]
    simpa [printable] using h₈
  case pos => exact unicodeEscape_printable _
  case neg =>
    rw [String.toList_append, List.all_append, unicodeEscape_printable, unicodeEscape_printable]
    rfl

theorem quote_printable (text : String) : (quote text).toList.all printable = true := by
  rw [toList_quote, List.all_cons, List.all_append, List.all_flatMap]
  simp only [escapeChar_printable]
  simp [printable]

theorem number_printable {cs : List Char} (h : cs.all isNumberChar = true) : cs.all printable = true := by
  rw [List.all_eq_true] at h ⊢
  intro c mem
  have := h c mem
  unfold isNumberChar at this
  simp only [Bool.or_eq_true, decide_eq_true_eq] at this
  rcases this with ((((digit | rfl) | rfl) | rfl) | rfl) | rfl
  · have : 48 ≤ c.toNat ∧ c.toNat ≤ 57 := by simpa [Char.isDigit, UInt32.le_iff_toNat_le] using digit
    unfold printable
    simp only [Bool.and_eq_true, decide_eq_true_eq]
    omega
  all_goals decide

variable {float : String → Json}

theorem itemsText_printable {items : List Json} (each : ∀ v ∈ items, v.dumps.toList.all printable = true) :
    (itemsText items).all printable = true := by
  induction items with
  | nil => rfl
  | cons item items ih =>
    have first := each item List.mem_cons_self
    have later := ih fun v mem => each v (List.mem_cons_of_mem _ mem)
    cases items with
    | nil => rw [itemsText_singleton, first]
    | cons next items =>
      rw [itemsText_cons, List.all_append, List.all_cons, List.all_cons, first, later]
      decide

theorem entryText_printable {entry : String × Json} (value : entry.2.dumps.toList.all printable = true) :
    (entryText entry).all printable = true := by
  unfold entryText
  rw [List.all_append, List.all_cons, List.all_cons, quote_printable, value]
  decide

theorem fieldsText_printable {fields : List (String × Json)} (each : ∀ e ∈ fields, e.2.dumps.toList.all printable = true) :
    (fieldsText fields).all printable = true := by
  induction fields with
  | nil => rfl
  | cons entry fields ih =>
    have first := entryText_printable (each entry List.mem_cons_self)
    have later := ih fun e mem => each e (List.mem_cons_of_mem _ mem)
    cases fields with
    | nil => rw [fieldsText_singleton, first]
    | cons next fields =>
      rw [fieldsText_cons, List.all_append, List.all_cons, List.all_cons, first, later]
      decide

/-- `json.dumps` writes ASCII on one line. -/
theorem dumps_printable : ∀ (v : Json), v.Sound float → v.dumps.toList.all printable = true
  | .null, _ => by decide
  | .bool b, _ => by cases b <;> decide
  | .int n, _ => number_printable (scanInteger n).1
  | .float q repr, sound => number_printable (isFloatText_number sound.1).1
  | .str text, _ => quote_printable text
  | .arr items, sound => by
    have each : ∀ v ∈ items, v.dumps.toList.all printable = true := fun v mem =>
      dumps_printable v ((soundItems_iff float _).mp sound v mem)
    rw [toList_dumps_arr, List.all_cons, List.all_append, itemsText_printable each]
    decide
  | .obj fields, sound => by
    have each : ∀ e ∈ fields, e.2.dumps.toList.all printable = true := fun e mem =>
      dumps_printable e.2 ((soundFields_iff float _).mp sound.2 e mem)
    rw [toList_dumps_obj, List.all_cons, List.all_append, fieldsText_printable each]
    decide
termination_by v => sizeOf v
decreasing_by
  · have := List.sizeOf_lt_of_mem mem
    simp only [Json.arr.sizeOf_spec]
    omega
  · have := List.sizeOf_lt_of_mem mem
    have : sizeOf e.2 < sizeOf e := by
      cases e
      simp only [Prod.mk.sizeOf_spec]
      omega
    simp only [Json.obj.sizeOf_spec]
    omega

end Printable

end Unhardcoded.Python
