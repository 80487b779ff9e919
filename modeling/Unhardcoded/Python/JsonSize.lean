import Mathlib.Algebra.GroupWithZero.Nat
import Unhardcoded.Python.Json

/-!
# The size of encoded JSON

How many bytes `json.dumps` writes: a text costs what its characters cost once they are
escaped, and an array or a dictionary the sizes of its parts and its separators.
-/

namespace Unhardcoded.Python

/-- The bytes of a character inside an encoded string. -/
def width (c : Char) : Nat := (escapeChar c).utf8ByteSize

def textWidth (text : String) : Nat := (text.toList.map width).sum

section Strings

theorem size_join (texts : List String) : (String.join texts).utf8ByteSize = (texts.map String.utf8ByteSize).sum := by
  induction texts with
  | nil => rfl
  | cons text texts ih => rw [String.join_cons, String.utf8ByteSize_append, ih, List.map_cons, List.sum_cons]

theorem size_intercalate (separator : String) (texts : List String) :
    (String.intercalate separator texts).utf8ByteSize =
      (texts.map String.utf8ByteSize).sum + separator.utf8ByteSize * (texts.length - 1) := by
  induction texts with
  | nil => simp
  | cons text texts ih =>
    cases texts with
    | nil => simp
    | cons next texts =>
      rw [String.intercalate_cons_cons, String.utf8ByteSize_append, String.utf8ByteSize_append, ih]
      simp only [List.map_cons, List.sum_cons, List.length_cons, Nat.add_sub_cancel]
      rw [Nat.mul_add_one]
      omega

theorem size_quote (text : String) : (quote text).utf8ByteSize = textWidth text + 2 := by
  unfold quote textWidth width
  rw [String.utf8ByteSize_append, String.utf8ByteSize_append, size_join, List.map_map]
  have : "\"".utf8ByteSize = 1 := by decide
  rw [this, Function.comp_def]
  omega

theorem escapeChar_ne_empty (c : Char) : escapeChar c ≠ "" := by
  unfold escapeChar unicodeEscape
  dsimp only
  split_ifs <;> simp [← String.toList_inj]

theorem one_le_width (c : Char) : 1 ≤ width c := by
  have := mt String.utf8ByteSize_eq_zero_iff.mp (escapeChar_ne_empty c)
  unfold width
  omega

theorem length_le_textWidth (text : String) : text.length ≤ textWidth text := by
  unfold textWidth
  rw [← String.length_toList]
  induction text.toList with
  | nil => simp
  | cons c cs ih =>
    have := one_le_width c
    simp only [List.length_cons, List.map_cons, List.sum_cons]
    omega

theorem length_le_quote (text : String) : text.length ≤ (quote text).length := by
  unfold quote
  rw [String.length_append, String.length_append, ← String.length_toList, ← @String.length_toList (String.join _),
    toList_join]
  induction text.toList with
  | nil => simp
  | cons c cs ih =>
    have nonempty : (escapeChar c).length ≠ 0 := by
      rw [← String.length_toList]
      simpa using escapeChar_ne_empty c
    simp only [List.length_cons, List.map_cons, List.flatMap_cons, List.length_append, String.length_toList] at ih ⊢
    omega

theorem textWidth_append (first second : String) : textWidth (first ++ second) = textWidth first + textWidth second := by
  rw [textWidth, String.toList_append, List.map_append, List.sum_append, ← textWidth, ← textWidth]

/-- Printable ASCII without quotes and backslashes. -/
def Plain (text : String) : Prop := ∀ c ∈ text.toList, 32 ≤ c.toNat ∧ c.toNat ≤ 126 ∧ c ≠ '"' ∧ c ≠ '\\'

instance : DecidablePred Plain := fun text => List.decidableBAll _ text.toList

theorem escapeChar_plain {c : Char} (plain : 32 ≤ c.toNat ∧ c.toNat ≤ 126 ∧ c ≠ '"' ∧ c ≠ '\\') :
    escapeChar c = String.singleton c := by
  obtain ⟨low, high, quoted, slashed⟩ := plain
  unfold escapeChar
  dsimp only
  rw [if_neg quoted, if_neg slashed, if_neg (by omega), if_neg (by omega), if_neg (by omega), if_neg (by omega),
    if_neg (by omega), if_pos ⟨low, high⟩]

theorem textWidth_plain {text : String} (plain : Plain text) : textWidth text = text.length := by
  have one : ∀ c ∈ text.toList, width c = 1 := by
    intro c mem
    have ascii : c.utf8Size = 1 := Char.utf8Size_eq_one_iff.mpr (by
      have := (plain c mem).2.1
      change c.val.toNat ≤ 126 at this
      exact UInt32.le_iff_toNat_le.mpr (by
        change c.val.toNat ≤ 127
        omega))
    rw [width, escapeChar_plain (plain c mem), String.utf8ByteSize_singleton, ascii]
  rw [textWidth, List.map_congr_left one, List.map_const', List.sum_replicate_nat, String.length_toList, Nat.mul_one]

theorem quote_plain {text : String} (plain : Plain text) : quote text = "\"" ++ text ++ "\"" := by
  have same : String.join (text.toList.map escapeChar) = text := by
    rw [List.map_congr_left fun c mem => escapeChar_plain (plain c mem), ← String.toList_inj, toList_join, List.flatMap_map]
    simp
  rw [quote, same]

theorem textWidth_replicate (n : Nat) (c : Char) : textWidth (String.ofList (List.replicate n c)) = n * width c := by
  rw [textWidth, String.toList_ofList, List.map_replicate, List.sum_replicate_nat]

end Strings

section Values

theorem dumpsItems_eq (items : List Json) : dumpsItems items = items.map Json.dumps := by
  induction items with
  | nil => rfl
  | cons item items ih => rw [dumpsItems, ih, List.map_cons]

theorem dumpsFields_eq (fields : List (String × Json)) :
    dumpsFields fields = fields.map fun entry => quote entry.1 ++ ": " ++ entry.2.dumps := by
  induction fields with
  | nil => rfl
  | cons entry fields ih => rw [dumpsFields, ih, List.map_cons]

/-- The bytes of an encoded value. -/
def Json.size (v : Json) : Nat := v.dumps.utf8ByteSize

theorem size_str (text : String) : (Json.str text).size = textWidth text + 2 := size_quote text

theorem size_bool (b : Bool) : (Json.bool b).size = if b then 4 else 5 := by
  cases b <;> decide

theorem size_arr (items : List Json) :
    (Json.arr items).size = (items.map Json.size).sum + 2 * (items.length - 1) + 2 := by
  unfold Json.size
  rw [Json.dumps, String.utf8ByteSize_append, String.utf8ByteSize_append, size_intercalate, dumpsItems_eq,
    List.map_map, List.length_map, Function.comp_def]
  have opening : "[".utf8ByteSize = 1 := by decide
  have closing : "]".utf8ByteSize = 1 := by decide
  have separator : ", ".utf8ByteSize = 2 := by decide
  rw [separator]
  omega

theorem size_obj (fields : List (String × Json)) :
    (Json.obj fields).size =
      (fields.map fun entry => textWidth entry.1 + entry.2.size + 4).sum + 2 * (fields.length - 1) + 2 := by
  unfold Json.size
  rw [Json.dumps, String.utf8ByteSize_append, String.utf8ByteSize_append, size_intercalate, dumpsFields_eq,
    List.map_map, List.length_map]
  have opening : "\x7b".utf8ByteSize = 1 := by decide
  have closing : "\x7d".utf8ByteSize = 1 := by decide
  have separator : ", ".utf8ByteSize = 2 := by decide
  have colon : ": ".utf8ByteSize = 2 := by decide
  have entries : fields.map (String.utf8ByteSize ∘ fun entry => quote entry.1 ++ ": " ++ entry.2.dumps) =
      fields.map fun entry => textWidth entry.1 + entry.2.dumps.utf8ByteSize + 4 := by
    refine List.map_congr_left fun entry _ => ?_
    rw [Function.comp_apply, String.utf8ByteSize_append, String.utf8ByteSize_append, size_quote, colon]
    omega
  rw [entries, separator]
  omega

end Values

end Unhardcoded.Python
