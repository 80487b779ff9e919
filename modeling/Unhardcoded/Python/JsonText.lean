import Unhardcoded.Python.Json

/-!
# JSON texts

`json.loads`. What `float` makes of a number with a fraction or an exponent is a
parameter. The scanner recurses on a bound that the length of the text provides. A lone
surrogate has no character and the names `NaN` and `Infinity` no value here, so both are
refused.
-/

namespace Unhardcoded.Python

section Equality

mutual

/-- The same value, with the same texts of floats and the same order of keys. -/
def Json.decEq : (v w : Json) → Decidable (v = w)
  | .null, .null => isTrue rfl
  | .bool b, .bool c => decidable_of_iff (b = c) ⟨congrArg _, Json.bool.inj⟩
  | .int m, .int n => decidable_of_iff (m = n) ⟨congrArg _, Json.int.inj⟩
  | .float p r, .float q s => decidable_of_iff (p = q ∧ r = s) ⟨fun h => h.1 ▸ h.2 ▸ rfl, Json.float.inj⟩
  | .str s, .str t => decidable_of_iff (s = t) ⟨congrArg _, Json.str.inj⟩
  | .arr xs, .arr ys =>
    match Json.decEqItems xs ys with
    | isTrue h => isTrue (congrArg _ h)
    | isFalse h => isFalse fun same => h (Json.arr.inj same)
  | .obj xs, .obj ys =>
    match Json.decEqFields xs ys with
    | isTrue h => isTrue (congrArg _ h)
    | isFalse h => isFalse fun same => h (Json.obj.inj same)
  | .null, .bool _ | .null, .int _ | .null, .float _ _ | .null, .str _ | .null, .arr _ | .null, .obj _
  | .bool _, .null | .bool _, .int _ | .bool _, .float _ _ | .bool _, .str _ | .bool _, .arr _ | .bool _, .obj _
  | .int _, .null | .int _, .bool _ | .int _, .float _ _ | .int _, .str _ | .int _, .arr _ | .int _, .obj _
  | .float _ _, .null | .float _ _, .bool _ | .float _ _, .int _ | .float _ _, .str _ | .float _ _, .arr _ | .float _ _, .obj _
  | .str _, .null | .str _, .bool _ | .str _, .int _ | .str _, .float _ _ | .str _, .arr _ | .str _, .obj _
  | .arr _, .null | .arr _, .bool _ | .arr _, .int _ | .arr _, .float _ _ | .arr _, .str _ | .arr _, .obj _
  | .obj _, .null | .obj _, .bool _ | .obj _, .int _ | .obj _, .float _ _ | .obj _, .str _ | .obj _, .arr _ =>
    isFalse (fun same => by cases same)

def Json.decEqItems : (xs ys : List Json) → Decidable (xs = ys)
  | [], [] => isTrue rfl
  | [], _ :: _ => isFalse (fun same => by cases same)
  | _ :: _, [] => isFalse (fun same => by cases same)
  | x :: xs, y :: ys =>
    match Json.decEq x y, Json.decEqItems xs ys with
    | isTrue h, isTrue t => isTrue (h ▸ t ▸ rfl)
    | isFalse h, _ => isFalse fun same => h (List.cons.inj same).1
    | _, isFalse t => isFalse fun same => t (List.cons.inj same).2

def Json.decEqFields : (xs ys : List (String × Json)) → Decidable (xs = ys)
  | [], [] => isTrue rfl
  | [], _ :: _ => isFalse (fun same => by cases same)
  | _ :: _, [] => isFalse (fun same => by cases same)
  | (k, x) :: xs, (l, y) :: ys =>
    match (inferInstance : Decidable (k = l)), Json.decEq x y, Json.decEqFields xs ys with
    | isTrue n, isTrue h, isTrue t => isTrue (n ▸ h ▸ t ▸ rfl)
    | isFalse n, _, _ => isFalse fun same => n (Prod.mk.inj (List.cons.inj same).1).1
    | _, isFalse h, _ => isFalse fun same => h (Prod.mk.inj (List.cons.inj same).1).2
    | _, _, isFalse t => isFalse fun same => t (List.cons.inj same).2

end

instance : DecidableEq Json := Json.decEq

end Equality

section Scan

def isJsonSpace (c : Char) : Bool := c = ' ' || c = '\t' || c = '\n' || c = '\r'

def skipSpace (cs : List Char) : List Char := cs.dropWhile isJsonSpace

def hexVal (c : Char) : Option Nat :=
  let n := c.toNat
  if 48 ≤ n ∧ n ≤ 57 then some (n - 48)
  else if 97 ≤ n ∧ n ≤ 102 then some (n - 87)
  else if 65 ≤ n ∧ n ≤ 70 then some (n - 55)
  else none

/-- Four hexadecimal digits. -/
def hexFour : List Char → Option (Nat × List Char)
  | a :: b :: c :: d :: rest => do
    let a ← hexVal a
    let b ← hexVal b
    let c ← hexVal c
    let d ← hexVal d
    pure (((a * 16 + b) * 16 + c) * 16 + d, rest)
  | _ => none

def simpleEscape (c : Char) : Option Char :=
  if c = '"' ∨ c = '\\' ∨ c = '/' then some c
  else if c = 'b' then some (Char.ofNat 8)
  else if c = 'f' then some (Char.ofNat 12)
  else if c = 'n' then some '\n'
  else if c = 'r' then some '\r'
  else if c = 't' then some '\t'
  else none

/-- The second half of a surrogate pair. -/
def lowSurrogate (high : Nat) : List Char → Option (Char × List Char)
  | a :: b :: cs =>
    if a = '\\' ∧ b = 'u' then do
      let (low, rest) ← hexFour cs
      if 0xDC00 ≤ low ∧ low < 0xE000 then
        pure (Char.ofNat (0x10000 + (high - 0xD800) * 0x400 + (low - 0xDC00)), rest)
      else none
    else none
  | _ => none

/-- What follows a backslash. -/
def readEscape : List Char → Option (Char × List Char)
  | [] => none
  | e :: cs =>
    if e = 'u' then do
      let (n, rest) ← hexFour cs
      if 0xD800 ≤ n ∧ n < 0xDC00 then lowSurrogate n rest
      else if 0xDC00 ≤ n ∧ n < 0xE000 then none
      else pure (Char.ofNat n, rest)
    else (simpleEscape e).map fun c => (c, cs)

/-- A string, behind its opening quote. -/
def scanString : Nat → List Char → Option (List Char × List Char)
  | 0, _ => none
  | _, [] => none
  | fuel + 1, c :: cs =>
    if c = '"' then some ([], cs)
    else if c = '\\' then do
      let (c, rest) ← readEscape cs
      let (text, rest) ← scanString fuel rest
      pure (c :: text, rest)
    else if c.toNat < 32 then none
    else do
      let (text, rest) ← scanString fuel cs
      pure (c :: text, rest)

def digits (cs : List Char) : Bool := !cs.isEmpty && cs.all Char.isDigit

/-- Digits without a leading zero. -/
def isNatural : List Char → Bool
  | '0' :: cs => cs.isEmpty
  | cs => digits cs

def dropMinus : List Char → List Char
  | '-' :: cs => cs
  | cs => cs

/-- `[eE][-+]?[0-9]+`. -/
def isExponent : List Char → Bool
  | e :: sign :: cs => (e = 'e' || e = 'E') && (if sign = '+' || sign = '-' then digits cs else digits (sign :: cs))
  | _ => false

def isInteger (cs : List Char) : Bool := isNatural (dropMinus cs)

/-- A number with a fraction or an exponent. -/
def isFloatText (cs : List Char) : Bool :=
  let whole := (dropMinus cs).takeWhile Char.isDigit
  isNatural whole && match (dropMinus cs).dropWhile Char.isDigit with
    | '.' :: rest => digits (rest.takeWhile Char.isDigit) &&
        ((rest.dropWhile Char.isDigit).isEmpty || isExponent (rest.dropWhile Char.isDigit))
    | rest => isExponent rest

def isNumberChar (c : Char) : Bool := c.isDigit || c = '-' || c = '+' || c = '.' || c = 'e' || c = 'E'

/-- `int(text)` of an integer. -/
def intOf : List Char → Int
  | '-' :: cs => -Nat.ofDigitChars 10 cs 0
  | cs => Nat.ofDigitChars 10 cs 0

variable (float : String → Json)

/-- A number: no character that can stand in one may follow it. -/
def scanNumber (cs : List Char) : Option (Json × List Char) :=
  let text := cs.takeWhile isNumberChar
  if isInteger text then some (.int (intOf text), cs.dropWhile isNumberChar)
  else if isFloatText text then some (float (String.ofList text), cs.dropWhile isNumberChar)
  else none

/-- A word of the language. -/
def scanWord (word : String) (v : Json) (cs : List Char) : Option (Json × List Char) :=
  if word.toList.isPrefixOf cs then some (v, cs.drop word.length) else none

mutual

def scanValue : Nat → List Char → Option (Json × List Char)
  | 0, _ => none
  | _, [] => none
  | fuel + 1, c :: cs =>
    if c = '"' then do
      let (text, rest) ← scanString (cs.length + 1) cs
      pure (.str (String.ofList text), rest)
    else if c = '[' then
      if (skipSpace cs).head? = some ']' then some (.arr [], (skipSpace cs).tail)
      else do
        let (items, rest) ← scanItems fuel (skipSpace cs)
        pure (.arr items, rest)
    else if c = '\x7b' then
      if (skipSpace cs).head? = some '\x7d' then some (.obj [], (skipSpace cs).tail)
      else do
        let (fields, rest) ← scanFields fuel (skipSpace cs)
        pure (.obj (fields.foldl (fun d entry => insert entry.1 entry.2 d) []), rest)
    else if c = 'n' then scanWord "null" .null (c :: cs)
    else if c = 't' then scanWord "true" (.bool true) (c :: cs)
    else if c = 'f' then scanWord "false" (.bool false) (c :: cs)
    else scanNumber float (c :: cs)

/-- The items of an array, up to its bracket. -/
def scanItems : Nat → List Char → Option (List Json × List Char)
  | 0, _ => none
  | fuel + 1, cs => do
    let (item, rest) ← scanValue fuel cs
    match skipSpace rest with
    | [] => none
    | c :: rest =>
      if c = ']' then pure ([item], rest)
      else if c = ',' then do
        let (items, rest) ← scanItems fuel (skipSpace rest)
        pure (item :: items, rest)
      else none

/-- The entries of an object, up to its brace. -/
def scanFields : Nat → List Char → Option (List (String × Json) × List Char)
  | 0, _ => none
  | _, [] => none
  | fuel + 1, q :: cs =>
    if q = '"' then do
      let (key, rest) ← scanString (cs.length + 1) cs
      match skipSpace rest with
      | [] => none
      | c :: rest =>
        if c = ':' then do
          let (value, rest) ← scanValue fuel (skipSpace rest)
          match skipSpace rest with
          | [] => none
          | c :: rest =>
            if c = '\x7d' then pure ([(String.ofList key, value)], rest)
            else if c = ',' then do
              let (fields, rest) ← scanFields fuel (skipSpace rest)
              pure ((String.ofList key, value) :: fields, rest)
            else none
        else none
    else none

end

/-- `json.loads`; `none` is a `ValueError`. -/
def loads (text : String) : Option Json := do
  let (v, rest) ← scanValue float (text.toList.length + 1) (skipSpace text.toList)
  if (skipSpace rest).isEmpty then pure v else none

example : (loads (fun repr => .float 0 repr) " [1, \x7b\"a\": \"\\u00e9\\ud83d\\ude00\"\x7d, -2.5e3] ").map Json.dumps =
    some "[1, \x7b\"a\": \"\\u00e9\\ud83d\\ude00\"\x7d, -2.5e3]" := by decide +kernel

end Scan

end Unhardcoded.Python
