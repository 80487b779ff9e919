import Mathlib.Algebra.Order.Ring.Rat
import Mathlib.Data.List.Sort
import Mathlib.Data.String.Basic

/-!
# Decoded JSON values, as Python code reads them

What `json.loads` returns and what the built-in operations make of it: truth, `get`,
iteration, hashing of dictionary keys, `join`, `dict.update`, `json.dumps`. An
operation on a value of the wrong type raises. Strings hold Unicode scalar values;
the tokens `NaN` and `Infinity`, which are not JSON, are left out.
-/

namespace Unhardcoded.Python

/-- An exception: one of the built-in classes the operations below raise, or another
by its name and message. -/
inductive Raised where
  | attributeError
  | typeError
  | valueError
  | timeoutError
  | other (name message : String)
  deriving DecidableEq, Repr

/-- A float keeps its value and what `float.__repr__` writes for it. -/
inductive Json where
  | null
  | bool (b : Bool)
  | int (n : Int)
  | float (value : ℚ) (repr : String)
  | str (text : String)
  | arr (items : List Json)
  | obj (fields : List (String × Json))

/-- A dictionary key: numbers and booleans are equal by value. -/
inductive Key where
  | none
  | num (value : ℚ)
  | str (text : String)
  deriving DecidableEq

/-- `str.isspace` of one character. -/
def isSpace (c : Char) : Bool :=
  let n := c.toNat
  (9 ≤ n && n ≤ 13) || (28 ≤ n && n ≤ 32) || n = 0x85 || n = 0xA0 || n = 0x1680 ||
    (0x2000 ≤ n && n ≤ 0x200A) || n = 0x2028 || n = 0x2029 || n = 0x202F || n = 0x205F || n = 0x3000

/-- `not text.strip()`. -/
def blank (text : String) : Bool := text.toList.all isSpace

/-- `text.strip()`. -/
def strip (text : String) : String :=
  String.ofList ((text.toList.dropWhile isSpace).reverse.dropWhile isSpace).reverse

/-- `needle in text`. -/
def contains (needle text : String) : Bool := text.toList.tails.any needle.toList.isPrefixOf

/-- `text.lower()` on the ASCII letters; other characters stay. -/
def lower (text : String) : String := text.map Char.toLower

namespace Json

def truthy : Json → Bool
  | .null => false
  | .bool b => b
  | .int n => n ≠ 0
  | .float value _ => value ≠ 0
  | .str text => text ≠ ""
  | .arr items => !items.isEmpty
  | .obj fields => !fields.isEmpty

def isObj : Json → Bool
  | .obj _ => true
  | _ => false

def isStr : Json → Bool
  | .str _ => true
  | _ => false

/-- `v == text`. -/
def isText (v : Json) (text : String) : Bool :=
  match v with
  | .str s => s = text
  | _ => false

/-- The value under a key, where there is one. -/
def field? : Json → String → Option Json
  | .obj fields, key => fields.lookup key
  | _, _ => none

/-- The value under a key, `None` where there is none. -/
def field (v : Json) (key : String) : Json := (v.field? key).getD .null

/-- `v.get(key)`. -/
def get (v : Json) (key : String) : Except Raised Json :=
  if v.isObj then .ok (v.field key) else .error .attributeError

/-- `v.get(key, default)`. -/
def getD (v : Json) (key : String) (default : Json) : Except Raised Json :=
  if v.isObj then .ok ((v.field? key).getD default) else .error .attributeError

/-- `v or w`. -/
def orElse (v w : Json) : Json := if v.truthy then v else w

/-- `v or {}`. -/
def orDict (v : Json) : Json := v.orElse (.obj [])

/-- `for x in v`. -/
def iter : Json → Except Raised (List Json)
  | .arr items => .ok items
  | .obj fields => .ok (fields.map fun entry => .str entry.1)
  | .str text => .ok (text.toList.map fun c => .str (String.singleton c))
  | _ => .error .typeError

/-- `for x in v or []`. -/
def iterOr (v : Json) : Except Raised (List Json) := (v.orElse (.arr [])).iter

/-- `v[0]`. -/
def first : Json → Except Raised Json
  | .arr (item :: _) => .ok item
  | .arr [] => .error (.other "IndexError" "list index out of range")
  | .str text => match text.toList with
    | c :: _ => .ok (.str (String.singleton c))
    | [] => .error (.other "IndexError" "string index out of range")
  | .obj _ => .error (.other "KeyError" "0")
  | _ => .error .typeError

/-- `v` as a dictionary key. -/
def key : Json → Except Raised Key
  | .null => .ok .none
  | .bool b => .ok (.num (if b then 1 else 0))
  | .int n => .ok (.num n)
  | .float value _ => .ok (.num value)
  | .str text => .ok (.str text)
  | _ => .error .typeError

/-- `v` where a string has to stand. -/
def text : Json → Except Raised String
  | .str text => .ok text
  | _ => .error .typeError

/-- `v[:n]` raises on what has no slices. -/
def sliceable : Json → Bool
  | .str _ => true
  | .arr _ => true
  | _ => false

end Json

section Digits

theorem toString_injective : Function.Injective (toString : Nat → String) := by
  intro m n same
  have digits : Nat.toDigits 10 m = Nat.toDigits 10 n := by
    rw [← Nat.toList_repr, ← Nat.toList_repr]
    exact congrArg String.toList same
  calc
    m = Nat.ofDigitChars 10 (Nat.toDigits 10 m) 0 := Nat.ofDigitChars_ten_toDigits.symm
    _ = n := by rw [digits, Nat.ofDigitChars_ten_toDigits]

theorem toString_ne_minus (m : Nat) (text : String) : toString m ≠ "-" ++ text := by
  intro same
  have mem : '-' ∈ Nat.toDigits 10 m := by
    rw [← Nat.toList_repr]
    have : (toString m).toList = '-' :: text.toList := by rw [same, String.toList_append]; rfl
    exact this ▸ List.mem_cons_self
  have := Nat.isDigit_of_mem_toDigits (by decide) (by decide) mem
  revert this
  decide

theorem toString_int_injective : Function.Injective (toString : Int → String) := by
  intro m n same
  cases m with
  | ofNat m =>
    cases n with
    | ofNat n => exact congrArg Int.ofNat (toString_injective same)
    | negSucc n => exact absurd same (toString_ne_minus m _)
  | negSucc m =>
    cases n with
    | ofNat n => exact absurd same.symm (toString_ne_minus n _)
    | negSucc n =>
      have digits : toString (m + 1) = toString (n + 1) := (String.append_right_inj "-").mp same
      have := toString_injective digits
      rw [Nat.succ_injective this]

end Digits

theorem ok_of_bind {ε α β : Type} {x : Except ε α} {f : α → Except ε β} {b : β} (h : (x >>= f) = .ok b) :
    ∃ a, x = .ok a ∧ f a = .ok b := by
  cases x with
  | error e => cases h
  | ok a => exact ⟨a, rfl, h⟩

/-- `"".join(parts)`. -/
def join (parts : List Json) : Except Raised String := do
  let texts ← parts.mapM Json.text
  pure (String.join texts)

section Dict

variable {α : Type}

/-- `d[key] = value`. -/
def insert [DecidableEq α] {β : Type} (key : α) (value : β) (d : List (α × β)) : List (α × β) :=
  if (d.lookup key).isSome then d.map fun entry => if entry.1 = key then (key, value) else entry
  else d ++ [(key, value)]

def Key.num? : Key → Option ℚ
  | .num q => some q
  | _ => Option.none

def Key.str? : Key → Option String
  | .str s => some s
  | _ => Option.none

/-- `sorted(d)`: keys of two types do not compare. -/
def sortedKeys (keys : List Key) : Except Raised (List Key) :=
  let numbers := keys.filterMap Key.num?
  let texts := keys.filterMap Key.str?
  if keys.length ≤ 1 then .ok keys
  else if numbers.length = keys.length then .ok ((numbers.insertionSort (· ≤ ·)).map .num)
  else if texts.length = keys.length then .ok ((texts.insertionSort (· ≤ ·)).map .str)
  else .error .typeError

/-- `[d[i] for i in sorted(d)]`. -/
def inKeyOrder (d : List (Key × α)) : Except Raised (List α) := do
  let keys ← sortedKeys (d.map (·.1))
  pure (keys.filterMap fun key => d.lookup key)

/-- The two elements of an element of a `dict.update` sequence. -/
def Json.pair : Json → Option (Json × Json)
  | .arr [a, b] => some (a, b)
  | .obj [(a, _), (b, _)] => some (.str a, .str b)
  | .str text => match text.toList with
    | [a, b] => some (.str (String.singleton a), .str (String.singleton b))
    | _ => none
  | _ => none

/-- One element of a `dict.update` sequence. Keys that are not strings are not kept. -/
def updateItem (d : List (String × Json)) (item : Json) : Except Raised (List (String × Json)) :=
  match item.pair with
  | some (.str key, value) => .ok (insert key value d)
  | some (key, _) => key.key.map fun _ => d
  | none => .error .typeError

/-- `d.update(v)` of a dictionary's fields. -/
def updateFields (d : List (String × Json)) : Json → Except Raised (List (String × Json))
  | .obj fields => .ok (fields.foldl (fun d entry => insert entry.1 entry.2 d) d)
  | .arr items => items.foldlM updateItem d
  | .str _ => .error .valueError
  | _ => .error .typeError

/-- `d.update(v)`. -/
def Json.update : Json → Json → Except Raised Json
  | .obj fields, v => (updateFields fields v).map .obj
  | _, _ => .error .attributeError

end Dict

section Shapes

namespace Json

/-- `v or {}` is a dictionary. -/
def dictish (v : Json) : Bool := !v.truthy || v.isObj

/-- `v or []` is a list of such elements. -/
def listOf (p : Json → Bool) : Json → Bool
  | .arr items => items.all p
  | v => !v.truthy

def elems : Json → List Json
  | .arr items => items
  | _ => []

def hashable : Json → Bool
  | .arr _ => false
  | .obj _ => false
  | _ => true

/-- `d.update(v or {})` goes through. -/
def updates (v : Json) : Bool :=
  match v.orDict with
  | .obj _ => true
  | .arr items => items.all fun item => item.pair.any fun entry => entry.1.hashable
  | _ => false

variable {v : Json} {p : Json → Bool}

theorem get_of_isObj (h : v.isObj = true) (name : String) : v.get name = .ok (v.field name) := if_pos h

theorem get_of_not_isObj (h : v.isObj = false) (name : String) : v.get name = .error .attributeError := by
  simp [get, h]

theorem getD_of_isObj (h : v.isObj = true) (name : String) (default : Json) :
    v.getD name default = .ok ((v.field? name).getD default) := if_pos h

theorem getD_of_not_isObj (h : v.isObj = false) (name : String) (default : Json) :
    v.getD name default = .error .attributeError := by
  simp [getD, h]

theorem isObj_orDict (v : Json) : v.orDict.isObj = v.dictish := by
  cases truth : v.truthy <;> simp [orDict, orElse, dictish, truth, isObj]

theorem field_orDict (h : v.dictish = true) (name : String) : v.orDict.field name = v.field name := by
  cases truth : v.truthy with
  | true => simp [orDict, orElse, truth]
  | false =>
    cases v with
    | obj fields =>
      have : fields = [] := by simpa [truthy] using truth
      rw [this]
      rfl
    | _ => simp [orDict, orElse, truth, field, field?]

theorem get_orDict (h : v.dictish = true) (name : String) : v.orDict.get name = .ok (v.field name) := by
  rw [get_of_isObj (by rw [isObj_orDict, h]), field_orDict h]

theorem get_orDict_of_not (h : v.dictish = false) (name : String) : v.orDict.get name = .error .attributeError :=
  get_of_not_isObj (by rw [isObj_orDict, h]) name

theorem key_of_hashable (h : v.hashable = true) : ∃ key, v.key = .ok key := by
  cases v with
  | arr items => cases h
  | obj fields => cases h
  | _ => exact ⟨_, rfl⟩

theorem key_of_not_hashable (h : v.hashable = false) : v.key = .error .typeError := by
  cases v with
  | arr items => rfl
  | obj fields => rfl
  | _ => cases h

@[simp] theorem isText_str (s text : String) : (Json.str s).isText text = decide (s = text) := rfl

theorem isText_iff (text : String) : v.isText text = true ↔ v = .str text := by
  cases v with
  | str s => simp [isText]
  | _ => simp [isText]

theorem isText_of_ne {text : String} (h : v = .str text → False) : v.isText text = false :=
  Bool.eq_false_iff.mpr fun same => h ((isText_iff text).mp same)

theorem text_of_isStr (h : v.isStr = true) : ∃ t, v = .str t := by
  cases v with
  | str t => exact ⟨t, rfl⟩
  | _ => cases h

theorem text_of_not_isStr (h : v.isStr = false) : v.text = .error .typeError := by
  cases v with
  | str t => cases h
  | _ => rfl

theorem orElse_str (text : String) : (Json.str text).orElse (.str "") = .str text := by
  by_cases none : text = ""
  · rw [none]
    rfl
  · simp [orElse, truthy, none]

theorem truthy_str {text : String} (some : text ≠ "") : (Json.str text).truthy = true := by
  simpa [truthy] using some

theorem iterOr_arr (items : List Json) : (Json.arr items).iterOr = .ok items := by
  cases items <;> rfl

theorem iterOr_of_falsy (h : v.truthy = false) : v.iterOr = .ok [] := by
  simp [iterOr, orElse, h, iter]

theorem elems_of_falsy (h : v.truthy = false) : v.elems = [] := by
  cases v with
  | arr items => simpa [truthy, elems] using h
  | _ => rfl

theorem iterOr_of_listOf (h : v.listOf p = true) : v.iterOr = .ok v.elems ∧ ∀ x ∈ v.elems, p x = true := by
  cases truth : v.truthy with
  | false => simp [iterOr_of_falsy truth, elems_of_falsy truth]
  | true =>
    cases v with
    | arr items => exact ⟨by simp [iterOr, orElse, truth, iter, elems], List.all_eq_true.mp h⟩
    | _ => simp [listOf, truth] at h

/-- Elements of a string or a dictionary are strings, so it is no such list. -/
theorem iterOr_of_not_listOf (strings : ∀ t, p (.str t) = false) (h : v.listOf p = false) :
    (∃ e, v.iterOr = .error e) ∨ ∃ items, v.iterOr = .ok items ∧ ¬ ∀ x ∈ items, p x = true := by
  cases v with
  | null => cases h
  | bool b =>
    have : b = true := by simpa [listOf, truthy] using h
    subst this
    exact .inl ⟨_, rfl⟩
  | int n =>
    have : (Json.int n).truthy = true := by simpa [listOf] using h
    exact .inl ⟨.typeError, by simp [iterOr, orElse, this, iter]⟩
  | float value repr =>
    have : (Json.float value repr).truthy = true := by simpa [listOf] using h
    exact .inl ⟨.typeError, by simp [iterOr, orElse, this, iter]⟩
  | str t =>
    have truth : (Json.str t).truthy = true := by simpa [listOf] using h
    refine .inr ⟨t.toList.map fun c => .str (String.singleton c), by simp [iterOr, orElse, truth, iter], ?_⟩
    have nonempty : t.toList ≠ [] := by simpa [truthy] using truth
    obtain ⟨c, cs, chars⟩ := List.exists_cons_of_ne_nil nonempty
    simp [chars, strings]
  | arr items =>
    refine .inr ⟨items, ?_, by simpa [listOf] using h⟩
    cases items <;> rfl
  | obj fields =>
    have truth : (Json.obj fields).truthy = true := by simpa [listOf] using h
    refine .inr ⟨fields.map fun entry => .str entry.1, by simp [iterOr, orElse, truth, iter], ?_⟩
    have nonempty : fields ≠ [] := by simpa [truthy] using truth
    obtain ⟨entry, rest, rfl⟩ := List.exists_cons_of_ne_nil nonempty
    simp [strings]

end Json

theorem updateItem_cases (d : List (String × Json)) (item : Json) :
    if item.pair.any (fun entry => entry.1.hashable) then ∃ d', updateItem d item = .ok d'
    else ∃ e, updateItem d item = .error e := by
  unfold updateItem
  cases pair : item.pair with
  | none => exact ⟨_, rfl⟩
  | some entry =>
    obtain ⟨key, value⟩ := entry
    cases hashable : key.hashable with
    | false =>
      have := Json.key_of_not_hashable hashable
      cases key with
      | arr items => exact ⟨_, rfl⟩
      | obj fields => exact ⟨_, rfl⟩
      | _ => cases hashable
    | true =>
      cases key with
      | arr items => cases hashable
      | obj fields => cases hashable
      | _ => exact ⟨_, rfl⟩

theorem updateItems_cases (items : List Json) (d : List (String × Json)) :
    if items.all fun item => item.pair.any fun entry => entry.1.hashable then
      ∃ d', items.foldlM updateItem d = .ok d'
    else ∃ e, items.foldlM updateItem d = .error e := by
  induction items generalizing d with
  | nil => exact ⟨d, rfl⟩
  | cons item items ih =>
    have head := updateItem_cases d item
    cases ok : item.pair.any fun entry => entry.1.hashable with
    | false =>
      simp only [ok, Bool.false_eq_true, if_false] at head
      obtain ⟨e, raised⟩ := head
      simp only [List.all_cons, ok, Bool.false_and, Bool.false_eq_true, if_false, List.foldlM_cons, raised]
      exact ⟨e, rfl⟩
    | true =>
      simp only [ok, if_true] at head
      obtain ⟨d', updated⟩ := head
      simp only [List.all_cons, ok, Bool.true_and, List.foldlM_cons, updated]
      exact ih d'

/-- Whether an update goes through does not depend on the dictionary. -/
theorem updateFields_cases (d : List (String × Json)) (v : Json) :
    if v.updates then ∃ d', updateFields d v.orDict = .ok d' else ∃ e, updateFields d v.orDict = .error e := by
  unfold Json.updates
  cases v.orDict with
  | obj fields => exact ⟨_, rfl⟩
  | arr items => exact updateItems_cases items d
  | _ => exact ⟨_, rfl⟩

theorem update_of_updates {d v : Json} (dict : d.isObj = true) (h : v.updates = true) :
    ∃ fields, d.update v.orDict = .ok (.obj fields) := by
  cases d with
  | obj fields =>
    have cases := updateFields_cases fields v
    rw [h] at cases
    obtain ⟨fields', updated⟩ := cases
    exact ⟨fields', by rw [Json.update, updated]; rfl⟩
  | _ => cases dict

theorem update_of_not_updates {d v : Json} (h : v.updates = false) : ∃ e, d.update v.orDict = .error e := by
  cases d with
  | obj fields =>
    have cases := updateFields_cases fields v
    rw [h] at cases
    obtain ⟨e, raised⟩ := cases
    exact ⟨e, by rw [Json.update, raised]; rfl⟩
  | _ => exact ⟨_, rfl⟩

end Shapes

section Join

theorem mapM_text (texts : List String) : (texts.map Json.str).mapM Json.text = .ok texts := by
  induction texts with
  | nil => rfl
  | cons t texts ih => rw [List.map_cons, List.mapM_cons, ih]; rfl

theorem join_str (texts : List String) : join (texts.map Json.str) = .ok (String.join texts) := by
  rw [join, mapM_text]
  rfl

/-- Parts that are not all strings do not join. -/
theorem join_cases (parts : List Json) :
    (∃ texts : List String, parts = texts.map Json.str) ∨ (∃ part ∈ parts, part.isStr = false) ∧ ∃ e, join parts = .error e := by
  have all : (∃ texts : List String, parts = texts.map Json.str) ∨
      (∃ part ∈ parts, part.isStr = false) ∧ ∃ e, parts.mapM Json.text = .error e := by
    induction parts with
    | nil => exact .inl ⟨[], rfl⟩
    | cons part parts ih =>
      cases shape : part.isStr with
      | false =>
        refine .inr ⟨⟨part, List.mem_cons_self, shape⟩, .typeError, ?_⟩
        rw [List.mapM_cons, Json.text_of_not_isStr shape]
        rfl
      | true =>
        obtain ⟨t, rfl⟩ := Json.text_of_isStr shape
        rcases ih with ⟨texts, rfl⟩ | ⟨⟨other, mem, odd⟩, e, raised⟩
        · exact .inl ⟨t :: texts, rfl⟩
        · refine .inr ⟨⟨other, List.mem_cons_of_mem _ mem, odd⟩, e, ?_⟩
          rw [List.mapM_cons, raised]
          rfl
  rcases all with texts | ⟨odd, e, raised⟩
  · exact .inl texts
  · exact .inr ⟨odd, e, by rw [join, raised]; rfl⟩

theorem join_append_str {parts : List Json} {text : String} (h : join parts = .ok text) (piece : String) :
    join (parts ++ [.str piece]) = .ok (text ++ piece) := by
  rcases join_cases parts with ⟨texts, rfl⟩ | ⟨-, e, raised⟩
  · rw [join_str] at h
    obtain rfl := Except.ok.inj h
    have parts : texts.map Json.str ++ [.str piece] = (texts ++ [piece]).map Json.str := by simp
    rw [parts, join_str, String.join_append]
    simp
  · rw [h] at raised
    cases raised

theorem toList_join (texts : List String) : (String.join texts).toList = texts.flatMap String.toList := by
  induction texts with
  | nil => rfl
  | cons t texts ih => rw [String.join_cons, String.toList_append, ih, List.flatMap_cons]

theorem blank_join (texts : List String) : blank (String.join texts) = texts.all blank := by
  unfold blank
  rw [toList_join, List.all_flatMap]

end Join

section Sorted

variable {α : Type}

theorem map_filterMap_of_length {β γ : Type} {f : β → Option γ} {g : γ → β} (inv : ∀ b c, f b = some c → g c = b)
    {l : List β} (full : (l.filterMap f).length = l.length) : (l.filterMap f).map g = l := by
  induction l with
  | nil => rfl
  | cons b l ih =>
    cases value : f b with
    | none =>
      rw [List.filterMap_cons_none value] at full
      have := List.length_filterMap_le f l
      rw [List.length_cons] at full
      omega
    | some c =>
      rw [List.filterMap_cons_some value, List.length_cons, List.length_cons] at full
      rw [List.filterMap_cons_some value, List.map_cons, inv b c value, ih (by omega)]

open List in
theorem sortedKeys_perm {keys sorted : List Key} (h : sortedKeys keys = .ok sorted) : sorted.Perm keys := by
  unfold sortedKeys at h
  dsimp only at h
  split at h
  · obtain rfl := Except.ok.inj h
    exact List.Perm.refl _
  split at h
  · rename_i full
    obtain rfl := Except.ok.inj h
    have back := map_filterMap_of_length (g := Key.num) (fun b c => by cases b <;> simp [Key.num?, eq_comm]) full
    calc
      _ ~ (keys.filterMap Key.num?).map Key.num := (List.perm_insertionSort _ _).map _
      _ = keys := back
  split at h
  · rename_i full
    obtain rfl := Except.ok.inj h
    have back := map_filterMap_of_length (g := Key.str) (fun b c => by cases b <;> simp [Key.str?, eq_comm]) full
    calc
      _ ~ (keys.filterMap Key.str?).map Key.str := (List.perm_insertionSort _ _).map _
      _ = keys := back
  · cases h

/-- What is kept under some key comes out in key order. -/
theorem inKeyOrder_ne_nil {d : List (Key × α)} {l : List α} (nonempty : d ≠ []) (h : inKeyOrder d = .ok l) :
    l ≠ [] := by
  unfold inKeyOrder at h
  cases sorted : sortedKeys (d.map (·.1)) with
  | error e =>
    rw [sorted] at h
    cases h
  | ok keys =>
    rw [sorted] at h
    obtain rfl := Except.ok.inj h
    obtain ⟨entry, rest, rfl⟩ := List.exists_cons_of_ne_nil nonempty
    have mem : entry.1 ∈ keys := (sortedKeys_perm sorted).mem_iff.mpr (by simp)
    have found : List.lookup entry.1 (entry :: rest) = some entry.2 := List.lookup_cons_self
    exact List.ne_nil_of_mem (List.mem_filterMap.mpr ⟨entry.1, mem, found⟩)

theorem isEmpty_inKeyOrder {d : List (Key × α)} {l : List α} (h : inKeyOrder d = .ok l) : l.isEmpty = d.isEmpty := by
  cases d with
  | nil =>
    obtain rfl := Except.ok.inj h
    rfl
  | cons entry rest => exact List.isEmpty_eq_false_iff.mpr (inKeyOrder_ne_nil (List.cons_ne_nil _ _) h)

theorem insert_ne_nil [DecidableEq α] {β : Type} (key : α) (value : β) (d : List (α × β)) :
    insert key value d ≠ [] := by
  unfold insert
  split
  · rename_i found
    intro empty
    rw [List.map_eq_nil_iff] at empty
    subst empty
    cases found
  · simp

theorem forall_insert [DecidableEq α] {β : Type} {P : β → Prop} {key : α} {value : β} {d : List (α × β)}
    (all : ∀ entry ∈ d, P entry.2) (new : P value) : ∀ entry ∈ insert key value d, P entry.2 := by
  intro entry mem
  unfold insert at mem
  split at mem
  · obtain ⟨old, within, rfl⟩ := List.mem_map.mp mem
    split
    · exact new
    · exact all old within
  · rcases List.mem_append.mp mem with within | here
    · exact all entry within
    · rw [List.mem_singleton.mp here]
      exact new

theorem mem_of_lookup [DecidableEq α] {β : Type} {key : α} {value : β} {d : List (α × β)}
    (found : d.lookup key = some value) : (key, value) ∈ d := by
  induction d with
  | nil => cases found
  | cons entry d ih =>
    by_cases same : key = entry.1
    · subst same
      rw [List.lookup_cons_self] at found
      obtain rfl := Option.some.inj found
      exact List.mem_cons_self
    · rw [List.lookup_cons, beq_eq_false_iff_ne.mpr same] at found
      exact List.mem_cons_of_mem _ (ih found)

theorem mem_insert [DecidableEq α] {β : Type} {key : α} {value : β} {d : List (α × β)} {entry : α × β}
    (mem : entry ∈ insert key value d) : entry = (key, value) ∨ entry ∈ d ∧ entry.1 ≠ key := by
  unfold insert at mem
  split at mem
  · obtain ⟨old, within, rfl⟩ := List.mem_map.mp mem
    split
    · exact .inl rfl
    · rename_i other
      exact .inr ⟨within, other⟩
  · rename_i absent
    rcases List.mem_append.mp mem with within | here
    · refine .inr ⟨within, fun same => absent ?_⟩
      rw [List.lookup_isSome_iff]
      exact ⟨entry, within, by simp [same]⟩
    · exact .inl (List.mem_singleton.mp here)

end Sorted

section Dumps

/-- The lower-case hexadecimal digit of a number below sixteen. -/
def hexDigit (n : Nat) : Char := if n < 10 then Char.ofNat (48 + n) else Char.ofNat (87 + n)

/-- `\uXXXX` of a number below `16 ^ 4`. -/
def unicodeEscape (n : Nat) : String :=
  String.ofList ['\\', 'u', hexDigit (n / 4096 % 16), hexDigit (n / 256 % 16), hexDigit (n / 16 % 16), hexDigit (n % 16)]

/-- A character inside a string of `json.dumps`, which writes ASCII only. -/
def escapeChar (c : Char) : String :=
  let n := c.toNat
  if c = '"' then "\\\"" else if c = '\\' then "\\\\"
  else if n = 8 then "\\b" else if n = 9 then "\\t" else if n = 10 then "\\n"
  else if n = 12 then "\\f" else if n = 13 then "\\r"
  else if 32 ≤ n ∧ n ≤ 126 then String.singleton c
  else if n < 0x10000 then unicodeEscape n
  else unicodeEscape (0xD800 + (n - 0x10000) / 0x400) ++ unicodeEscape (0xDC00 + (n - 0x10000) % 0x400)

def quote (text : String) : String := "\"" ++ String.join (text.toList.map escapeChar) ++ "\""

mutual

/-- `json.dumps`. -/
def Json.dumps : Json → String
  | .null => "null"
  | .bool b => if b then "true" else "false"
  | .int n => toString n
  | .float _ repr => repr
  | .str text => quote text
  | .arr items => "[" ++ String.intercalate ", " (dumpsItems items) ++ "]"
  | .obj fields => "\x7b" ++ String.intercalate ", " (dumpsFields fields) ++ "\x7d"

def dumpsItems : List Json → List String
  | [] => []
  | item :: items => item.dumps :: dumpsItems items

def dumpsFields : List (String × Json) → List String
  | [] => []
  | (key, value) :: fields => (quote key ++ ": " ++ value.dumps) :: dumpsFields fields

end

example : (Json.obj [("id", .str "a\"b"), ("n", .arr [.int (-3), .null])]).dumps =
    "\x7b\"id\": \"a\\\"b\", \"n\": [-3, null]\x7d" := by decide +kernel

end Dumps

end Unhardcoded.Python
