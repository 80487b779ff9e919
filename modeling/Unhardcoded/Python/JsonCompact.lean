import Unhardcoded.Python.JsonRoundTrip

/-!
# Compact JSON texts

`json.dumps` with `separators=(",", ":")`. What it writes is ASCII, is read back, and no
proper part of a dictionary from its start is a JSON text: a text that was cut short is
refused, never read as another value.
-/

namespace Unhardcoded.Python

section Compact

mutual

/-- `json.dumps(v, separators=(",", ":"))`. -/
def Json.compact : Json → String
  | .null => "null"
  | .bool b => if b then "true" else "false"
  | .int n => toString n
  | .float _ repr => repr
  | .str text => quote text
  | .arr items => "[" ++ String.intercalate "," (Json.compactItems items) ++ "]"
  | .obj fields => "\x7b" ++ String.intercalate "," (Json.compactFields fields) ++ "\x7d"

def Json.compactItems : List Json → List String
  | [] => []
  | item :: items => item.compact :: Json.compactItems items

def Json.compactFields : List (String × Json) → List String
  | [] => []
  | (key, value) :: fields => (quote key ++ ":" ++ value.compact) :: Json.compactFields fields

end

example : (Json.obj [("id", .str "a\"b"), ("n", .arr [.int (-3), .null])]).compact =
    "\x7b\"id\":\"a\\\"b\",\"n\":[-3,null]\x7d" := by decide +kernel

/-- What an entry of a dictionary is written as. -/
def pairText (entry : String × Json) : List Char := (quote entry.1).toList ++ (':' :: entry.2.compact.toList)

/-- Texts with a comma between. -/
def commas : List (List Char) → List Char
  | [] => []
  | [text] => text
  | text :: next :: texts => text ++ (',' :: commas (next :: texts))

theorem toList_intercalate_comma (texts : List String) :
    (String.intercalate "," texts).toList = commas (texts.map String.toList) := by
  induction texts with
  | nil => rfl
  | cons text texts ih =>
    cases texts with
    | nil => rw [String.intercalate_singleton]; rfl
    | cons next texts =>
      rw [String.intercalate_cons_cons, String.toList_append, String.toList_append, ih, List.append_assoc]
      rfl

theorem compactItems_map (items : List Json) : (Json.compactItems items).map String.toList = items.map (·.compact.toList) := by
  induction items with
  | nil => rfl
  | cons item items ih => rw [Json.compactItems, List.map_cons, ih, List.map_cons]

theorem compactFields_map (fields : List (String × Json)) : (Json.compactFields fields).map String.toList = fields.map pairText := by
  induction fields with
  | nil => rfl
  | cons entry fields ih =>
    rw [Json.compactFields, List.map_cons, ih, List.map_cons]
    congr 1
    simp only [pairText, String.toList_append, List.append_assoc]
    rfl

theorem toList_compact_arr (items : List Json) :
    (Json.arr items).compact.toList = '[' :: (commas (items.map (·.compact.toList)) ++ [']']) := by
  rw [Json.compact, String.toList_append, String.toList_append, toList_intercalate_comma, compactItems_map]
  rfl

theorem toList_compact_obj (fields : List (String × Json)) :
    (Json.obj fields).compact.toList = '\x7b' :: (commas (fields.map pairText) ++ ['\x7d']) := by
  rw [Json.compact, String.toList_append, String.toList_append, toList_intercalate_comma, compactFields_map]
  rfl

end Compact

section Read

variable {float : String → Json}

/-- How the text of a value begins. -/
theorem compact_opens {v : Json} (sound : v.Sound float) : ∃ c cs, v.compact.toList = c :: cs ∧ Opens c := by
  cases v with
  | null => exact ⟨'n', _, rfl, by decide, by decide, by decide⟩
  | bool b => cases b <;> exact ⟨_, _, rfl, by decide, by decide, by decide⟩
  | int n =>
    obtain ⟨c, cs, text, first⟩ := integer_opens n
    exact ⟨c, cs, by rw [Json.compact, text], (opens_of_number first).1⟩
  | float q repr =>
    obtain ⟨-, -, c, cs, text, first⟩ := isFloatText_number sound.1
    exact ⟨c, cs, by rw [Json.compact, text], (opens_of_number first).1⟩
  | str text => exact ⟨'"', _, by rw [Json.compact, toList_quote], by decide, by decide, by decide⟩
  | arr items => exact ⟨'[', _, toList_compact_arr items, by decide, by decide, by decide⟩
  | obj fields => exact ⟨'\x7b', _, toList_compact_obj fields, by decide, by decide, by decide⟩

/-- The scanner reads a value from its text, whatever stops it behind. -/
def ReadsCompact (float : String → Json) (v : Json) : Prop :=
  ∀ (fuel : Nat) (rest : List Char), v.compact.toList.length ≤ fuel → Stops rest →
    scanValue float fuel (v.compact.toList ++ rest) = some (v, rest)

theorem scanItems_compact {item : Json} {items : List Json} (sound : SoundItems float (item :: items))
    (reads : ∀ v ∈ item :: items, ReadsCompact float v) {fuel : Nat} (rest : List Char)
    (enough : (commas ((item :: items).map (·.compact.toList))).length < fuel) :
    scanItems float fuel (commas ((item :: items).map (·.compact.toList)) ++ ']' :: rest) = some (item :: items, rest) := by
  induction items generalizing item fuel with
  | nil =>
    obtain ⟨fuel, rfl⟩ : ∃ n, fuel = n + 1 := ⟨fuel - 1, by omega⟩
    simp only [List.map_cons, List.map_nil, commas] at enough ⊢
    have read := reads item List.mem_cons_self fuel (']' :: rest) (by omega) (stops_cons (by decide))
    rw [scanItems, read, Option.bind_eq_bind, Option.bind_some]
    rfl
  | cons next items ih =>
    obtain ⟨fuel, rfl⟩ : ∃ n, fuel = n + 1 := ⟨fuel - 1, by omega⟩
    simp only [List.map_cons, commas] at enough ih ⊢
    rw [List.length_append, List.length_cons] at enough
    have later := ih sound.2 (fun v mem => reads v (List.mem_cons_of_mem _ mem)) (by omega : _ < fuel)
    have read := reads item List.mem_cons_self fuel
      (',' :: (commas (next.compact.toList :: items.map (·.compact.toList)) ++ ']' :: rest)) (by omega) (stops_cons (by decide))
    obtain ⟨c, cs, text, opens⟩ := compact_opens sound.2.1
    have spaced : skipSpace (commas (next.compact.toList :: items.map (·.compact.toList)) ++ ']' :: rest) =
        commas (next.compact.toList :: items.map (·.compact.toList)) ++ ']' :: rest := by
      cases items with
      | nil =>
        simp only [List.map_nil, commas, text]
        exact skipSpace_of_opens opens _
      | cons after items =>
        simp only [List.map_cons, commas, text]
        exact skipSpace_of_opens opens _
    rw [List.append_assoc, List.cons_append, scanItems, read, Option.bind_eq_bind, Option.bind_some]
    dsimp only
    rw [show skipSpace (',' :: (commas (next.compact.toList :: items.map (·.compact.toList)) ++ ']' :: rest)) =
      ',' :: (commas (next.compact.toList :: items.map (·.compact.toList)) ++ ']' :: rest) from rfl]
    dsimp only
    rw [if_neg (by decide), if_pos rfl, spaced, later]
    rfl

/-- A key and its value, up to what follows the entry. -/
theorem scanFields_pair {entry : String × Json} (sound : entry.2.Sound float) (reads : ReadsCompact float entry.2) {fuel : Nat}
    {after : List Char} (stops : Stops after) (enough : (pairText entry).length ≤ fuel) :
    scanFields float (fuel + 1) (pairText entry ++ after) =
      match skipSpace after with
      | [] => none
      | c :: rest =>
        if c = '\x7d' then some ([entry], rest)
        else if c = ',' then (scanFields float fuel (skipSpace rest)).map fun p => (entry :: p.1, p.2)
        else none := by
  obtain ⟨c, text, value, opens⟩ := compact_opens sound
  unfold pairText at enough ⊢
  rw [List.length_append, List.length_cons] at enough
  have read := reads fuel after (by omega) stops
  obtain ⟨cs, quoted, key⟩ := scanString_quote entry.1 (':' :: (entry.2.compact.toList ++ after))
  have spaced : skipSpace (entry.2.compact.toList ++ after) = entry.2.compact.toList ++ after := by
    rw [value]
    exact skipSpace_of_opens opens _
  rw [List.append_assoc, List.cons_append, quoted, scanFields, if_pos rfl, key, Option.bind_eq_bind, Option.bind_some]
  dsimp only
  rw [show skipSpace (':' :: (entry.2.compact.toList ++ after)) = ':' :: (entry.2.compact.toList ++ after) from rfl]
  dsimp only
  rw [if_pos rfl, spaced, read, Option.bind_eq_bind, Option.bind_some, String.ofList_toList]
  dsimp only
  cases skipSpace after with
  | nil => rfl
  | cons c rest =>
    dsimp only
    split_ifs
    · rfl
    · cases scanFields float fuel (skipSpace rest) <;> rfl
    · rfl

theorem pairText_opens (entry : String × Json) : ∃ cs, pairText entry = '"' :: cs := by
  unfold pairText
  rw [toList_quote]
  exact ⟨_, rfl⟩

theorem commas_opens (entry : String × Json) (fields : List (String × Json)) :
    ∃ cs, commas ((entry :: fields).map pairText) = '"' :: cs := by
  obtain ⟨cs, text⟩ := pairText_opens entry
  cases fields with
  | nil => exact ⟨cs, by rw [List.map_cons, List.map_nil, commas, text]⟩
  | cons next fields => exact ⟨_, by rw [List.map_cons, List.map_cons, commas, text, List.cons_append]⟩

theorem scanFields_compact {entry : String × Json} {fields : List (String × Json)} (sound : SoundFields float (entry :: fields))
    (reads : ∀ e ∈ entry :: fields, ReadsCompact float e.2) {fuel : Nat} (rest : List Char)
    (enough : (commas ((entry :: fields).map pairText)).length < fuel) :
    scanFields float fuel (commas ((entry :: fields).map pairText) ++ '\x7d' :: rest) = some (entry :: fields, rest) := by
  induction fields generalizing entry fuel with
  | nil =>
    obtain ⟨fuel, rfl⟩ : ∃ n, fuel = n + 1 := ⟨fuel - 1, by omega⟩
    simp only [List.map_cons, List.map_nil, commas] at enough ⊢
    exact scanFields_pair sound.1 (reads entry List.mem_cons_self) (stops_cons (by decide)) (by omega)
  | cons next fields ih =>
    obtain ⟨fuel, rfl⟩ : ∃ n, fuel = n + 1 := ⟨fuel - 1, by omega⟩
    obtain ⟨cs, text⟩ := commas_opens next fields
    simp only [List.map_cons, commas] at enough ih text ⊢
    rw [List.length_append, List.length_cons] at enough
    have later := ih sound.2 (fun e mem => reads e (List.mem_cons_of_mem _ mem)) (by omega : _ < fuel)
    have spaced : skipSpace (commas (pairText next :: fields.map pairText) ++ '\x7d' :: rest) =
        commas (pairText next :: fields.map pairText) ++ '\x7d' :: rest := by
      rw [text]
      rfl
    rw [List.append_assoc, List.cons_append,
      scanFields_pair sound.1 (reads entry List.mem_cons_self) (stops_cons (by decide)) (by omega),
      show skipSpace (',' :: (commas (pairText next :: fields.map pairText) ++ '\x7d' :: rest)) =
        ',' :: (commas (pairText next :: fields.map pairText) ++ '\x7d' :: rest) from rfl]
    dsimp only
    rw [if_neg (by decide), if_pos rfl, spaced, later]
    rfl

theorem scanValue_compact : ∀ (v : Json), v.Sound float → ReadsCompact float v
  | .null, _, fuel, rest, enough, _ => by
    obtain ⟨fuel, rfl⟩ : ∃ n, fuel = n + 1 := ⟨fuel - 1, by have : 4 ≤ fuel := enough; omega⟩
    rfl
  | .bool b, _, fuel, rest, enough, _ => by
    obtain ⟨fuel, rfl⟩ : ∃ n, fuel = n + 1 := by
      refine ⟨fuel - 1, ?_⟩
      cases b with
      | false =>
        have : 5 ≤ fuel := enough
        omega
      | true =>
        have : 4 ≤ fuel := enough
        omega
    cases b <;> rfl
  | .int n, _, fuel, rest, enough, stops => by
    rw [Json.compact] at enough ⊢
    obtain ⟨fuel, rfl⟩ := succ_of_opened (integer_opens n) enough
    rw [scanValue_number float (opened_append (integer_opens n) rest), scanNumber_int float n stops]
  | .float q repr, sound, fuel, rest, enough, stops => by
    rw [Json.compact] at enough ⊢
    have opened := (isFloatText_number sound.1).2.2
    obtain ⟨fuel, rfl⟩ := succ_of_opened opened enough
    rw [scanValue_number float (opened_append opened rest), scanNumber_float float sound stops]
  | .str text, _, fuel, rest, enough, _ => by
    rw [Json.compact] at enough ⊢
    obtain ⟨fuel, rfl⟩ : ∃ n, fuel = n + 1 := by
      rw [toList_quote, List.length_cons] at enough
      exact ⟨fuel - 1, by omega⟩
    obtain ⟨cs, quoted, read⟩ := scanString_quote text rest
    rw [quoted, scanValue, if_pos rfl, read, Option.bind_eq_bind, Option.bind_some]
    dsimp only
    rw [String.ofList_toList]
    rfl
  | .arr [], _, fuel, rest, enough, _ => by
    obtain ⟨fuel, rfl⟩ : ∃ n, fuel = n + 1 := ⟨fuel - 1, by have : 2 ≤ fuel := enough; omega⟩
    rfl
  | .arr (item :: items), sound, fuel, rest, enough, _ => by
    have each : ∀ v ∈ item :: items, ReadsCompact float v := fun v mem =>
      scanValue_compact v ((soundItems_iff float _).mp sound v mem)
    rw [toList_compact_arr, List.length_cons, List.length_append, List.length_singleton] at enough
    obtain ⟨fuel, rfl⟩ : ∃ n, fuel = n + 1 := ⟨fuel - 1, by omega⟩
    have read := scanItems_compact sound each rest (by omega : _ < fuel)
    have opened : ∃ c cs, commas ((item :: items).map (·.compact.toList)) = c :: cs ∧ Opens c := by
      obtain ⟨c, cs, text, opens⟩ := compact_opens sound.1
      cases items with
      | nil => exact ⟨c, cs, by rw [List.map_cons, List.map_nil, commas, text], opens⟩
      | cons next items => exact ⟨c, _, by rw [List.map_cons, List.map_cons, commas, text, List.cons_append], opens⟩
    obtain ⟨c, cs, text, opens⟩ := opened
    rw [toList_compact_arr, List.cons_append, List.append_assoc, List.singleton_append, scanValue, if_neg (by decide), if_pos rfl]
    rw [text, List.cons_append] at read ⊢
    rw [skipSpace_of_opens opens, if_neg (by simp [opens.2.1]), read]
    rfl
  | .obj [], _, fuel, rest, enough, _ => by
    obtain ⟨fuel, rfl⟩ : ∃ n, fuel = n + 1 := ⟨fuel - 1, by have : 2 ≤ fuel := enough; omega⟩
    rfl
  | .obj (entry :: fields), sound, fuel, rest, enough, _ => by
    have each : ∀ e ∈ entry :: fields, ReadsCompact float e.2 := fun e mem =>
      scanValue_compact e.2 ((soundFields_iff float _).mp sound.2 e mem)
    rw [toList_compact_obj, List.length_cons, List.length_append, List.length_singleton] at enough
    obtain ⟨fuel, rfl⟩ : ∃ n, fuel = n + 1 := ⟨fuel - 1, by omega⟩
    have read := scanFields_compact sound.2 each rest (by omega : _ < fuel)
    obtain ⟨cs, text⟩ := commas_opens entry fields
    have noBrace : ¬ ('"' :: (cs ++ '\x7d' :: rest)).head? = some '\x7d' := by
      rw [List.head?_cons]
      decide
    rw [toList_compact_obj, List.cons_append, List.append_assoc, List.singleton_append, scanValue, if_neg (by decide),
      if_neg (by decide), if_pos rfl]
    rw [text, List.cons_append] at read ⊢
    rw [skipSpace_of_opens (by decide : Opens '"'), if_neg noBrace, read, Option.bind_eq_bind, Option.bind_some]
    dsimp only
    rw [foldl_insert_nodup sound.1]
    rfl
termination_by v => sizeOf v
decreasing_by
  · have := List.sizeOf_lt_of_mem mem
    simp only [Json.arr.sizeOf_spec]
    omega
  · have := List.sizeOf_lt_of_mem mem
    have : sizeOf e.2 < sizeOf e := by
      cases e
      simp only [Prod.mk.sizeOf_spec]
      omega
    simp only [Json.obj.sizeOf_spec]
    omega

/-- `json.loads` reads back what was written. -/
theorem loads_compact {v : Json} (sound : v.Sound float) : loads float v.compact = some v := by
  obtain ⟨c, cs, text, opens⟩ := compact_opens sound
  have read := scanValue_compact v sound (v.compact.toList.length + 1) [] (Nat.le_succ _) stops_nil
  rw [List.append_nil] at read
  unfold loads
  rw [text] at read ⊢
  rw [skipSpace_of_opens opens, read]
  rfl

theorem commas_printable {texts : List (List Char)} (each : ∀ text ∈ texts, text.all printable = true) :
    (commas texts).all printable = true := by
  induction texts with
  | nil => rfl
  | cons text texts ih =>
    have first := each text List.mem_cons_self
    have later := ih fun t mem => each t (List.mem_cons_of_mem _ mem)
    cases texts with
    | nil => rw [commas, first]
    | cons next texts =>
      rw [commas, List.all_append, List.all_cons, first, later]
      decide

/-- Compact texts are ASCII on one line. -/
theorem compact_printable : ∀ (v : Json), v.Sound float → v.compact.toList.all printable = true
  | .null, _ => by decide
  | .bool b, _ => by cases b <;> decide
  | .int n, _ => number_printable (scanInteger n).1
  | .float q repr, sound => number_printable (isFloatText_number sound.1).1
  | .str text, _ => quote_printable text
  | .arr items, sound => by
    have each : ∀ text ∈ items.map (·.compact.toList), text.all printable = true := by
      intro text mem
      obtain ⟨v, within, rfl⟩ := List.mem_map.mp mem
      exact compact_printable v ((soundItems_iff float _).mp sound v within)
    rw [toList_compact_arr, List.all_cons, List.all_append, commas_printable each]
    decide
  | .obj fields, sound => by
    have each : ∀ text ∈ fields.map pairText, text.all printable = true := by
      intro text mem
      obtain ⟨e, within, rfl⟩ := List.mem_map.mp mem
      have value := compact_printable e.2 ((soundFields_iff float _).mp sound.2 e within)
      unfold pairText
      rw [List.all_append, List.all_cons, quote_printable, value]
      decide
    rw [toList_compact_obj, List.all_cons, List.all_append, commas_printable each]
    decide
termination_by v => sizeOf v
decreasing_by
  · have := List.sizeOf_lt_of_mem within
    simp only [Json.arr.sizeOf_spec]
    omega
  · have := List.sizeOf_lt_of_mem within
    have : sizeOf e.2 < sizeOf e := by
      cases e
      simp only [Prod.mk.sizeOf_spec]
      omega
    simp only [Json.obj.sizeOf_spec]
    omega

end Read

section Extend

variable {float : String → Json} {cs rest : List Char}

theorem skipSpace_append (full : skipSpace cs ≠ []) (more : List Char) : skipSpace (cs ++ more) = skipSpace cs ++ more := by
  induction cs with
  | nil => exact absurd rfl full
  | cons c cs ih =>
    unfold skipSpace at full ih ⊢
    by_cases space : isJsonSpace c = true
    · rw [List.dropWhile_cons_of_pos space] at full ⊢
      rw [List.cons_append, List.dropWhile_cons_of_pos space, ih full]
    · rw [List.dropWhile_cons_of_neg space, List.cons_append, List.dropWhile_cons_of_neg space]

theorem skipSpace_more {c : Char} (h : skipSpace cs = c :: rest) (more : List Char) :
    skipSpace (cs ++ more) = c :: (rest ++ more) := by
  rw [skipSpace_append (by rw [h]; exact List.cons_ne_nil _ _), h, List.cons_append]

theorem hexFour_append {n : Nat} (h : hexFour cs = some (n, rest)) (more : List Char) :
    hexFour (cs ++ more) = some (n, rest ++ more) := by
  match cs, h with
  | a :: b :: c :: d :: cs, h =>
    simp only [hexFour, Option.bind_eq_bind, Option.bind_eq_some_iff] at h
    obtain ⟨a', ha, b', hb, c', hc, d', hd, same⟩ := h
    obtain ⟨rfl, rfl⟩ := Prod.mk.inj (Option.some.inj same)
    simp [hexFour, ha, hb, hc, hd]

theorem lowSurrogate_append {c : Char} {high : Nat} (h : lowSurrogate high cs = some (c, rest)) (more : List Char) :
    lowSurrogate high (cs ++ more) = some (c, rest ++ more) := by
  match cs, h with
  | a :: b :: cs, h =>
    rw [lowSurrogate] at h
    split_ifs at h with escaped
    obtain ⟨⟨low, after⟩, four, h⟩ := Option.bind_eq_some_iff.mp h
    dsimp only at h
    split_ifs at h with range
    obtain ⟨rfl, rfl⟩ := Prod.mk.inj (Option.some.inj h)
    rw [List.cons_append, List.cons_append, lowSurrogate, if_pos escaped, hexFour_append four more, Option.bind_eq_bind,
      Option.bind_some]
    dsimp only
    rw [if_pos range]
    rfl

theorem readEscape_append {c : Char} (h : readEscape cs = some (c, rest)) (more : List Char) :
    readEscape (cs ++ more) = some (c, rest ++ more) := by
  cases cs with
  | nil => cases h
  | cons e cs =>
    rw [readEscape] at h
    rw [List.cons_append, readEscape]
    split_ifs at h ⊢ with unicode
    · obtain ⟨⟨n, after⟩, four, h⟩ := Option.bind_eq_some_iff.mp h
      rw [hexFour_append four more, Option.bind_eq_bind, Option.bind_some]
      dsimp only at h ⊢
      split_ifs at h ⊢ with high low
      · exact lowSurrogate_append h more
      · obtain ⟨rfl, rfl⟩ := Prod.mk.inj (Option.some.inj h)
        rfl
    · obtain ⟨d, simple, same⟩ := Option.map_eq_some_iff.mp h
      obtain ⟨rfl, rfl⟩ := Prod.mk.inj same
      rw [simple]
      rfl

theorem scanString_append {fuel bound : Nat} {text : List Char} (h : scanString fuel cs = some (text, rest))
    (enough : fuel ≤ bound) (more : List Char) : scanString bound (cs ++ more) = some (text, rest ++ more) := by
  induction fuel generalizing cs text bound with
  | zero => simp [scanString] at h
  | succ fuel ih =>
    obtain ⟨bound, rfl⟩ : ∃ n, bound = n + 1 := ⟨bound - 1, by omega⟩
    cases cs with
    | nil => simp [scanString] at h
    | cons c cs =>
      rw [scanString] at h
      rw [List.cons_append, scanString]
      split_ifs at h ⊢ with quoted escaped control
      · obtain ⟨rfl, rfl⟩ := Prod.mk.inj (Option.some.inj h)
        rfl
      · obtain ⟨⟨d, after⟩, read, h⟩ := Option.bind_eq_some_iff.mp h
        obtain ⟨⟨tail, last⟩, scanned, h⟩ := Option.bind_eq_some_iff.mp h
        obtain ⟨rfl, rfl⟩ := Prod.mk.inj (Option.some.inj h)
        rw [readEscape_append read more, Option.bind_eq_bind, Option.bind_some]
        dsimp only
        rw [ih scanned (by omega)]
        rfl
      · obtain ⟨⟨tail, last⟩, scanned, h⟩ := Option.bind_eq_some_iff.mp h
        obtain ⟨rfl, rfl⟩ := Prod.mk.inj (Option.some.inj h)
        rw [ih scanned (by omega)]
        rfl

/-- The bound that the scanner takes for a string grows with the text. -/
theorem scanString_more {text : List Char} (h : scanString (cs.length + 1) cs = some (text, rest)) (more : List Char) :
    scanString ((cs ++ more).length + 1) (cs ++ more) = some (text, rest ++ more) :=
  scanString_append h (by simp) more

theorem scanNumber_append {v : Json} (h : scanNumber float cs = some (v, rest)) (more : List Char) (behind : rest ≠ []) :
    scanNumber float (cs ++ more) = some (v, rest ++ more) := by
  unfold scanNumber at h
  dsimp only at h
  have left : cs.dropWhile isNumberChar = rest := by
    split_ifs at h <;> exact (Prod.mk.inj (Option.some.inj h)).2
  have stops : Stops (rest ++ more) := by
    obtain ⟨c, tail, rfl⟩ := List.exists_cons_of_ne_nil behind
    refine stops_cons ?_
    have := List.head?_dropWhile_not isNumberChar cs
    rw [left] at this
    simpa using this
  have whole : (cs.takeWhile isNumberChar).all isNumberChar = true := List.all_takeWhile
  obtain ⟨taken, dropped⟩ := span_number whole stops
  have split : cs ++ more = cs.takeWhile isNumberChar ++ (rest ++ more) := by
    rw [← List.append_assoc, ← left, List.takeWhile_append_dropWhile]
  unfold scanNumber
  dsimp only
  rw [split, taken, dropped]
  split_ifs at h ⊢
  · rw [(Prod.mk.inj (Option.some.inj h)).1]
  · rw [(Prod.mk.inj (Option.some.inj h)).1]

theorem scanWord_append {word : String} {v w : Json} (h : scanWord word v cs = some (w, rest)) (more : List Char) :
    scanWord word v (cs ++ more) = some (w, rest ++ more) := by
  unfold scanWord at h ⊢
  split_ifs at h with here
  obtain ⟨rfl, rfl⟩ := Prod.mk.inj (Option.some.inj h)
  obtain ⟨after, rfl⟩ := List.isPrefixOf_iff_prefix.mp here
  have dropped (tail : List Char) : (word.toList ++ tail).drop word.length = tail := by
    rw [← String.length_toList, List.drop_left]
  rw [if_pos (List.isPrefixOf_iff_prefix.mpr ⟨after ++ more, by rw [List.append_assoc]⟩), List.append_assoc, dropped, dropped]

theorem scanValue_nil (fuel : Nat) : scanValue float fuel [] = none := by
  cases fuel <;> simp [scanValue]

theorem scanItems_nil (fuel : Nat) : scanItems float fuel [] = none := by
  cases fuel <;> simp [scanItems, scanValue_nil]

theorem scanFields_nil (fuel : Nat) : scanFields float fuel [] = none := by
  cases fuel <;> simp [scanFields]

/-- A value whose end does not hang on what follows, or that something follows. -/
def Closed (cs rest : List Char) : Prop := cs.head? = some '\x7b' ∨ rest ≠ []

/-- What the scanner reads with a bound, it reads with a larger one and in front of more text. -/
structure Extends (float : String → Json) (fuel bound : Nat) : Prop where
  value : ∀ {cs rest v}, scanValue float fuel cs = some (v, rest) → Closed cs rest → ∀ more,
    scanValue float bound (cs ++ more) = some (v, rest ++ more)
  items : ∀ {cs rest items}, scanItems float fuel cs = some (items, rest) → ∀ more,
    scanItems float bound (cs ++ more) = some (items, rest ++ more)
  fields : ∀ {cs rest fields}, scanFields float fuel cs = some (fields, rest) → ∀ more,
    scanFields float bound (cs ++ more) = some (fields, rest ++ more)

theorem value_append {fuel bound : Nat} (ih : Extends float fuel bound) {v : Json}
    (h : scanValue float (fuel + 1) cs = some (v, rest)) (closed : Closed cs rest) (more : List Char) :
    scanValue float (bound + 1) (cs ++ more) = some (v, rest ++ more) := by
  cases cs with
  | nil => simp [scanValue] at h
  | cons c cs =>
    rw [scanValue] at h
    rw [List.cons_append, scanValue]
    split_ifs at h with string array empty object noField n t f
    · rw [if_pos string]
      obtain ⟨⟨text, after⟩, read, h⟩ := Option.bind_eq_some_iff.mp h
      obtain ⟨rfl, rfl⟩ := Prod.mk.inj (Option.some.inj h)
      rw [scanString_more read, Option.bind_eq_bind, Option.bind_some]
      rfl
    · obtain ⟨rfl, rfl⟩ := Prod.mk.inj (Option.some.inj h)
      obtain ⟨tail, spaced⟩ := List.head?_eq_some_iff.mp empty
      rw [if_neg string, if_pos array, skipSpace_more spaced, List.head?_cons, if_pos rfl, spaced]
      rfl
    · obtain ⟨⟨items, after⟩, read, h⟩ := Option.bind_eq_some_iff.mp h
      obtain ⟨rfl, rfl⟩ := Prod.mk.inj (Option.some.inj h)
      have full : skipSpace cs ≠ [] := by
        intro nothing
        rw [nothing] at read
        rw [scanItems_nil] at read
        cases read
      obtain ⟨d, tail, spaced⟩ := List.exists_cons_of_ne_nil full
      rw [spaced] at empty
      rw [if_neg string, if_pos array, skipSpace_append full, if_neg (by rw [spaced]; exact empty), ih.items read,
        Option.bind_eq_bind, Option.bind_some]
      rfl
    · obtain ⟨rfl, rfl⟩ := Prod.mk.inj (Option.some.inj h)
      obtain ⟨tail, spaced⟩ := List.head?_eq_some_iff.mp noField
      rw [if_neg string, if_neg array, if_pos object, skipSpace_more spaced, List.head?_cons, if_pos rfl, spaced]
      rfl
    · obtain ⟨⟨fields, after⟩, read, h⟩ := Option.bind_eq_some_iff.mp h
      obtain ⟨rfl, rfl⟩ := Prod.mk.inj (Option.some.inj h)
      have full : skipSpace cs ≠ [] := by
        intro nothing
        rw [nothing] at read
        rw [scanFields_nil] at read
        cases read
      obtain ⟨d, tail, spaced⟩ := List.exists_cons_of_ne_nil full
      rw [spaced] at noField
      rw [if_neg string, if_neg array, if_pos object, skipSpace_append full, if_neg (by rw [spaced]; exact noField), ih.fields read,
        Option.bind_eq_bind, Option.bind_some]
      rfl
    · rw [if_neg string, if_neg array, if_neg object, if_pos n, ← List.cons_append]
      exact scanWord_append h more
    · rw [if_neg string, if_neg array, if_neg object, if_neg n, if_pos t, ← List.cons_append]
      exact scanWord_append h more
    · rw [if_neg string, if_neg array, if_neg object, if_neg n, if_neg t, if_pos f, ← List.cons_append]
      exact scanWord_append h more
    · rw [if_neg string, if_neg array, if_neg object, if_neg n, if_neg t, if_neg f, ← List.cons_append]
      exact scanNumber_append h more (closed.resolve_left fun brace => object (Option.some.inj brace))

theorem items_append {fuel bound : Nat} (ih : Extends float fuel bound) {items : List Json}
    (h : scanItems float (fuel + 1) cs = some (items, rest)) (more : List Char) :
    scanItems float (bound + 1) (cs ++ more) = some (items, rest ++ more) := by
  rw [scanItems] at h ⊢
  obtain ⟨⟨item, after⟩, read, h⟩ := Option.bind_eq_some_iff.mp h
  dsimp only at h
  cases spaced : skipSpace after with
  | nil => rw [spaced] at h; cases h
  | cons c tail =>
    rw [spaced] at h
    dsimp only at h
    have behind : after ≠ [] := by
      rintro rfl
      cases spaced
    rw [ih.value read (.inr behind), Option.bind_eq_bind, Option.bind_some]
    dsimp only
    rw [skipSpace_more spaced]
    dsimp only
    split_ifs at h ⊢
    · obtain ⟨rfl, rfl⟩ := Prod.mk.inj (Option.some.inj h)
      rfl
    · obtain ⟨⟨later, last⟩, later_, h⟩ := Option.bind_eq_some_iff.mp h
      obtain ⟨rfl, rfl⟩ := Prod.mk.inj (Option.some.inj h)
      have full : skipSpace tail ≠ [] := by
        intro nothing
        rw [nothing] at later_
        rw [scanItems_nil] at later_
        cases later_
      rw [skipSpace_append full, ih.items later_, Option.bind_eq_bind, Option.bind_some]
      rfl

theorem fields_append {fuel bound : Nat} (ih : Extends float fuel bound) {fields : List (String × Json)}
    (h : scanFields float (fuel + 1) cs = some (fields, rest)) (more : List Char) :
    scanFields float (bound + 1) (cs ++ more) = some (fields, rest ++ more) := by
  cases cs with
  | nil => simp [scanFields] at h
  | cons q cs =>
    rw [scanFields] at h
    rw [List.cons_append, scanFields]
    split_ifs at h ⊢
    obtain ⟨⟨key, after⟩, read, h⟩ := Option.bind_eq_some_iff.mp h
    dsimp only at h
    rw [scanString_more read, Option.bind_eq_bind, Option.bind_some]
    cases colon : skipSpace after with
    | nil => rw [colon] at h; cases h
    | cons c tail =>
      rw [colon] at h
      dsimp only at h ⊢
      rw [skipSpace_more colon]
      dsimp only
      split_ifs at h ⊢
      obtain ⟨⟨value, behind⟩, scanned, h⟩ := Option.bind_eq_some_iff.mp h
      dsimp only at h
      cases mark : skipSpace behind with
      | nil => rw [mark] at h; cases h
      | cons d last =>
        rw [mark] at h
        dsimp only at h
        have something : behind ≠ [] := by
          rintro rfl
          cases mark
        have full : skipSpace tail ≠ [] := by
          intro nothing
          rw [nothing] at scanned
          rw [scanValue_nil] at scanned
          cases scanned
        rw [skipSpace_append full, ih.value scanned (.inr something), Option.bind_eq_bind, Option.bind_some]
        dsimp only
        rw [skipSpace_more mark]
        dsimp only
        split_ifs at h ⊢
        · obtain ⟨rfl, rfl⟩ := Prod.mk.inj (Option.some.inj h)
          rfl
        · obtain ⟨⟨later, final⟩, others, h⟩ := Option.bind_eq_some_iff.mp h
          obtain ⟨rfl, rfl⟩ := Prod.mk.inj (Option.some.inj h)
          have nonempty : skipSpace last ≠ [] := by
            intro nothing
            rw [nothing] at others
            rw [scanFields_nil] at others
            cases others
          rw [skipSpace_append nonempty, ih.fields others, Option.bind_eq_bind, Option.bind_some]
          rfl

theorem scan_extends {fuel bound : Nat} (enough : fuel ≤ bound) : Extends float fuel bound := by
  induction fuel generalizing bound with
  | zero =>
    exact ⟨fun h => by simp [scanValue] at h, fun h => by simp [scanItems] at h, fun h => by simp [scanFields] at h⟩
  | succ fuel ih =>
    obtain ⟨bound, rfl⟩ : ∃ n, bound = n + 1 := ⟨bound - 1, by omega⟩
    have smaller : Extends float fuel bound := ih (by omega)
    exact ⟨fun h closed => value_append smaller h closed, fun h => items_append smaller h, fun h => fields_append smaller h⟩

end Extend

section Cut

variable {float : String → Json}

/-- A dictionary whose text was cut short is no JSON text. -/
theorem loads_cut {fields : List (String × Json)} (sound : (Json.obj fields).Sound float) {kept lost : List Char}
    (text : (Json.obj fields).compact.toList = kept ++ lost) (cut : lost ≠ []) : loads float (String.ofList kept) = none := by
  unfold loads
  rw [String.toList_ofList]
  cases kept with
  | nil => rfl
  | cons c kept =>
    have brace : c = '\x7b' := by
      rw [toList_compact_obj, List.cons_append] at text
      exact (List.cons.inj text).1.symm
    subst brace
    rw [skipSpace_of_opens (by decide : Opens '\x7b')]
    by_contra other
    obtain ⟨v, read⟩ := Option.ne_none_iff_exists'.mp other
    obtain ⟨⟨w, rest⟩, scanned, -⟩ := Option.bind_eq_some_iff.mp read
    have shorter : ('\x7b' :: kept).length + 1 ≤ (Json.obj fields).compact.toList.length + 1 := by
      rw [text, List.length_append]
      omega
    have longer := (scan_extends shorter).value scanned (.inl rfl) lost
    have whole := scanValue_compact _ sound ((Json.obj fields).compact.toList.length + 1) [] (Nat.le_succ _) stops_nil
    rw [List.append_nil] at whole
    rw [← text, whole] at longer
    have nothing : [] = rest ++ lost := (Prod.mk.inj (Option.some.inj longer)).2
    exact cut (List.append_eq_nil_iff.mp nothing.symm).2

end Cut

end Unhardcoded.Python
