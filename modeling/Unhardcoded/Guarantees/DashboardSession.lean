import Unhardcoded.Python.Dict
import Unhardcoded.Source.DashboardSession

/-!
# A dashboard session is a login that has not expired

The body of a cookie reads back as the payload it was made of (`decodeBody_bodyOf`), and a
login sets that body with its HMAC (`cookie_visit`). Where nobody else can make an HMAC of the
server's, a presented cookie opens a session exactly if a login set it and its time is not
over, and it is the session of that login (`session_exact`).
-/

namespace Unhardcoded.Guarantees.DashboardSession
open Source.DashboardSession Python

/-! ## The body -/

theorem sortKeys_perm (d : List (String × Json)) : (sortKeys d).Perm d := List.perm_insertionSort _ d

theorem nodup_sortKeys {d : List (String × Json)} (distinct : (d.map (·.1)).Nodup) : ((sortKeys d).map (·.1)).Nodup :=
  ((sortKeys_perm d).map _).nodup_iff.mpr distinct

theorem lookup_sortKeys {d : List (String × Json)} (distinct : (d.map (·.1)).Nodup) (key : String) :
    (sortKeys d).lookup key = d.lookup key :=
  lookup_perm distinct (sortKeys_perm d) key

/-- A payload: distinct keys, texts and integers. -/
structure Plain (d : List (String × Json)) : Prop where
  distinct : (d.map (·.1)).Nodup
  scalars : ∀ entry ∈ d, (∃ text, entry.2 = .str text) ∨ ∃ n, entry.2 = .int n

theorem plain_payload (user role : String) (consumer keySha256 : Option String) (expiry : Int) :
    Plain (payload user role consumer keySha256 expiry) := by
  have fields : ∀ key (v : Option String), given key v = [] ∨ ∃ text, given key v = [(key, .str text)] := by
    intro key v
    unfold given
    split
    · split
      · exact .inl rfl
      · exact .inr ⟨_, rfl⟩
    · exact .inl rfl
  unfold payload
  rcases fields "c" consumer with c | ⟨c', c⟩ <;> rcases fields "k" keySha256 with k | ⟨k', k⟩ <;> rw [c, k] <;>
    exact ⟨by simp, by simp⟩

theorem plain_login (expiry : Int) (login : Login) : Plain (login.payload expiry) := by
  cases login with
  | password => exact plain_payload _ _ _ _ _
  | apiKey consumer digest => exact plain_payload _ _ _ _ _

variable (lib : Library)

theorem sound_sorted {d : List (String × Json)} (plain : Plain d) : (Json.obj (sortKeys d)).Sound lib.float := by
  refine ⟨nodup_sortKeys plain.distinct, (soundFields_iff lib.float _).mpr fun entry mem => ?_⟩
  rcases plain.scalars entry ((sortKeys_perm d).mem_iff.mp mem) with ⟨text, same⟩ | ⟨n, same⟩
  · rw [same]
    trivial
  · rw [same]
    trivial

theorem ascii_bytes {cs : List Char} (printed : cs.all printable = true) :
    (ascii cs).all (fun b => 0 < b.toNat && b.toNat < 128) = true := by
  rw [List.all_eq_true]
  intro b mem
  obtain ⟨c, inText, rfl⟩ := List.mem_map.mp mem
  have bounds := List.all_eq_true.mp printed c inText
  rw [printable, Bool.and_eq_true, decide_eq_true_eq, decide_eq_true_eq] at bounds
  rw [UInt8.toNat_ofNat', Bool.and_eq_true, decide_eq_true_eq, decide_eq_true_eq]
  omega

/-- The body of a cookie reads back as the payload. -/
theorem decodeBody_bodyOf {d : List (String × Json)} (plain : Plain d) :
    decodeBody lib (bodyOf d) = some (.obj (sortKeys d)) := by
  have sound := sound_sorted lib plain
  have printed := compact_printable (.obj (sortKeys d)) sound
  have ascii : ∀ c ∈ (Json.obj (sortKeys d)).compact.toList, c.toNat < 0x80 := by
    intro c mem
    have bounds := List.all_eq_true.mp printed c mem
    rw [printable, Bool.and_eq_true, decide_eq_true_eq, decide_eq_true_eq] at bounds
    omega
  unfold decodeBody bodyOf
  rw [String.toList_ofList, Base64.decode_unpadded]
  dsimp only
  rw [if_pos (ascii_bytes printed), decode_ascii ascii, String.ofList_toList, Option.bind_some]
  exact loads_compact sound

/-! ## The cookie -/

theorem rsplitDot_cookie (body : String) {sig : String} (dotless : '.' ∉ sig.toList) :
    rsplitDot (body ++ "." ++ sig) = some (body, sig) := by
  have plain : ∀ c ∈ sig.toList.reverse, (decide (c ≠ '.')) = true := by
    intro c mem
    exact decide_eq_true fun same => dotless (same ▸ List.mem_reverse.mp mem)
  have reversed : (body ++ "." ++ sig).toList.reverse = sig.toList.reverse ++ '.' :: body.toList.reverse := by
    rw [String.toList_append, String.toList_append, List.reverse_append, List.reverse_append]
    rfl
  have dropped : (sig.toList.reverse ++ '.' :: body.toList.reverse).dropWhile (· ≠ '.') = '.' :: body.toList.reverse := by
    rw [List.dropWhile_append_of_pos plain, List.dropWhile_cons, if_neg (by simp)]
  have taken : (sig.toList.reverse ++ '.' :: body.toList.reverse).takeWhile (· ≠ '.') = sig.toList.reverse := by
    rw [List.takeWhile_append_of_pos plain, List.takeWhile_cons, if_neg (by simp), List.append_nil]
  unfold rsplitDot
  dsimp only
  rw [reversed, dropped, taken]
  dsimp only
  rw [List.reverse_reverse, List.reverse_reverse, String.ofList_toList, String.ofList_toList]

theorem of_rsplitDot {raw body sig : String} (h : rsplitDot raw = some (body, sig)) : raw = body ++ "." ++ sig := by
  unfold rsplitDot at h
  dsimp only at h
  split at h
  · cases h
  · rename_i c before dropped
    cases h
    have dot : c = '.' := by
      have stops : (raw.toList.reverse.dropWhile fun c => decide (c ≠ '.')).head? = some c := by rw [dropped]; rfl
      have failed := List.head?_dropWhile_not (fun c => decide (c ≠ '.')) raw.toList.reverse
      rw [stops] at failed
      simpa using failed
    have whole := List.takeWhile_append_dropWhile (p := fun c => decide (c ≠ '.')) (l := raw.toList.reverse)
    rw [dropped, dot] at whole
    have text : raw.toList = before.reverse ++ ['.'] ++ (raw.toList.reverse.takeWhile fun c => decide (c ≠ '.')).reverse := by
      rw [← List.reverse_cons, ← List.reverse_append, whole, List.reverse_reverse]
    apply String.toList_inj.mp
    rw [String.toList_append, String.toList_append, String.toList_ofList, String.toList_ofList, String.toList_ofList]
    exact text

/-! ## The session -/

/-- The session a login opens; an API key's needs a consumer and a digest. -/
def session : Login → Option Context
  | .password => some ⟨"admin", "admin", "dashboard:admin", none, none⟩
  | .apiKey consumer digest =>
    if strip consumer = "" ∨ isDigest (lower (strip digest)) = false then none
    else some ⟨"consumer", strip consumer, "consumer:" ++ strip consumer, some (strip consumer), some (lower (strip digest))⟩

theorem getD_sorted {d : List (String × Json)} (plain : Plain d) (key : String) (default : Json) :
    (Json.obj (sortKeys d)).getD key default = .ok ((d.lookup key).getD default) := by
  rw [Json.getD, Json.isObj, if_pos rfl, Json.field?, lookup_sortKeys plain.distinct]

theorem get_sorted {d : List (String × Json)} (plain : Plain d) (key : String) :
    (Json.obj (sortKeys d)).get key = .ok ((d.lookup key).getD .null) := by
  rw [Json.get, Json.isObj, if_pos rfl, Json.field, Json.field?, lookup_sortKeys plain.distinct]

/-- An empty text is left out of a payload and read as the default, which is empty too. -/
theorem lookup_given (key other text : String) (rest : List (String × Json)) (unlisted : rest.lookup key = none) :
    ((given key (some text) ++ rest).lookup other).getD (.str "") =
      if other = key then .str text else (rest.lookup other).getD (.str "") := by
  unfold given
  dsimp only
  by_cases same : other = key
  · rw [if_pos same, same]
    by_cases empty : text = ""
    · rw [if_pos empty, List.nil_append, unlisted, empty]
      rfl
    · rw [if_neg empty, List.singleton_append, List.lookup_cons, beq_self_eq_true]
      rfl
  · rw [if_neg same]
    by_cases empty : text = ""
    · rw [if_pos empty, List.nil_append]
    · rw [if_neg empty, List.singleton_append, List.lookup_cons, beq_eq_false_iff_ne.mpr same]

theorem lookup_apart (key other : String) (differ : other ≠ key) (v : Option String) : (given key v).lookup other = none := by
  unfold given
  split
  · split
    · rfl
    · rw [List.lookup_cons, beq_eq_false_iff_ne.mpr differ]
      rfl
  · rfl

/-- The context of four texts, of which the role is not empty. -/
theorem contextFields_texts (u c k : String) {r : String} (named : (Json.str r).orElse (.str "admin") = .str r) :
    contextFields lib (.str u) (.str r) (.str c) (.str k) =
      if strip u = "" then none
      else if strip r = "consumer" then
        if strip c = "" ∨ isDigest (lower (strip k)) = false then none
        else some ⟨"consumer", strip u, "consumer:" ++ strip c, some (strip c), some (lower (strip k))⟩
      else some ⟨"admin", strip u, "dashboard:" ++ strip u, none, none⟩ := by
  unfold contextFields
  rw [named]
  rfl

theorem fields_login (expiry : Int) (login : Login) :
    contextFields lib (((login.payload expiry).lookup "u").getD (.str "")) (((login.payload expiry).lookup "r").getD .null)
      (((login.payload expiry).lookup "c").getD (.str "")) (((login.payload expiry).lookup "k").getD (.str "")) =
      session login := by
  cases login with
  | password =>
    have name : strip "admin" = "admin" := by decide
    change contextFields lib (.str "admin") (.str "admin") (.str "") (.str "") = _
    rw [contextFields_texts lib "admin" "" "" rfl, name, if_neg (by decide), if_neg (by decide)]
    rfl
  | apiKey consumer digest =>
    have keys : ∀ key, key ≠ "u" → key ≠ "r" → key ≠ "e" → ((Login.apiKey consumer digest).payload expiry).lookup key =
        (given "c" (some consumer) ++ given "k" (some digest)).lookup key := by
      intro key notU notR notE
      rw [Login.payload, payload, List.append_assoc, List.cons_append, List.cons_append, List.cons_append, List.nil_append,
        List.lookup_cons, beq_eq_false_iff_ne.mpr notU, List.lookup_cons, beq_eq_false_iff_ne.mpr notR, List.lookup_cons,
        beq_eq_false_iff_ne.mpr notE]
    have c : (((Login.apiKey consumer digest).payload expiry).lookup "c").getD (.str "") = .str consumer := by
      rw [keys "c" (by decide) (by decide) (by decide),
        lookup_given "c" "c" consumer _ (lookup_apart "k" "c" (by decide) _), if_pos rfl]
    have k : (((Login.apiKey consumer digest).payload expiry).lookup "k").getD (.str "") = .str digest := by
      have last := lookup_given "k" "k" digest [] rfl
      rw [List.append_nil, if_pos rfl] at last
      rw [keys "k" (by decide) (by decide) (by decide),
        lookup_given "c" "k" consumer _ (lookup_apart "k" "c" (by decide) _), if_neg (by decide), last]
    have role : strip "consumer" = "consumer" := by decide
    rw [c, k]
    change contextFields lib (.str consumer) (.str "consumer") (.str consumer) (.str digest) = _
    rw [contextFields_texts lib consumer consumer digest rfl, if_pos role, session]
    by_cases blank : strip consumer = ""
    · rw [if_pos blank, if_pos (.inl blank)]
    · rw [if_neg blank]

theorem contextOf_login (expiry : Int) (login : Login) :
    contextOf lib (.obj (sortKeys (login.payload expiry))) = .ok (session login) := by
  have plain := plain_login expiry login
  rw [contextOf, getD_sorted plain, get_sorted plain, getD_sorted plain, getD_sorted plain, ← fields_login lib expiry login]
  rfl

/-- A login, when it was and for how long its cookie is good. -/
structure Visit where
  login : Login
  now : Int
  maxAge : Int
  deriving DecidableEq, Repr

def Visit.expiry (v : Visit) : Int := v.now + v.maxAge

def Visit.cookie (v : Visit) (secret : String) : Except Raised String := v.login.cookie lib secret v.now v.maxAge

/-- A cookie is the body of its login's payload, signed. -/
theorem cookie_visit {secret : String} (configured : secret ≠ "") (v : Visit) :
    v.cookie lib secret = .ok (bodyOf (v.login.payload v.expiry) ++ "." ++ lib.hmac secret (bodyOf (v.login.payload v.expiry))) := by
  obtain ⟨login, now, maxAge⟩ := v
  cases login <;> rw [Visit.cookie, Login.cookie, makeSession, if_neg configured] <;> rfl

theorem sessionContext_cookie {secret : String} (configured : secret ≠ "")
    (dotless : ∀ body, '.' ∉ (lib.hmac secret body).toList) {v : Visit} {raw : String} (set : v.cookie lib secret = .ok raw)
    (now : Int) : sessionContext lib secret raw now = .ok (if v.expiry < now then none else session v.login) := by
  have plain := plain_login v.expiry v.login
  have e : ((v.login.payload v.expiry).lookup "e").getD (.int 0) = .int v.expiry := by
    cases v.login <;> rfl
  rw [cookie_visit lib configured, Except.ok.injEq] at set
  subst set
  unfold sessionContext
  rw [if_neg configured, rsplitDot_cookie _ (dotless _)]
  dsimp only
  rw [if_neg (by simp), decodeBody_bodyOf lib plain]
  dsimp only
  rw [getD_sorted plain, e, contextOf_login]
  change (if v.expiry < now then _ else _) = _
  split <;> rfl

/-- A cookie that, if its HMAC is right, one of these logins has set opens a session exactly if
one of them set it and its time is not over; the session is that of the login, and no such
cookie makes the check raise. -/
theorem session_exact {secret : String} (configured : secret ≠ "")
    (dotless : ∀ body, '.' ∉ (lib.hmac secret body).toList) {visits : List Visit} {raw : String}
    (unforgeable : ∀ body, raw = body ++ "." ++ lib.hmac secret body → ∃ v ∈ visits, v.cookie lib secret = .ok raw)
    (now : Int) :
    (∃ ctx, sessionContext lib secret raw now = .ok ctx) ∧
      ∀ ctx, sessionContext lib secret raw now = .ok (some ctx) ↔
        ∃ v ∈ visits, v.cookie lib secret = .ok raw ∧ now ≤ v.expiry ∧ session v.login = some ctx := by
  by_cases genuine : ∃ v ∈ visits, v.cookie lib secret = .ok raw
  · obtain ⟨v, mem, set⟩ := genuine
    rw [sessionContext_cookie lib configured dotless set]
    refine ⟨⟨_, rfl⟩, fun ctx => ?_⟩
    rw [Except.ok.injEq]
    constructor
    · intro opens
      split at opens
      · cases opens
      · exact ⟨v, mem, set, by omega, opens⟩
    · rintro ⟨v', -, set', inTime, opens⟩
      have equal := sessionContext_cookie lib configured dotless set' now
      rw [sessionContext_cookie lib configured dotless set, Except.ok.injEq] at equal
      rw [equal, if_neg (by omega), opens]
  · have closed : sessionContext lib secret raw now = .ok none := by
      unfold sessionContext
      rw [if_neg configured]
      cases split : rsplitDot raw with
      | none => rfl
      | some parts =>
        obtain ⟨body, sig⟩ := parts
        have whole := of_rsplitDot split
        dsimp only
        by_cases signed : sig = lib.hmac secret body
        · rw [signed] at whole
          exact absurd (unforgeable body whole) genuine
        · rw [if_pos signed]
    rw [closed]
    refine ⟨⟨_, rfl⟩, fun ctx => ⟨fun opens => (by cases opens), ?_⟩⟩
    rintro ⟨v, mem, set, -⟩
    exact absurd ⟨v, mem, set⟩ genuine

/-- An HMAC that shows the secret and the body without its dots, and no special texts. -/
def plainLibrary : Library :=
  ⟨fun secret body => secret ++ String.ofList (body.toList.filter (· ≠ '.')), fun _ => none, fun _ => .null, fun _ => none,
    fun _ => ""⟩

/-- Who logged in with an API key. -/
def acmeVisit : Visit := ⟨.apiKey "acme" (String.ofList (List.replicate 64 'a')), 40, 60⟩

/-- The cookie of an API key's login is good to the last second of its time, and no longer. -/
theorem session_exact_apiKey : ∃ raw, acmeVisit.cookie plainLibrary "secret" = .ok raw ∧
    sessionContext plainLibrary "secret" raw 100 =
      .ok (some ⟨"consumer", "acme", "consumer:acme", some "acme", some (String.ofList (List.replicate 64 'a'))⟩) ∧
    ∀ ctx, sessionContext plainLibrary "secret" raw 101 ≠ .ok (some ctx) := by
  have configured : "secret" ≠ "" := by decide
  have dotless : ∀ body, '.' ∉ (plainLibrary.hmac "secret" body).toList := by
    intro body mem
    change '.' ∈ ("secret" ++ String.ofList (body.toList.filter (· ≠ '.'))).toList at mem
    rw [String.toList_append] at mem
    rcases List.mem_append.mp mem with here | there
    · exact absurd here (by decide)
    · rw [String.toList_ofList] at there
      simpa using (List.mem_filter.mp there).2
  have set := cookie_visit plainLibrary configured acmeVisit
  obtain ⟨raw, given⟩ : ∃ raw, acmeVisit.cookie plainLibrary "secret" = .ok raw := ⟨_, set⟩
  have unforgeable : ∀ body, raw = body ++ "." ++ plainLibrary.hmac "secret" body →
      ∃ v ∈ [acmeVisit], v.cookie plainLibrary "secret" = .ok raw := fun _ _ => ⟨acmeVisit, List.mem_singleton_self _, given⟩
  have opened : session acmeVisit.login =
      some ⟨"consumer", "acme", "consumer:acme", some "acme", some (String.ofList (List.replicate 64 'a'))⟩ := by
    decide +kernel
  refine ⟨raw, given, ?_, fun ctx opens => ?_⟩
  · exact ((session_exact plainLibrary configured dotless unforgeable 100).2 _).mpr
      ⟨acmeVisit, List.mem_singleton_self _, given, le_refl _, opened⟩
  obtain ⟨v, mem, -, late, -⟩ := ((session_exact plainLibrary configured dotless unforgeable 101).2 ctx).mp opens
  obtain rfl := List.mem_singleton.mp mem
  exact absurd late (by decide)

end Unhardcoded.Guarantees.DashboardSession
