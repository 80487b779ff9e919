import Unhardcoded.Python.Dict
import Unhardcoded.Source.CodexTokens

/-!
# A refresh token is used once and kept

A server that rotates refresh tokens takes only the one it gave out last. What a reply gave is
in memory at once, and in the file once it was written back (`fileField_rewritten`); a write that
is cut short leaves the file without a token, and a new process knows what the file has. The
account is those two cells (`Cells`), and the calls do what the cells do (`Standing`, kept by each
call): in every run each refresh request has the live refresh token, and the file gives back the
kept ones (`rotation_kept`). Where a process starts again only after the last grant was stored
and stayed so, the live token is the newest of those that reached the account.
-/

namespace Unhardcoded.Guarantees.CodexTokens

open Python Source.CodexTokens

/-! ## Tokens by name -/

inductive Slot where
  | access
  | refresh
  | id

def Slot.key : Slot → String
  | .access => "access_token"
  | .refresh => "refresh_token"
  | .id => "id_token"

def Slot.of : Slot → Tokens → Json
  | .access, t => t.access
  | .refresh, t => t.refresh
  | .id, t => t.id

/-- A token that is there. -/
def held (v : Json) : Option Json := if v.truthy then some v else none

/-- The same tokens, whatever stands for a missing one. -/
def Agree (a b : Tokens) : Prop := ∀ slot : Slot, held (slot.of a) = held (slot.of b)

theorem held_orElse (v w : Json) : held (v.orElse w) = (held v).or (held w) := by
  unfold held Json.orElse
  cases truth : v.truthy with
  | true => simp [truth]
  | false => simp

theorem held_falsy {v : Json} (falsy : ¬v.truthy = true) : held v = none := if_neg falsy

theorem held_null : held .null = none := rfl

theorem held_eq_some {v w : Json} : held v = some w ↔ v.truthy = true ∧ v = w := by
  simp [held]

theorem slot_grant (slot : Slot) (t : Tokens) (data : Json) :
    slot.of (grant t data) = (data.field slot.key).orElse (slot.of t) := by
  cases slot <;> rfl

theorem Agree.grant {a b : Tokens} (h : Agree a b) (data : Json) : Agree (grant a data) (grant b data) := by
  intro slot
  rw [slot_grant, slot_grant, held_orElse, held_orElse, h slot]

/-! ## The file -/

/-- `nested` of a file with these fields. -/
def nestedOf (fields : List (String × Json)) : List (String × Json) :=
  match fields.lookup "tokens" with
  | some (.obj nested) => nested
  | _ => []

theorem field_obj (fields : List (String × Json)) (key : String) : (Json.obj fields).field key = (fields.lookup key).getD .null := rfl

theorem nested_field (fields : List (String × Json)) :
    (if ((Json.obj fields).field "tokens").isObj then (Json.obj fields).field "tokens" else .obj []) = .obj (nestedOf fields) := by
  rw [field_obj]
  unfold nestedOf
  cases fields.lookup "tokens" with
  | none => rfl
  | some v => cases v <;> rfl

/-- A key of the file: the nested value, or else the one at the top. -/
def fileField (fields : List (String × Json)) (key : String) : Json :=
  ((Json.obj (nestedOf fields)).field key).orElse ((Json.obj fields).field key)

theorem extract_obj (fields : List (String × Json)) :
    extractTokens (.obj fields) = .ok ⟨fileField fields "access_token", fileField fields "refresh_token",
      fileField fields "id_token", fileField fields "account_id"⟩ := by
  unfold extractTokens
  rw [if_pos (show (Json.obj fields).isObj = true from rfl)]
  dsimp only
  rw [nested_field]
  rfl

theorem lookup_merge (fields : List (String × Json)) (t : Tokens) (slot : Slot) :
    (merge fields t).lookup slot.key = if (slot.of t).truthy then some (slot.of t) else fields.lookup slot.key := by
  unfold merge
  cases access : t.access.truthy <;> cases refresh : t.refresh.truthy <;> cases id : t.id.truthy <;> cases slot <;>
    simp [Slot.key, Slot.of, lookup_insert, access, refresh, id]

theorem lookup_merge_other {key : String} (other : ∀ slot : Slot, key ≠ slot.key) (fields : List (String × Json)) (t : Tokens) :
    (merge fields t).lookup key = fields.lookup key := by
  have access : key ≠ "access_token" := other .access
  have refresh : key ≠ "refresh_token" := other .refresh
  have id : key ≠ "id_token" := other .id
  unfold merge
  simp only [List.foldl_cons, List.foldl_nil]
  split_ifs <;> simp [lookup_insert, access, refresh, id]

theorem tokens_not_slot (slot : Slot) : "tokens" ≠ slot.key := by
  cases slot <;> decide

/-- The writer's two branches: the reader takes the merged tokens from where they were put. -/
theorem rewritten_cases (fields : List (String × Json)) (tokens : Tokens) :
    ∃ fields', rewritten fields tokens = .obj fields' ∧
      ((nestedOf fields' = merge (nestedOf fields) tokens ∧ ∀ key, key ≠ "tokens" → fields'.lookup key = fields.lookup key) ∨
        (nestedOf fields' = nestedOf fields ∧ nestedOf fields = [] ∧ fields' = merge fields tokens)) := by
  have top : (∀ nested, fields.lookup "tokens" ≠ some (.obj nested)) → rewritten fields tokens = .obj (merge fields tokens) ∧
      nestedOf (merge fields tokens) = nestedOf fields ∧ nestedOf fields = [] := by
    intro other
    have kept := lookup_merge_other tokens_not_slot fields tokens
    refine ⟨?_, by unfold nestedOf; rw [kept], ?_⟩
    · unfold rewritten
      split
      · exact absurd ‹_› (other _)
      · rfl
    · unfold nestedOf
      split
      · exact absurd ‹_› (other _)
      · rfl
  by_cases dict : ∃ nested, fields.lookup "tokens" = some (.obj nested)
  · obtain ⟨nested, found⟩ := dict
    refine ⟨insert "tokens" (.obj (merge nested tokens)) fields, by unfold rewritten; rw [found], .inl ⟨?_, ?_⟩⟩
    · unfold nestedOf
      rw [lookup_insert_self, found]
    · intro key other
      exact lookup_insert_of_ne other _ _
  · obtain ⟨written, same, empty⟩ := top fun nested found => dict ⟨nested, found⟩
    exact ⟨_, written, .inr ⟨same, empty, rfl⟩⟩

/-- What a rewritten file gives back: the tokens that memory has, and what the file gave for the others. -/
theorem fileField_rewritten (fields : List (String × Json)) (tokens : Tokens) :
    ∃ fields', rewritten fields tokens = .obj fields' ∧
      ∀ slot : Slot, held (fileField fields' slot.key) = (held (slot.of tokens)).or (held (fileField fields slot.key)) := by
  obtain ⟨fields', written, ⟨inner, outer⟩ | ⟨inner, empty, rfl⟩⟩ := rewritten_cases fields tokens
  · refine ⟨fields', written, fun slot => ?_⟩
    unfold fileField
    rw [field_obj, field_obj, field_obj, field_obj, inner, outer _ (tokens_not_slot slot).symm, lookup_merge, held_orElse, held_orElse]
    by_cases here : (slot.of tokens).truthy = true
    · simp [held, here]
    · simp [held_falsy here, here]
  · refine ⟨_, written, fun slot => ?_⟩
    unfold fileField
    rw [inner, empty, field_obj, field_obj, field_obj, lookup_merge, held_orElse, held_orElse, List.lookup_nil, Option.getD_none,
      held_null, Option.none_or, Option.none_or]
    by_cases here : (slot.of tokens).truthy = true
    · simp [held, here]
    · simp [held_falsy here, here]

/-! ## The two cells -/

/-- The tokens of the process and those of the file. -/
structure Cells where
  live : Tokens
  kept : Tokens

def Cells.step (c : Cells) : Exchange → Cells
  | .sent _ => c
  | .granted data => { c with live := grant c.live data }
  | .stored => { c with kept := c.live }
  | .torn => { c with kept := .none }
  | .restarted => { c with live := c.kept }

def cells (start : Tokens) (log : List Exchange) : Cells := log.foldl Cells.step ⟨start, start⟩

/-- The start, with every grant that arrived over it. -/
def newest (start : Tokens) (log : List Exchange) : Tokens :=
  log.foldl (fun t exchange => match exchange with | .granted data => grant t data | _ => t) start

/-- The last grant was stored, and no write emptied the file after it. -/
def settled (log : List Exchange) : Bool :=
  log.foldl (fun flag exchange => match exchange with | .granted _ | .torn => false | .stored => true | _ => flag) true

/-- A process starts again over a settled log only. -/
def Durable (log : List Exchange) : Prop := ∀ before after, log = before ++ .restarted :: after → settled before = true

theorem cells_note (start : Tokens) (log : List Exchange) (exchange : Exchange) :
    cells start (log ++ [exchange]) = (cells start log).step exchange := by
  unfold cells
  rw [List.foldl_append]
  rfl

theorem Durable.init {log : List Exchange} {exchange : Exchange} (durable : Durable (log ++ [exchange])) : Durable log := by
  intro before after same
  exact durable before (after ++ [exchange]) (by rw [same, List.append_assoc, List.cons_append])

/-- Over a durable log nothing that was given out is lost. -/
theorem live_newest (start : Tokens) (log : List Exchange) (durable : Durable log) :
    (cells start log).live = newest start log ∧ (settled log = true → (cells start log).kept = newest start log) := by
  induction log using List.reverseRecOn with
  | nil => exact ⟨rfl, fun _ => rfl⟩
  | append_singleton log exchange ih =>
    obtain ⟨live, kept⟩ := ih durable.init
    rw [cells_note]
    unfold newest settled
    rw [List.foldl_append, List.foldl_append]
    cases exchange with
    | sent token => exact ⟨live, kept⟩
    | granted data => exact ⟨by rw [Cells.step, live]; rfl, fun flag => by cases flag⟩
    | stored => exact ⟨live, fun _ => live⟩
    | torn => exact ⟨live, fun flag => by cases flag⟩
    | restarted => exact ⟨kept (durable log [] rfl), kept⟩

/-- What the file keeps is live: no grant takes a token away. -/
theorem kept_live (start : Tokens) (log : List Exchange) (slot : Slot) (gone : held (slot.of (cells start log).live) = none) :
    held (slot.of (cells start log).kept) = none := by
  induction log using List.reverseRecOn with
  | nil => exact gone
  | append_singleton log exchange ih =>
    rw [cells_note] at gone ⊢
    cases exchange with
    | sent token => exact ih gone
    | granted data =>
      refine ih ?_
      rw [Cells.step, slot_grant, held_orElse] at gone
      exact (Option.or_eq_none_iff.mp gone).2
    | stored => exact gone
    | torn => cases slot <;> rfl
    | restarted => exact gone

/-! ## The calls do what the cells do -/

/-- What a new process finds in the file. -/
def fileTokens (file : Option Json) : Tokens := (file.bind fun raw => (extractTokens raw).toOption).getD .none

/-- A token as its cell has it; a process that could not read its file has none. -/
structure Standing (start : Tokens) (w : World) : Prop where
  sends : ∀ before token after, w.log = before ++ .sent token :: after →
    token.truthy = true ∧ (cells start before).live.refresh = token
  keeps : Agree (fileTokens w.file) (cells start w.log).kept
  fresh : w.auth.loaded = false → w.auth.tokens = .none ∧ (cells start w.log).live = (cells start w.log).kept
  memory : w.auth.tokens = .none ∨ (∀ raw, w.file = some raw → ∃ fields, raw = .obj fields) ∧ Agree w.auth.tokens (cells start w.log).live

theorem slot_fileTokens (fields : List (String × Json)) (slot : Slot) :
    slot.of (fileTokens (some (.obj fields))) = fileField fields slot.key := by
  unfold fileTokens
  rw [Option.bind_some, extract_obj]
  cases slot <;> rfl

section Calls

variable {lib : Library} {start : Tokens} {w : World}

/-- The requests of a log that grew by something else. -/
theorem sends_note {log : List Exchange} {exchange : Exchange} (other : ∀ token, exchange ≠ .sent token)
    (sends : ∀ before token after, log = before ++ .sent token :: after → token.truthy = true ∧ (cells start before).live.refresh = token) :
    ∀ before token after, log ++ [exchange] = before ++ .sent token :: after →
      token.truthy = true ∧ (cells start before).live.refresh = token := by
  intro before token after same
  rcases List.eq_nil_or_concat after with rfl | ⟨after, last, rfl⟩
  · have ends := (List.append_inj' same rfl).2
    exact absurd (List.cons.inj ends).1 (other token)
  · rw [List.concat_eq_append, ← List.cons_append, ← List.append_assoc] at same
    exact sends before token after (List.append_inj' same rfl).1

theorem Standing.sent (standing : Standing start w) (truthy : w.auth.tokens.refresh.truthy = true) :
    Standing start (w.note (.sent w.auth.tokens.refresh)) := by
  have live : (cells start w.log).live.refresh = w.auth.tokens.refresh := by
    rcases standing.memory with none | ⟨_, agree⟩
    · rw [none] at truthy
      cases truthy
    · exact (held_eq_some.mp ((agree .refresh).symm.trans (if_pos truthy))).2
  have same : cells start (w.note (.sent w.auth.tokens.refresh)).log = cells start w.log := cells_note start w.log _
  refine ⟨?_, by rw [same]; exact standing.keeps, by rw [same]; exact standing.fresh, by rw [same]; exact standing.memory⟩
  intro before token after split
  rcases List.eq_nil_or_concat after with rfl | ⟨after, last, rfl⟩
  · obtain ⟨rfl, ends⟩ := List.append_inj' split rfl
    cases ends
    exact ⟨truthy, live⟩
  · rw [List.concat_eq_append, ← List.cons_append, ← List.append_assoc] at split
    exact standing.sends before token after (List.append_inj' split rfl).1

/-- The world after a reply's tokens are taken over. -/
def granted (w : World) (data : Json) (exp : Option ℚ) : World :=
  { w.note (.granted data) with auth := { w.auth with tokens := grant w.auth.tokens data, exp := exp } }

theorem Standing.granted (standing : Standing start w) (on : w.auth.loaded = true)
    (truthy : w.auth.tokens.refresh.truthy = true) (data : Json) (exp : Option ℚ) :
    Standing start (granted w data exp) ∧ (∀ raw, w.file = some raw → ∃ fields, raw = .obj fields) ∧
      Agree (grant w.auth.tokens data) (cells start (granted w data exp).log).live := by
  rcases standing.memory with none | ⟨there, agree⟩
  · rw [none] at truthy
    cases truthy
  · have same : cells start (CodexTokens.granted w data exp).log = (cells start w.log).step (.granted data) := cells_note start w.log _
    have agree' : Agree (grant w.auth.tokens data) (cells start (CodexTokens.granted w data exp).log).live := by
      rw [same]
      exact agree.grant data
    refine ⟨⟨sends_note (by intro token; exact Exchange.noConfusion) standing.sends, ?_, ?_, .inr ⟨there, agree'⟩⟩, there, agree'⟩
    · rw [same]
      exact standing.keeps
    · intro off
      exact absurd (on.symm.trans off) (by decide)

theorem Standing.stored (standing : Standing start w) (on : w.auth.loaded = true) (agree : Agree w.auth.tokens (cells start w.log).live)
    {fields : List (String × Json)}
    (old : ∀ slot : Slot, held (slot.of (cells start w.log).live) = none → held (fileField fields slot.key) = none) :
    Standing start { w.note .stored with file := some (rewritten fields w.auth.tokens) } := by
  have same : cells start (w.note .stored).log = (cells start w.log).step .stored := cells_note start w.log _
  obtain ⟨fields', written, slots⟩ := fileField_rewritten fields w.auth.tokens
  refine ⟨sends_note (by intro token; exact Exchange.noConfusion) standing.sends, ?_, ?_, ?_⟩
  · change Agree (fileTokens (some (rewritten fields w.auth.tokens))) (cells start (w.note .stored).log).kept
    rw [same, written]
    intro slot
    rw [slot_fileTokens, slots, agree]
    cases here : held (slot.of (cells start w.log).live) with
    | none => rw [old slot here, Cells.step, here]; rfl
    | some v => rw [Option.some_or, Cells.step, here]
  · intro off
    exact absurd (on.symm.trans off) (by decide)
  · refine .inr ⟨fun raw file => ⟨fields', (Option.some.inj file).symm.trans written⟩, ?_⟩
    change Agree w.auth.tokens (cells start (w.note .stored).log).live
    rw [same]
    exact agree

theorem Standing.torn (standing : Standing start w) (on : w.auth.loaded = true) (agree : Agree w.auth.tokens (cells start w.log).live) :
    Standing start { w.note .torn with file := none } := by
  have same : cells start (w.note .torn).log = (cells start w.log).step .torn := cells_note start w.log _
  refine ⟨sends_note (by intro token; exact Exchange.noConfusion) standing.sends, ?_, ?_, .inr ⟨nofun, ?_⟩⟩
  · change Agree Tokens.none (cells start (w.note .torn).log).kept
    rw [same]
    exact fun slot => rfl
  · intro off
    exact absurd (on.symm.trans off) (by decide)
  · change Agree w.auth.tokens (cells start (w.note .torn).log).live
    rw [same]
    exact agree

theorem Standing.writeBack (standing : Standing start w) (on : w.auth.loaded = true)
    (there : ∀ raw, w.file = some raw → ∃ fields, raw = .obj fields)
    (agree : Agree w.auth.tokens (cells start w.log).live) (a : Access) : Standing start (writeBack a w).1 := by
  have written : ∀ fields, (∀ slot : Slot, held (slot.of (cells start w.log).live) = none → held (fileField fields slot.key) = none) →
      Standing start (writeText a.write (rewritten fields w.auth.tokens) w) := by
    intro fields old
    unfold writeText
    cases a.write with
    | done => exact standing.stored on agree old
    | refused => exact standing
    | torn => exact standing.torn on agree
  -- an unread file and one that gives no JSON are written over as an empty dictionary
  have blank := written [] fun slot _ => rfl
  unfold Source.CodexTokens.writeBack
  cases a.backReads with
  | false => exact blank
  | true =>
    cases file : w.file with
    | none => exact blank
    | some raw =>
      obtain ⟨fields, rfl⟩ := there raw file
      refine written fields fun slot gone => ?_
      have kept := kept_live start w.log slot gone
      rw [← standing.keeps, file, slot_fileTokens] at kept
      exact kept

theorem Standing.take (standing : Standing start w) (on : w.auth.loaded = true) (truthy : w.auth.tokens.refresh.truthy = true)
    (a : Access) (data : Json) : Standing start (take lib a w data).1 := by
  unfold Source.CodexTokens.take
  dsimp only
  split
  · exact (standing.granted on truthy data w.auth.exp).1
  · rename_i exp _
    obtain ⟨standing, there, agree⟩ := standing.granted on truthy data exp
    exact standing.writeBack on there agree a

theorem Standing.refresh (standing : Standing start w) (on : w.auth.loaded = true) (a : Access) :
    Standing start (refresh lib a w).1 := by
  unfold Source.CodexTokens.refresh
  split
  · rename_i truthy
    have sent := standing.sent truthy
    split
    · exact sent
    · split_ifs
      · exact sent
      · split
        · exact sent
        · split_ifs
          · exact sent.take on truthy a _
          · exact sent
  · exact standing

variable (lib) in
theorem Standing.load (standing : Standing start w) (reads : Bool) :
    Standing start { w with auth := (loadedAuth lib reads w).1 } ∧ (loadedAuth lib reads w).1.loaded = true := by
  unfold loadedAuth
  cases on : w.auth.loaded with
  | true => exact ⟨standing, on⟩
  | false =>
    obtain ⟨none, same⟩ := standing.fresh on
    have blank : ∀ auth : Auth, auth.loaded = true → auth.tokens = .none → Standing start { w with auth := auth } := by
      intro auth loaded empty
      exact ⟨standing.sends, standing.keeps, fun off => absurd (loaded.symm.trans off) (by decide), .inl empty⟩
    have read : ∀ raw tokens exp, w.file = some raw → extractTokens raw = .ok tokens → Standing start { w with auth := ⟨true, tokens, exp⟩ } := by
      intro raw tokens exp file extracted
      refine ⟨standing.sends, standing.keeps, fun off => (by cases off), .inr ⟨?_, ?_⟩⟩
      · intro other found
        obtain rfl := Option.some.inj (file.symm.trans found)
        cases raw with
        | obj fields => exact ⟨fields, rfl⟩
        | _ => cases extracted
      · have keeps := standing.keeps
        rw [file] at keeps
        change Agree ((extractTokens raw).toOption.getD .none) _ at keeps
        rw [extracted] at keeps
        change Agree tokens (cells start w.log).live
        rw [same]
        exact keeps
    rw [if_neg Bool.false_ne_true]
    unfold Source.CodexTokens.load
    split
    · exact ⟨blank _ rfl rfl, rfl⟩
    · rename_i raw found
      have file : w.file = some raw := by
        cases reads with
        | true => exact found
        | false => cases found
      split
      · exact ⟨blank _ rfl none, rfl⟩
      · rename_i tokens extracted
        split
        · exact ⟨read raw tokens w.auth.exp file extracted, rfl⟩
        · exact ⟨read raw tokens _ file extracted, rfl⟩

/-- What a call leaves, and the access token that it gives back. -/
theorem Standing.accessToken (standing : Standing start w) (a : Access) :
    Standing start (accessToken lib w a).1 ∧ ∀ v, (accessToken lib w a).2 = .ok v →
      held v = none ∨ held v = held (cells start (accessToken lib w a).1.log).live.access := by
  obtain ⟨loaded, on⟩ := standing.load lib a.loadReads
  unfold Source.CodexTokens.accessToken
  dsimp only
  split
  · exact ⟨loaded, fun v given => by cases given⟩
  · have done : Standing start (if needsRefresh a.now (loadedAuth lib a.loadReads w).1
        then Source.CodexTokens.refresh lib a { w with auth := (loadedAuth lib a.loadReads w).1 }
        else ({ w with auth := (loadedAuth lib a.loadReads w).1 }, none)).1 := by
      split_ifs
      · exact loaded.refresh on a
      · exact loaded
    split
    · exact ⟨done, fun v given => by cases given⟩
    · refine ⟨done, fun v given => ?_⟩
      obtain rfl := Except.ok.inj given
      rcases done.memory with none | ⟨_, agree⟩
      · exact .inl (by rw [none]; rfl)
      · exact .inr (agree .access)

theorem Standing.step (standing : Standing start w) (event : Event) : Standing start (step lib w event) := by
  cases event with
  | access a => exact (standing.accessToken a).1
  | accountId reads =>
    have loaded := (standing.load lib reads).1
    change Standing start (accountId lib w reads).1
    unfold Source.CodexTokens.accountId
    dsimp only
    split <;> exact loaded
  | restart =>
    have same : cells start (w.note .restarted).log = (cells start w.log).step .restarted := cells_note start w.log _
    refine ⟨sends_note (by intro token; exact Exchange.noConfusion) standing.sends, ?_, fun _ => ⟨rfl, ?_⟩, .inl rfl⟩
    · change Agree (fileTokens w.file) (cells start (w.note .restarted).log).kept
      rw [same]
      exact standing.keeps
    · change (cells start (w.note .restarted).log).live = (cells start (w.note .restarted).log).kept
      rw [same]
      rfl

end Calls

theorem standing_run (lib : Library) (file : Option Json) (events : List Event) :
    Standing (fileTokens file) (runTokens lib ⟨file, .new, []⟩ events) := by
  refine List.foldlRecOn events (step lib) ⟨?_, fun _ => rfl, fun _ => ⟨rfl, rfl⟩, .inl rfl⟩ fun w standing event _ => standing.step event
  intro before token after same
  exact absurd same.symm (List.append_ne_nil_of_right_ne_nil _ (List.cons_ne_nil _ _))

/-- Every run of the account's calls, with lost replies, failed and cut writes and new processes
anywhere: a refresh request has the live refresh token, the file gives back the kept tokens, and a
caller gets no other access token than the live one. Where every new process found the last grant
stored, the token that is sent is the newest of those that arrived. -/
theorem rotation_kept (lib : Library) (file : Option Json) (events : List Event) :
    let w := runTokens lib ⟨file, .new, []⟩ events
    let start := fileTokens file
    (∀ before token after, w.log = before ++ .sent token :: after → token.truthy = true ∧ (cells start before).live.refresh = token) ∧
    Agree (fileTokens w.file) (cells start w.log).kept ∧
    (∀ a v, (accessToken lib w a).2 = .ok v →
      held v = none ∨ held v = held (cells start (accessToken lib w a).1.log).live.access) ∧
    (Durable w.log →
      (∀ before token after, w.log = before ++ .sent token :: after → (newest start before).refresh = token) ∧
      (settled w.log = true → Agree (fileTokens w.file) (newest start w.log))) := by
  have standing := standing_run lib file events
  refine ⟨standing.sends, standing.keeps, fun a v => (standing.accessToken a).2 v, fun durable => ⟨?_, fun flag => ?_⟩⟩
  · intro before token after same
    have earlier : Durable before := by
      intro left right split
      exact durable left (right ++ .sent token :: after) (by rw [same, split, List.append_assoc, List.cons_append])
    rw [← (live_newest _ _ earlier).1]
    exact (standing.sends before token after same).2
  · rw [← (live_newest _ _ durable).2 flag]
    exact standing.keeps

-- a write that is cut short, made good by the next refresh of the same process; a new process that
-- finds the emptied file sends nothing
example : (runTokens ⟨fun _ => none, fun _ => .null⟩ ⟨some (.obj [("tokens", .obj [("refresh_token", .str "r0")])]), .new, []⟩
    [.access ⟨0, true, .answered 200 (some (.obj [("refresh_token", .str "r1")])), true, .torn⟩,
     .access ⟨1, true, .answered 200 (some (.obj [("refresh_token", .str "r2")])), true, .done⟩, .restart,
     .access ⟨2, true, .answered 200 (some (.obj [("refresh_token", .str "r3")])), true, .torn⟩, .restart,
     .access ⟨3, true, .failed, true, .done⟩]).log =
    [.sent (.str "r0"), .granted (.obj [("refresh_token", .str "r1")]), .torn,
     .sent (.str "r1"), .granted (.obj [("refresh_token", .str "r2")]), .stored, .restarted,
     .sent (.str "r2"), .granted (.obj [("refresh_token", .str "r3")]), .torn, .restarted] := by
  rfl

end Unhardcoded.Guarantees.CodexTokens
