import Unhardcoded.Effects.GroupBy
import Unhardcoded.Source.TenantIngress

/-!
# Who a request is for, and which policy it runs

The client writes the headers and the body; the key says who it is. Of the client's headers none
that names a tenant or a secret gets through (`lookup_kept`), so the router acts for the key's own
tenant and scope or refuses, and for an operator's key for no tenant (`ingress_identity`). Of a
tenant's body the routing fields are taken away and set from the published route
(`lookup_contract`), which the router reads back from the wire: the engine runs the published
policy, or the variant that the owner published under the preference (`tenant_runs_published`).
-/

namespace Unhardcoded.Guarantees.TenantIngress

open Python Source.RouteContract Source.TenantIngress

/-! ## Headers -/

theorem lower_dropped {name : String} (dropped : name ∈ droppedHeaders) : lower name = name := by
  have all : (droppedHeaders.all fun name => lower name = name) = true := by decide +kernel
  exact of_decide_eq_true (List.all_eq_true.mp all name dropped)

/-- A name that is not passed on does not get through, however it is written. -/
theorem lookup_kept {name : String} (dropped : name ∈ droppedHeaders) (headers : List (String × String)) :
    (keptHeaders headers).lookup name = none := by
  refine (lookup_foldl_insert fun entry mem same => ?_).trans (List.lookup_nil)
  have kept := (List.mem_filter.mp mem).2
  rw [← same, lower_dropped dropped, List.contains_iff_mem.mpr dropped] at kept
  cases kept

theorem ne_caller {name : String} (dropped : name ∈ droppedHeaders) : name ≠ "x-llm-router-caller" := by
  rintro rfl
  revert dropped
  decide

section Numbers

theorem dropWhile_none {α : Type} {p : α → Bool} {l : List α} (h : ∀ x ∈ l, p x = false) : l.dropWhile p = l := by
  cases l with
  | nil => rfl
  | cons x l => rw [List.dropWhile_cons, h x List.mem_cons_self]; rfl

theorem digit_plain {c : Char} (digit : c.isDigit = true) : isSpace c = false ∧ c ≠ '-' ∧ c ≠ '+' ∧ c ≠ '_' := by
  have range : 48 ≤ c.toNat ∧ c.toNat ≤ 57 := by
    simp only [Char.isDigit, Bool.and_eq_true, decide_eq_true_eq] at digit
    exact digit
  refine ⟨?_, ?_, ?_, ?_⟩
  · unfold isSpace
    simp only [Bool.or_eq_false_iff, Bool.and_eq_false_iff, decide_eq_false_iff_not]
    omega
  all_goals
    rintro rfl
    revert range
    decide

theorem toList_toString (n : Nat) : (toString n).toList = Nat.toDigits 10 n := Nat.toList_repr

theorem digits_toDigits (n : Nat) : ∀ c ∈ Nat.toDigits 10 n, c.isDigit = true := List.all_eq_true.mp (all_isDigit_toDigits n)

theorem strip_toString (n : Nat) : strip (toString n) = toString n := by
  have plain : ∀ c ∈ Nat.toDigits 10 n, isSpace c = false := fun c mem => (digit_plain (digits_toDigits n c mem)).1
  unfold strip
  rw [toList_toString, dropWhile_none plain, dropWhile_none (fun c mem => plain c (List.mem_reverse.mp mem)), List.reverse_reverse,
    ← toList_toString, String.ofList_toList]

/-- `int(str(n))`. -/
theorem intOf_toString (n : Nat) : intOf? (toString n) = some (n : Int) := by
  have decimal : isDecimal (Nat.toDigits 10 n) = true := by
    have single : (Nat.toDigits 10 n).splitOn '_' = [Nat.toDigits 10 n] :=
      List.splitOnP_eq_singleton fun c mem => by simpa using (digit_plain (digits_toDigits n c mem)).2.2.2
    unfold isDecimal
    rw [single, List.all_cons, all_isDigit_toDigits]
    simp [Nat.toDigits_ne_nil]
  have value : Nat.ofDigitChars 10 ((Nat.toDigits 10 n).filter Char.isDigit) 0 = n := by
    rw [List.filter_eq_self.mpr (digits_toDigits n), Nat.ofDigitChars_ten_toDigits]
  unfold intOf?
  rw [strip_toString, toList_toString]
  split
  · rename_i cs text
    exact absurd rfl (digit_plain (digits_toDigits n '-' (by rw [text]; exact List.mem_cons_self))).2.1
  · rename_i cs text
    exact absurd rfl (digit_plain (digits_toDigits n '+' (by rw [text]; exact List.mem_cons_self))).2.2.1
  · rw [if_pos decimal]
    exact congrArg (fun m : Nat => some (m : Int)) value

theorem positive_toString {n : Nat} (pos : 0 < n) : positive? (some (toString n)) = some n := by
  unfold positive?
  rw [Option.bind_some, toList_toString, Nat.ofDigitChars_ten_toDigits]
  exact if_pos ⟨Nat.toDigits_ne_nil, all_isDigit_toDigits n, pos⟩

end Numbers

section Identity

variable {str : Json → String} {reply : Ask → Option Json} {secret : String} {auth : Auth} {r : Request} {f : Forwarded}

theorem forward_tenant {tenant : Tenant} (own : auth.tenant = some tenant) (forwarded : forward str reply secret auth r = .ok f) :
    ∃ resolved, tenantRoute str reply auth tenant r = .ok resolved ∧
      f = ⟨r.path, (tenantHeaders str secret tenant resolved).foldl (fun d h => insert h.1 h.2 d)
        (insert "x-llm-router-caller" auth.caller (keptHeaders r.headers)), .text (Json.obj resolved.payload).compact⟩ := by
  unfold forward at forwarded
  rw [own] at forwarded
  dsimp only at forwarded
  split at forwarded
  · cases forwarded
  · rename_i resolved accepted
    split at forwarded
    · exact ⟨resolved, accepted, (Except.ok.inj forwarded).symm⟩
    · cases forwarded

theorem forward_operator (own : auth.tenant = none) (forwarded : forward str reply secret auth r = .ok f) :
    f = ⟨r.path, insert "x-llm-router-caller" auth.caller (keptHeaders r.headers), .client⟩ := by
  unfold forward at forwarded
  rw [own] at forwarded
  dsimp only at forwarded
  split at forwarded
  · exact (Except.ok.inj forwarded).symm
  · cases forwarded

theorem contracted_ok {route : String} {published : Published} {payload : List (String × Json)} {resolved : Resolved}
    (done : contracted route published payload = .ok resolved) : resolved.route = route ∧ resolved.published = published ∧
      applyContract payload (.obj published.fields) = .ok (resolved.payload, resolved.selected) := by
  unfold contracted at done
  split at done
  · rename_i applied
    obtain rfl := Except.ok.inj done
    exact ⟨rfl, rfl, applied⟩
  · cases done
  · cases done

/-- A tenant's request that is resolved: posted to one of two paths, for a route that the control
plane published for this key, with the contract applied to its body. -/
theorem tenantRoute_ok {tenant : Tenant} {resolved : Resolved} (accepted : tenantRoute str reply auth tenant r = .ok resolved) :
    (r.path = chatPath ∨ r.path = responsesPath) ∧ ∃ payload name payload', r.found = some (.obj payload) ∧
      resolve reply ⟨tenant, name, auth.digest⟩ = some resolved.published ∧
      applyContract payload' (.obj resolved.published.fields) = .ok (resolved.payload, resolved.selected) ∧
      (payload' = payload ∨ payload' = insert "model" (.str resolved.route) payload) := by
  unfold tenantRoute at accepted
  split at accepted
  · rename_i payload found
    dsimp only at accepted
    split at accepted
    · cases accepted
    · rename_i fits
      simp only [not_or, not_and_or, not_not] at fits
      refine ⟨fits.2.1, ?_⟩
      split at accepted
      · split at accepted
        · rename_i published known
          split at accepted
          · rename_i route named
            obtain ⟨rfl, rfl, applied⟩ := contracted_ok accepted
            exact ⟨payload, _, _, found, known, applied, .inr rfl⟩
          · cases accepted
        · cases accepted
      · split at accepted
        · rename_i published known
          obtain ⟨-, rfl, applied⟩ := contracted_ok accepted
          exact ⟨payload, _, _, found, known, applied, .inl rfl⟩
        · cases accepted
  · cases accepted

theorem keys_tenantHeaders (tenant : Tenant) (resolved : Resolved) : ((tenantHeaders str secret tenant resolved).map (·.1)).Nodup := by
  unfold tenantHeaders
  cases tenant.scope <;> simp

/-- A name that the client cannot set: what the ingress sets of it. -/
theorem lookup_set {tenant : Tenant} {resolved : Resolved} {name : String} (dropped : name ∈ droppedHeaders) :
    ((tenantHeaders str secret tenant resolved).foldl (fun d h => insert h.1 h.2 d)
      (insert "x-llm-router-caller" auth.caller (keptHeaders r.headers))).lookup name =
      (tenantHeaders str secret tenant resolved).lookup name := by
  rw [lookup_update (keys_tenantHeaders tenant resolved), lookup_insert_of_ne (ne_caller dropped), lookup_kept dropped,
    Option.or_none]

theorem lookup_unset {name : String} (dropped : name ∈ droppedHeaders) :
    (insert "x-llm-router-caller" auth.caller (keptHeaders r.headers)).lookup name = none := by
  rw [lookup_insert_of_ne (ne_caller dropped), lookup_kept dropped]

/-- What the router should enter for a key. -/
def entryOf : Option Tenant → Entry
  | none => .operator
  | some tenant => .tenant tenant.id (tenant.scope.map fun scope => (scope.project, scope.environment))

variable (str secret) in
theorem lookup_tenantHeaders (tenant : Tenant) (resolved : Resolved) :
    let headers := tenantHeaders str secret tenant resolved
    headers.lookup "x-llm-router-tenant" = some (toString tenant.id) ∧ headers.lookup "x-internal-secret" = some secret ∧
      headers.lookup "x-unhardcoded-scope-version" = tenant.scope.map (fun _ => "2") ∧
      headers.lookup "x-unhardcoded-project" = tenant.scope.map (fun scope => toString scope.project) ∧
      headers.lookup "x-unhardcoded-environment" = tenant.scope.map (fun scope => toString scope.environment) := by
  unfold tenantHeaders
  cases tenant.scope <;> simp [List.lookup_cons]

theorem tenantContext_tenant {tenant : Tenant} {resolved : Resolved} (url secret' : String) {path : List String}
    (path_ok : path = chatPath ∨ path = responsesPath) {headers : List (String × String)}
    (set : ∀ name ∈ droppedHeaders, headers.lookup name = (tenantHeaders str secret tenant resolved).lookup name) :
    tenantContext url secret' path headers =
      if url ≠ "" ∧ secret' ≠ "" ∧ secret = secret' then entryOf (some tenant) else .refused 403 := by
  have endpoint : path ∈ tenantEndpoints := by
    rcases path_ok with rfl | rfl <;> decide
  obtain ⟨id, key, version, project, environment⟩ := lookup_tenantHeaders str secret tenant resolved
  have positive : (some (tenant.id : Int)).filter (0 < ·) = some (tenant.id : Int) := by
    have := tenant.id_pos
    simp [this]
  unfold tenantContext internalSecretOk
  rw [set _ (by decide), set _ (by decide), set _ (by decide), set _ (by decide), set _ (by decide), id, key, version, project,
    environment, Option.getD_some]
  dsimp only
  rw [intOf_toString, positive]
  dsimp only
  by_cases known : url ≠ "" ∧ secret' ≠ "" ∧ secret = secret'
  · obtain ⟨named, some_secret, rfl⟩ := known
    rw [if_neg (by simp [named, some_secret]), if_pos (show url ≠ "" ∧ secret ≠ "" ∧ secret = secret from ⟨named, some_secret, rfl⟩)]
    change _ = Entry.tenant tenant.id (tenant.scope.map fun scope => (scope.project, scope.environment))
    cases tenant.scope with
    | none => simp [endpoint]
    | some scope =>
      simp only [Option.map_some, Option.isSome_some, Bool.or_true, if_true]
      rw [positive_toString scope.project_pos, positive_toString scope.environment_pos]
      exact if_pos endpoint
  · rw [if_neg known, if_pos]
    simp only [not_and_or, not_not] at known
    rcases known with url | secret | other
    · exact .inl url
    · exact .inr (by simp [secret])
    · exact .inr (by simp [other])

theorem tenantContext_operator (url secret' : String) (path : List String) {headers : List (String × String)}
    (unset : ∀ name ∈ droppedHeaders, headers.lookup name = none) : tenantContext url secret' path headers = .operator := by
  unfold tenantContext
  rw [unset _ (by decide), unset _ (by decide), unset _ (by decide), unset _ (by decide)]
  rfl

/-- A forwarded request, whatever its client wrote into it: the router names the key's caller, and
enters the key's own tenant and scope, or none for an operator's key; where the two do not share
their secret it refuses a tenant's request. Only a tenant's request carries the secret. -/
theorem ingress_identity (forwarded : forward str reply secret auth r = .ok f) (url secret' : String) :
    f.headers.lookup "x-llm-router-caller" = some auth.caller ∧
    f.headers.lookup "x-internal-secret" = auth.tenant.map (fun _ => secret) ∧
    tenantContext url secret' f.path f.headers =
      if auth.tenant.isNone ∨ url ≠ "" ∧ secret' ≠ "" ∧ secret = secret' then entryOf auth.tenant else .refused 403 := by
  cases own : auth.tenant with
  | none =>
    obtain rfl := forward_operator own forwarded
    refine ⟨lookup_insert_self _ _ _, lookup_unset (by decide), ?_⟩
    rw [if_pos (.inl rfl)]
    exact tenantContext_operator url secret' r.path fun name dropped => lookup_unset dropped
  | some tenant =>
    obtain ⟨resolved, accepted, rfl⟩ := forward_tenant own forwarded
    obtain ⟨path, _⟩ := tenantRoute_ok accepted
    have unnamed : (tenantHeaders str secret tenant resolved).lookup "x-llm-router-caller" = none := by
      unfold tenantHeaders
      cases tenant.scope <;> simp [List.lookup_cons]
    refine ⟨?_, ?_, ?_⟩
    · rw [lookup_update (keys_tenantHeaders tenant resolved), unnamed, Option.none_or, lookup_insert_self]
    · rw [lookup_set (by decide)]
      exact (lookup_tenantHeaders str secret tenant resolved).2.1
    · rw [tenantContext_tenant url secret' path fun name dropped => lookup_set dropped]
      simp

/-- A route of one project and environment. -/
def publishedRoute : List (String × Json) :=
  [("policy_ir", .arr []), ("policy_id", .str (String.ofList (List.replicate 64 'a'))), ("revision", .int 1),
    ("scope_version", .int 2), ("tenant_id", .int 7), ("project_id", .int 3), ("environment_id", .int 4)]

def scopedTenant : Tenant := ⟨7, some ⟨3, 4, by decide, by decide⟩, by decide⟩

def tenantKey : Auth := ⟨"caller", String.ofList (List.replicate 64 'd'), [], some scopedTenant⟩

def spoof : List (String × Json) := [("model", .str "route:a"), ("policy_ir", .str "own")]

/-- A tenant's request that names another tenant and environment, and brings a policy of its own. -/
def spoofing : Request :=
  ⟨"POST", chatPath, [("X-LLM-Router-Tenant", "8"), ("X-Unhardcoded-Environment", "9")], some (.obj spoof), some (.obj spoof)⟩

def spoofed : Resolved :=
  ⟨"route:a", ⟨publishedRoute, none⟩, ⟨.arr [], .str (String.ofList (List.replicate 64 'a')), "default"⟩,
    contractPayload spoof [] (.arr [])⟩

def passed : Forwarded where
  path := chatPath
  headers := (tenantHeaders (fun _ => "") "secret" scopedTenant spoofed).foldl (fun d h => insert h.1 h.2 d)
    (insert "x-llm-router-caller" "caller" (keptHeaders spoofing.headers))
  body := .text (Json.obj spoofed.payload).compact

theorem forward_spoofing : forward (fun _ => "") (fun _ => some (.obj publishedRoute)) "secret" tenantKey spoofing = .ok passed := rfl

theorem ingress_identity_spoofing :
    passed.headers.lookup "x-llm-router-caller" = some "caller" ∧ passed.headers.lookup "x-internal-secret" = some "secret" ∧
      tenantContext "url" "secret" passed.path passed.headers = .tenant 7 (some (3, 4)) := by
  obtain ⟨caller, key, entry⟩ := ingress_identity forward_spoofing "url" "secret"
  exact ⟨caller, key, entry.trans (if_pos (.inr ⟨by decide, by decide, rfl⟩))⟩

end Identity

/-! ## The contract -/

section Contract

theorem keys_picked (keys : List String) (fields : List (String × Json)) : ((picked keys fields).map (·.1)).Sublist keys := by
  unfold picked
  rw [List.map_filterMap]
  induction keys with
  | nil => exact List.Sublist.refl _
  | cons key keys ih =>
    cases found : fields.lookup key with
    | none =>
      rw [List.filterMap_cons_none (by simp [found])]
      exact ih.cons key
    | some value =>
      rw [List.filterMap_cons_some (b := key) (by simp [found])]
      exact ih.cons_cons key

theorem lookup_picked (keys : List String) (fields : List (String × Json)) (key : String) :
    (picked keys fields).lookup key = if key ∈ keys then fields.lookup key else none := by
  unfold picked
  induction keys with
  | nil => rfl
  | cons first keys ih =>
    by_cases same : key = first
    · subst same
      rw [if_pos List.mem_cons_self]
      cases found : fields.lookup key with
      | none =>
        rw [List.filterMap_cons_none (by rw [found]; rfl), ih, found]
        exact ite_self none
      | some value => rw [List.filterMap_cons_some (by rw [found]; rfl), List.lookup_cons_self]
    · have other : (key == first) = false := beq_eq_false_iff_ne.mpr same
      have mem : key ∈ first :: keys ↔ key ∈ keys := by simp [same]
      rw [if_congr mem rfl rfl]
      cases found : fields.lookup first with
      | none => rw [List.filterMap_cons_none (by rw [found]; rfl), ih]
      | some value => rw [List.filterMap_cons_some (by rw [found]; rfl), List.lookup_cons, other, ih]

/-- A key that the payload keeps. -/
def keeps (key : String) : Bool := key ≠ "routing_preference" && !strippedFields.contains key

/-- Each key of a tenant's body on the wire. -/
theorem lookup_contract (payload execution : List (String × Json)) (policyIr : Json) (key : String) :
    (contractPayload payload execution policyIr).lookup key =
      if key = "policy_ir" then some policyIr
      else if key = "timeout_ms" ∨ key = "first_token_timeout_ms" then execution.lookup key
      else if key = "_auto_contract" then
        if (execution.lookup "automatic").isSome then
          some (.obj (picked ["automatic", "automatic_mode", "automatic_sample_percent"] execution)) else none
      else if key = "flow_ir" ∨ key = "task_policies" ∨ key = "routing_preference" then none
      else payload.lookup key := by
  have stripped : ∀ key, (payload.filter fun entry => keeps entry.1).lookup key = if keeps key then payload.lookup key else none :=
    lookup_filter_keys keeps payload
  have distinct : ((picked ["timeout_ms", "first_token_timeout_ms"] execution).map (·.1)).Nodup :=
    (keys_picked _ _).nodup (by decide)
  have before : ∀ d : List (String × Json),
      (insert "policy_ir" policyIr (update d (picked ["timeout_ms", "first_token_timeout_ms"] execution))).lookup key =
      if key = "policy_ir" then some policyIr
      else (if key = "timeout_ms" ∨ key = "first_token_timeout_ms" then execution.lookup key else none).or (d.lookup key) := by
    intro d
    have mem : key ∈ ["timeout_ms", "first_token_timeout_ms"] ↔ key = "timeout_ms" ∨ key = "first_token_timeout_ms" := by simp
    rw [lookup_insert, update, lookup_update distinct, lookup_picked, if_congr mem rfl rfl]
  have gone : ∀ other, keeps other = false → (payload.filter fun entry => keeps entry.1).lookup other = none := by
    intro other dropped
    rw [stripped, dropped]
    rfl
  have auto : ∀ (other : String) (A : Json), (if (execution.lookup "automatic").isSome
        then insert "_auto_contract" A (payload.filter fun entry => keeps entry.1)
        else payload.filter fun entry => keeps entry.1).lookup other =
      if other = "_auto_contract" then (if (execution.lookup "automatic").isSome then some A else none)
      else if keeps other then payload.lookup other else none := by
    intro other A
    split
    · rw [lookup_insert, stripped]
    · split
      · rename_i same
        exact gone other (by rw [same]; decide)
      · exact stripped other
  refine (before (if (execution.lookup "automatic").isSome
      then insert "_auto_contract" (.obj (picked ["automatic", "automatic_mode", "automatic_sample_percent"] execution))
        (payload.filter fun entry => keeps entry.1)
      else payload.filter fun entry => keeps entry.1)).trans ?_
  rw [auto]
  by_cases policy : key = "policy_ir"
  · rw [if_pos policy, if_pos policy]
  rw [if_neg policy, if_neg policy]
  by_cases timed : key = "timeout_ms" ∨ key = "first_token_timeout_ms"
  · have lost : keeps key = false ∧ key ≠ "_auto_contract" := by
      rcases timed with rfl | rfl <;> decide
    rw [if_pos timed, if_pos timed, if_neg lost.2, lost.1]
    exact Option.or_none
  rw [if_neg timed, if_neg timed, Option.none_or]
  by_cases automatic : key = "_auto_contract"
  · rw [if_pos automatic, if_pos automatic]
  rw [if_neg automatic, if_neg automatic]
  have kept : keeps key = true ↔ ¬(key = "flow_ir" ∨ key = "task_policies" ∨ key = "routing_preference") := by
    simp only [not_or] at timed
    simp [keeps, strippedFields, policy, timed, automatic]
    tauto
  rw [if_congr kept rfl rfl, ite_not]

/-- A policy that the owner published: the route's own, or the variant's under the preference. -/
def Authorised (published preference policy : Json) : Prop :=
  (preference = .null ∧ policy = published.field "policy_ir") ∨
    ∃ name variants variant, preference = .str name ∧ published.field "preferences" = .obj variants ∧
      variants.lookup name = some variant ∧ policy = variant.field "policy_ir"

theorem variantPolicy_ok {variant policy id : Json} (chosen : variantPolicy variant = .ok (policy, id)) :
    policy = variant.field "policy_ir" ∧ isArr policy = true := by
  unfold variantPolicy at chosen
  split at chosen
  · rename_i fits
    cases chosen
    simp only [Bool.and_eq_true] at fits
    exact ⟨rfl, fits.1.2⟩
  · cases chosen

theorem selectVariant_ok {published preference policy id : Json} (list : isArr (published.field "policy_ir") = true)
    (chosen : selectVariant published preference = .ok (policy, id)) : Authorised published preference policy ∧ isArr policy = true := by
  unfold selectVariant at chosen
  split at chosen
  · cases chosen
    exact ⟨.inl ⟨rfl, rfl⟩, list⟩
  · rename_i name
    dsimp only at chosen
    split at chosen
    · cases chosen
    · cases chosen
    · rename_i inside
      split at chosen
      · rename_i fields variants
        obtain ⟨policy_eq, isList⟩ := variantPolicy_ok chosen
        rw [variants] at inside
        obtain ⟨variant, found⟩ := Option.isSome_iff_exists.mp (Except.ok.inj inside)
        rw [found, Option.getD_some] at policy_eq
        refine ⟨.inr ⟨name, fields, variant, rfl, ?_, found, policy_eq⟩, isList⟩
        unfold Json.orElse at variants
        split at variants
        · exact variants
        · cases variants
          cases found
      · cases chosen
  · cases chosen

theorem resolve_ok {reply : Ask → Option Json} {ask : Ask} {published : Published} (known : resolve reply ask = some published) :
    reply ask = some (.obj published.fields) ∧ resolveRoute ask.tenant.id ask.tenant.scope (.obj published.fields) = some published ∧
      isArr ((Json.obj published.fields).field "policy_ir") = true := by
  unfold resolve at known
  split at known
  · cases known
  · obtain ⟨data, answered, checked⟩ := Option.bind_eq_some_iff.mp known
    have fields : data = .obj published.fields ∧ isArr (data.field "policy_ir") = true := by
      unfold resolveRoute at checked
      split at checked
      · rename_i fields
        split at checked
        · rename_i fits
          obtain ⟨limits, _, rfl⟩ := Option.map_eq_some_iff.mp checked
          simp only [Bool.and_eq_true] at fits
          exact ⟨rfl, fits.1.1.1.2⟩
        · cases checked
      · cases checked
    rw [← fields.1]
    exact ⟨answered, checked, fields.2⟩

end Contract

/-! ## The wire -/

section Wire

variable {float : String → Json} {fields : List (String × Json)}

theorem sound_insert (sound : (Json.obj fields).Sound float) (key : String) {value : Json} (valueSound : value.Sound float) :
    (Json.obj (insert key value fields)).Sound float := by
  refine ⟨nodup_insert sound.1 key value, (soundFields_iff float _).mpr fun entry mem => ?_⟩
  rcases mem_insert mem with rfl | earlier
  · exact valueSound
  · exact (soundFields_iff float _).mp sound.2 entry earlier.1

theorem sound_filter (sound : (Json.obj fields).Sound float) (p : String × Json → Bool) : (Json.obj (fields.filter p)).Sound float :=
  ⟨nodup_filter sound.1 p, (soundFields_iff float _).mpr fun entry mem =>
    (soundFields_iff float _).mp sound.2 entry (List.mem_of_mem_filter mem)⟩

theorem sound_lookup (sound : (Json.obj fields).Sound float) {key : String} {value : Json} (found : fields.lookup key = some value) :
    value.Sound float :=
  (soundFields_iff float _).mp sound.2 (key, value) (mem_of_lookup found)

theorem sound_field (sound : (Json.obj fields).Sound float) (key : String) : ((Json.obj fields).field key).Sound float := by
  change ((fields.lookup key).getD .null).Sound float
  cases found : fields.lookup key with
  | none => trivial
  | some value => exact sound_lookup sound found

theorem sound_picked (sound : (Json.obj fields).Sound float) {keys : List String} (distinct : keys.Nodup) :
    (Json.obj (picked keys fields)).Sound float := by
  refine ⟨(keys_picked keys fields).nodup distinct, (soundFields_iff float _).mpr fun entry mem => ?_⟩
  obtain ⟨key, _, taken⟩ := List.mem_filterMap.mp mem
  obtain ⟨value, found, rfl⟩ := Option.map_eq_some_iff.mp taken
  exact sound_lookup sound found

theorem sound_update (sound : (Json.obj fields).Sound float) {entries : List (String × Json)}
    (each : ∀ entry ∈ entries, entry.2.Sound float) : (Json.obj (update fields entries)).Sound float := by
  unfold update
  induction entries generalizing fields with
  | nil => exact sound
  | cons entry entries ih =>
    exact ih (sound_insert sound entry.1 (each entry List.mem_cons_self)) fun other mem => each other (List.mem_cons_of_mem _ mem)

theorem sound_contract {payload execution : List (String × Json)} {policyIr : Json} (sound : (Json.obj payload).Sound float)
    (executes : (Json.obj execution).Sound float) (policy : policyIr.Sound float) :
    (Json.obj (contractPayload payload execution policyIr)).Sound float := by
  have stripped := sound_filter sound fun entry => entry.1 ≠ "routing_preference" && !strippedFields.contains entry.1
  have timed := (soundFields_iff float _).mp (sound_picked executes (show ["timeout_ms", "first_token_timeout_ms"].Nodup by decide)).2
  unfold contractPayload
  dsimp only
  refine sound_insert (sound_update ?_ timed) _ policy
  split
  · exact sound_insert stripped _ (sound_picked executes (by decide))
  · exact stripped

theorem sound_executionOf (sound : (Json.obj fields).Sound float) : (Json.obj (executionOf (.obj fields))).Sound float := by
  have nothing : (Json.obj []).Sound float := ⟨List.nodup_nil, trivial⟩
  have execution : (((Json.obj fields).field "execution").orElse (.obj [])).Sound float := by
    unfold Json.orElse
    split
    · exact sound_field sound "execution"
    · exact nothing
  unfold executionOf
  split
  · rename_i found
    rw [found] at execution
    exact execution
  · exact nothing

theorem sound_authorised (sound : (Json.obj fields).Sound float) {preference policy : Json}
    (authorised : Authorised (.obj fields) preference policy) : policy.Sound float := by
  rcases authorised with ⟨_, rfl⟩ | ⟨name, variants, variant, _, published, found, rfl⟩
  · exact sound_field sound "policy_ir"
  · have ofVariants : (Json.obj variants).Sound float := published ▸ sound_field sound "preferences"
    have ofVariant := sound_lookup ofVariants found
    cases variant with
    | obj inner => exact sound_field ofVariant "policy_ir"
    | _ => trivial

theorem applyContract_ok {payload payload' : List (String × Json)} {published : Json} {selected : Selected}
    (list : isArr (published.field "policy_ir") = true) (applied : applyContract payload published = .ok (payload', selected)) :
    payload' = contractPayload payload (executionOf published) selected.policyIr ∧
      Authorised published ((payload.lookup "routing_preference").getD .null) selected.policyIr ∧ isArr selected.policyIr = true := by
  unfold applyContract at applied
  dsimp only at applied
  split at applied
  · cases applied
  · rename_i chosen
    split at applied
    · cases applied
    · cases applied
      exact ⟨rfl, selectVariant_ok list chosen⟩

variable {str : Json → String} {reply : Ask → Option Json} {secret : String} {auth : Auth} {r : Request} {f : Forwarded}

/-- What the router keeps of a published execution for automatic selection. -/
def automaticOf (execution : List (String × Json)) : Json :=
  if (execution.lookup "automatic").isSome then .obj (picked ["automatic", "automatic_mode", "automatic_sample_percent"] execution)
  else .null

/-- What the router takes from a body that the contract was applied to. -/
theorem routing_contract (path : List String) (payload execution : List (String × Json)) (policyIr : Json) :
    let run := routing path (.obj (contractPayload payload execution policyIr))
    run.policyIr = policyIr ∧ run.flowIr = .null ∧ run.timeoutMs = (Json.obj execution).field "timeout_ms" ∧
      run.firstTokenTimeoutMs = (Json.obj execution).field "first_token_timeout_ms" ∧ run.automatic = automaticOf execution := by
  have wire (key : String) := congrArg (·.getD Json.null) (lookup_contract payload execution policyIr key)
  refine ⟨wire "policy_ir", ?_, wire "timeout_ms", wire "first_token_timeout_ms", (wire "_auto_contract").trans ?_⟩
  · unfold routing
    dsimp only
    split
    · rfl
    · exact wire "flow_ir"
  · unfold automaticOf
    cases execution.lookup "automatic" <;> rfl

/-- What the client sent of the body is what the router gets. -/
theorem lookup_contract_kept {payload execution : List (String × Json)} {policyIr : Json} {key : String} (kept : keeps key = true) :
    (contractPayload payload execution policyIr).lookup key = payload.lookup key := by
  have other : ∀ name, keeps name = false → key ≠ name := by
    rintro name lost rfl
    rw [kept] at lost
    cases lost
  rw [lookup_contract, if_neg (other _ (by decide)), if_neg (not_or.mpr ⟨other _ (by decide), other _ (by decide)⟩),
    if_neg (other _ (by decide)),
    if_neg (not_or.mpr ⟨other _ (by decide), not_or.mpr ⟨other _ (by decide), other _ (by decide)⟩⟩)]

/-- A tenant's forwarded request, whatever its client wrote into the body: the router reads the body
back from the wire, and runs a policy that the owner published for this key, under the preference
that the client named, with the published deadlines and automatic selection and no flow; the rest of
the body is the client's. -/
theorem tenant_runs_published {tenant : Tenant} (own : auth.tenant = some tenant) (forwarded : forward str reply secret auth r = .ok f)
    (json : ∀ data, r.found = some data → data.Sound float) (replies : ∀ ask data, reply ask = some data → data.Sound float) :
    ∃ payload name published text wire, r.found = some (.obj payload) ∧ resolve reply ⟨tenant, name, auth.digest⟩ = some published ∧
      f.body = .text text ∧ loads float text = some (.obj wire) ∧
      let execution := executionOf (.obj published.fields)
      let run := routing f.path (.obj wire)
      Authorised (.obj published.fields) ((payload.lookup "routing_preference").getD .null) run.policyIr ∧ isArr run.policyIr = true ∧
        run.flowIr = .null ∧ run.timeoutMs = (Json.obj execution).field "timeout_ms" ∧
        run.firstTokenTimeoutMs = (Json.obj execution).field "first_token_timeout_ms" ∧ run.automatic = automaticOf execution ∧
        (∀ key ∈ ["task_policies", "routing_preference"], wire.lookup key = none) ∧
        ∀ key, keeps key = true → key ≠ "model" → wire.lookup key = payload.lookup key := by
  obtain ⟨resolved, accepted, rfl⟩ := forward_tenant own forwarded
  obtain ⟨_, payload, name, payload', found, known, applied, body⟩ := tenantRoute_ok accepted
  obtain ⟨answered, _, list⟩ := resolve_ok known
  obtain ⟨written, authorised, isList⟩ := applyContract_ok list applied
  have published := replies _ _ answered
  have client := json _ found
  have other : ∀ key, key ≠ "model" → payload'.lookup key = payload.lookup key := by
    intro key unnamed
    rcases body with rfl | rfl
    · rfl
    · exact lookup_insert_of_ne unnamed _ _
  have preference := other "routing_preference" (by decide)
  rw [preference] at authorised
  have sound' : (Json.obj payload').Sound float := by
    rcases body with rfl | rfl
    · exact client
    · exact sound_insert client "model" trivial
  have sound := sound_contract sound' (sound_executionOf published) (sound_authorised published authorised)
  obtain ⟨policy, flow, timeout, firstToken, automatic⟩ :=
    routing_contract r.path payload' (executionOf (.obj resolved.published.fields)) resolved.selected.policyIr
  rw [written]
  refine ⟨payload, name, resolved.published, _, _, found, known, rfl, loads_compact sound, ?_, ?_, flow, timeout, firstToken,
    automatic, ?_, ?_⟩
  · exact (congrArg (Authorised _ _) policy).mpr authorised
  · exact (congrArg isArr policy).trans isList
  · intro key stripped
    rw [lookup_contract]
    rcases List.mem_pair.mp stripped with rfl | rfl
    · rfl
    · rfl
  · intro key kept unnamed
    exact (lookup_contract_kept kept).trans (other key unnamed)

theorem tenant_runs_published_spoofing : ∃ text wire, passed.body = .text text ∧ loads (fun _ => .null) text = some (.obj wire) ∧
    (routing chatPath (.obj wire)).policyIr = .arr [] := by
  have json : ∀ data, spoofing.found = some data → data.Sound (fun _ => .null) := by
    rintro _ ⟨rfl⟩
    exact ⟨by decide, trivial, trivial, trivial⟩
  have replies : ∀ (ask : Ask) data, some (Json.obj publishedRoute) = some data → data.Sound (fun _ => .null) := by
    rintro _ _ ⟨rfl⟩
    exact ⟨by decide, trivial, trivial, trivial, trivial, trivial, trivial, trivial, trivial⟩
  obtain ⟨payload, name, published, text, wire, found, known, body, read, policy, -⟩ :=
    tenant_runs_published rfl forward_spoofing json replies
  have fields : Json.obj publishedRoute = .obj published.fields := Option.some.inj (resolve_ok known).1
  obtain rfl : spoof = payload := Json.obj.inj (Option.some.inj found)
  rcases policy with ⟨_, own⟩ | ⟨variant, _, _, preference, _⟩
  · rw [← fields] at own
    exact ⟨text, wire, body, read, own⟩
  · have : Json.null = .str variant := preference
    cases this

end Wire

end Unhardcoded.Guarantees.TenantIngress
