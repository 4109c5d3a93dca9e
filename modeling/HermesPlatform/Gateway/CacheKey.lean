/-
  HermesPlatform.Gateway.CacheKey

  The response cache of the capability gateway: `_cache_key`, `_cache_get` and
  `_cache_set`.

  The key covers what a call is resolved to, the connector operation and the order
  of the arguments excepted: two calls have the same key just when they agree on
  everything else (`cacheKey_eq_iff`).  An implementation with another operation of
  the same connector instance is answered from the entries of the one before it, and
  so is a call whose arguments stand in another order, also where the mapping renames
  two of them to one field and the last of them is sent.

  `hashlib.sha256(...).hexdigest()` is a parameter; it is assumed to be
  injective where a result needs it.
-/

import HermesPlatform.Gateway.Policy
import HermesPlatform.Lib.JsonDict
import HermesPlatform.Lib.Transition
import Mathlib.Logic.Equiv.Basic

namespace HermesPlatform
namespace Gateway

open Python Transition

/-! ## Resolutions -/

/-- The columns of `connector_operations` that make the request and map the
    response. -/
structure ConnectorOperation where
  protocol : String
  method : Option String
  pathOrTool : String
  requestMapping : RequestMapping
  responseMapping : Json

structure Implementation where
  connectorInstanceRevisionId : String
  operation : ConnectorOperation

/-- `cache_policy`: whether `enabled` is true, and `ttl_seconds` as an integer,
    0 where it is none. -/
structure CachePolicy where
  enabled : Bool
  ttlSeconds : Int

structure Binding where
  id : String
  capabilityKey : String
  capabilityVersion : String
  resourceScopeRevisionId : Option String
  sideEffect : String
  cachePolicy : CachePolicy

/-- What the cache functions are called with. -/
structure Resolution where
  agentId : String
  binding : Binding
  implementation : Implementation
  arguments : Dict String Json

/-- What the provider is sent. -/
def Resolution.request (py : PythonValues) (r : Resolution) : Dict String Json :=
  mapRequest py r.arguments r.implementation.operation.requestMapping

/-! ## The key -/

def optional (s : Option String) : Json :=
  match s with
  | some s => .string s
  | none => .null

/-- The `material` of the key. -/
def Resolution.material (r : Resolution) : List (String × Json) :=
  [("agent_id", .string r.agentId),
    ("binding_id", .string r.binding.id),
    ("capability", .string r.binding.capabilityKey),
    ("version", .string r.binding.capabilityVersion),
    ("connector_revision", .string r.implementation.connectorInstanceRevisionId),
    ("scope_revision", optional r.binding.resourceScopeRevisionId),
    ("arguments", .object r.arguments.entries)]

/-- `_cache_key`. -/
def cacheKey (sha256 : String → String) (r : Resolution) : String :=
  "hermes:capability-cache:" ++ sha256 (Json.dumps (.object r.material))

/-- Two calls agree on what the key covers.  The order of the arguments does
    not count. -/
structure Keyed (r r' : Resolution) : Prop where
  agent : r.agentId = r'.agentId
  binding : r.binding.id = r'.binding.id
  capability : r.binding.capabilityKey = r'.binding.capabilityKey
  version : r.binding.capabilityVersion = r'.binding.capabilityVersion
  connectorRevision :
    r.implementation.connectorInstanceRevisionId = r'.implementation.connectorInstanceRevisionId
  scopeRevision : r.binding.resourceScopeRevisionId = r'.binding.resourceScopeRevisionId
  arguments : (Json.object r.arguments.entries).sortKeys =
    (Json.object r'.arguments.entries).sortKeys

/-- Two calls agree on what makes the request and the response, and on the request. -/
structure Agree (py : PythonValues) (r r' : Resolution) : Prop extends Keyed r r' where
  operation : r.implementation.operation = r'.implementation.operation
  request : (Json.object (r.request py).entries).sortKeys =
    (Json.object (r'.request py).entries).sortKeys

theorem optional_inj {s s' : Option String} (h : (optional s).sortKeys = (optional s').sortKeys) :
    s = s' := by
  cases s <;> cases s' <;> simp_all [optional, Json.sortKeys]

theorem material_nodup (r : Resolution) : (r.material.map Prod.fst).Nodup := by
  simp [Resolution.material]

theorem material_agree_iff {r r' : Resolution} :
    (Json.object r.material).sortKeys = (Json.object r'.material).sortKeys ↔ Keyed r r' := by
  refine ⟨fun h => ?_, fun h => ?_⟩
  · -- Each of the seven members is read off at its name.
    have hmember {k : String} {v v' : Json} (hv : (k, v) ∈ r.material)
        (hv' : (k, v') ∈ r'.material) : v.sortKeys = v'.sortKeys :=
      Json.sortKeys_member (material_nodup r') h hv hv'
    have hstring {k : String} {s s' : String} (hs : (k, .string s) ∈ r.material)
        (hs' : (k, .string s') ∈ r'.material) : s = s' := by
      simpa [Json.sortKeys] using hmember hs hs'
    exact {
      agent := hstring (k := "agent_id") (by simp [Resolution.material])
        (by simp [Resolution.material])
      binding := hstring (k := "binding_id") (by simp [Resolution.material])
        (by simp [Resolution.material])
      capability := hstring (k := "capability") (by simp [Resolution.material])
        (by simp [Resolution.material])
      version := hstring (k := "version") (by simp [Resolution.material])
        (by simp [Resolution.material])
      connectorRevision := hstring (k := "connector_revision") (by simp [Resolution.material])
        (by simp [Resolution.material])
      scopeRevision := optional_inj (hmember (k := "scope_revision")
        (by simp [Resolution.material]) (by simp [Resolution.material]))
      arguments := hmember (k := "arguments") (by simp [Resolution.material])
        (by simp [Resolution.material]) }
  · simp only [Json.sortKeys, Json.sortMembers, Resolution.material, h.agent, h.binding,
      h.capability, h.version, h.connectorRevision, h.scopeRevision]
    have harguments := h.arguments
    simp only [Json.sortKeys] at harguments
    rw [harguments]

/-- The key covers the resolution and the arguments, and nothing of the
    operation. -/
theorem cacheKey_eq_iff {sha256 : String → String} (hsha : Function.Injective sha256)
    {r r' : Resolution} : cacheKey sha256 r = cacheKey sha256 r' ↔ Keyed r r' := by
  have hprefix : cacheKey sha256 r = cacheKey sha256 r' ↔
      sha256 (Json.dumps (.object r.material)) = sha256 (Json.dumps (.object r'.material)) :=
    String.append_right_inj _
  exact hprefix.trans (hsha.eq_iff.trans (Json.dumps_inj.trans material_agree_iff))

/-! ## The order of the arguments -/

/-- The last of the arguments that are sent under the name. -/
def RequestMapping.lastKey (py : PythonValues) (mapping : RequestMapping) (args : Dict String Json)
    (name : String) : Option String :=
  (args.keys.filter fun k => mapping.sends k && mapping.name py k = name).getLast?

/-- Where only the arguments come under a name, the last one in either order is the same, or has
    the same value. -/
def SameLast (py : PythonValues) (mapping : RequestMapping) (args args' : Dict String Json) : Prop :=
  ∀ name, mapping.fixed.get? name = none →
    mapping.scopeAt py (getValue args "resource_scope") name = none →
    ∀ j ∈ mapping.lastKey py args name, ∀ k ∈ mapping.lastKey py args' name,
      j = k ∨ (args.get? j).map Json.sortKeys = (args'.get? k).map Json.sortKeys

/-- No two arguments are sent under one name. -/
theorem sameLast_of_injective {py : PythonValues} {mapping : RequestMapping}
    {args args' : Dict String Json} (h : ∀ j ∈ args.keys, ∀ k ∈ args'.keys, mapping.sends j →
      mapping.sends k → mapping.name py j = mapping.name py k → j = k) :
    SameLast py mapping args args' := by
  intro name _ _ j hj k hk
  obtain ⟨hjmem, hj⟩ := List.mem_filter.mp (List.mem_of_getLast? hj)
  obtain ⟨hkmem, hk⟩ := List.mem_filter.mp (List.mem_of_getLast? hk)
  rw [Bool.and_eq_true, decide_eq_true_eq] at hj hk
  exact .inl (h j hjmem k hkmem hj.1 hk.1 (hj.2.trans hk.2.symm))

theorem lastSent_eq (py : PythonValues) (mapping : RequestMapping) (args : Dict String Json)
    (name : String) : mapping.lastSent py args.entries name =
      (mapping.lastKey py args name).bind args.get? := by
  have hfilter : ((args.entries.filter fun e => mapping.sends e.1).map
      fun e => (mapping.name py e.1, e.2)).filter (fun p => p.1 = name) =
      (args.entries.filter fun e => mapping.sends e.1 && mapping.name py e.1 = name).map
        fun e => (mapping.name py e.1, e.2) := by
    rw [List.filter_map, List.filter_filter]
    refine congrArg _ (List.filter_congr fun e _ => ?_)
    rw [Bool.and_comm, Function.comp_apply]
  have hkeys : args.keys.filter (fun k => mapping.sends k && mapping.name py k = name) =
      (args.entries.filter fun e => mapping.sends e.1 && mapping.name py e.1 = name).map
        Prod.fst := List.filter_map
  rw [RequestMapping.lastSent, Dict.lastValue, hfilter, RequestMapping.lastKey, hkeys,
    List.getLast?_map, List.getLast?_map]
  cases hlast : (args.entries.filter fun e =>
      mapping.sends e.1 && mapping.name py e.1 = name).getLast? with
  | none => rfl
  | some e => exact (Dict.get?_of_mem (List.mem_of_mem_filter (List.mem_of_getLast? hlast))).symm

/-- Two dictionaries that agree have the same last argument under a name, or both have none. -/
theorem isSome_lastKey {py : PythonValues} {mapping : RequestMapping} {args args' : Dict String Json}
    (h : ∀ k, (args.get? k).map Json.sortKeys = (args'.get? k).map Json.sortKeys) (name : String) :
    (mapping.lastKey py args name).isSome = (mapping.lastKey py args' name).isSome := by
  have hkeys : ∀ k, k ∈ args.keys ↔ k ∈ args'.keys := by
    intro k
    rw [Dict.mem_keys_iff, Dict.mem_keys_iff, ← Option.isSome_iff_exists, ← Option.isSome_iff_exists,
      ← Option.isSome_map, h k, Option.isSome_map]
  have hmem : ∀ args : Dict String Json, (mapping.lastKey py args name).isSome = true ↔
      ∃ k ∈ args.keys, (mapping.sends k && mapping.name py k = name) = true := by
    intro args
    rw [RequestMapping.lastKey, Option.isSome_iff_ne_none, ne_eq, List.getLast?_eq_none_iff]
    refine ⟨fun hne => ?_, fun ⟨k, hk, hsent⟩ => List.ne_nil_of_mem (List.mem_filter.mpr ⟨hk, hsent⟩)⟩
    obtain ⟨k, hk⟩ := List.exists_mem_of_ne_nil _ hne
    exact ⟨k, List.mem_filter.mp hk⟩
  rw [Bool.eq_iff_iff, hmem, hmem]
  exact exists_congr fun k => and_congr_left' (hkeys k)

/-- Two calls on which the key agrees have the same operation, and where it renames several of
    their arguments to one field, the order does not matter. -/
structure Settled (py : PythonValues) (r r' : Resolution) : Prop where
  operation : r.implementation.operation = r'.implementation.operation
  order : SameLast py r.implementation.operation.requestMapping r.arguments r'.arguments

theorem sortKeys_eq_null {v : Json} : isNotNone v.sortKeys = isNotNone v := by
  cases v <;> rfl

theorem getValue_map_sortKeys {args args' : Dict String Json}
    (h : ∀ k, (args.get? k).map Json.sortKeys = (args'.get? k).map Json.sortKeys) (k : String) :
    (getValue args k).map Json.sortKeys = (getValue args' k).map Json.sortKeys := by
  have hfilter : ∀ o : Option Json,
      (o.filter isNotNone).map Json.sortKeys = (o.map Json.sortKeys).filter isNotNone := by
    intro o
    cases o with
    | none => rfl
    | some v =>
        rw [Option.map_some, Option.filter_some, Option.filter_some, sortKeys_eq_null]
        split <;> rfl
  rw [getValue, getValue, hfilter, hfilter, h k]

/-- **Requests.**  The order of the arguments changes the request just where another one of them
    comes last under a name, with another value. -/
theorem mapRequest_agree_iff {py : PythonValues} {mapping : RequestMapping}
    {args args' : Dict String Json}
    (h : ∀ k, (args.get? k).map Json.sortKeys = (args'.get? k).map Json.sortKeys) :
    (∀ name, ((mapRequest py args mapping).get? name).map Json.sortKeys =
      ((mapRequest py args' mapping).get? name).map Json.sortKeys) ↔
      SameLast py mapping args args' := by
  refine forall_congr' fun name => ?_
  have hscope : (mapping.scopeAt py (getValue args "resource_scope") name).map Json.sortKeys =
      (mapping.scopeAt py (getValue args' "resource_scope") name).map Json.sortKeys := by
    rw [RequestMapping.scopeAt, RequestMapping.scopeAt]
    split
    · exact getValue_map_sortKeys h _
    · rfl
  rw [get?_mapRequest, get?_mapRequest, lastSent_eq, lastSent_eq]
  -- The order counts only where neither the scope nor a fixed field is sent under the name.
  cases hs : mapping.scopeAt py (getValue args "resource_scope") name with
  | some s =>
      rw [hs] at hscope
      obtain ⟨s', hs', heq⟩ := Option.map_eq_some_iff.mp hscope.symm
      rw [hs', Option.some_or, Option.some_or, Option.map_some, Option.map_some, heq]
      exact iff_of_true rfl fun _ hnone => by cases hnone
  | none =>
      rw [hs, Option.map_none, eq_comm, Option.map_eq_none_iff] at hscope
      rw [hscope, Option.none_or, Option.none_or]
      cases hfixed : mapping.fixed.get? name with
      | some f => exact iff_of_true rfl fun hnone => by cases hnone
      | none =>
          rw [Option.none_or, Option.none_or]
          have hboth : (mapping.lastKey py args name).isSome = (mapping.lastKey py args' name).isSome :=
            isSome_lastKey h name
          cases hj : mapping.lastKey py args name with
          | none =>
              rw [hj, Option.isSome_none, eq_comm, Option.isSome_eq_false_iff,
                Option.isNone_iff_eq_none] at hboth
              rw [hboth]
              exact iff_of_true rfl fun _ _ j hmem => by cases hmem
          | some j =>
              rw [hj, Option.isSome_some, eq_comm, Option.isSome_iff_exists] at hboth
              obtain ⟨k, hk⟩ := hboth
              rw [hk, Option.bind_some, Option.bind_some]
              constructor
              · rintro heq - - j' ⟨⟩ k' ⟨⟩
                exact .inr heq
              · intro hlast
                obtain rfl | heq := hlast rfl rfl j rfl k rfl
                · exact h j
                · exact heq

theorem Keyed.agree_iff {py : PythonValues} {r r' : Resolution} (h : Keyed r r') :
    Agree py r r' ↔ Settled py r r' := by
  have hvalues := Json.sortKeys_dict_iff.mp h.arguments
  constructor
  · intro hagree
    refine ⟨hagree.operation, (mapRequest_agree_iff hvalues).mp ?_⟩
    have hrequest := Json.sortKeys_dict_iff.mp hagree.request
    rw [Resolution.request, Resolution.request, ← hagree.operation] at hrequest
    exact hrequest
  · rintro ⟨hoperation, horder⟩
    refine { h with operation := hoperation, request := Json.sortKeys_dict_iff.mpr ?_ }
    rw [Resolution.request, Resolution.request, ← hoperation]
    exact (mapRequest_agree_iff hvalues).mpr horder

/-! ## The cache -/

/-- `_cache_ttl`. -/
def cacheTtl (binding : Binding) : Int :=
  if binding.sideEffect ≠ "READ_ONLY" then 0
  else if ¬ binding.cachePolicy.enabled then 0
  else min (max binding.cachePolicy.ttlSeconds 0) 3600

/-- A cached response; `producer` is the call it was mapped for, which is not
    stored. -/
structure CacheEntry where
  key : String
  value : Json
  producer : Resolution

/-- `_cache_get`. -/
def cacheGet (sha256 : String → String) (cache : List CacheEntry) (r : Resolution) : Option Json :=
  if cacheTtl r.binding ≤ 0 then none
  else (cache.find? (·.key = cacheKey sha256 r)).map (·.value)

/-- `_cache_set`. -/
def cacheSet (sha256 : String → String) (cache : List CacheEntry) (r : Resolution) (value : Json) :
    List CacheEntry :=
  if cacheTtl r.binding ≤ 0 then cache
  else ⟨cacheKey sha256 r, value, r⟩ :: cache.filter (·.key ≠ cacheKey sha256 r)

inductive CacheAction where
  | set (r : Resolution) (value : Json)
  /-- The time to live of an entry has passed. -/
  | expire (key : String)

def cacheStep (sha256 : String → String) (cache : List CacheEntry) :
    CacheAction → Option (List CacheEntry)
  | .set r value => some (cacheSet sha256 cache r value)
  | .expire key => some (cache.filter (·.key ≠ key))

def cacheSystem (sha256 : String → String) : System (List CacheEntry) CacheAction :=
  ⟨fun cache => cache = [], cacheStep sha256⟩

/-- Every entry stands under the key of the call it was made for. -/
theorem cache_keys {sha256 : String → String} {cache : List CacheEntry}
    (h : (cacheSystem sha256).Reachable System.anyStep cache) :
    ∀ e ∈ cache, e.key = cacheKey sha256 e.producer := by
  refine h.invariant (fun cache => ∀ e ∈ cache, e.key = cacheKey sha256 e.producer) ?_ ?_
  · rintro cache rfl e he
    cases he
  · intro cache a cache' hcache _ hstep
    cases a with
    | set r value =>
        cases hstep
        intro e he
        unfold cacheSet at he
        split at he
        · exact hcache e he
        · rcases List.mem_cons.mp he with rfl | he
          · rfl
          · exact hcache e (List.mem_of_mem_filter he)
    | expire key =>
        cases hstep
        exact fun e he => hcache e (List.mem_of_mem_filter he)

/-- **Cache coherence.**  Two calls with the same key agree on everything just when they are
    settled.  So, in every run, a hit was produced for a call that agrees with this one, where the
    two are settled. -/
theorem cache_coherent {sha256 : String → String} (hsha : Function.Injective sha256)
    (py : PythonValues) :
    (∀ r r' : Resolution, (cacheKey sha256 r = cacheKey sha256 r' → Agree py r r') ↔
      (Keyed r r' → Settled py r r')) ∧
    ∀ cache, (cacheSystem sha256).Reachable System.anyStep cache → ∀ r value,
      cacheGet sha256 cache r = some value → (∀ e ∈ cache, Keyed e.producer r →
        Settled py e.producer r) → ∃ e ∈ cache, e.value = value ∧ Agree py e.producer r := by
  refine ⟨fun r r' => ?_, fun cache h r value hget hsettled => ?_⟩
  · rw [cacheKey_eq_iff hsha]
    exact forall_congr' fun hkeyed => hkeyed.agree_iff
  · unfold cacheGet at hget
    split at hget
    · cases hget
    · obtain ⟨e, hfind, hvalue⟩ := Option.map_eq_some_iff.mp hget
      have he : e ∈ cache := List.mem_of_find?_eq_some hfind
      have hkey : e.key = cacheKey sha256 r := by simpa using List.find?_some hfind
      rw [cache_keys h e he, cacheKey_eq_iff hsha] at hkey
      exact ⟨e, he, hvalue, hkey.agree_iff.mpr (hsettled e he hkey)⟩

/-! ## Calls -/

/-- The canonical text of the material below. -/
def ordersText : String :=
  "\x7b\"agent_id\":\"agent\",\"arguments\":\x7b\"id\":1\x7d,\"binding_id\":\"binding\"," ++
    "\"capability\":\"orders.read\",\"connector_revision\":\"revision\"," ++
    "\"scope_revision\":null,\"version\":\"1\"\x7d"

/-- An injective function that has the digest of this text. -/
def ordersDigest : String → String :=
  Equiv.swap ordersText "d83f8cedc53db9088e3ce5877260e7e3838783f755442086a6fe152699a8ba4d"

theorem ordersDigest_injective : Function.Injective ordersDigest := Equiv.injective _

/-- Two arguments that the provider knows under one name. -/
def ordersMapping : RequestMapping :=
  ⟨Dict.ofPairs [("order_id", .string "id")], [], Dict.empty, .null⟩

def readOrders (pathOrTool : String) (arguments : Dict String Json) : Resolution where
  agentId := "agent"
  binding := {
    id := "binding"
    capabilityKey := "orders.read"
    capabilityVersion := "1"
    resourceScopeRevisionId := none
    sideEffect := "READ_ONLY"
    cachePolicy := ⟨true, 90⟩ }
  implementation :=
    ⟨"revision", ⟨"internal_rest", some "GET", pathOrTool, ordersMapping, .object []⟩⟩
  arguments := arguments

def oneOrder : Dict String Json := Dict.ofPairs [("id", .int 1)]

example : Json.dumps (.object (readOrders "/orders" oneOrder).material) = ordersText := by
  decide +kernel

/-- The call is answered from the entry that it has made. -/
theorem cache_coherent_orders :
    cacheGet ordersDigest (cacheSet ordersDigest [] (readOrders "/orders" oneOrder) .null)
        (readOrders "/orders" oneOrder) = some .null ∧
      ∃ e ∈ cacheSet ordersDigest [] (readOrders "/orders" oneOrder) .null,
        e.value = .null ∧ Agree plainValues e.producer (readOrders "/orders" oneOrder) := by
  have hsame : SameLast plainValues ordersMapping oneOrder oneOrder := by
    refine sameLast_of_injective fun j hj k hk _ _ _ => ?_
    rw [show oneOrder.keys = ["id"] from rfl, List.mem_singleton] at hj hk
    rw [hj, hk]
  have hstored : cacheSet ordersDigest [] (readOrders "/orders" oneOrder) .null =
      [⟨cacheKey ordersDigest (readOrders "/orders" oneOrder), .null,
        readOrders "/orders" oneOrder⟩] := rfl
  have hhit : cacheGet ordersDigest (cacheSet ordersDigest [] (readOrders "/orders" oneOrder) .null)
      (readOrders "/orders" oneOrder) = some .null := by
    rw [hstored, cacheGet, if_neg (by decide), List.find?_cons_of_pos (by simp)]
    rfl
  refine ⟨hhit, (cache_coherent ordersDigest_injective plainValues).2 _
    ⟨[], rfl, System.path_of_exec [.set (readOrders "/orders" oneOrder) .null] rfl⟩ _ _ hhit ?_⟩
  intro e he _
  rw [hstored, List.mem_singleton] at he
  rw [he]
  exact ⟨rfl, hsame⟩

def idThenOrder : Dict String Json := Dict.ofPairs [("id", .int 1), ("order_id", .int 2)]

def orderThenId : Dict String Json := Dict.ofPairs [("order_id", .int 2), ("id", .int 1)]

theorem sameKey_of_order : cacheKey ordersDigest (readOrders "/orders" idThenOrder) =
    cacheKey ordersDigest (readOrders "/orders" orderThenId) := by
  refine (cacheKey_eq_iff ordersDigest_injective).mpr ⟨rfl, rfl, rfl, rfl, rfl, rfl, ?_⟩
  exact Json.sortKeys_perm idThenOrder.nodup (.swap _ _ _)

/-- A new implementation with another operation is answered from the cache of the one before it,
    and so is a call whose arguments stand in the other order, which asks for another order. -/
theorem other_request_from_cache :
    (cacheKey ordersDigest (readOrders "/orders" oneOrder) =
        cacheKey ordersDigest (readOrders "/archive" oneOrder) ∧
      ¬ Agree plainValues (readOrders "/orders" oneOrder) (readOrders "/archive" oneOrder)) ∧
    cacheKey ordersDigest (readOrders "/orders" idThenOrder) =
        cacheKey ordersDigest (readOrders "/orders" orderThenId) ∧
      ((readOrders "/orders" idThenOrder).request plainValues).entries = [("id", .int 2)] ∧
      ((readOrders "/orders" orderThenId).request plainValues).entries = [("id", .int 1)] ∧
      ¬ Agree plainValues (readOrders "/orders" idThenOrder) (readOrders "/orders" orderThenId) := by
  refine ⟨⟨rfl, fun h => ?_⟩, sameKey_of_order, rfl, rfl, fun h => ?_⟩
  · have hpath : "/orders" = "/archive" := congrArg ConnectorOperation.pathOrTool h.operation
    exact absurd hpath (by decide)
  · have hvalue := Json.sortKeys_dict_iff.mp h.request "id"
    cases hvalue

end Gateway
end HermesPlatform
