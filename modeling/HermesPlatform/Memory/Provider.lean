/-
  HermesPlatform.Memory.Provider

  The keys under which `RedisMemoryProvider` stores the memories of the agents, and
  `clear` of the two providers.

  A Redis key joins the parts of a namespace by colons, which no part contains; `clear`
  finds the keys of an agent by a glob pattern.  `PostgresMemoryProvider` has the parts in
  columns.  The contents of either store are arbitrary; the test of glob patterns is a
  parameter.
-/

import HermesPlatform.Lib.Python
import HermesPlatform.Lib.Separated
import HermesPlatform.Lib.Table
import Mathlib.Data.Bool.AllAny

namespace HermesPlatform
namespace Memory
namespace Provider

open Separated Python

/-! ## Namespaces -/

/-- `NAMESPACE_PART.fullmatch(value)`. -/
def fullmatch (value : List Char) : Bool :=
  match value with
  | [] => false
  | c :: rest =>
      c.isAlphanum && rest.all fun d => d.isAlphanum || d = '.' || d = '_' || d = '-'

/-- What `__post_init__` and `_key` let pass. -/
def Accepted (limit : Nat) (value : String) : Prop :=
  value.length ≤ limit ∧ fullmatch value.toList = true

instance (limit : Nat) (value : String) : Decidable (Accepted limit value) := by
  unfold Accepted
  infer_instance

inductive AgentMemoryError where
  /-- `f"invalid memory namespace {label}"`. -/
  | invalidNamespace (label : String)
  | invalidKey
  /-- `"Redis memory value could not be loaded"`. -/
  | notLoaded
deriving DecidableEq, Repr

structure MemoryNamespace where
  agentId : String
  sessionId : String
  memoryType : String
  agentId_accepted : Accepted 64 agentId
  sessionId_accepted : Accepted 128 sessionId
  memoryType_accepted : Accepted 64 memoryType
deriving DecidableEq

/-- `MemoryNamespace(agent_id, session_id, memory_type)`. -/
def memoryNamespace (agentId sessionId memoryType : String) :
    Except AgentMemoryError MemoryNamespace :=
  if ha : Accepted 64 agentId then
    if hs : Accepted 128 sessionId then
      if ht : Accepted 64 memoryType then .ok ⟨agentId, sessionId, memoryType, ha, hs, ht⟩
      else .error (.invalidNamespace "memory_type")
    else .error (.invalidNamespace "session_id")
  else .error (.invalidNamespace "agent_id")

/-- `AgentMemoryStore._key(key)`. -/
def checkKey (key : String) : Except AgentMemoryError String :=
  if Accepted 128 key then .ok key else .error .invalidKey

/-! ## Redis -/

inductive RedisValue where
  | string (value : String)
  | list (items : List String)
deriving DecidableEq, Repr

abbrev Contents := List (String × RedisValue)

/-- `":".join(parts)`. -/
def joined (parts : List String) : String :=
  String.ofList (List.intercalate [':'] (parts.map String.toList))

def keyPrefix : String := "hermes:agent-memory:v2"

/-- `RedisMemoryProvider._key(namespace, key)`. -/
def redisKey (ns : MemoryNamespace) (key : String) : String :=
  joined [keyPrefix, ns.agentId, ns.sessionId, ns.memoryType, key]

def legacyPrefix : String := "hermes:agent-memory:v1"

/-- The key of the list of the older version. -/
def legacyKey (agentId sessionId : String) : String := joined [legacyPrefix, agentId, sessionId]

/-- `scan_iter(match=pattern)`. -/
def scanIter (g : Glob) (pattern : String) (contents : Contents) : List String :=
  (contents.map Prod.fst).filter fun key => g.test pattern.toList key.toList

/-- `DEL key [key ...]`. -/
def del (keys : List String) (contents : Contents) : Contents :=
  contents.filter fun e => decide (e.1 ∉ keys)

/-- `RedisMemoryProvider.clear`. -/
def redisClear (g : Glob) (agentId : String) (sessionId memoryType : Option String)
    (contents : Contents) : Contents :=
  let session := (truthy sessionId).getD "*"
  let parts := [keyPrefix, agentId, session, (truthy memoryType).getD "*", "*"]
  let contents := del (scanIter g (joined parts) contents) contents
  del (scanIter g (legacyKey agentId session) contents) contents

/-! ## PostgreSQL -/

/-- A row, with a value of some type. -/
structure AgentMemory (ω : Type) where
  agentId : String
  sessionId : String
  memoryType : String
  key : String
  value : ω
deriving DecidableEq, Repr

/-- The `WHERE` of `PostgresMemoryProvider.clear`. -/
def inScope (agentId : String) (sessionId memoryType : Option String)
    (rowAgent rowSession rowType : String) : Bool :=
  rowAgent = agentId && sessionId.all (rowSession = ·) && memoryType.all (rowType = ·)

/-- `PostgresMemoryProvider.clear`. -/
def postgresClear {ω : Type} (agentId : String) (sessionId memoryType : Option String)
    (rows : List (AgentMemory ω)) : List (AgentMemory ω) :=
  rows.filter fun row =>
    !inScope agentId sessionId memoryType row.agentId row.sessionId row.memoryType

/-- `AgentMemoryStore.clear_agent`, with the `clear` of its provider. -/
def clearAgent {σ : Type} (clear : String → Option String → Option String → σ → σ)
    (memoryType agentId : String) (store : σ) : Except AgentMemoryError Unit × σ :=
  match memoryNamespace agentId "validation" memoryType with
  | .error e => (.error e, store)
  | .ok _ => (.ok (), clear agentId none none store)

/-! ## Characters of the parts -/

theorem partChar {limit : Nat} {value : String} (h : Accepted limit value) :
    ∀ c ∈ value.toList, c.isAlphanum = true ∨ c = '.' ∨ c = '_' ∨ c = '-' := by
  intro c hc
  have hmatch := h.2
  unfold fullmatch at hmatch
  split at hmatch
  next => cases hmatch
  next first rest hvalue =>
    rw [hvalue] at hc
    rw [Bool.and_eq_true, List.all_eq_true] at hmatch
    obtain rfl | hc := List.mem_cons.mp hc
    · exact .inl hmatch.1
    · have hrest := hmatch.2 c hc
      simp only [Bool.or_eq_true, decide_eq_true_eq] at hrest
      tauto

theorem ordinary_of_accepted {limit : Nat} {value : String} (h : Accepted limit value) :
    ∀ c ∈ value.toList, Ordinary c := by
  intro c hc hspecial
  have hpart := partChar h c hc
  simp only [List.mem_cons, List.not_mem_nil, or_false] at hspecial
  obtain rfl | rfl | rfl | rfl := hspecial <;> exact absurd hpart (by decide)

theorem colon_not_mem {limit : Nat} {value : String} (h : Accepted limit value) :
    ':' ∉ value.toList :=
  fun hc => absurd (partChar h ':' hc) (by decide)

theorem truthy_of_accepted {limit : Nat} {value : String} (h : Accepted limit value) :
    truthy (some value) = some value := by
  refine truthy_eq_some.mpr ⟨rfl, ?_⟩
  rintro rfl
  exact absurd h.2 (by decide)

/-! ## The keys -/

section Keys

variable {ns ns' : MemoryNamespace} {key key' : String}

theorem toList_joined (parts : List String) :
    (joined parts).toList = List.intercalate [':'] (parts.map String.toList) :=
  String.toList_ofList

theorem toList_joined_cons (word : String) {parts : List String} (h : parts ≠ []) :
    (joined (word :: parts)).toList = word.toList ++ ':' :: (joined parts).toList := by
  rw [toList_joined, toList_joined, List.map_cons,
    intercalate_cons fun hnil => h (List.map_eq_nil_iff.mp hnil)]

/-- The parts of a namespace and a key. -/
def parts (ns : MemoryNamespace) (key : String) : List String :=
  [ns.agentId, ns.sessionId, ns.memoryType, key]

/-- The part of a key or a pattern behind the prefix. -/
theorem toList_keyPrefix {parts : List String} (h : parts ≠ []) :
    (joined (keyPrefix :: parts)).toList =
      (keyPrefix.toList ++ [':']) ++ (joined parts).toList := by
  rw [toList_joined_cons keyPrefix h, List.append_assoc]
  rfl

theorem toList_redisKey :
    (redisKey ns key).toList = (keyPrefix.toList ++ [':']) ++ (joined (parts ns key)).toList :=
  toList_keyPrefix (List.cons_ne_nil _ _)

theorem toList_legacyKey (agentId sessionId : String) :
    (legacyKey agentId sessionId).toList =
      (legacyPrefix.toList ++ [':']) ++ (joined [agentId, sessionId]).toList := by
  rw [legacyKey, toList_joined_cons legacyPrefix (List.cons_ne_nil _ _), List.append_assoc]
  rfl

theorem prefix_length :
    (keyPrefix.toList ++ [':']).length = (legacyPrefix.toList ++ [':']).length := by
  decide

theorem prefix_ne : keyPrefix.toList ++ [':'] ≠ legacyPrefix.toList ++ [':'] := by
  decide

theorem redisKey_ne_legacyKey (agentId sessionId : String) :
    redisKey ns key ≠ legacyKey agentId sessionId := by
  intro h
  have htext := congrArg String.toList h
  rw [toList_redisKey, toList_legacyKey] at htext
  exact prefix_ne (List.append_inj_left htext prefix_length)

theorem colon_not_mem_parts (hkey : Accepted 128 key) :
    ∀ part ∈ (parts ns key).map String.toList, ':' ∉ part := by
  simp only [parts, List.map_cons, List.map_nil, List.forall_mem_cons]
  exact ⟨colon_not_mem ns.agentId_accepted, colon_not_mem ns.sessionId_accepted,
    colon_not_mem ns.memoryType_accepted, colon_not_mem hkey, List.forall_mem_nil _⟩

/-- **Different tuples have different keys.** -/
theorem redisKey_inj (hkey : Accepted 128 key) (hkey' : Accepted 128 key')
    (h : redisKey ns key = redisKey ns' key') : ns = ns' ∧ key = key' := by
  have htext := congrArg String.toList h
  rw [toList_redisKey, toList_redisKey] at htext
  have hjoin := List.append_cancel_left htext
  rw [toList_joined, toList_joined] at hjoin
  have hlength : ((parts ns key).map String.toList).length =
      ((parts ns' key').map String.toList).length := rfl
  have hparts :=
    intercalate_inj hlength (colon_not_mem_parts hkey) (colon_not_mem_parts hkey') hjoin
  have hstrings := List.map_injective_iff.mpr (fun _ _ => String.toList_inj.mp) hparts
  simp only [parts, List.cons.injEq, and_true] at hstrings
  obtain ⟨ha, hs, ht, hk⟩ := hstrings
  cases ns
  cases ns'
  simp only [MemoryNamespace.mk.injEq]
  exact ⟨⟨ha, hs, ht⟩, hk⟩

end Keys

/-! ## Patterns -/

section Patterns

variable (g : Glob) {ns : MemoryNamespace} {key agentId : String}
  {sessionId memoryType : Option String}

/-- What `clear` puts into a pattern for an optional argument. -/
theorem toList_getD {limit : Nat} {value : Option String} (h : ∀ v ∈ value, Accepted limit v) :
    ((truthy value).getD "*").toList = segment (value.map String.toList) := by
  cases value with
  | none => rfl
  | some v =>
      rw [truthy_of_accepted (h v rfl)]
      rfl

theorem fits_iff {value : Option String} {text : String} :
    (∀ l, value.map String.toList = some l → text.toList = l) ↔ value.all (text = ·) = true := by
  cases value with
  | none => exact iff_of_true (fun _ h => absurd h nofun) rfl
  | some v =>
      rw [Option.all_some, decide_eq_true_eq, ← String.toList_inj]
      constructor
      · intro h
        exact h v.toList rfl
      · rintro h l hl
        rw [h]
        exact Option.some.inj hl

/-- The parts of a pattern, none for a star. -/
def segments (values : List (Option String)) : List (Option (List Char)) :=
  values.map (Option.map String.toList)

theorem segments_accepted {values : List (Option String)}
    (h : ∀ v, some v ∈ values → ∃ limit, Accepted limit v) :
    ∀ l, some l ∈ segments values → (∀ c ∈ l, Ordinary c) ∧ ':' ∉ l := by
  intro l hl
  obtain ⟨value, hvalue, heq⟩ := List.mem_map.mp hl
  obtain ⟨v, rfl, rfl⟩ := Option.map_eq_some_iff.mp heq
  obtain ⟨limit, hv⟩ := h v hvalue
  exact ⟨ordinary_of_accepted hv, colon_not_mem hv⟩

/-- A pattern of some parts behind a prefix, on a text of as many. -/
theorem test_parts {front : List Char} (hfront : ∀ c ∈ front, Ordinary c)
    {values : List (Option String)} {texts : List String} (hlength : values.length = texts.length)
    (hvalues : ∀ v, some v ∈ values → ∃ limit, Accepted limit v)
    (htexts : ∀ t ∈ texts.map String.toList, ':' ∉ t) :
    g.test (front ++ List.intercalate [':'] ((segments values).map segment))
        (front ++ (joined texts).toList) = true ↔
      List.Forall₂ (fun value text => value.all (text = ·) = true) values texts := by
  have hsegments := segments_accepted hvalues
  have hlen : (segments values).length = (texts.map String.toList).length := by
    rw [segments, List.length_map, List.length_map, hlength]
  have hmatch := g.test_intercalate (by decide) hlen (fun l hl => (hsegments l hl).1) htexts
    fun l hl => (hsegments l hl).2
  rw [g.test_append hfront, toList_joined]
  constructor
  · rintro ⟨rest, hrest, htest⟩
    rw [← List.append_cancel_left hrest, hmatch, segments, List.forall₂_map_left_iff,
      List.forall₂_map_right_iff] at htest
    exact htest.imp fun _ _ h => fits_iff.mp h
  · intro h
    refine ⟨_, rfl, hmatch.mpr ?_⟩
    rw [segments, List.forall₂_map_left_iff, List.forall₂_map_right_iff]
    exact h.imp fun _ _ h => fits_iff.mpr h

theorem ordinary_keyPrefix : ∀ c ∈ keyPrefix.toList ++ [':'], Ordinary c :=
  List.all_iff_forall_prop.mp (by decide)

theorem ordinary_legacyPrefix : ∀ c ∈ legacyPrefix.toList ++ [':'], Ordinary c :=
  List.all_iff_forall_prop.mp (by decide)

/-- The keys that the first pattern of `clear` matches. -/
theorem test_redisKey (hkey : Accepted 128 key) (hagent : Accepted 64 agentId)
    (hsession : ∀ s ∈ sessionId, Accepted 128 s) (htype : ∀ t ∈ memoryType, Accepted 64 t) :
    g.test
      (joined [keyPrefix, agentId, (truthy sessionId).getD "*", (truthy memoryType).getD "*",
        "*"]).toList (redisKey ns key).toList =
      inScope agentId sessionId memoryType ns.agentId ns.sessionId ns.memoryType := by
  let values : List (Option String) := [some agentId, sessionId, memoryType, none]
  have hpattern : (joined [keyPrefix, agentId, (truthy sessionId).getD "*",
      (truthy memoryType).getD "*", "*"]).toList =
      (keyPrefix.toList ++ [':']) ++ List.intercalate [':'] ((segments values).map segment) := by
    rw [toList_keyPrefix (List.cons_ne_nil _ _), toList_joined]
    simp only [segments, values, List.map_cons, List.map_nil, toList_getD hsession,
      toList_getD htype]
    rfl
  have hvalues : ∀ v, some v ∈ values → ∃ limit, Accepted limit v := by
    simp only [values, List.mem_cons, List.not_mem_nil, or_false]
    rintro v (h | h | h | h)
    · cases h
      exact ⟨64, hagent⟩
    · exact ⟨128, hsession v h.symm⟩
    · exact ⟨64, htype v h.symm⟩
    · cases h
  rw [Bool.eq_iff_iff, hpattern, toList_redisKey,
    test_parts g ordinary_keyPrefix rfl hvalues (colon_not_mem_parts hkey)]
  simp only [values, parts, List.forall₂_cons, List.Forall₂.nil, Option.all_some, Option.all_none,
    inScope, Bool.and_eq_true, and_true, and_assoc]

/-- The lists that the second pattern of `clear` matches. -/
theorem test_legacyKey (hagent : Accepted 64 agentId)
    (hsession : ∀ s ∈ sessionId, Accepted 128 s) :
    g.test (legacyKey agentId ((truthy sessionId).getD "*")).toList
        (legacyKey ns.agentId ns.sessionId).toList =
      inScope agentId sessionId none ns.agentId ns.sessionId ns.memoryType := by
  let values : List (Option String) := [some agentId, sessionId]
  have hpattern : (legacyKey agentId ((truthy sessionId).getD "*")).toList =
      (legacyPrefix.toList ++ [':']) ++
        List.intercalate [':'] ((segments values).map segment) := by
    rw [toList_legacyKey, toList_joined]
    simp only [segments, values, List.map_cons, List.map_nil, toList_getD hsession]
    rfl
  have hvalues : ∀ v, some v ∈ values → ∃ limit, Accepted limit v := by
    simp only [values, List.mem_cons, List.not_mem_nil, or_false]
    rintro v (h | h)
    · cases h
      exact ⟨64, hagent⟩
    · exact ⟨128, hsession v h.symm⟩
  have htexts : ∀ t ∈ [ns.agentId, ns.sessionId].map String.toList, ':' ∉ t := by
    simp only [List.map_cons, List.map_nil, List.forall_mem_cons]
    exact ⟨colon_not_mem ns.agentId_accepted, colon_not_mem ns.sessionId_accepted,
      List.forall_mem_nil _⟩
  rw [Bool.eq_iff_iff, hpattern, toList_legacyKey,
    test_parts g ordinary_legacyPrefix rfl hvalues htexts]
  simp only [values, List.forall₂_cons, List.Forall₂.nil, Option.all_some, Option.all_none,
    inScope, Bool.and_eq_true, and_true]

/-- Neither pattern of `clear` matches a key of the other version. -/
theorem test_other_version (parts parts' : List Char) :
    g.test ((keyPrefix.toList ++ [':']) ++ parts) ((legacyPrefix.toList ++ [':']) ++ parts') =
        false ∧
      g.test ((legacyPrefix.toList ++ [':']) ++ parts) ((keyPrefix.toList ++ [':']) ++ parts') =
        false := by
  exact ⟨g.test_eq_false ordinary_keyPrefix prefix_length prefix_ne _ _,
    g.test_eq_false ordinary_legacyPrefix prefix_length.symm prefix_ne.symm _ _⟩

end Patterns

/-! ## `clear` -/

section Clear

variable (g : Glob) {ns : MemoryNamespace} {key agentId : String}
  {sessionId memoryType : Option String} (contents : Contents)

theorem get_del_scanIter (pattern k : String) :
    Table.get k (del (scanIter g pattern contents) contents) =
      if g.test pattern.toList k.toList then none else Table.get k contents := by
  rw [del, Table.get_filter (fun j => decide (j ∉ scanIter g pattern contents)) k]
  by_cases hmem : k ∈ contents.map Prod.fst
  · simp only [scanIter, List.mem_filter, hmem, true_and, decide_eq_true_eq, Bool.not_eq_true]
    split <;> simp_all
  · have hnone : Table.get k contents = none := by
      rw [Table.get, Table.lookup_eq_none.mpr hmem, Option.map_none]
    rw [hnone, ite_self, ite_self]

variable (hagent : Accepted 64 agentId) (hsession : ∀ s ∈ sessionId, Accepted 128 s)
include hagent hsession

/-- What `clear` leaves of the entries. -/
theorem get_redisClear (htype : ∀ t ∈ memoryType, Accepted 64 t) (hkey : Accepted 128 key) :
    Table.get (redisKey ns key) (redisClear g agentId sessionId memoryType contents) =
      if inScope agentId sessionId memoryType ns.agentId ns.sessionId ns.memoryType then none
      else Table.get (redisKey ns key) contents := by
  have hother : g.test (legacyKey agentId ((truthy sessionId).getD "*")).toList
      (redisKey ns key).toList = false := by
    rw [toList_legacyKey, toList_redisKey]
    exact (test_other_version g _ _).2
  unfold redisClear
  dsimp only
  rw [get_del_scanIter, hother, get_del_scanIter, test_redisKey g hkey hagent hsession htype]
  rfl

/-- What `clear` leaves of the lists of the older version. -/
theorem get_legacy_redisClear :
    Table.get (legacyKey ns.agentId ns.sessionId)
        (redisClear g agentId sessionId memoryType contents) =
      if inScope agentId sessionId none ns.agentId ns.sessionId ns.memoryType then none
      else Table.get (legacyKey ns.agentId ns.sessionId) contents := by
  have hother : g.test
      (joined [keyPrefix, agentId, (truthy sessionId).getD "*", (truthy memoryType).getD "*",
        "*"]).toList (legacyKey ns.agentId ns.sessionId).toList = false := by
    rw [toList_legacyKey, toList_keyPrefix (List.cons_ne_nil _ _)]
    exact (test_other_version g _ _).1
  unfold redisClear
  dsimp only
  rw [get_del_scanIter, test_legacyKey g hagent hsession, get_del_scanIter, hother]
  rfl

end Clear

/-! ## Isolation -/

/-- A row holds the entry of a key. -/
def Stored {ω : Type} (ns : MemoryNamespace) (key : String) (rows : List (AgentMemory ω)) :
    Prop :=
  ∃ row ∈ rows, row.agentId = ns.agentId ∧ row.sessionId = ns.sessionId ∧
    row.memoryType = ns.memoryType ∧ row.key = key

theorem stored_postgresClear {ω : Type} {ns : MemoryNamespace} {key agentId : String}
    {sessionId memoryType : Option String} {rows : List (AgentMemory ω)} :
    Stored ns key (postgresClear agentId sessionId memoryType rows) ↔
      inScope agentId sessionId memoryType ns.agentId ns.sessionId ns.memoryType = false ∧
        Stored ns key rows := by
  simp only [Stored, postgresClear, List.mem_filter, Bool.not_eq_true']
  constructor
  · rintro ⟨row, ⟨hrow, hscope⟩, ha, hs, ht, hk⟩
    rw [ha, hs, ht] at hscope
    exact ⟨hscope, row, hrow, ha, hs, ht, hk⟩
  · rintro ⟨hscope, row, hrow, ha, hs, ht, hk⟩
    refine ⟨row, ⟨hrow, ?_⟩, ha, hs, ht, hk⟩
    rw [ha, hs, ht]
    exact hscope

/-- The two stores hold the same entries. -/
def Agree {ω : Type} (contents : Contents) (rows : List (AgentMemory ω)) : Prop :=
  ∀ ns key, Accepted 128 key →
    ((Table.get (redisKey ns key) contents).isSome ↔ Stored ns key rows)

/-- What is left of the two stores after a `clear`: everything but what is in its scope, and
    of the lists of the older version those of the other sessions. -/
structure Cleared {ω : Type} (agentId : String) (sessionId memoryType : Option String)
    (contents contents' : Contents) (rows rows' : List (AgentMemory ω)) : Prop where
  redis : ∀ (ns : MemoryNamespace) (key : String), Accepted 128 key →
    Table.get (redisKey ns key) contents' =
      if inScope agentId sessionId memoryType ns.agentId ns.sessionId ns.memoryType then none
      else Table.get (redisKey ns key) contents
  legacy : ∀ ns : MemoryNamespace, Table.get (legacyKey ns.agentId ns.sessionId) contents' =
    if inScope agentId sessionId none ns.agentId ns.sessionId ns.memoryType then none
    else Table.get (legacyKey ns.agentId ns.sessionId) contents
  postgres : ∀ (ns : MemoryNamespace) (key : String), Stored ns key rows' ↔
    inScope agentId sessionId memoryType ns.agentId ns.sessionId ns.memoryType = false ∧
      Stored ns key rows
  agree : Agree contents rows → Agree contents' rows'

structure Isolation {ω : Type} (g : Glob) (contents : Contents) (rows : List (AgentMemory ω)) :
    Prop where
  /-- Different tuples have different keys. -/
  keys : ∀ (ns ns' : MemoryNamespace) (key key' : String), Accepted 128 key → Accepted 128 key' →
    redisKey ns key = redisKey ns' key' → ns = ns' ∧ key = key'
  clear : ∀ (agentId : String) (sessionId memoryType : Option String), Accepted 64 agentId →
    (∀ s ∈ sessionId, Accepted 128 s) → (∀ t ∈ memoryType, Accepted 64 t) →
      Cleared agentId sessionId memoryType contents
        (redisClear g agentId sessionId memoryType contents) rows
        (postgresClear agentId sessionId memoryType rows)
  /-- Without a session and a type, the scope is the agent. -/
  agent : ∀ agentId rowAgent rowSession rowType : String,
    inScope agentId none none rowAgent rowSession rowType = decide (rowAgent = agentId)
  /-- `clear_agent` refuses an id that no namespace has. -/
  clearAgent : ∀ memoryType agentId : String, Accepted 64 memoryType →
    clearAgent (redisClear g) memoryType agentId contents =
      if Accepted 64 agentId then (.ok (), redisClear g agentId none none contents)
      else (.error (.invalidNamespace "agent_id"), contents)

/-- **The namespaces are isolated**, whatever the two stores contain. -/
theorem namespaces_isolated {ω : Type} (g : Glob) (contents : Contents)
    (rows : List (AgentMemory ω)) : Isolation g contents rows := by
  refine ⟨fun _ _ _ _ => redisKey_inj, ?_, ?_, ?_⟩
  · intro agentId sessionId memoryType hagent hsession htype
    refine ⟨?_, ?_, fun _ _ => stored_postgresClear, ?_⟩
    · intro ns key hkey
      exact get_redisClear g contents hagent hsession htype hkey
    · intro ns
      exact get_legacy_redisClear g contents hagent hsession
    · intro hagree ns key hkey
      rw [get_redisClear g contents hagent hsession htype hkey, stored_postgresClear,
        ← hagree ns key hkey]
      cases inScope agentId sessionId memoryType ns.agentId ns.sessionId ns.memoryType with
      | true => exact iff_of_false (fun h => absurd h nofun) fun h => absurd h.1 nofun
      | false => exact (and_iff_right rfl).symm
  · intro agentId rowAgent rowSession rowType
    simp only [inScope, Option.all_none, Bool.and_true]
  · intro memoryType agentId htype
    have hvalidation : Accepted 128 "validation" := by decide
    unfold clearAgent memoryNamespace
    by_cases hagent : Accepted 64 agentId
    · rw [dif_pos hagent, dif_pos hvalidation, dif_pos htype, if_pos hagent]
    · rw [dif_neg hagent, if_neg hagent]

/-- Two agents, one of whose ids begins with the other. -/
def ada : MemoryNamespace :=
  ⟨"ada", "s1", "short-term", by decide, by decide, by decide⟩

def adaLovelace : MemoryNamespace :=
  ⟨"ada.l", "s1", "short-term", by decide, by decide, by decide⟩

def twoAgents : Contents :=
  [(redisKey ada "messages", .string "[]"), (legacyKey "ada" "s1", .list ["\"x\""]),
    (redisKey adaLovelace "messages", .string "[]")]

/-- Clearing the shorter id leaves the entry of the longer one. -/
theorem namespaces_isolated_twoAgents :
    Table.get (redisKey ada "messages") (redisClear Glob.stars "ada" none none twoAgents) = none ∧
      Table.get (redisKey adaLovelace "messages")
          (redisClear Glob.stars "ada" none none twoAgents) = some (.string "[]") := by
  have h := (namespaces_isolated Glob.stars twoAgents ([] : List (AgentMemory Unit))).clear "ada"
    none none (by decide) nofun nofun
  have hada := h.redis ada "messages" (by decide)
  have hlovelace := h.redis adaLovelace "messages" (by decide)
  rw [hada, hlovelace]
  exact ⟨rfl, rfl⟩

end Provider
end Memory
end HermesPlatform
