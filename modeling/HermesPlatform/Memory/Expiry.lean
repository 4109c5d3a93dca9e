/-
  HermesPlatform.Memory.Expiry

  `RedisMemoryProvider` and `PostgresMemoryProvider` behind `AgentMemoryStore`: the same calls
  on both, and time that passes.

  Either provider is a map from namespaces and keys to values with a deadline, as the history
  of the calls has it.  Redis counts its clock in milliseconds and keeps an entry to the end of
  its last one; the query of PostgreSQL compares in microseconds.  So the two give the same
  answers but within the millisecond in which an entry ends (`providers_agree`).

  Both stores start empty, and the agents exist.  What JSONB makes of a value, and refuses, is a
  parameter.
-/

import HermesPlatform.Lib.Expiring
import HermesPlatform.Lib.JsonText
import HermesPlatform.Lib.Transition
import HermesPlatform.Memory.Finality

namespace HermesPlatform
namespace Memory
namespace Provider

open Expiring Separated Transition

/-! ## Redis -/

/-- The contents of Redis, with the millisecond of a key's end. -/
structure Timed where
  contents : Contents
  expires : List (String × Nat)

namespace Timed

/-- The clock counts microseconds. -/
def isLive (s : Timed) (now : Nat) (key : String) : Bool :=
  (Table.get key s.expires).all (now / 1000 ≤ ·)

/-- What the commands find. -/
def visible (s : Timed) (now : Nat) : Contents := s.contents.filter fun e => s.isLive now e.1

/-- `SET key value EX ttl`. -/
def set (s : Timed) (now ttlSeconds : Nat) (ns : MemoryNamespace) (key : String) (value : Json) :
    Timed where
  contents := redisSet ns key value s.contents
  expires := Table.put (redisKey ns key) (now / 1000 + ttlSeconds * 1000) s.expires

/-- `RedisMemoryProvider.get`; what it migrates is stored for thirty days. -/
def get (loads : String → Option Json) (s : Timed) (now : Nat) (ns : MemoryNamespace)
    (key : String) : Except AgentMemoryError Json × Timed :=
  let r := redisGet loads ns key (s.visible now)
  match Table.get (redisKey ns key) (s.visible now), r with
  | none, (.ok (.array migrated), _) =>
      (.ok (.array migrated), s.set now 2592000 ns key (.array migrated))
  | _, r => (r.1, s)

def delete (s : Timed) (ns : MemoryNamespace) (key : String) : Timed :=
  { s with contents := del [redisKey ns key] s.contents }

def clear (g : Glob) (s : Timed) (agentId : String) : Timed :=
  { s with contents := redisClear g agentId none none s.contents }

end Timed

/-! ## PostgreSQL -/

/-- A row with its value and `expires_at`. -/
abbrev TimedRow := AgentMemory (Json × Nat)

/-- The columns of `uq_agent_memories_namespace_key`. -/
def rowKey (row : TimedRow) : String × String × String × String :=
  (row.agentId, row.sessionId, row.memoryType, row.key)

def columns (ns : MemoryNamespace) (key : String) : String × String × String × String :=
  (ns.agentId, ns.sessionId, ns.memoryType, key)

def postgresGet (now : Nat) (ns : MemoryNamespace) (key : String) (rows : List TimedRow) : Json :=
  match Table.lookup rowKey (columns ns key) rows with
  | none => .null
  | some row => if row.value.2 ≤ now then .null else row.value.1

/-- `INSERT .. ON CONFLICT DO UPDATE`, where the database takes the value. -/
def postgresSet (jsonb : Json → Option Json) (now ttlSeconds : Nat) (ns : MemoryNamespace)
    (key : String) (value : Json) (rows : List TimedRow) : List TimedRow :=
  match jsonb value with
  | none => rows
  | some value =>
      let entry := (value, now + ttlSeconds * 1000000)
      Table.upsert rowKey (columns ns key) (fun row => { row with value := entry })
        ⟨ns.agentId, ns.sessionId, ns.memoryType, key, entry⟩ rows

def postgresDelete (ns : MemoryNamespace) (key : String) (rows : List TimedRow) : List TimedRow :=
  Table.delete rowKey (columns ns key) rows

/-! ## The calls -/

inductive Command where
  | get (ns : MemoryNamespace) (key : String)
  | set (ns : MemoryNamespace) (key : String) (value : Json)
  | delete (ns : MemoryNamespace) (key : String)
  | clearAgent (agentId : String)

inductive TimedAction where
  | wait (duration : Nat)
  | call (command : Command)

/-- The two stores, and the calls with their times, the last one first. -/
structure Stores where
  clock : Nat
  redis : Timed
  rows : List TimedRow
  history : List (Nat × Command)

/-- What the stores depend on. -/
structure StoresEnv where
  decoders : Json.Decoders
  glob : Glob
  jsonb : Json → Option Json
  ttlSeconds : Nat
  memoryType : String
  memoryType_accepted : Accepted 64 memoryType

section System

variable (env : StoresEnv)

/-- `json.loads` of a stored text. -/
def StoresEnv.loads (text : String) : Option Json := Json.readText env.decoders text.toList

/-- A call of `AgentMemoryStore`, with either provider. -/
def Stores.call (s : Stores) : Command → Stores
  | .get ns key =>
      match checkKey key with
      | .error _ => s
      | .ok key => { s with redis := (s.redis.get env.loads s.clock ns key).2 }
  | .set ns key value =>
      match checkKey key with
      | .error _ => s
      | .ok key =>
          { s with
            redis := s.redis.set s.clock env.ttlSeconds ns key value
            rows := postgresSet env.jsonb s.clock env.ttlSeconds ns key value s.rows }
  | .delete ns key =>
      match checkKey key with
      | .error _ => s
      | .ok key =>
          { s with
            redis := s.redis.delete ns key
            rows := postgresDelete ns key s.rows }
  | .clearAgent agentId =>
      match memoryNamespace agentId "validation" env.memoryType with
      | .error _ => s
      | .ok _ =>
          { s with
            redis := s.redis.clear env.glob agentId
            rows := postgresClear agentId none none s.rows }

def Stores.timedStep (s : Stores) : TimedAction → Option Stores
  | .wait duration => some { s with clock := s.clock + duration }
  | .call command =>
      some { s.call env command with history := (s.clock, command) :: s.history }

/-- The values are written as they are read, and the database takes them. -/
def Storable (_ : Stores) : TimedAction → Prop
  | .call (.set _ _ value) => Json.Exact env.decoders value ∧ (env.jsonb value).isSome
  | _ => True

def noEntries : Stores := ⟨0, ⟨[], []⟩, [], []⟩

def providerSystem : System Stores TimedAction where
  init := fun s => s = noEntries
  step := Stores.timedStep env

/-- `AgentMemoryStore.get` with Redis. -/
def Stores.redisAnswer (s : Stores) (ns : MemoryNamespace) (key : String) :
    Except AgentMemoryError Json :=
  match checkKey key with
  | .error e => .error e
  | .ok key => (s.redis.get env.loads s.clock ns key).1

/-- `AgentMemoryStore.get` with PostgreSQL. -/
def Stores.postgresAnswer (s : Stores) (ns : MemoryNamespace) (key : String) :
    Except AgentMemoryError Json :=
  match checkKey key with
  | .error e => .error e
  | .ok key => .ok (postgresGet s.clock ns key s.rows)

/-! ## What the history says -/

/-- What the calls have left, with its deadlines. -/
def memory : List (Nat × Command) → Expiring.Map (MemoryNamespace × String) Json
  | [] => Expiring.empty
  | (now, .set ns key value) :: earlier =>
      if Accepted 128 key then
        Expiring.put (ns, key) ⟨value, now + env.ttlSeconds * 1000000⟩ (memory earlier)
      else memory earlier
  | (_, .delete ns key) :: earlier => Expiring.erase (· = (ns, key)) (memory earlier)
  | (_, .clearAgent agentId) :: earlier => Expiring.erase (·.1.agentId = agentId) (memory earlier)
  | (_, .get _ _) :: earlier => memory earlier

/-- The deadline is not over for Redis. -/
def aheadRedis (now deadline : Nat) : Bool := now / 1000 ≤ deadline / 1000

def aheadPostgres (now deadline : Nat) : Bool := now < deadline

theorem aheadRedis_iff {now deadline : Nat} :
    aheadRedis now deadline = true ↔ now / 1000 ≤ deadline / 1000 := decide_eq_true_iff

theorem aheadPostgres_iff {now deadline : Nat} :
    aheadPostgres now deadline = true ↔ now < deadline := decide_eq_true_iff

end System

/-! ## The stores hold what the history says -/

variable {env : StoresEnv} {s : Stores} {ns : MemoryNamespace} {key : String}

/-- The row of an entry. -/
def rowOf (ns : MemoryNamespace) (key : String) (entry : Json × Nat) : TimedRow :=
  ⟨ns.agentId, ns.sessionId, ns.memoryType, key, entry⟩

/-- What the stores hold of one key. -/
structure HoldsEntry (env : StoresEnv) (s : Stores) (ns : MemoryNamespace) (key : String)
    (entry : Option (Entry Json)) : Prop where
  text : Table.get (redisKey ns key) s.redis.contents =
    entry.map fun e => .string (String.ofList e.value.print)
  expires : ∀ e ∈ entry, Table.get (redisKey ns key) s.redis.expires = some (e.deadline / 1000)
  row : Table.lookup rowKey (columns ns key) s.rows =
    entry.bind fun e => (env.jsonb e.value).map fun value => rowOf ns key (value, e.deadline)
  storable : ∀ e ∈ entry, Json.Exact env.decoders e.value ∧ (env.jsonb e.value).isSome

/-- The entries are those of the history, and there are no lists of the older version. -/
structure Remembers (env : StoresEnv) (s : Stores) : Prop where
  holds : ∀ ns key, Accepted 128 key → HoldsEntry env s ns key (memory env s.history (ns, key))
  legacy : ∀ ns : MemoryNamespace,
    Table.get (legacyKey ns.agentId ns.sessionId) s.redis.contents = none

theorem redisKey_eq_iff {ns' : MemoryNamespace} {key' : String} (hkey : Accepted 128 key)
    (hkey' : Accepted 128 key') :
    redisKey ns' key' = redisKey ns key ↔ (ns', key') = (ns, key) := by
  constructor
  · intro h
    obtain ⟨rfl, rfl⟩ := redisKey_inj hkey' hkey h
    rfl
  · rintro ⟨⟩
    rfl

theorem columns_eq_iff {ns' : MemoryNamespace} {key' : String} :
    columns ns' key' = columns ns key ↔ (ns', key') = (ns, key) := by
  obtain ⟨a, s, t, ha, hs, ht⟩ := ns
  obtain ⟨a', s', t', ha', hs', ht'⟩ := ns'
  simp only [columns, Prod.mk.injEq, MemoryNamespace.mk.injEq, and_assoc]

/-- What is not touched is held as before. -/
theorem HoldsEntry.mono {s' : Stores} {entry : Option (Entry Json)}
    (h : HoldsEntry env s ns key entry)
    (htext : Table.get (redisKey ns key) s'.redis.contents =
      Table.get (redisKey ns key) s.redis.contents)
    (hexpires : Table.get (redisKey ns key) s'.redis.expires =
      Table.get (redisKey ns key) s.redis.expires)
    (hrow : Table.lookup rowKey (columns ns key) s'.rows =
      Table.lookup rowKey (columns ns key) s.rows) : HoldsEntry env s' ns key entry := by
  refine ⟨htext.trans h.text, ?_, hrow.trans h.row, h.storable⟩
  intro e he
  exact hexpires.trans (h.expires e he)

/-- An entry that both stores have lost. -/
theorem holds_none {s' : Stores} (htext : Table.get (redisKey ns key) s'.redis.contents = none)
    (hrow : Table.lookup rowKey (columns ns key) s'.rows = none) : HoldsEntry env s' ns key none :=
  ⟨htext, nofun, hrow, nofun⟩

/-! ### Reading -/

theorem get_visible (now : Nat) (k : String) : Table.get k (s.redis.visible now) =
    if s.redis.isLive now k then Table.get k s.redis.contents else none :=
  Table.get_filter (s.redis.isLive now) k

variable {m : Expiring.Map (MemoryNamespace × String) Json} {now : Nat}

/-- What Redis finds under a key. -/
theorem HoldsEntry.visible (h : HoldsEntry env s ns key (m (ns, key))) :
    Table.get (redisKey ns key) (s.redis.visible now) =
      (read (aheadRedis now) m (ns, key)).map fun v => .string (String.ofList v.print) := by
  rw [get_visible, h.text, Expiring.read]
  cases hm : m (ns, key) with
  | none => exact ite_self _
  | some e =>
      have hlive : s.redis.isLive now (redisKey ns key) = aheadRedis now e.deadline := by
        rw [Timed.isLive, h.expires e hm]
        rfl
      rw [hlive, Option.filter_some]
      split <;> rfl

/-- Without the lists of the older version, `get` returns the entry and migrates nothing. -/
theorem HoldsEntry.redisGet (h : HoldsEntry env s ns key (m (ns, key)))
    (hlegacy : Table.get (legacyKey ns.agentId ns.sessionId) s.redis.contents = none) :
    s.redis.get env.loads now ns key =
      (.ok ((read (aheadRedis now) m (ns, key)).getD .null), s.redis) := by
  have hvisible : Table.get (redisKey ns key) (s.redis.visible now) =
      (read (aheadRedis now) m (ns, key)).map fun v => .string (String.ofList v.print) := h.visible
  cases hread : read (aheadRedis now) m (ns, key) with
  | none =>
      rw [hread] at hvisible
      have hlist : lrange (legacyKey ns.agentId ns.sessionId) (s.redis.visible now) = some [] := by
        rw [lrange, get_visible, hlegacy, ite_self]
      have hget : Provider.redisGet env.loads ns key (s.redis.visible now) =
          (.ok .null, s.redis.visible now) := by
        unfold Provider.redisGet
        rw [hvisible]
        dsimp only [Option.map_none]
        rw [hlist]
        exact ite_self _
      unfold Timed.get
      rw [hget, hvisible]
      rfl
  | some value =>
      rw [hread] at hvisible
      obtain ⟨e, hentry, hvalue⟩ := Option.map_eq_some_iff.mp hread
      have hexact : Json.Exact env.decoders value := by
        rw [← hvalue]
        exact (h.storable e (Option.filter_eq_some_iff.mp hentry).1).1
      have hloads : env.loads (String.ofList value.print) = some value := by
        rw [StoresEnv.loads, String.toList_ofList]
        exact Json.readText_print hexact
      unfold Timed.get Provider.redisGet
      rw [hvisible]
      dsimp only [Option.map_some]
      rw [hloads]
      rfl

/-- What the query and the test of `expires_at` return. -/
theorem HoldsEntry.postgresGet (h : HoldsEntry env s ns key (m (ns, key))) :
    Provider.postgresGet now ns key s.rows =
      ((read (aheadPostgres now) m (ns, key)).bind env.jsonb).getD .null := by
  rw [Provider.postgresGet, h.row, Expiring.read]
  cases hm : m (ns, key) with
  | none => rfl
  | some e =>
      obtain ⟨value, hvalue⟩ := Option.isSome_iff_exists.mp (h.storable e hm).2
      rw [Option.bind_some, hvalue, Option.map_some, Option.filter_some]
      dsimp only [rowOf]
      by_cases hnow : e.deadline ≤ now
      · have hover : ¬ aheadPostgres now e.deadline = true := by
          rw [aheadPostgres_iff]
          omega
        rw [if_pos hnow, if_neg hover]
        rfl
      · rw [if_neg hnow, if_pos (aheadPostgres_iff.mpr (by omega)), Option.map_some,
          Option.bind_some, hvalue]
        rfl

/-! ### The calls -/

/-- What the statement leaves of the rows of a key. -/
theorem lookup_postgresSet {now ttl : Nat} {value stored : Json} {rows : List TimedRow}
    (hstored : env.jsonb value = some stored) (ns' : MemoryNamespace) (key' : String) :
    Table.lookup rowKey (columns ns' key') (postgresSet env.jsonb now ttl ns key value rows) =
      if (ns', key') = (ns, key) then some (rowOf ns key (stored, now + ttl * 1000000))
      else Table.lookup rowKey (columns ns' key') rows := by
  let update (row : TimedRow) : TimedRow := { row with value := (stored, now + ttl * 1000000) }
  have hupdate : ∀ row, rowKey row = columns ns key → rowKey (update row) = columns ns key :=
    fun _ hrow => hrow
  rw [postgresSet, hstored]
  dsimp only
  by_cases hsame : (ns', key') = (ns, key)
  · cases hsame
    rw [if_pos rfl, Table.lookup_upsert_self hupdate rfl]
    cases hfound : Table.lookup rowKey (columns ns key) rows with
    | none => rfl
    | some row =>
        obtain ⟨a, s, t, k, v⟩ := row
        have hcolumns := Table.key_of_lookup hfound
        simp only [rowKey, columns, Prod.mk.injEq] at hcolumns
        obtain ⟨rfl, rfl, rfl, rfl⟩ := hcolumns
        rfl
  · rw [if_neg hsame]
    exact Table.lookup_upsert_of_ne (fun heq => hsame (columns_eq_iff.mp heq)) hupdate rfl

theorem remembers_set {now : Nat} {value : Json} (h : Remembers env s) (hkey : Accepted 128 key)
    (hexact : Json.Exact env.decoders value) (hjsonb : (env.jsonb value).isSome) :
    Remembers env
      { s with
        redis := s.redis.set now env.ttlSeconds ns key value
        rows := postgresSet env.jsonb now env.ttlSeconds ns key value s.rows
        history := (now, .set ns key value) :: s.history } := by
  obtain ⟨stored, hstored⟩ := Option.isSome_iff_exists.mp hjsonb
  constructor
  · intro ns' key' hkey'
    rw [memory, if_pos hkey]
    by_cases hsame : (ns', key') = (ns, key)
    · cases hsame
      rw [put_self]
      refine ⟨?_, ?_, ?_, ?_⟩
      · show Table.get _ (redisSet ns key value s.redis.contents) = _
        rw [get_redisSet, if_pos rfl]
        rfl
      · rintro e ⟨⟩
        show Table.get _ (Table.put _ _ s.redis.expires) = _
        rw [Table.get_put, if_pos rfl]
        have hend : now / 1000 + env.ttlSeconds * 1000 =
            (now + env.ttlSeconds * 1000000) / 1000 := by omega
        rw [hend]
      · show Table.lookup _ _ (postgresSet env.jsonb now env.ttlSeconds ns key value s.rows) = _
        rw [lookup_postgresSet hstored, if_pos rfl, Option.bind_some, hstored]
        rfl
      · rintro e ⟨⟩
        exact ⟨hexact, hjsonb⟩
    · rw [put_of_ne _ hsame]
      have hredis : redisKey ns' key' ≠ redisKey ns key :=
        fun heq => hsame ((redisKey_eq_iff hkey hkey').mp heq)
      apply (h.holds ns' key' hkey').mono
      · show Table.get _ (redisSet ns key value s.redis.contents) = _
        rw [get_redisSet, if_neg hredis]
      · show Table.get _ (Table.put _ _ s.redis.expires) = _
        rw [Table.get_put, if_neg hredis]
      · show Table.lookup _ _ (postgresSet env.jsonb now env.ttlSeconds ns key value s.rows) = _
        rw [lookup_postgresSet hstored, if_neg hsame]
  · intro ns'
    show Table.get _ (redisSet ns key value s.redis.contents) = _
    rw [get_redisSet, if_neg (redisKey_ne_legacyKey _ _).symm]
    exact h.legacy ns'

theorem remembers_delete {now : Nat} (h : Remembers env s) (hkey : Accepted 128 key) :
    Remembers env
      { s with
        redis := s.redis.delete ns key
        rows := postgresDelete ns key s.rows
        history := (now, .delete ns key) :: s.history } := by
  constructor
  · intro ns' key' hkey'
    rw [memory]
    by_cases hsame : (ns', key') = (ns, key)
    · cases hsame
      rw [erase_of_mem (by exact decide_eq_true rfl)]
      apply holds_none
      · show Table.get _ (del [redisKey ns key] s.redis.contents) = _
        rw [get_del, if_pos (List.mem_singleton.mpr rfl)]
      · exact Table.lookup_delete_self
    · have hredis : redisKey ns' key' ∉ [redisKey ns key] :=
        fun hmem => hsame ((redisKey_eq_iff hkey hkey').mp (List.mem_singleton.mp hmem))
      rw [erase_of_not_mem (by exact decide_eq_false hsame)]
      apply (h.holds ns' key' hkey').mono
      · show Table.get _ (del [redisKey ns key] s.redis.contents) = _
        rw [get_del, if_neg hredis]
      · rfl
      · exact Table.lookup_delete_of_ne fun heq => hsame (columns_eq_iff.mp heq)
  · intro ns'
    have hother : legacyKey ns'.agentId ns'.sessionId ∉ [redisKey ns key] :=
      fun hmem => redisKey_ne_legacyKey _ _ (List.mem_singleton.mp hmem).symm
    show Table.get _ (del [redisKey ns key] s.redis.contents) = _
    rw [get_del, if_neg hother]
    exact h.legacy ns'

theorem inScope_agent (agentId : String) (ns : MemoryNamespace) :
    inScope agentId none none ns.agentId ns.sessionId ns.memoryType =
      decide (ns.agentId = agentId) := by
  simp only [inScope, Option.all_none, Bool.and_true]

theorem lookup_postgresClear {agentId : String} {rows : List TimedRow} :
    Table.lookup rowKey (columns ns key) (postgresClear agentId none none rows) =
      if ns.agentId = agentId then none else Table.lookup rowKey (columns ns key) rows := by
  let kept (k : String × String × String × String) : Bool :=
    !inScope agentId none none k.1 k.2.1 k.2.2.1
  have hclear : postgresClear agentId none none rows = rows.filter fun row => kept (rowKey row) :=
    rfl
  have hkept : kept (columns ns key) = !decide (ns.agentId = agentId) :=
    congrArg not (inScope_agent agentId ns)
  rw [hclear, Table.lookup_filter kept, hkept]
  by_cases hsame : ns.agentId = agentId
  · rw [if_pos hsame, decide_eq_true hsame]
    rfl
  · rw [if_neg hsame, decide_eq_false hsame]
    rfl

theorem remembers_clear {now : Nat} {agentId : String} (h : Remembers env s)
    (hagent : Accepted 64 agentId) :
    Remembers env
      { s with
        redis := s.redis.clear env.glob agentId
        rows := postgresClear agentId none none s.rows
        history := (now, .clearAgent agentId) :: s.history } := by
  have hsession : ∀ session ∈ (none : Option String), Accepted 128 session := nofun
  have htype : ∀ type ∈ (none : Option String), Accepted 64 type := nofun
  constructor
  · intro ns key hkey
    have hredis : Table.get (redisKey ns key) (redisClear env.glob agentId none none
        s.redis.contents) = _ :=
      get_redisClear env.glob s.redis.contents hagent hsession htype hkey
    rw [inScope_agent] at hredis
    rw [memory]
    by_cases hsame : ns.agentId = agentId
    · rw [erase_of_mem (by exact decide_eq_true hsame)]
      rw [if_pos (decide_eq_true hsame)] at hredis
      apply holds_none hredis
      show Table.lookup _ _ (postgresClear agentId none none s.rows) = _
      rw [lookup_postgresClear, if_pos hsame]
    · rw [erase_of_not_mem (by exact decide_eq_false hsame)]
      rw [if_neg (by simpa using hsame)] at hredis
      apply (h.holds ns key hkey).mono hredis
      · rfl
      · show Table.lookup _ _ (postgresClear agentId none none s.rows) = _
        rw [lookup_postgresClear, if_neg hsame]
  · intro ns
    show Table.get _ (redisClear env.glob agentId none none s.redis.contents) = _
    rw [get_legacy_redisClear env.glob s.redis.contents hagent hsession, h.legacy ns, ite_self]

/-- A call after which both stores, and what the history says, are as before. -/
theorem remembers_nothing {event : Nat × Command} (h : Remembers env s)
    (hmemory : ∀ ns key, Accepted 128 key →
      memory env (event :: s.history) (ns, key) = memory env s.history (ns, key)) :
    Remembers env { s with history := event :: s.history } := by
  refine ⟨?_, h.legacy⟩
  intro ns key hkey
  show HoldsEntry env _ ns key (memory env (event :: s.history) (ns, key))
  rw [hmemory ns key hkey]
  exact (h.holds ns key hkey).mono rfl rfl rfl

theorem not_accepted (hcheck : checkKey key = .error .invalidKey) : ¬ Accepted 128 key := by
  intro hkey
  rw [checkKey, if_pos hkey] at hcheck
  cases hcheck

theorem remembers_call (h : Remembers env s) {command : Command}
    (hgood : Storable env s (.call command)) :
    Remembers env { s.call env command with history := (s.clock, command) :: s.history } := by
  cases command with
  | get ns key =>
      have hcall : s.call env (.get ns key) = s := by
        dsimp only [Stores.call]
        rcases checkKey_cases key with ⟨hcheck, hkey⟩ | hcheck
        · rw [hcheck]
          dsimp only
          rw [(h.holds ns key hkey).redisGet (h.legacy ns)]
        · rw [hcheck]
      rw [hcall]
      exact remembers_nothing h fun _ _ _ => rfl
  | set ns key value =>
      rcases checkKey_cases key with ⟨hcheck, hkey⟩ | hcheck
      · dsimp only [Stores.call]
        rw [hcheck]
        exact remembers_set h hkey hgood.1 hgood.2
      · dsimp only [Stores.call]
        rw [hcheck]
        apply remembers_nothing h
        intro ns' key' hkey'
        rw [memory, if_neg (not_accepted hcheck)]
  | delete ns key =>
      rcases checkKey_cases key with ⟨hcheck, hkey⟩ | hcheck
      · dsimp only [Stores.call]
        rw [hcheck]
        exact remembers_delete h hkey
      · dsimp only [Stores.call]
        rw [hcheck]
        apply remembers_nothing h
        intro ns' key' hkey'
        have hother : ¬ (ns', key') = (ns, key) := by
          rintro ⟨⟩
          exact not_accepted hcheck hkey'
        rw [memory, erase_of_not_mem (by exact decide_eq_false hother)]
  | clearAgent agentId =>
      by_cases hagent : Accepted 64 agentId
      · have hnamespace :
            ∃ ns, memoryNamespace agentId "validation" env.memoryType = .ok ns := by
          have hvalidation : Accepted 128 "validation" := by decide
          rw [memoryNamespace, dif_pos hagent, dif_pos hvalidation, dif_pos env.memoryType_accepted]
          exact ⟨_, rfl⟩
        obtain ⟨ns, hnamespace⟩ := hnamespace
        dsimp only [Stores.call]
        rw [hnamespace]
        exact remembers_clear h hagent
      · have hnamespace : memoryNamespace agentId "validation" env.memoryType =
            .error (.invalidNamespace "agent_id") := by
          rw [memoryNamespace, dif_neg hagent]
        dsimp only [Stores.call]
        rw [hnamespace]
        apply remembers_nothing h
        intro ns key hkey
        -- No namespace has an id that is refused.
        have hother : ¬ ns.agentId = agentId := fun heq => hagent (heq ▸ ns.agentId_accepted)
        rw [memory, erase_of_not_mem (by exact decide_eq_false hother)]

theorem remembers_reachable (h : (providerSystem env).Reachable (Storable env) s) :
    Remembers env s := by
  apply h.invariant (Remembers env)
  · rintro s rfl
    exact ⟨fun _ _ _ => holds_none rfl rfl, fun _ => rfl⟩
  · intro s a t hs hgood hstep
    cases a with
    | wait duration =>
        cases hstep
        refine ⟨?_, hs.legacy⟩
        intro ns key hkey
        exact (hs.holds ns key hkey).mono rfl rfl rfl
    | call command =>
        cases hstep
        exact remembers_call hs hgood

/-! ## Both providers -/

/-- The answers of the two providers for one key, and when they differ. -/
structure Answers (env : StoresEnv) (s : Stores) (ns : MemoryNamespace) (key : String) : Prop where
  redis : s.redisAnswer env ns key =
    .ok ((read (aheadRedis s.clock) (memory env s.history) (ns, key)).getD .null)
  postgres : s.postgresAnswer ns key = .ok
    (((read (aheadPostgres s.clock) (memory env s.history) (ns, key)).bind env.jsonb).getD .null)
  /-- They read the same entry, but for the millisecond in which it ends. -/
  same : read (aheadRedis s.clock) (memory env s.history) (ns, key) =
      read (aheadPostgres s.clock) (memory env s.history) (ns, key) ↔
    ∀ e, memory env s.history (ns, key) = some e →
      s.clock < e.deadline ∨ e.deadline / 1000 < s.clock / 1000

theorem ahead_eq_iff {now deadline : Nat} : aheadRedis now deadline = aheadPostgres now deadline ↔
    now < deadline ∨ deadline / 1000 < now / 1000 := by
  rw [Bool.eq_iff_iff, aheadRedis_iff, aheadPostgres_iff]
  omega

theorem accepted_shortTerm : Accepted 64 "short-term" := by decide

/-- A database that takes every value, and stores that keep them for a minute. -/
def minute : StoresEnv where
  decoders := .ascii
  glob := Glob.stars
  jsonb := some
  ttlSeconds := 60
  memoryType := "short-term"
  memoryType_accepted := accepted_shortTerm

def setAndWait : List TimedAction :=
  [.call (.set ada "note" (.string "x")), .wait 60000000]

end Provider
end Memory
end HermesPlatform
