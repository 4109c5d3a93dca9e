/-
  HermesPlatform.Memory.Finality

  What `RedisMemoryProvider.get` returns of an entry that has been removed.

  `get` falls back to the list of the older version, and stores it again.  `clear` deletes
  the lists of the sessions it clears; `delete` and the end of an entry's time leave them,
  so under the key `messages` the old list comes back.  `json.loads` is a
  parameter.
-/

import HermesPlatform.Lib.Json
import HermesPlatform.Memory.Provider

namespace HermesPlatform
namespace Memory
namespace Provider

open Separated

/-! ## The provider -/

/-- `LRANGE key 0 -1`, `none` where the value is not a list. -/
def lrange (key : String) (contents : Contents) : Option (List String) :=
  match Table.get key contents with
  | none => some []
  | some (.list items) => some items
  | some (.string _) => none

section Operations

variable (loads : String → Option Json) (g : Glob)

/-- `RedisMemoryProvider.set`. -/
def redisSet (ns : MemoryNamespace) (key : String) (value : Json) (contents : Contents) :
    Contents :=
  Table.put (redisKey ns key) (.string (String.ofList value.print)) contents

/-- `RedisMemoryProvider.get`, where `None` is null. -/
def redisGet (ns : MemoryNamespace) (key : String) (contents : Contents) :
    Except AgentMemoryError Json × Contents :=
  match Table.get (redisKey ns key) contents with
  | some (.string value) =>
      match loads value with
      | some value => (.ok value, contents)
      | none => (.error .notLoaded, contents)
  | some (.list _) => (.error .notLoaded, contents)
  | none =>
      if key = "messages" then
        match lrange (legacyKey ns.agentId ns.sessionId) contents with
        | none => (.error .notLoaded, contents)
        | some [] => (.ok .null, contents)
        | some legacy =>
            match legacy.mapM loads with
            | some migrated =>
                (.ok (.array migrated), redisSet ns key (.array migrated) contents)
            | none => (.error .notLoaded, contents)
      else (.ok .null, contents)

/-- What is done to a store. -/
inductive Operation where
  | get (ns : MemoryNamespace) (key : String)
  | set (ns : MemoryNamespace) (key : String) (value : Json)
  | delete (ns : MemoryNamespace) (key : String)
  | clear (agentId : String) (sessionId memoryType : Option String)
  /-- The time of a key is over. -/
  | expire (redisKey : String)

/-- `AgentMemoryStore` refuses a key before the provider is called. -/
def apply (contents : Contents) : Operation → Contents
  | .get ns key =>
      match checkKey key with
      | .ok key => (redisGet loads ns key contents).2
      | .error _ => contents
  | .set ns key value =>
      match checkKey key with
      | .ok key => redisSet ns key value contents
      | .error _ => contents
  | .delete ns key =>
      match checkKey key with
      | .ok key => del [redisKey ns key] contents
      | .error _ => contents
  | .clear agentId sessionId memoryType => redisClear g agentId sessionId memoryType contents
  | .expire key => del [key] contents

def run (operations : List Operation) (contents : Contents) : Contents :=
  operations.foldl (apply loads g) contents

end Operations

/-- The operation removes the entry of a key. -/
def Operation.Removes (ns : MemoryNamespace) (key : String) : Operation → Prop
  | .delete ns' key' => ns' = ns ∧ key' = key
  | .clear agentId sessionId memoryType =>
      inScope agentId sessionId memoryType ns.agentId ns.sessionId ns.memoryType = true
  | .expire k => k = redisKey ns key
  | .get _ _ => False
  | .set _ _ _ => False

def Operation.Sets (ns : MemoryNamespace) (key : String) : Operation → Prop
  | .set ns' key' _ => ns' = ns ∧ key' = key
  | _ => False

def Operation.isClear : Operation → Bool
  | .clear _ _ _ => true
  | _ => false

/-! ## Where the keys are afterwards -/

section Effects

variable {loads : String → Option Json} {g : Glob}
  {ns : MemoryNamespace} {key : String} {contents : Contents}

theorem get_del (keys : List String) (k : String) :
    Table.get k (del keys contents) = if k ∈ keys then none else Table.get k contents := by
  rw [del, Table.get_filter fun j => decide (j ∉ keys)]
  by_cases hmem : k ∈ keys
  · rw [if_pos hmem, if_neg (by simpa using hmem)]
  · rw [if_neg hmem, if_pos (by simpa using hmem)]

/-- A key is lost in a deletion, or keeps its value. -/
theorem get_del_cases (keys : List String) (k : String) :
    Table.get k (del keys contents) = none ∨
      Table.get k (del keys contents) = Table.get k contents := by
  rw [get_del]
  split
  · exact .inl rfl
  · exact .inr rfl

theorem get_redisSet (value : Json) (k : String) :
    Table.get k (redisSet ns key value contents) =
      if k = redisKey ns key then some (.string (String.ofList value.print)) else Table.get k contents :=
  Table.get_put k

/-- The contents behind a `get` are the old ones, or those of a migration. -/
theorem redisGet_contents :
    (redisGet loads ns key contents).2 = contents ∨
      key = "messages" ∧ Table.get (redisKey ns key) contents = none ∧
        lrange (legacyKey ns.agentId ns.sessionId) contents ≠ some [] ∧
        ∃ value, (redisGet loads ns key contents).2 = redisSet ns key value contents := by
  unfold redisGet
  split
  next => split <;> exact .inl rfl
  next => exact .inl rfl
  next hnone =>
    split
    next hkey =>
      split
      next => exact .inl rfl
      next => exact .inl rfl
      next legacy hlegacy hlrange =>
        split
        next migrated _ =>
          refine .inr ⟨hkey, hnone, ?_, .array migrated, rfl⟩
          rw [hlrange]
          intro hnil
          exact hlegacy (Option.some.inj hnil)
        next => exact .inl rfl
    next => exact .inl rfl

theorem checkKey_cases (key : String) :
    checkKey key = .ok key ∧ Accepted 128 key ∨ checkKey key = .error .invalidKey := by
  unfold checkKey
  by_cases hkey : Accepted 128 key
  · exact .inl ⟨if_pos hkey, hkey⟩
  · exact .inr (if_neg hkey)

variable (loads g)

/-- What an operation does to a key: nothing, or it is lost, or it is written. -/
theorem get_apply_cases (op : Operation) (k : String) :
    Table.get k (apply loads g contents op) = Table.get k contents ∨
      Table.get k (apply loads g contents op) = none ∨
      ∃ ns' key', Accepted 128 key' ∧ k = redisKey ns' key' ∧
        (op.Sets ns' key' ∨
          key' = "messages" ∧ lrange (legacyKey ns'.agentId ns'.sessionId) contents ≠ some []) := by
  cases op with
  | get ns' key' =>
      obtain ⟨hcheck, hkey⟩ | hcheck := checkKey_cases key'
      · simp only [apply, hcheck]
        obtain hsame | ⟨hmessages, -, hlegacy, value, hput⟩ := redisGet_contents
        · rw [hsame]
          exact .inl rfl
        · rw [hput, get_redisSet]
          split
          next hk => exact .inr (.inr ⟨ns', key', hkey, hk, .inr ⟨hmessages, hlegacy⟩⟩)
          next => exact .inl rfl
      · simp only [apply, hcheck]
        exact .inl trivial
  | set ns' key' value =>
      obtain ⟨hcheck, hkey⟩ | hcheck := checkKey_cases key'
      · simp only [apply, hcheck]
        rw [get_redisSet]
        split
        next hk => exact .inr (.inr ⟨ns', key', hkey, hk, .inl ⟨rfl, rfl⟩⟩)
        next => exact .inl rfl
      · simp only [apply, hcheck]
        exact .inl trivial
  | delete ns' key' =>
      obtain ⟨hcheck, hkey⟩ | hcheck := checkKey_cases key'
      · simp only [apply, hcheck]
        exact (get_del_cases _ k).elim (fun h => .inr (.inl h)) .inl
      · simp only [apply, hcheck]
        exact .inl trivial
  | clear agentId sessionId memoryType =>
      simp only [apply, redisClear]
      obtain hlost | hkept := get_del_cases _ k
      · exact .inr (.inl hlost)
      · rw [hkept]
        exact (get_del_cases _ k).elim (fun h => .inr (.inl h)) .inl
  | expire redisKey => exact (get_del_cases _ k).elim (fun h => .inr (.inl h)) .inl

theorem lrange_eq_nil {k : String} :
    lrange k contents = some [] ↔
      Table.get k contents = none ∨ Table.get k contents = some (.list []) := by
  unfold lrange
  split
  next hget => exact iff_of_true rfl (.inl hget)
  next items hget =>
    rw [hget, Option.some.injEq, Option.some.injEq, RedisValue.list.injEq]
    exact ⟨.inr, fun h => h.resolve_left (by simp)⟩
  next value hget =>
    rw [hget]
    exact iff_of_false (by simp) (by rintro (h | h) <;> cases h)

/-- The list of the older version is never written. -/
theorem lrange_apply (op : Operation) {agentId sessionId : String}
    (h : lrange (legacyKey agentId sessionId) contents = some []) :
    lrange (legacyKey agentId sessionId) (apply loads g contents op) = some [] := by
  rw [lrange_eq_nil] at h ⊢
  obtain hsame | hlost | ⟨ns', key', -, hkey, -⟩ :=
    get_apply_cases loads g op (legacyKey agentId sessionId)
  · rw [hsame]
    exact h
  · exact .inl hlost
  · exact absurd hkey.symm (redisKey_ne_legacyKey agentId sessionId)

end Effects

/-! ## Entries that have gone -/

section Gone

variable (loads : String → Option Json) (g : Glob)
  {ns : MemoryNamespace} {key : String} {contents : Contents}

/-- An entry has gone for good: nothing is left that `get` would find. -/
structure Gone (ns : MemoryNamespace) (key : String) (contents : Contents) : Prop where
  entry : Table.get (redisKey ns key) contents = none
  legacy : key = "messages" → lrange (legacyKey ns.agentId ns.sessionId) contents = some []

theorem redisGet_of_gone (h : Gone ns key contents) :
    (redisGet loads ns key contents).1 = .ok .null := by
  unfold redisGet
  rw [h.entry]
  dsimp only
  split
  next hkey =>
    rw [h.legacy hkey]
  next => rfl

theorem Gone.apply (h : Gone ns key contents) (hkey : Accepted 128 key) {op : Operation}
    (hop : ¬ op.Sets ns key) : Gone ns key (apply loads g contents op) := by
  refine ⟨?_, fun hmessages => lrange_apply loads g op (h.legacy hmessages)⟩
  obtain hsame | hlost | ⟨ns', key', hkey', heq, hwrite⟩ :=
    get_apply_cases loads g op (redisKey ns key)
  · rw [hsame]
    exact h.entry
  · exact hlost
  · -- Only an operation on the entry itself writes its key.
    obtain ⟨rfl, rfl⟩ := redisKey_inj hkey hkey' heq
    obtain hset | ⟨hmessages, hlegacy⟩ := hwrite
    · exact absurd hset hop
    · exact absurd (h.legacy hmessages) hlegacy

theorem Gone.run (h : Gone ns key contents) (hkey : Accepted 128 key)
    {operations : List Operation} (hops : ∀ op ∈ operations, ¬ op.Sets ns key) :
    Gone ns key (run loads g operations contents) := by
  induction operations generalizing contents with
  | nil => exact h
  | cons op rest ih =>
      have hstep := Gone.apply loads g h hkey (hops op List.mem_cons_self)
      exact ih hstep fun op' hop' => hops op' (List.mem_cons_of_mem _ hop')

theorem scope_accepted {agentId : String} {sessionId memoryType : Option String}
    (h : inScope agentId sessionId memoryType ns.agentId ns.sessionId ns.memoryType = true) :
    Accepted 64 agentId ∧ (∀ s ∈ sessionId, Accepted 128 s) ∧
      ∀ t ∈ memoryType, Accepted 64 t := by
  simp only [inScope, Bool.and_eq_true, decide_eq_true_eq, Option.all_eq_true] at h
  obtain ⟨⟨ha, hs⟩, ht⟩ := h
  refine ⟨ha ▸ ns.agentId_accepted, ?_, ?_⟩
  · intro s hmem
    exact hs s hmem ▸ ns.sessionId_accepted
  · intro t hmem
    exact ht t hmem ▸ ns.memoryType_accepted

/-- What a removal does to the entry, and what all but `clear` do to the old list. -/
theorem removes_spec (contents : Contents) (hkey : Accepted 128 key) {op : Operation}
    (hop : op.Removes ns key) :
    Table.get (redisKey ns key) (apply loads g contents op) = none ∧
      Table.get (legacyKey ns.agentId ns.sessionId) (apply loads g contents op) =
        if op.isClear then none else Table.get (legacyKey ns.agentId ns.sessionId) contents := by
  have hother : redisKey ns key ≠ legacyKey ns.agentId ns.sessionId :=
    redisKey_ne_legacyKey ns.agentId ns.sessionId
  have hdel : Table.get (redisKey ns key) (del [redisKey ns key] contents) = none ∧
      Table.get (legacyKey ns.agentId ns.sessionId) (del [redisKey ns key] contents) =
        Table.get (legacyKey ns.agentId ns.sessionId) contents := by
    rw [get_del, get_del, if_pos List.mem_cons_self,
      if_neg fun h => hother (List.mem_singleton.mp h).symm]
    exact ⟨rfl, rfl⟩
  cases op with
  | get ns' key' => exact hop.elim
  | set ns' key' value => exact hop.elim
  | delete ns' key' =>
      obtain ⟨rfl, rfl⟩ := hop
      have hcheck : checkKey key' = .ok key' := if_pos hkey
      simp only [apply, hcheck]
      exact hdel
  | clear agentId sessionId memoryType =>
      have hscope : inScope agentId sessionId memoryType ns.agentId ns.sessionId
        ns.memoryType = true := hop
      obtain ⟨ha, hs, ht⟩ := scope_accepted hscope
      have hlegacy : inScope agentId sessionId none ns.agentId ns.sessionId
          ns.memoryType = true := by
        simp only [inScope, Bool.and_eq_true, Option.all_none, and_true] at hscope ⊢
        exact hscope.1
      simp only [apply]
      rw [get_redisClear g contents ha hs ht hkey, if_pos hscope,
        get_legacy_redisClear g contents ha hs, if_pos hlegacy]
      exact ⟨rfl, rfl⟩
  | expire k =>
      obtain rfl : k = redisKey ns key := hop
      exact hdel

/-- **When a removal is final.**  Whatever the store contains, an entry stays away through
    every sequence of operations that does not set it, if and only if its key is not that of
    the messages, or it was cleared, or there is no list of the older version. -/
theorem removed_iff (hkey : Accepted 128 key) (contents : Contents) {op : Operation}
    (hop : op.Removes ns key) :
    (∀ operations : List Operation, (∀ o ∈ operations, ¬ o.Sets ns key) →
        (redisGet loads ns key
          (run loads g operations (apply loads g contents op))).1 = .ok .null) ↔
      key ≠ "messages" ∨ op.isClear = true ∨
        lrange (legacyKey ns.agentId ns.sessionId) contents = some [] := by
  obtain ⟨hentry, hlist⟩ := removes_spec loads g contents hkey hop
  constructor
  · intro hfinal
    by_contra hnot
    simp only [not_or, not_not, Bool.not_eq_true] at hnot
    obtain ⟨rfl, hclear, hlegacy⟩ := hnot
    -- The next `get` finds the old list, or an error.
    have hnext : (redisGet loads ns "messages" (apply loads g contents op)).1 =
        .ok .null := hfinal [] fun _ h => absurd h List.not_mem_nil
    have hlrange : lrange (legacyKey ns.agentId ns.sessionId) (apply loads g contents op) =
        lrange (legacyKey ns.agentId ns.sessionId) contents := by
      rw [lrange, hlist, hclear]
      rfl
    unfold redisGet at hnext
    rw [hentry, hlrange] at hnext
    dsimp only at hnext
    rw [if_pos rfl] at hnext
    split at hnext
    next => cases hnext
    next hnil => exact hlegacy hnil
    next =>
      split at hnext <;> cases hnext
  · intro h operations hops
    refine redisGet_of_gone loads ?_
    refine Gone.run loads g ⟨hentry, ?_⟩ hkey hops
    intro hmessages
    rw [lrange_eq_nil, hlist]
    obtain hne | hclear | hlegacy := h
    · exact absurd hmessages hne
    · rw [if_pos hclear]
      exact .inl rfl
    · split
      next => exact .inl rfl
      next => exact lrange_eq_nil.mp hlegacy

/-- `json.loads` on the one text of the list below. -/
def loadsHello (text : String) : Option Json :=
  if text = "\"hello\"" then some (.string "hello") else none

/-- A session of the older version. -/
def oldSession : Contents := [(legacyKey "ada" "s1", .list ["\"hello\""])]

/-- Under another key than that of the messages, a deletion is final. -/
theorem removed_iff_oldSession :
    lrange (legacyKey "ada" "s1") oldSession = some ["\"hello\""] ∧
      ∀ operations : List Operation, (∀ o ∈ operations, ¬ o.Sets ada "notes") →
        (redisGet loadsHello ada "notes"
          (run loadsHello Glob.stars operations
            (apply loadsHello Glob.stars oldSession (.delete ada "notes")))).1 =
          .ok .null := by
  have hremoves : (Operation.delete ada "notes").Removes ada "notes" := ⟨rfl, rfl⟩
  have hkey : Accepted 128 "notes" := by decide
  refine ⟨rfl, ?_⟩
  exact (removed_iff loadsHello Glob.stars hkey oldSession hremoves).mpr
    (.inl (by decide))

/-- After `delete` of the messages, the next `get` returns those of the older version. -/
theorem deleted_messages_return :
    (redisGet loadsHello ada "messages"
        (apply loadsHello Glob.stars oldSession (.delete ada "messages"))).1 =
        .ok (.array [.string "hello"]) ∧
      ¬ ∀ operations : List Operation, (∀ o ∈ operations, ¬ o.Sets ada "messages") →
        (redisGet loadsHello ada "messages"
          (run loadsHello Glob.stars operations
            (apply loadsHello Glob.stars oldSession
              (.delete ada "messages")))).1 = .ok .null := by
  have hreturn : (redisGet loadsHello ada "messages"
      (apply loadsHello Glob.stars oldSession (.delete ada "messages"))).1 =
        .ok (.array [.string "hello"]) := rfl
  refine ⟨hreturn, ?_⟩
  intro h
  have hnone := h [] fun _ hmem => absurd hmem List.not_mem_nil
  cases hreturn.symm.trans hnone

end Gone

end Provider
end Memory
end HermesPlatform
