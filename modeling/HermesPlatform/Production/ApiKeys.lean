/-
  HermesPlatform.Production.ApiKeys

  The clients of the public API, their keys, and the agents that they may call.

  A request reads the rows that it needs and commits later, with any other requests in between; it
  writes the columns that differ from what it has read.  The locks of
  `rotate_legacy_publication_key` are left out, and with them the publication: the locks only take
  runs away.  `verdict` reads the key, its client and the binding in one state, where a request
  makes a query for each.

  What a key is good for is what the history says by now: `authenticates_iff`.
-/

import HermesPlatform.Lib.History
import HermesPlatform.Lib.Table
import HermesPlatform.Lib.Transition
import HermesPlatform.Production.Sessions

namespace HermesPlatform
namespace Production
namespace ApiKeys

open History Transition

/-! ## Rows -/

/-- `api_clients.status`. -/
inductive ClientStatus where
  | active
  | suspended
  | revoked
deriving DecidableEq, Repr

/-- `api_keys.status`. -/
inductive KeyStatus where
  | active
  | revoked
deriving DecidableEq, Repr

structure ApiClient where
  id : Nat
  name : String
  owner : String
  status : ClientStatus
  rateLimitPerMinute : Nat
deriving DecidableEq, Repr

structure ApiKey where
  id : Nat
  clientId : Nat
  name : String
  keyHash : String
  keyPrefix : String
  status : KeyStatus
  expiresAt : Option Nat
  lastUsedAt : Option Nat
  revokedAt : Option Nat
deriving DecidableEq, Repr

/-- A row of `agent_api_clients`; its permission is "invoke" by a constraint. -/
structure AgentApiClient where
  clientId : Nat
  agentId : String
deriving DecidableEq, Repr

/-- The columns of an agent that a call of it depends on. -/
structure AgentRow where
  id : String
  status : AgentStatus
  currentVersionId : Option Nat
  apiEnabled : Bool
deriving DecidableEq, Repr

/-- `api_clients` as a request changes them. -/
structure ClientUpdate where
  name : Option String
  owner : Option String
  status : Option ClientStatus
  rateLimitPerMinute : Option Nat
deriving DecidableEq, Repr

/-! ## Statements -/

inductive Event where
  | clientStatus (client : Nat) (status : ClientStatus)
  | clientDeleted (client : Nat)
  | issued (key client : Nat) (plaintext : String) (expiresAt : Option Nat)
  | keyRevoked (key : Nat)
  | keysRevoked (client : Nat)
  | bound (client : Nat) (agent : String)
  | unbound (client : Nat) (agent : String)
  | agentDeleted (agent : String)
deriving DecidableEq, Repr

/-- A request that has read its rows. -/
inductive Request where
  | updateClient (loaded : ApiClient) (values : ClientUpdate)
  | deleteClient (client : Nat)
  | createKey (client : Nat) (name : String) (expiresAt : Option Nat)
  | revokeKey (client key : Nat)
  | bindAgent (client : Nat) (agent : String) (loaded : Bool)
  | unbindAgent (client : Nat) (agent : String)
  /-- `rotate_legacy_publication_key`: the client of the agent, and whether it is bound. -/
  | rotate (agent : String) (client : Option Nat) (loaded : Bool)
deriving DecidableEq, Repr

structure State where
  clients : List ApiClient
  keys : List ApiKey
  bindings : List AgentApiClient
  agents : List AgentRow
  requests : List Request
  history : List Event

namespace State

def record (e : Event) (s : State) : State := { s with history := e :: s.history }

/-- `INSERT INTO api_clients`, which has a unique name. -/
def insertClient (s : State) (client : ApiClient) : Option State :=
  if client.id ∈ s.clients.map ApiClient.id ∨ client.name ∈ s.clients.map ApiClient.name then none
  else
    some (record (.clientStatus client.id client.status)
      { s with clients := s.clients ++ [client] })

/-- The columns of a client that an update writes. -/
def updatedClient (loaded : ApiClient) (values : ClientUpdate) (row : ApiClient) : ApiClient :=
  { row with
    name := write loaded.name (values.name.getD loaded.name) row.name
    owner := write loaded.owner (values.owner.getD loaded.owner) row.owner
    status := write loaded.status (values.status.getD loaded.status) row.status
    rateLimitPerMinute :=
      write loaded.rateLimitPerMinute (values.rateLimitPerMinute.getD loaded.rateLimitPerMinute)
        row.rateLimitPerMinute }

/-- `update_api_client`; the name stays unique. -/
def updateClient (s : State) (loaded : ApiClient) (values : ClientUpdate) : Option State :=
  match Table.lookup ApiClient.id loaded.id s.clients with
  | none => none
  | some row =>
      let updated := updatedClient loaded values row
      if updated.name ∈ (Table.delete ApiClient.id loaded.id s.clients).map ApiClient.name then none
      else
        some (record (.clientStatus loaded.id updated.status)
          { s with clients := Table.modify ApiClient.id loaded.id (fun _ => updated) s.clients })

/-- `DELETE FROM api_clients`, from which the keys and the bindings go with `ON DELETE CASCADE`. -/
def deleteClient (s : State) (client : Nat) : State :=
  record (.clientDeleted client)
    { s with
      clients := Table.delete ApiClient.id client s.clients
      keys := s.keys.filter (·.clientId ≠ client)
      bindings := s.bindings.filter (·.clientId ≠ client) }

/-- A key as `create_api_key` stores it. -/
def newKey (hash : String → String) (id client : Nat) (name plaintext : String)
    (expiresAt : Option Nat) : ApiKey where
  id := id
  clientId := client
  name := name
  keyHash := hash plaintext
  keyPrefix := String.ofList (plaintext.toList.take 12)
  status := .active
  expiresAt := expiresAt
  lastUsedAt := none
  revokedAt := none

/-- `INSERT INTO api_keys`, which has a unique hash. -/
def insertKey (hash : String → String) (s : State) (id client : Nat) (name plaintext : String)
    (expiresAt : Option Nat) : Option State :=
  if client ∈ s.clients.map ApiClient.id ∧ id ∉ s.keys.map ApiKey.id ∧
      hash plaintext ∉ s.keys.map ApiKey.keyHash then
    some (record (.issued id client plaintext expiresAt)
      { s with keys := s.keys ++ [newKey hash id client name plaintext expiresAt] })
  else none

def revokedKey (now : Nat) (row : ApiKey) : ApiKey :=
  { row with
    status := .revoked
    revokedAt := some now }

/-- `revoke_api_key`. -/
def revokeKey (s : State) (key now : Nat) : Option State :=
  if key ∈ s.keys.map ApiKey.id then
    some (record (.keyRevoked key)
      { s with keys := Table.modify ApiKey.id key (revokedKey now) s.keys })
  else none

/-- `UPDATE api_keys SET status = 'revoked' WHERE client_id = ... AND status = 'active'`. -/
def revokeKeys (s : State) (client now : Nat) : State :=
  record (.keysRevoked client)
    { s with
      keys := s.keys.map fun row =>
        if row.clientId = client ∧ row.status = .active then revokedKey now row else row }

/-- `INSERT INTO agent_api_clients`. -/
def insertBinding (s : State) (client : Nat) (agent : String) : Option State :=
  if client ∈ s.clients.map ApiClient.id ∧ agent ∈ s.agents.map AgentRow.id ∧
      ⟨client, agent⟩ ∉ s.bindings then
    some (record (.bound client agent) { s with bindings := s.bindings ++ [⟨client, agent⟩] })
  else none

/-- `unbind_agent`. -/
def deleteBinding (s : State) (client : Nat) (agent : String) : State :=
  record (.unbound client agent) { s with bindings := s.bindings.filter (· ≠ ⟨client, agent⟩) }

/-- `DELETE FROM agents`. -/
def deleteAgent (s : State) (agent : String) : State :=
  record (.agentDeleted agent)
    { s with
      agents := Table.delete AgentRow.id agent s.agents
      bindings := s.bindings.filter (·.agentId ≠ agent) }

/-- The other services write an agent. -/
def writeAgent (s : State) (agent : AgentRow) : State :=
  { s with agents := Table.upsert AgentRow.id agent.id (fun _ => agent) agent s.agents }

/-! ## Requests -/

/-- `f"legacy-{agent_id}"`. -/
def legacyName (agent : String) : String := "legacy-" ++ agent

/-- What a request reads, and the checks it makes on that. -/
def reads (s : State) (now : Nat) : Request → Bool
  | .updateClient loaded _ => Table.lookup ApiClient.id loaded.id s.clients = some loaded
  | .deleteClient client => client ∈ s.clients.map ApiClient.id
  | .createKey client _ expiresAt =>
      (Table.lookup ApiClient.id client s.clients).any (·.status = .active) &&
        expiresAt.all (now < ·)
  | .revokeKey client key => s.keys.any fun row => row.clientId = client && row.id = key
  | .bindAgent client agent loaded =>
      client ∈ s.clients.map ApiClient.id && agent ∈ s.agents.map AgentRow.id &&
        loaded = decide (⟨client, agent⟩ ∈ s.bindings)
  | .unbindAgent client _ => client ∈ s.clients.map ApiClient.id
  | .rotate agent client loaded =>
      let row := Table.lookup ApiClient.name (legacyName agent) s.clients
      agent ∈ s.agents.map AgentRow.id && client = row.map ApiClient.id &&
        row.all (·.status = .active) &&
        loaded = client.any fun id => ⟨id, agent⟩ ∈ s.bindings

/-- What a commit makes up: the ids of new rows, and the text of a new key. -/
structure Fresh where
  client : Nat
  key : Nat
  plaintext : String

/-- The client of a rotation, which makes one where there was none. -/
def legacyClient (s : State) (agent : String) (client : Option Nat) (fresh : Fresh) :
    Option (Nat × State) :=
  match client with
  | some id => some (id, s)
  | none =>
      (s.insertClient ⟨fresh.client, legacyName agent, "legacy-publication", .active, 60⟩).map
        fun s => (fresh.client, s)

/-- The rest of a rotation. -/
def rotate (hash : String → String) (s : State) (agent : String) (client : Nat) (loaded : Bool)
    (now : Nat) (fresh : Fresh) : Option State :=
  (if loaded then some s else s.insertBinding client agent).bind fun s =>
    (s.revokeKeys client now).insertKey hash fresh.key client "legacy-publication-key"
      fresh.plaintext none

/-- The statements of a request and its commit, `none` where it raises. -/
def commit (hash : String → String) (s : State) (now : Nat) (fresh : Fresh) :
    Request → Option State
  | .updateClient loaded values => s.updateClient loaded values
  | .deleteClient client => some (s.deleteClient client)
  | .createKey client name expiresAt =>
      s.insertKey hash fresh.key client name fresh.plaintext expiresAt
  | .revokeKey _ key => s.revokeKey key now
  | .bindAgent client agent loaded => if loaded then some s else s.insertBinding client agent
  | .unbindAgent client agent => some (s.deleteBinding client agent)
  | .rotate agent client loaded =>
      (s.legacyClient agent client fresh).bind fun r => r.2.rotate hash agent r.1 loaded now fresh

/-! ## Authentication -/

def isLive (row : AgentRow) : Bool :=
  row.status = .active && row.currentVersionId.isSome && row.apiEnabled

/-- The conditions on a key and its client. -/
def isValid (hash : String → String) (presented : String) (now : Nat) (client : ApiClient)
    (key : ApiKey) : Bool :=
  key.clientId = client.id && key.keyHash = hash presented && key.status = .active &&
    client.status = .active && key.expiresAt.all (now < ·)

/-- `authenticate_client_key`. -/
def authenticateClientKey (hash : String → String) (s : State) (presented : String) (now : Nat) :
    Option (ApiClient × ApiKey) :=
  (s.clients.flatMap fun client =>
    (s.keys.filter (isValid hash presented now client)).map fun key => (client, key)).head?

/-- `has_invoke_permission`. -/
def hasInvokePermission (s : State) (client : Nat) (agent : String) : Bool :=
  s.bindings.any fun binding => binding.clientId = client && binding.agentId = agent &&
    s.agents.any fun row => row.id = binding.agentId && isLive row

/-- The row that `authenticate_api_key` finds. -/
def authenticateApiKey (hash : String → String) (s : State) (agent presented : String) (now : Nat) :
    Option (ApiClient × ApiKey) :=
  (s.clients.flatMap fun client =>
    (s.keys.filter (isValid hash presented now client)).flatMap fun key =>
      (s.bindings.filter fun binding =>
          binding.clientId = client.id && binding.agentId = agent).flatMap fun binding =>
        (s.agents.filter fun row => row.id = binding.agentId && isLive row).map fun _ =>
          (client, key)).head?

/-- `last_used_at` of the key that has been found. -/
def touch (hash : String → String) (s : State) (agent presented : String) (now : Nat) : State :=
  match s.authenticateApiKey hash agent presented now with
  | none => s
  | some row =>
      { s with
        keys := Table.modify ApiKey.id row.2.id (fun key => { key with lastUsedAt := some now })
          s.keys }

end State

/-- How `_execute_public_agent` answers a key. -/
inductive Verdict where
  /-- 401, `"invalid_api_key"`. -/
  | invalidKey
  /-- 403, `"invoke_permission_denied"`. -/
  | denied
  | accepted (client key : Nat)
deriving DecidableEq, Repr

/-- The checks of a key by `_execute_public_agent`. -/
def verdict (hash : String → String) (s : State) (agent presented : String) (now : Nat) : Verdict :=
  match s.authenticateApiKey hash agent presented now with
  | some row => .accepted row.1.id row.2.id
  | none =>
      match s.authenticateClientKey hash presented now with
      | none => .invalidKey
      | some row =>
          if s.hasInvokePermission row.1.id agent then .accepted row.1.id row.2.id else .denied

/-! ## Runs -/

inductive Action where
  | createClient (client : ApiClient)
  | read (request : Request) (now : Nat)
  | commit (request : Request) (now : Nat) (fresh : State.Fresh)
  | authenticate (agent presented : String) (now : Nat)
  | writeAgent (agent : AgentRow)
  | deleteAgent (agent : String)

def step (hash : String → String) (s : State) : Action → Option State
  | .createClient client => s.insertClient { client with status := .active }
  | .read request now =>
      if s.reads now request then some { s with requests := s.requests ++ [request] } else none
  | .commit request now fresh =>
      if request ∈ s.requests then
        { s with requests := s.requests.erase request }.commit hash now fresh request
      else none
  | .authenticate agent presented now => some (s.touch hash agent presented now)
  | .writeAgent agent => some (s.writeAgent agent)
  | .deleteAgent agent => some (s.deleteAgent agent)

def initial : State := ⟨[], [], [], [], [], []⟩

def system (hash : String → String) : System State Action :=
  { init := fun s => s = initial
    step := step hash }

/-! ## What the history says -/

section History

variable (history : List Event)

/-- The client's last status is active, and it has not been deleted since. -/
def IsActive (client : Nat) : Prop :=
  Since (· = .clientStatus client .active)
    (fun e => (∃ status, status ≠ .active ∧ e = .clientStatus client status) ∨
      e = .clientDeleted client) history

/-- The key was issued to the client, and neither it nor all keys of the client have been
    revoked. -/
def Stands (key client : Nat) (plaintext : String) (expiresAt : Option Nat) : Prop :=
  Since (· = .issued key client plaintext expiresAt)
    (fun e => e = .keyRevoked key ∨ e = .keysRevoked client ∨ e = .clientDeleted client) history

def IsBound (client : Nat) (agent : String) : Prop :=
  Since (· = .bound client agent)
    (fun e => e = .unbound client agent ∨ e = .clientDeleted client ∨ e = .agentDeleted agent)
    history

end History

/-- The tables hold what the history says. -/
structure Agrees (hash : String → String) (s : State) : Prop where
  hashes : Table.Unique ApiKey.keyHash s.keys
  active : ∀ client, (∃ row ∈ s.clients, row.id = client ∧ row.status = .active) ↔
    IsActive s.history client
  stands : ∀ key client plaintext expiresAt,
    (∃ row ∈ s.keys, row.id = key ∧ row.clientId = client ∧ row.keyHash = hash plaintext ∧
      row.expiresAt = expiresAt ∧ row.status = .active) ↔
    Stands s.history key client plaintext expiresAt
  bound : ∀ client agent, ⟨client, agent⟩ ∈ s.bindings ↔ IsBound s.history client agent

section Statements

variable {hash : String → String} {s s' : State}

theorem agrees_initial : Agrees hash initial :=
  ⟨List.nodup_nil, fun _ => iff_of_false nofun id, fun _ _ _ _ => iff_of_false nofun id,
    fun _ _ => iff_of_false nofun id⟩

theorem Agrees.insertClient (h : Agrees hash s) {client : ApiClient}
    (hinsert : s.insertClient client = some s') : Agrees hash s' := by
  rw [State.insertClient] at hinsert
  split at hinsert
  next => cases hinsert
  next hfresh =>
    cases hinsert
    refine ⟨h.hashes, ?_, ?_, ?_⟩
    · intro c
      show (∃ row ∈ s.clients ++ [client], row.id = c ∧ row.status = .active) ↔ _
      simp only [List.mem_append, List.mem_singleton, or_and_right, exists_or, exists_eq_left]
      rw [h.active c]
      by_cases hc : client.id = c
      · subst hc
        by_cases hstatus : client.status = .active
        · rw [hstatus]
          exact iff_of_true (.inr ⟨rfl, rfl⟩) (since_of_start rfl)
        · refine iff_of_false ?_ (since_of_end (by simpa using hstatus) (.inl ⟨_, hstatus, rfl⟩))
          rintro (hactive | hactive)
          · obtain ⟨row, hrow, hid, -⟩ := (h.active _).mpr hactive
            exact hfresh (.inl (hid ▸ List.mem_map_of_mem hrow))
          · exact hstatus hactive.2
      · rw [or_iff_left (fun hboth => hc hboth.1)]
        exact (since_of_neither (by simp [hc]) (by simp [hc])).symm
    · exact fun key c text exp => (h.stands key c text exp).trans
        (since_of_neither (by simp) (by simp)).symm
    · exact fun c a => (h.bound c a).trans (since_of_neither (by simp) (by simp)).symm

theorem Agrees.updateClient (h : Agrees hash s) {loaded : ApiClient} {values : ClientUpdate}
    (hupdate : s.updateClient loaded values = some s') : Agrees hash s' := by
  rw [State.updateClient] at hupdate
  split at hupdate
  next => cases hupdate
  next row hlookup =>
    dsimp only at hupdate
    split at hupdate
    next => cases hupdate
    next =>
      cases hupdate
      refine ⟨h.hashes, ?_, ?_, ?_⟩
      · intro c
        have hid : (State.updatedClient loaded values row).id = loaded.id :=
          show row.id = loaded.id from Table.key_of_lookup hlookup
        by_cases hc : loaded.id = c
        · subst hc
          have hmem := Table.mem_modify_of_eq (f := fun _ => State.updatedClient loaded values row)
            (Table.mem_of_lookup hlookup) (Table.key_of_lookup hlookup)
          by_cases hstatus : (State.updatedClient loaded values row).status = .active
          · rw [hstatus]
            exact iff_of_true ⟨_, hmem, hid, hstatus⟩ (since_of_start rfl)
          · refine iff_of_false ?_ (since_of_end (by simpa using hstatus) (.inl ⟨_, hstatus, rfl⟩))
            rintro ⟨row', hrow', hid', hactive⟩
            obtain ⟨row'', -, rfl⟩ := List.mem_map.mp hrow'
            split at hactive
            next => exact hstatus hactive
            next hne =>
              rw [if_neg hne] at hid'
              exact hne hid'
        · refine Iff.trans ?_
            ((h.active c).trans (since_of_neither (by simp [hc]) (by simp [hc])).symm)
          refine ⟨?_, ?_⟩
          · rintro ⟨row', hrow', hid', hactive⟩
            obtain ⟨row'', hrow'', rfl⟩ := List.mem_map.mp hrow'
            split at hid'
            next => exact absurd (hid.symm.trans hid') hc
            next hne =>
              rw [if_neg hne] at hactive
              exact ⟨row'', hrow'', hid', hactive⟩
          · rintro ⟨row', hrow', hid', hactive⟩
            exact ⟨row', Table.mem_modify_of_ne hrow' (fun heq => hc (heq.symm.trans hid')), hid',
              hactive⟩
      · exact fun key c text exp => (h.stands key c text exp).trans
          (since_of_neither (by simp) (by simp)).symm
      · exact fun c a => (h.bound c a).trans (since_of_neither (by simp) (by simp)).symm

theorem Agrees.deleteClient (h : Agrees hash s) (client : Nat) :
    Agrees hash (s.deleteClient client) := by
  refine ⟨h.hashes.sublist (List.filter_sublist.map _), ?_, ?_, ?_⟩
  · intro c
    show (∃ row ∈ Table.delete ApiClient.id client s.clients, _) ↔ _
    simp only [Table.delete, List.mem_filter, decide_eq_true_eq, ne_eq]
    by_cases hc : client = c
    · subst hc
      refine iff_of_false ?_ (since_of_end (by simp) (.inr rfl))
      rintro ⟨row, ⟨-, hne⟩, hid, -⟩
      exact hne hid
    · refine Iff.trans ?_ ((h.active c).trans (since_of_neither (by simp) (by simp [hc])).symm)
      refine exists_congr fun row => ⟨fun hboth => ⟨hboth.1.1, hboth.2⟩, ?_⟩
      rintro ⟨hrow, hid, hactive⟩
      exact ⟨⟨hrow, fun heq => hc (heq.symm.trans hid)⟩, hid, hactive⟩
  · intro key c text exp
    show (∃ row ∈ s.keys.filter (·.clientId ≠ client), _) ↔ _
    simp only [List.mem_filter, decide_eq_true_eq, ne_eq]
    by_cases hc : client = c
    · subst hc
      refine iff_of_false ?_ (since_of_end (by simp) (.inr (.inr rfl)))
      rintro ⟨row, ⟨-, hne⟩, -, hid, -⟩
      exact hne hid
    · refine Iff.trans ?_
        ((h.stands key c text exp).trans (since_of_neither (by simp) (by simp [hc])).symm)
      refine exists_congr fun row => ⟨fun hboth => ⟨hboth.1.1, hboth.2⟩, ?_⟩
      rintro ⟨hrow, hkey, hid, hrest⟩
      exact ⟨⟨hrow, fun heq => hc (heq.symm.trans hid)⟩, hkey, hid, hrest⟩
  · intro c a
    show _ ∈ s.bindings.filter (·.clientId ≠ client) ↔ _
    rw [List.mem_filter, decide_eq_true_eq]
    by_cases hc : client = c
    · subst hc
      exact iff_of_false (fun hmem => hmem.2 rfl) (since_of_end (by simp) (.inr (.inl rfl)))
    · rw [and_iff_left (fun heq => hc heq.symm)]
      exact (h.bound c a).trans (since_of_neither (by simp) (by simp [hc])).symm

theorem Agrees.insertKey (hhash : Function.Injective hash) (h : Agrees hash s)
    {id client : Nat} {name plaintext : String} {expiresAt : Option Nat}
    (hinsert : s.insertKey hash id client name plaintext expiresAt = some s') : Agrees hash s' := by
  rw [State.insertKey] at hinsert
  split at hinsert
  next hfresh =>
    cases hinsert
    refine ⟨h.hashes.append hfresh.2.2, ?_, ?_, ?_⟩
    · exact fun c => (h.active c).trans (since_of_neither (by simp) (by simp)).symm
    · intro key c text exp
      show (∃ row ∈ s.keys ++ [State.newKey hash id client name plaintext expiresAt], _) ↔ _
      simp only [List.mem_append, List.mem_singleton, or_and_right, exists_or, exists_eq_left]
      rw [h.stands key c text exp, or_comm]
      refine or_congr ?_ (and_iff_right (by simp)).symm
      simp only [State.newKey, hhash.eq_iff, Event.issued.injEq, and_true]
    · exact fun c a => (h.bound c a).trans (since_of_neither (by simp) (by simp)).symm
  next => cases hinsert

theorem unique_map {keys : List ApiKey} {f : ApiKey → ApiKey}
    (h : Table.Unique ApiKey.keyHash keys) (hf : ∀ row, (f row).keyHash = row.keyHash) :
    Table.Unique ApiKey.keyHash (keys.map f) := by
  have hmap : (keys.map f).map ApiKey.keyHash = keys.map ApiKey.keyHash := by
    rw [List.map_map]
    exact List.map_congr_left fun row _ => hf row
  rw [Table.Unique, hmap]
  exact h

/-- Keys are changed one by one; some of them are revoked. -/
theorem active_map {keys : List ApiKey} {f : ApiKey → ApiKey} (revoked : ApiKey → Prop)
    (hf : ∀ row, revoked row ∧ (f row).status = .revoked ∨ ¬ revoked row ∧ f row = row)
    {key client : Nat} {text : String} {exp : Option Nat}
    (hall : ∀ row, row.id = key → row.clientId = client → row.status = .active → ¬ revoked row) :
    (∃ row ∈ keys.map f, row.id = key ∧ row.clientId = client ∧ row.keyHash = hash text ∧
      row.expiresAt = exp ∧ row.status = .active) ↔
    ∃ row ∈ keys, row.id = key ∧ row.clientId = client ∧ row.keyHash = hash text ∧
      row.expiresAt = exp ∧ row.status = .active := by
  refine ⟨?_, ?_⟩
  · rintro ⟨row', hrow', hrest⟩
    obtain ⟨row, hrow, rfl⟩ := List.mem_map.mp hrow'
    rcases hf row with ⟨-, hstatus⟩ | ⟨-, heq⟩
    · rw [hstatus] at hrest
      exact absurd hrest.2.2.2.2 (by decide)
    · exact ⟨row, hrow, heq ▸ hrest⟩
  · rintro ⟨row, hrow, hkey, hclient, hrest⟩
    rcases hf row with ⟨hrevoked, -⟩ | ⟨-, heq⟩
    · exact absurd hrevoked (hall row hkey hclient hrest.2.2)
    · exact ⟨f row, List.mem_map_of_mem hrow, by rw [heq]; exact ⟨hkey, hclient, hrest⟩⟩

theorem Agrees.revokeKey (h : Agrees hash s) {key now : Nat}
    (hrevoke : s.revokeKey key now = some s') : Agrees hash s' := by
  rw [State.revokeKey] at hrevoke
  split at hrevoke
  next =>
    cases hrevoke
    refine ⟨?_, ?_, ?_, ?_⟩
    · refine unique_map h.hashes fun row => ?_
      split <;> rfl
    · exact fun c => (h.active c).trans (since_of_neither (by simp) (by simp)).symm
    · intro k c text exp
      show (∃ row ∈ Table.modify ApiKey.id key (State.revokedKey now) s.keys, _) ↔ _
      by_cases hk : key = k
      · subst hk
        refine iff_of_false ?_ (since_of_end (by simp) (.inl rfl))
        rintro ⟨row', hrow', hid, -, -, -, hactive⟩
        obtain ⟨row, -, rfl⟩ := List.mem_map.mp hrow'
        split at hactive
        next => cases hactive
        next hne =>
          rw [if_neg hne] at hid
          exact hne hid
      · refine (active_map (fun row => row.id = key) ?_ ?_).trans
          ((h.stands k c text exp).trans (since_of_neither (by simp) (by simp [hk])).symm)
        · intro row
          by_cases hid : row.id = key
          · exact .inl ⟨hid, by rw [if_pos hid]; rfl⟩
          · exact .inr ⟨hid, if_neg hid⟩
        · exact fun row hrow _ _ heq => hk (heq.symm.trans hrow)
    · exact fun c a => (h.bound c a).trans (since_of_neither (by simp) (by simp)).symm
  next => cases hrevoke

theorem Agrees.revokeKeys (h : Agrees hash s) (client now : Nat) :
    Agrees hash (s.revokeKeys client now) := by
  refine ⟨?_, ?_, ?_, ?_⟩
  · refine unique_map h.hashes fun row => ?_
    split <;> rfl
  · exact fun c => (h.active c).trans (since_of_neither (by simp) (by simp)).symm
  · intro k c text exp
    show (∃ row ∈ s.keys.map _, _) ↔ _
    by_cases hc : client = c
    · subst hc
      refine iff_of_false ?_ (since_of_end (by simp) (.inr (.inl rfl)))
      rintro ⟨row', hrow', -, hid, -, -, hactive⟩
      obtain ⟨row, -, rfl⟩ := List.mem_map.mp hrow'
      split at hactive
      next => cases hactive
      next hne =>
        rw [if_neg hne] at hid
        exact hne ⟨hid, hactive⟩
    · refine (active_map (fun row => row.clientId = client ∧ row.status = .active) ?_ ?_).trans
          ((h.stands k c text exp).trans (since_of_neither (by simp) (by simp [hc])).symm)
      · intro row
        by_cases hrow : row.clientId = client ∧ row.status = .active
        · exact .inl ⟨hrow, by rw [if_pos hrow]; rfl⟩
        · exact .inr ⟨hrow, if_neg hrow⟩
      · exact fun row _ hrow _ hboth => hc (hboth.1.symm.trans hrow)
  · exact fun c a => (h.bound c a).trans (since_of_neither (by simp) (by simp)).symm

theorem Agrees.insertBinding (h : Agrees hash s) {client : Nat} {agent : String}
    (hinsert : s.insertBinding client agent = some s') : Agrees hash s' := by
  rw [State.insertBinding] at hinsert
  split at hinsert
  next =>
    cases hinsert
    refine ⟨h.hashes, ?_, ?_, ?_⟩
    · exact fun c => (h.active c).trans (since_of_neither (by simp) (by simp)).symm
    · exact fun k c text exp => (h.stands k c text exp).trans
        (since_of_neither (by simp) (by simp)).symm
    · intro c a
      show _ ∈ s.bindings ++ [⟨client, agent⟩] ↔ _
      rw [List.mem_append, List.mem_singleton, h.bound c a, or_comm]
      refine or_congr ?_ (and_iff_right (by simp)).symm
      simp only [AgentApiClient.mk.injEq, Event.bound.injEq, eq_comm]
  next => cases hinsert

theorem Agrees.deleteBinding (h : Agrees hash s) (client : Nat) (agent : String) :
    Agrees hash (s.deleteBinding client agent) := by
  refine ⟨h.hashes, ?_, ?_, ?_⟩
  · exact fun c => (h.active c).trans (since_of_neither (by simp) (by simp)).symm
  · exact fun k c text exp => (h.stands k c text exp).trans
      (since_of_neither (by simp) (by simp)).symm
  · intro c a
    show _ ∈ s.bindings.filter (· ≠ ⟨client, agent⟩) ↔ _
    rw [List.mem_filter, decide_eq_true_eq, h.bound c a]
    by_cases heq : (⟨c, a⟩ : AgentApiClient) = ⟨client, agent⟩
    · obtain ⟨rfl, rfl⟩ := AgentApiClient.mk.inj heq
      exact iff_of_false (fun hmem => hmem.2 rfl) (since_of_end (by simp) (.inl rfl))
    · rw [and_iff_left heq]
      refine (since_of_neither (by simp) ?_).symm
      rintro (hevent | hevent | hevent)
      · exact heq (by rw [(Event.unbound.inj hevent).1, (Event.unbound.inj hevent).2])
      · cases hevent
      · cases hevent

theorem Agrees.deleteAgent (h : Agrees hash s) (agent : String) :
    Agrees hash (s.deleteAgent agent) := by
  refine ⟨h.hashes, ?_, ?_, ?_⟩
  · exact fun c => (h.active c).trans (since_of_neither (by simp) (by simp)).symm
  · exact fun k c text exp => (h.stands k c text exp).trans
      (since_of_neither (by simp) (by simp)).symm
  · intro c a
    show _ ∈ s.bindings.filter (·.agentId ≠ agent) ↔ _
    rw [List.mem_filter, decide_eq_true_eq, h.bound c a]
    by_cases ha : agent = a
    · subst ha
      exact iff_of_false (fun hmem => hmem.2 rfl) (since_of_end (by simp) (.inr (.inr rfl)))
    · rw [and_iff_left (fun heq => ha heq.symm)]
      exact (since_of_neither (by simp) (by simp [ha])).symm

theorem Agrees.touch (h : Agrees hash s) (agent presented : String) (now : Nat) :
    Agrees hash (s.touch hash agent presented now) := by
  rw [State.touch]
  split
  next => exact h
  next row _ =>
    refine ⟨unique_map h.hashes fun row => ?_, h.active, ?_, h.bound⟩
    · split <;> rfl
    intro k c text exp
    refine Iff.trans ?_ (h.stands k c text exp)
    refine ⟨?_, ?_⟩
    · rintro ⟨row', hrow', hrest⟩
      obtain ⟨row'', hrow'', rfl⟩ := List.mem_map.mp hrow'
      refine ⟨row'', hrow'', ?_⟩
      split at hrest <;> exact hrest
    · rintro ⟨row', hrow', hrest⟩
      refine ⟨_, List.mem_map_of_mem hrow', ?_⟩
      split <;> exact hrest

theorem Agrees.rotate (hhash : Function.Injective hash) (h : Agrees hash s) {agent : String}
    {client : Nat} {loaded : Bool} {now : Nat} {fresh : State.Fresh}
    (hrotate : s.rotate hash agent client loaded now fresh = some s') : Agrees hash s' := by
  rw [State.rotate, Option.bind_eq_some_iff] at hrotate
  obtain ⟨mid, hmid, hinsert⟩ := hrotate
  have hbound : Agrees hash mid := by
    split at hmid
    next =>
      cases hmid
      exact h
    next => exact h.insertBinding hmid
  exact (hbound.revokeKeys client now).insertKey hhash hinsert

theorem Agrees.commit (hhash : Function.Injective hash) (h : Agrees hash s) {now : Nat}
    {fresh : State.Fresh} {request : Request}
    (hcommit : s.commit hash now fresh request = some s') : Agrees hash s' := by
  cases request with
  | updateClient loaded values => exact h.updateClient hcommit
  | deleteClient client =>
      cases hcommit
      exact h.deleteClient client
  | createKey client name expiresAt => exact h.insertKey hhash hcommit
  | revokeKey client key => exact h.revokeKey hcommit
  | bindAgent client agent loaded =>
      rw [State.commit] at hcommit
      split at hcommit
      next =>
        cases hcommit
        exact h
      next => exact h.insertBinding hcommit
  | unbindAgent client agent =>
      cases hcommit
      exact h.deleteBinding client agent
  | rotate agent client loaded =>
      rw [State.commit, Option.bind_eq_some_iff] at hcommit
      obtain ⟨⟨id, mid⟩, hclient, hrotate⟩ := hcommit
      have hmid : Agrees hash mid := by
        cases client with
        | some id =>
            cases hclient
            exact h
        | none =>
            obtain ⟨mid', hinsert, heq⟩ := Option.map_eq_some_iff.mp hclient
            cases heq
            exact h.insertClient hinsert
      exact hmid.rotate hhash hrotate

/-- **One step.** -/
theorem Agrees.step (hhash : Function.Injective hash) (h : Agrees hash s) {action : Action}
    (hstep : step hash s action = some s') : Agrees hash s' := by
  cases action with
  | createClient client => exact h.insertClient hstep
  | read request now =>
      rw [ApiKeys.step] at hstep
      split at hstep
      next =>
        cases hstep
        exact ⟨h.hashes, h.active, h.stands, h.bound⟩
      next => cases hstep
  | commit request now fresh =>
      rw [ApiKeys.step] at hstep
      split at hstep
      next =>
        have htaken : Agrees hash { s with requests := s.requests.erase request } :=
          ⟨h.hashes, h.active, h.stands, h.bound⟩
        exact htaken.commit hhash hstep
      next => cases hstep
  | authenticate agent presented now =>
      cases hstep
      exact h.touch agent presented now
  | writeAgent agent =>
      cases hstep
      exact ⟨h.hashes, h.active, h.stands, h.bound⟩
  | deleteAgent agent =>
      cases hstep
      exact h.deleteAgent agent

theorem agrees_of_reachable (hhash : Function.Injective hash)
    (h : (system hash).Reachable System.anyStep s) : Agrees hash s := by
  refine h.invariant _ ?_ fun s a t hs _ hstep => hs.step hhash hstep
  rintro s rfl
  exact agrees_initial

/-! ## What a key is good for -/

theorem isValid_iff {presented : String} {now : Nat} {client : ApiClient} {key : ApiKey} :
    State.isValid hash presented now client key = true ↔
      key.clientId = client.id ∧ key.keyHash = hash presented ∧ key.status = .active ∧
        client.status = .active ∧ key.expiresAt.all (now < ·) = true := by
  simp only [State.isValid, Bool.and_eq_true, decide_eq_true_eq, and_assoc]

/-- A key and its client that a text is valid for. -/
def IsValid (s : State) (client key : Nat) (presented : String) (now : Nat) : Prop :=
  IsActive s.history client ∧
    ∃ expiresAt, Stands s.history key client presented expiresAt ∧
      expiresAt.all (now < ·) = true

def IsLive (s : State) (agent : String) : Prop :=
  ∃ row ∈ s.agents, row.id = agent ∧ State.isLive row = true

theorem hasInvokePermission_iff (h : Agrees hash s) {client : Nat} {agent : String} :
    s.hasInvokePermission client agent = true ↔
      IsBound s.history client agent ∧ IsLive s agent := by
  rw [← h.bound]
  simp only [State.hasInvokePermission, List.any_eq_true, Bool.and_eq_true, decide_eq_true_eq]
  refine ⟨?_, ?_⟩
  · rintro ⟨⟨c, a⟩, hmem, ⟨hc, ha⟩, row, hrow, hid, hlive⟩
    dsimp only at hc ha hid
    subst hc ha
    exact ⟨hmem, row, hrow, hid, hlive⟩
  · rintro ⟨hmem, row, hrow, hid, hlive⟩
    exact ⟨_, hmem, ⟨rfl, rfl⟩, row, hrow, hid, hlive⟩

/-- The rows that a text is valid for are of one key. -/
theorem Agrees.valid_iff (h : Agrees hash s) (more : Nat → Prop)
    {rows : List (ApiClient × ApiKey)} {presented : String} {now : Nat}
    (hrows : ∀ row, row ∈ rows ↔ row.1 ∈ s.clients ∧ row.2 ∈ s.keys ∧
      State.isValid hash presented now row.1 row.2 = true ∧ more row.1.id) (client key : Nat) :
    (∃ row, rows.head? = some row ∧ row.1.id = client ∧ row.2.id = key) ↔
      IsValid s client key presented now ∧ more client := by
  refine ⟨?_, ?_⟩
  · rintro ⟨row, hhead, rfl, rfl⟩
    obtain ⟨hclient, hkey, hvalid, hmore⟩ := (hrows row).mp (List.mem_of_mem_head? hhead)
    obtain ⟨hid, hhash, hstatus, hactive, hexpires⟩ := isValid_iff.mp hvalid
    refine ⟨⟨(h.active _).mp ⟨row.1, hclient, rfl, hactive⟩, row.2.expiresAt, ?_, hexpires⟩, hmore⟩
    exact (h.stands _ _ _ _).mp ⟨row.2, hkey, rfl, hid, hhash, rfl, hstatus⟩
  · rintro ⟨⟨hactive, expiresAt, hstands, hexpires⟩, hmore⟩
    obtain ⟨c, hc, rfl, hstatus⟩ := (h.active client).mpr hactive
    obtain ⟨k, hk, rfl, hid, hhash, rfl, hkey⟩ := (h.stands _ _ _ _).mpr hstands
    have hvalid := isValid_iff.mpr ⟨hid, hhash, hkey, hstatus, hexpires⟩
    have hmem : (c, k) ∈ rows := (hrows (c, k)).mpr ⟨hc, hk, hvalid, hmore⟩
    cases hhead : rows.head? with
    | none =>
        rw [List.head?_eq_none_iff.mp hhead] at hmem
        cases hmem
    | some row =>
        obtain ⟨-, hrow, hrowValid, -⟩ := (hrows row).mp (List.mem_of_mem_head? hhead)
        obtain ⟨hrowId, hrowHash, -⟩ := isValid_iff.mp hrowValid
        have heq : row.2 = k := h.hashes.eq hrow hk (hrowHash.trans hhash.symm)
        exact ⟨row, rfl, by rw [← hrowId, heq, hid], by rw [heq]⟩

theorem authenticateClientKey_iff (h : Agrees hash s) {presented : String} {now : Nat}
    (client key : Nat) :
    (∃ row, s.authenticateClientKey hash presented now = some row ∧ row.1.id = client ∧
      row.2.id = key) ↔ IsValid s client key presented now := by
  refine (h.valid_iff (fun _ => True) ?_ client key).trans (and_iff_left trivial)
  rintro ⟨c, k⟩
  simp only [List.mem_flatMap, List.mem_map, List.mem_filter, Prod.mk.injEq, and_true]
  refine ⟨?_, ?_⟩
  · rintro ⟨_, hc, _, ⟨hk, hvalid⟩, rfl, rfl⟩
    exact ⟨hc, hk, hvalid⟩
  · rintro ⟨hc, hk, hvalid⟩
    exact ⟨c, hc, k, ⟨hk, hvalid⟩, rfl, rfl⟩

theorem authenticateApiKey_iff (h : Agrees hash s) {agent presented : String} {now : Nat}
    (client key : Nat) :
    (∃ row, s.authenticateApiKey hash agent presented now = some row ∧ row.1.id = client ∧
      row.2.id = key) ↔
      IsValid s client key presented now ∧ IsBound s.history client agent ∧ IsLive s agent := by
  refine h.valid_iff (fun c => IsBound s.history c agent ∧ IsLive s agent) ?_ client key
  rintro ⟨c, k⟩
  rw [← h.bound]
  simp only [List.mem_flatMap, List.mem_map, List.mem_filter, Prod.mk.injEq, Bool.and_eq_true,
    decide_eq_true_eq]
  refine ⟨?_, ?_⟩
  · rintro ⟨_, hc, _, ⟨hk, hvalid⟩, ⟨c', a'⟩, ⟨hbinding, hc', ha'⟩,
        row, ⟨hrow, hid, hlive⟩, rfl, rfl⟩
    dsimp only at hc' ha' hid
    subst hc' ha'
    exact ⟨hc, hk, hvalid, hbinding, row, hrow, hid, hlive⟩
  · rintro ⟨hc, hk, hvalid, hbinding, row, hrow, hid, hlive⟩
    exact ⟨c, hc, k, ⟨hk, hvalid⟩, _, ⟨hbinding, rfl, rfl⟩, row, ⟨hrow, hid, hlive⟩, rfl, rfl⟩

theorem Agrees.verdict_accepted (h : Agrees hash s) {agent presented : String} {now : Nat}
    (client key : Nat) : verdict hash s agent presented now = .accepted client key ↔
      IsValid s client key presented now ∧ IsBound s.history client agent ∧ IsLive s agent := by
  rw [← authenticateApiKey_iff h, verdict]
  cases hapi : s.authenticateApiKey hash agent presented now with
  | some row => simp
  | none =>
      refine iff_of_false ?_ (by simp)
      cases hclient : s.authenticateClientKey hash presented now with
      | none => exact Verdict.noConfusion
      | some row =>
          dsimp only
          split
          next hpermission =>
            -- What the second query finds with the permission, the first one has found.
            have hvalid :=
              (authenticateClientKey_iff h row.1.id row.2.id).mp ⟨row, hclient, rfl, rfl⟩
            have hbound := (hasInvokePermission_iff h).mp hpermission
            obtain ⟨row', hrow', -⟩ := (authenticateApiKey_iff h _ _).mpr ⟨hvalid, hbound⟩
            rw [hapi] at hrow'
            cases hrow'
          next => exact Verdict.noConfusion

theorem Agrees.verdict_invalidKey (h : Agrees hash s) {agent presented : String} {now : Nat} :
    verdict hash s agent presented now = .invalidKey ↔
      ∀ client key, ¬ IsValid s client key presented now := by
  rw [verdict]
  cases hapi : s.authenticateApiKey hash agent presented now with
  | some row =>
      have hvalid := (authenticateApiKey_iff h row.1.id row.2.id).mp ⟨row, hapi, rfl, rfl⟩
      exact iff_of_false Verdict.noConfusion fun hnone => hnone _ _ hvalid.1
  | none =>
      dsimp only
      cases hclient : s.authenticateClientKey hash presented now with
      | none =>
          refine iff_of_true rfl fun client key hvalid => ?_
          obtain ⟨row, hrow, -⟩ := (authenticateClientKey_iff h client key).mpr hvalid
          rw [hclient] at hrow
          cases hrow
      | some row =>
          have hvalid := (authenticateClientKey_iff h row.1.id row.2.id).mp ⟨row, hclient, rfl, rfl⟩
          refine iff_of_false ?_ fun hnone => hnone _ _ hvalid
          dsimp only
          split <;> exact Verdict.noConfusion

/-! ## Revocation -/

/-- The history goes on without this text being issued. -/
def Extends (plaintext : String) (s s' : State) : Prop :=
  ∃ later, s'.history = later ++ s.history ∧
    ∀ e ∈ later, ∀ key client expiresAt, e ≠ .issued key client plaintext expiresAt

theorem Extends.refl (plaintext : String) (s : State) : Extends plaintext s s := ⟨[], rfl, nofun⟩

theorem Extends.trans {plaintext : String} {mid : State} (h : Extends plaintext s mid)
    (h' : Extends plaintext mid s') : Extends plaintext s s' := by
  obtain ⟨later, hlater, hnone⟩ := h
  obtain ⟨later', hlater', hnone'⟩ := h'
  refine ⟨later' ++ later, by rw [hlater', hlater, List.append_assoc], ?_⟩
  intro e he
  exact (List.mem_append.mp he).elim (hnone' e) (hnone e)

theorem extends_record {plaintext : String} {e : Event} (hs : s'.history = e :: s.history)
    (he : ∀ key client expiresAt, e ≠ .issued key client plaintext expiresAt) :
    Extends plaintext s s' :=
  ⟨[e], hs, List.forall_mem_singleton.mpr he⟩

theorem extends_insertKey {id client : Nat} {name text plaintext : String} {expiresAt : Option Nat}
    (hinsert : s.insertKey hash id client name text expiresAt = some s') (hne : text ≠ plaintext) :
    Extends plaintext s s' := by
  rw [State.insertKey] at hinsert
  split at hinsert
  next =>
    cases hinsert
    exact extends_record rfl fun key client expiresAt heq => hne (Event.issued.inj heq).2.2.1
  next => cases hinsert

theorem extends_insertBinding {client : Nat} {agent plaintext : String}
    (hinsert : s.insertBinding client agent = some s') : Extends plaintext s s' := by
  rw [State.insertBinding] at hinsert
  split at hinsert
  next =>
    cases hinsert
    exact extends_record rfl nofun
  next => cases hinsert

theorem extends_insertClient {client : ApiClient} {plaintext : String}
    (hinsert : s.insertClient client = some s') : Extends plaintext s s' := by
  rw [State.insertClient] at hinsert
  split at hinsert
  next => cases hinsert
  next =>
    cases hinsert
    exact extends_record rfl nofun

theorem extends_commit {now : Nat} {fresh : State.Fresh} {request : Request} {plaintext : String}
    (hcommit : s.commit hash now fresh request = some s') (hne : fresh.plaintext ≠ plaintext) :
    Extends plaintext s s' := by
  cases request with
  | updateClient loaded values =>
      rw [State.commit, State.updateClient] at hcommit
      split at hcommit
      next => cases hcommit
      next =>
        dsimp only at hcommit
        split at hcommit
        next => cases hcommit
        next =>
          cases hcommit
          exact extends_record rfl (by rintro _ _ _ ⟨⟩)
  | deleteClient client =>
      cases hcommit
      exact extends_record rfl (by rintro _ _ _ ⟨⟩)
  | createKey client name expiresAt => exact extends_insertKey hcommit hne
  | revokeKey client key =>
      rw [State.commit, State.revokeKey] at hcommit
      split at hcommit
      next =>
        cases hcommit
        exact extends_record rfl (by rintro _ _ _ ⟨⟩)
      next => cases hcommit
  | bindAgent client agent loaded =>
      rw [State.commit] at hcommit
      split at hcommit
      next =>
        cases hcommit
        exact .refl plaintext _
      next => exact extends_insertBinding hcommit
  | unbindAgent client agent =>
      cases hcommit
      exact extends_record rfl (by rintro _ _ _ ⟨⟩)
  | rotate agent client loaded =>
      rw [State.commit, Option.bind_eq_some_iff] at hcommit
      obtain ⟨⟨id, mid⟩, hclient, hrotate⟩ := hcommit
      rw [State.rotate, Option.bind_eq_some_iff] at hrotate
      obtain ⟨mid', hmid', hinsert⟩ := hrotate
      have hmid : Extends plaintext s mid := by
        cases client with
        | some id =>
            cases hclient
            exact .refl plaintext _
        | none =>
            obtain ⟨mid'', hinsert, heq⟩ := Option.map_eq_some_iff.mp hclient
            cases heq
            exact extends_insertClient hinsert
      have hbound : Extends plaintext mid mid' := by
        split at hmid'
        next =>
          cases hmid'
          exact .refl plaintext _
        next => exact extends_insertBinding hmid'
      have hrevoked : Extends plaintext mid' (mid'.revokeKeys id now) :=
        extends_record rfl (by rintro _ _ _ ⟨⟩)
      exact ((hmid.trans hbound).trans hrevoked).trans (extends_insertKey hinsert hne)

/-- No key is made with this text. -/
def withoutIssuing (plaintext : String) (_ : State) : Action → Prop
  | .commit _ _ fresh => fresh.plaintext ≠ plaintext
  | _ => True

theorem extends_step {action : Action} {plaintext : String}
    (hgood : withoutIssuing plaintext s action)
    (hstep : step hash s action = some s') : Extends plaintext s s' := by
  cases action with
  | createClient client => exact extends_insertClient hstep
  | read request now =>
      rw [ApiKeys.step] at hstep
      split at hstep
      next =>
        cases hstep
        exact .refl plaintext _
      next => cases hstep
  | commit request now fresh =>
      rw [ApiKeys.step] at hstep
      split at hstep
      next =>
        have htaken : Extends plaintext s { s with requests := s.requests.erase request } :=
          ⟨[], rfl, nofun⟩
        exact htaken.trans (extends_commit hstep hgood)
      next => cases hstep
  | authenticate agent presented now =>
      cases hstep
      rw [State.touch]
      split
      next => exact .refl plaintext _
      next => exact ⟨[], rfl, nofun⟩
  | writeAgent agent =>
      cases hstep
      exact ⟨[], rfl, nofun⟩
  | deleteAgent agent =>
      cases hstep
      exact extends_record rfl nofun

theorem extends_path {plaintext : String}
    (h : (system hash).Path (withoutIssuing plaintext) s s') : Extends plaintext s s' :=
  h.preserves (Extends plaintext s) (fun _ _ _ hs hgood hstep =>
    hs.trans (extends_step hgood hstep))
    (.refl plaintext s)

/-- The key of an agent is rotated twice. -/
def sampleRun : List Action :=
  [.writeAgent ⟨"agent", .active, some 7, true⟩, .read (.rotate "agent" none false) 0,
    .commit (.rotate "agent" none false) 0 ⟨1, 2, "hap_a"⟩, .authenticate "agent" "hap_a" 1,
    .read (.rotate "agent" (some 1) true) 2,
    .commit (.rotate "agent" (some 1) true) 3 ⟨0, 4, "hap_b"⟩]

/-- The hashes of the keys that have not been revoked. -/
def activeHashes (s : State) : List String :=
  (s.keys.filter (·.status = .active)).map ApiKey.keyHash

end Statements

end ApiKeys
end Production
end HermesPlatform
