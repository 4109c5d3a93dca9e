/-
  HermesPlatform.Production.Metrics

  `record_public_call`: the audit row of a public call, the counters of its agent and date,
  and the call count of the publication, in one transaction.

  Any number of transactions interleave statement by statement.  A statement reads what is
  committed by then; the row that it writes stays locked to the end of its transaction, also
  where `INSERT .. ON CONFLICT` has inserted it.  A transaction that raises is rolled back,
  which can happen at any time.
-/

import HermesPlatform.Lib.Parties
import HermesPlatform.Lib.Table
import HermesPlatform.Lib.Transition
import Mathlib.Algebra.Order.BigOperators.Group.List
import Mathlib.Data.String.Basic

namespace HermesPlatform
namespace Production
namespace Metrics

open Parties Transition

/-! ## Rows -/

/-- `ck_audit_logs_status`. -/
inductive CallStatus where
  | succeeded
  | failed
  | rejected
deriving DecidableEq, Repr

/-- A row of `audit_logs`, as far as it is counted. -/
structure AuditLog where
  agentId : Option String
  status : CallStatus
  latencyMs : Nat
  tokenUsage : Option Nat
  mcpCallCount : Nat
  /-- The date the call is counted under; this is not a column. -/
  metricDate : Nat
deriving DecidableEq, Repr

/-- The counters of a row of `agent_metrics`; its agent and date are its key. -/
structure AgentMetric where
  callCount : Nat
  successCount : Nat
  failureCount : Nat
  totalLatencyMs : Nat
  totalTokenUsage : Nat
  tokenUsageObservedCount : Nat
  mcpCallCount : Nat
deriving DecidableEq, Repr

/-- The largest `bigint`. -/
def maxBigint : Nat := 2 ^ 63 - 1

/-- The largest `integer`. -/
def maxInteger : Nat := 2 ^ 31 - 1

/-- No column overflows. -/
def AgentMetric.Fits (row : AgentMetric) : Prop :=
  row.callCount ≤ maxBigint ∧ row.successCount ≤ maxBigint ∧ row.failureCount ≤ maxBigint ∧
    row.totalLatencyMs ≤ maxBigint ∧ row.totalTokenUsage ≤ maxBigint ∧
    row.tokenUsageObservedCount ≤ maxBigint ∧ row.mcpCallCount ≤ maxBigint

instance (row : AgentMetric) : Decidable row.Fits := by
  unfold AgentMetric.Fits
  infer_instance

def AuditLog.Fits (audit : AuditLog) : Prop :=
  audit.latencyMs ≤ maxInteger ∧ audit.tokenUsage.getD 0 ≤ maxBigint ∧
    audit.mcpCallCount ≤ maxInteger

instance (audit : AuditLog) : Decidable audit.Fits := by
  unfold AuditLog.Fits
  infer_instance

/-- The arguments of `record_public_call` that are counted, and the `today` it reads.
    `_explicit_token_usage` gives no negative number. -/
structure PublicCall where
  agentId : Option String
  status : CallStatus
  latencyMs : Int
  tokenUsage : Option Nat
  mcpCallCount : Int
  incrementPublication : Bool
  today : Nat
deriving DecidableEq, Repr

namespace PublicCall

variable (call : PublicCall)

def audit : AuditLog :=
  { agentId := call.agentId
    status := call.status
    latencyMs := (max 0 call.latencyMs).toNat
    tokenUsage := call.tokenUsage
    mcpCallCount := (max 0 call.mcpCallCount).toNat
    metricDate := call.today }

def success : Nat := if call.status = .succeeded then 1 else 0

def failure : Nat := if call.success ≠ 0 then 0 else 1

/-- The `VALUES` of the insert. -/
def inserted : AgentMetric :=
  { callCount := 1
    successCount := call.success
    failureCount := call.failure
    totalLatencyMs := (max 0 call.latencyMs).toNat
    totalTokenUsage := call.tokenUsage.getD 0
    tokenUsageObservedCount := if call.tokenUsage.isSome then 1 else 0
    mcpCallCount := (max 0 call.mcpCallCount).toNat }

/-- The `SET` of `ON CONFLICT DO UPDATE`. -/
def updated (row : AgentMetric) : AgentMetric :=
  { callCount := row.callCount + 1
    successCount := row.successCount + call.success
    failureCount := row.failureCount + call.failure
    totalLatencyMs := row.totalLatencyMs + (max 0 call.latencyMs).toNat
    totalTokenUsage := row.totalTokenUsage + call.tokenUsage.getD 0
    tokenUsageObservedCount :=
      row.tokenUsageObservedCount + (if call.tokenUsage.isSome then 1 else 0)
    mcpCallCount := row.mcpCallCount + (max 0 call.mcpCallCount).toNat }

/-- The row that the statement leaves. -/
def upserted (row : Option AgentMetric) : AgentMetric :=
  match row with
  | none => call.inserted
  | some row => call.updated row

end PublicCall

/-! ## Transactions -/

/-- What is committed; publications are kept with their call count. -/
structure Database where
  audits : List AuditLog
  metrics : List ((String × Nat) × AgentMetric)
  publications : List (String × Nat)
deriving DecidableEq, Repr

/-- Where a transaction is, with the row versions it has written. -/
inductive Phase where
  /-- After `session.add(audit)`. -/
  | opened
  /-- Past `if agent_id is not None`. -/
  | counted (row : Option AgentMetric)
  /-- Past `if increment_publication`. -/
  | incremented (row : Option AgentMetric) (callCount : Option Nat)
  | closed
deriving DecidableEq, Repr

structure Transaction where
  call : PublicCall
  phase : Phase
deriving DecidableEq, Repr

namespace Transaction

variable (t : Transaction)

/-- The row version of `agent_metrics` that is not committed yet. -/
def metric : Option ((String × Nat) × AgentMetric) :=
  match t.phase, t.call.agentId with
  | .counted (some row), some agent | .incremented (some row) _, some agent =>
      some ((agent, t.call.today), row)
  | _, _ => none

/-- The row version of `agent_publications` that is not committed yet. -/
def publication : Option (String × Nat) :=
  match t.phase, t.call.agentId with
  | .incremented _ (some callCount), some agent => some (agent, callCount)
  | _, _ => none

def metricKey : Option (String × Nat) := t.metric.map Prod.fst

def publicationKey : Option String := t.publication.map Prod.fst

end Transaction

structure Store where
  db : Database
  transactions : List Transaction
deriving DecidableEq, Repr

inductive Move where
  /-- The upsert, with the flush of the audit row before it. -/
  | count
  | increment
  | commit
  | rollback
deriving DecidableEq, Repr

inductive Action where
  /-- A publication is created. -/
  | publish (agent : String)
  | record (call : PublicCall)
  | move (i : Nat) (m : Move)
deriving DecidableEq, Repr

namespace Store

variable (s : Store)

/-- No other transaction has written the row of the key. -/
def metricFree (i : Nat) (key : String × Nat) : Bool :=
  (s.transactions.eraseIdx i).all fun t => t.metricKey ≠ some key

def publicationFree (i : Nat) (agent : String) : Bool :=
  (s.transactions.eraseIdx i).all fun t => t.publicationKey ≠ some agent

end Store

/-- `if agent_id is not None`; `none` where the statement waits or raises. -/
def countCall (s : Store) (i : Nat) (call : PublicCall) : Option Phase :=
  match call.agentId with
  | none => some (.counted none)
  | some agent =>
      let row := call.upserted (Table.get (agent, call.today) s.db.metrics)
      if s.metricFree i (agent, call.today) ∧ call.audit.Fits ∧ row.Fits then
        some (.counted (some row))
      else none

/-- `if increment_publication`. -/
def incrementCall (s : Store) (i : Nat) (call : PublicCall) (row : Option AgentMetric) :
    Option Phase :=
  if call.incrementPublication then
    match call.status, call.agentId with
    | .succeeded, some agent =>
        match Table.get agent s.db.publications with
        | none => some (.incremented row none)
        | some callCount =>
            if s.publicationFree i agent ∧ callCount + 1 ≤ maxBigint then
              some (.incremented row (some (callCount + 1)))
            else none
    | _, _ => none
  else some (.incremented row none)

/-- `session.commit()`. -/
def commitCall (db : Database) (t : Transaction) : Database :=
  { audits := db.audits ++ [t.call.audit]
    metrics := t.metric.elim db.metrics fun row => Table.put row.1 row.2 db.metrics
    publications := t.publication.elim db.publications fun row =>
      Table.put row.1 row.2 db.publications }

def moveStep (s : Store) (i : Nat) (t : Transaction) : Move → Option Store
  | .count =>
      if t.phase = .opened then
        (countCall s i t.call).map fun phase =>
          { s with transactions := s.transactions.set i { t with phase := phase } }
      else none
  | .increment =>
      match t.phase with
      | .counted row =>
          (incrementCall s i t.call row).map fun phase =>
            { s with transactions := s.transactions.set i { t with phase := phase } }
      | _ => none
  | .commit =>
      match t.phase with
      | .incremented _ _ =>
          if t.call.audit.Fits then
            some
              { db := commitCall s.db t
                transactions := s.transactions.set i { t with phase := .closed } }
          else none
      | _ => none
  | .rollback => some { s with transactions := s.transactions.set i { t with phase := .closed } }

/-- What `_record_public_audit` passes, for a call that succeeds after its publication has
    been found. -/
def Passed (db : Database) (call : PublicCall) : Prop :=
  call.incrementPublication = decide (call.status = .succeeded) ∧
    (call.status = .succeeded →
      ∀ agent ∈ call.agentId, (Table.get agent db.publications).isSome)

instance (db : Database) (call : PublicCall) : Decidable (Passed db call) := by
  unfold Passed
  infer_instance

def step (s : Store) : Action → Option Store
  | .publish agent =>
      if (Table.get agent s.db.publications).isNone then
        some { s with db := { s.db with publications := Table.put agent 0 s.db.publications } }
      else none
  | .record call =>
      if Passed s.db call then
        some { s with transactions := s.transactions ++ [⟨call, .opened⟩] }
      else none
  | .move i m => s.transactions[i]?.bind fun t => moveStep s i t m

def system : System Store Action where
  init s := s = ⟨⟨[], [], []⟩, []⟩
  step := step

/-! ## Readings -/

/-- The fields of `_metric_read` that are counts. -/
structure MetricRead where
  callCount : Nat
  successCount : Nat
  failureCount : Nat
  tokenUsage : Option Nat
  mcpCallCount : Nat
deriving DecidableEq, Repr

/-- `_metric_read(row)`. -/
def metricRead (row : AgentMetric) : MetricRead :=
  { callCount := row.callCount
    successCount := row.successCount
    failureCount := row.failureCount
    tokenUsage :=
      if row.tokenUsageObservedCount = row.callCount ∧ row.callCount ≠ 0 then
        some row.totalTokenUsage
      else none
    mcpCallCount := row.mcpCallCount }

/-- The counters. -/
inductive Column where
  | callCount
  | successCount
  | failureCount
  | totalLatencyMs
  | totalTokenUsage
  | tokenUsageObservedCount
  | mcpCallCount
deriving DecidableEq, Repr

def AgentMetric.column (row : AgentMetric) : Column → Nat
  | .callCount => row.callCount
  | .successCount => row.successCount
  | .failureCount => row.failureCount
  | .totalLatencyMs => row.totalLatencyMs
  | .totalTokenUsage => row.totalTokenUsage
  | .tokenUsageObservedCount => row.tokenUsageObservedCount
  | .mcpCallCount => row.mcpCallCount

/-- `coalesce(sum(column), 0)` over the dates of an agent. -/
def sumColumn (metrics : List ((String × Nat) × AgentMetric)) (agent : String) (c : Column) :
    Nat :=
  ((metrics.filter fun entry => entry.1.1 = agent).map fun entry => entry.2.column c).sum

/-- The row of an agent in `list_agent_metrics`. -/
def listedMetric (metrics : List ((String × Nat) × AgentMetric)) (agent : String) : AgentMetric :=
  { callCount := sumColumn metrics agent .callCount
    successCount := sumColumn metrics agent .successCount
    failureCount := sumColumn metrics agent .failureCount
    totalLatencyMs := sumColumn metrics agent .totalLatencyMs
    totalTokenUsage := sumColumn metrics agent .totalTokenUsage
    tokenUsageObservedCount := sumColumn metrics agent .tokenUsageObservedCount
    mcpCallCount := sumColumn metrics agent .mcpCallCount }

/-! ## The law -/

/-- The counters are the fold over the calls. -/
structure IsFold (row : AgentMetric) (calls : List AuditLog) : Prop where
  callCount : row.callCount = calls.length
  successCount : row.successCount = calls.countP (·.status = .succeeded)
  failureCount : row.failureCount = calls.countP (·.status ≠ .succeeded)
  split : row.callCount = row.successCount + row.failureCount
  totalLatencyMs : row.totalLatencyMs = (calls.map (·.latencyMs)).sum
  totalTokenUsage : row.totalTokenUsage = (calls.filterMap (·.tokenUsage)).sum
  observedCount : row.tokenUsageObservedCount = calls.countP (·.tokenUsage.isSome)
  observed_le : row.tokenUsageObservedCount ≤ row.callCount
  mcpCallCount : row.mcpCallCount = (calls.map (·.mcpCallCount)).sum
  /-- The total is reported exactly when every call was observed. -/
  reported : ∀ total, (metricRead row).tokenUsage = some total ↔
    total = (calls.filterMap (·.tokenUsage)).sum ∧ calls ≠ [] ∧
      ∀ call ∈ calls, call.tokenUsage.isSome

/-- The calls recorded under an agent and a date. -/
def Database.callsOn (db : Database) (key : String × Nat) : List AuditLog :=
  db.audits.filter fun audit => audit.agentId = some key.1 ∧ audit.metricDate = key.2

def Database.callsOf (db : Database) (agent : String) : List AuditLog :=
  db.audits.filter fun audit => audit.agentId = some agent

/-- What the tables say about the recorded calls. -/
structure MetricsLaw (db : Database) : Prop where
  daily : ∀ key, db.callsOn key ≠ [] →
    ∃ row, Table.get key db.metrics = some row ∧ IsFold row (db.callsOn key)
  counted : ∀ key row, Table.get key db.metrics = some row → db.callsOn key ≠ []
  listed : ∀ agent, IsFold (listedMetric db.metrics agent) (db.callsOf agent)
  publication : ∀ agent callCount, Table.get agent db.publications = some callCount →
    callCount = (db.callsOf agent).countP (·.status = .succeeded)

/-! ## Columns -/

/-- What a recorded call adds to a counter. -/
def AuditLog.weight (audit : AuditLog) : Column → Nat
  | .callCount => 1
  | .successCount => if audit.status = .succeeded then 1 else 0
  | .failureCount => if audit.status = .succeeded then 0 else 1
  | .totalLatencyMs => audit.latencyMs
  | .totalTokenUsage => audit.tokenUsage.getD 0
  | .tokenUsageObservedCount => if audit.tokenUsage.isSome then 1 else 0
  | .mcpCallCount => audit.mcpCallCount

/-- The sum of what the calls add. -/
def total (calls : List AuditLog) (c : Column) : Nat := (calls.map (·.weight c)).sum

theorem total_append (calls : List AuditLog) (audit : AuditLog) (c : Column) :
    total (calls ++ [audit]) c = total calls c + audit.weight c := by
  simp [total]

theorem PublicCall.failure_eq (call : PublicCall) :
    call.failure = call.audit.weight .failureCount := by
  unfold PublicCall.failure PublicCall.success AuditLog.weight PublicCall.audit
  by_cases hstatus : call.status = .succeeded <;> simp [hstatus]

theorem PublicCall.column_inserted (call : PublicCall) (c : Column) :
    call.inserted.column c = call.audit.weight c := by
  cases c with
  | failureCount => exact call.failure_eq
  | _ => rfl

theorem PublicCall.column_updated (call : PublicCall) (row : AgentMetric) (c : Column) :
    (call.updated row).column c = row.column c + call.audit.weight c := by
  cases c with
  | failureCount => exact congrArg (row.failureCount + ·) call.failure_eq
  | _ => rfl

/-- The upsert adds what the call adds, to a row that may be missing. -/
theorem PublicCall.column_upserted (call : PublicCall) (row : Option AgentMetric) (c : Column) :
    (call.upserted row).column c = (row.map (·.column c)).getD 0 + call.audit.weight c := by
  cases row with
  | none => exact (call.column_inserted c).trans (Nat.zero_add _).symm
  | some row => exact call.column_updated row c

theorem sum_map_ite {α : Type} (l : List α) (p : α → Bool) :
    (l.map fun a => if p a then 1 else 0).sum = l.countP p := by
  induction l with
  | nil => rfl
  | cons a l ih =>
      rw [List.map_cons, List.sum_cons, List.countP_cons, ih]
      exact Nat.add_comm _ _

theorem sum_map_getD {α : Type} (l : List α) (f : α → Option Nat) :
    (l.map fun a => (f a).getD 0).sum = (l.filterMap f).sum := by
  induction l with
  | nil => rfl
  | cons a l ih =>
      rw [List.map_cons, List.sum_cons, ih]
      cases hf : f a with
      | none => simp [hf]
      | some n => simp [hf]

theorem column_listedMetric (metrics : List ((String × Nat) × AgentMetric)) (agent : String)
    (c : Column) : (listedMetric metrics agent).column c = sumColumn metrics agent c := by
  cases c <;> rfl

/-- A row whose columns are the totals. -/
theorem isFold_of_columns {row : AgentMetric} {calls : List AuditLog}
    (h : ∀ c, row.column c = total calls c) : IsFold row calls := by
  have hcall : row.callCount = calls.length := by
    have hone := h .callCount
    simpa [total, AuditLog.weight, AgentMetric.column] using hone
  have hsuccess : row.successCount = calls.countP (·.status = .succeeded) := by
    rw [← sum_map_ite]
    simpa [total, AuditLog.weight, AgentMetric.column] using h .successCount
  have hfailure : row.failureCount = calls.countP (·.status ≠ .succeeded) := by
    rw [← sum_map_ite]
    have hsum := h .failureCount
    simp only [total, AuditLog.weight, AgentMetric.column] at hsum
    rw [hsum]
    congr 1
    apply List.map_congr_left
    intro call _
    by_cases hstatus : call.status = .succeeded <;> simp [hstatus]
  have hobserved : row.tokenUsageObservedCount = calls.countP (·.tokenUsage.isSome) := by
    rw [← sum_map_ite]
    exact h .tokenUsageObservedCount
  have htokens : row.totalTokenUsage = (calls.filterMap (·.tokenUsage)).sum := by
    rw [← sum_map_getD]
    exact h .totalTokenUsage
  constructor
  case callCount => exact hcall
  case successCount => exact hsuccess
  case failureCount => exact hfailure
  case split =>
    rw [hcall, hsuccess, hfailure, calls.length_eq_countP_add_countP (·.status = .succeeded)]
    simp
  case totalLatencyMs => exact h .totalLatencyMs
  case totalTokenUsage => exact htokens
  case observedCount => exact hobserved
  case observed_le =>
    rw [hcall, hobserved]
    exact List.countP_le_length
  case mcpCallCount => exact h .mcpCallCount
  case reported =>
    intro n
    simp only [metricRead, Option.ite_none_right_eq_some, Option.some.injEq]
    rw [hcall, hobserved, htokens, List.countP_eq_length, Ne, List.length_eq_zero_iff]
    constructor
    · rintro ⟨⟨hall, hne⟩, rfl⟩
      exact ⟨rfl, hne, hall⟩
    · rintro ⟨rfl, hne, hall⟩
      exact ⟨⟨hall, hne⟩, rfl⟩

/-! ## The invariant -/

/-- What a transaction has written, against what is committed. -/
structure Transaction.Ok (db : Database) (t : Transaction) : Prop where
  passed : t.call.incrementPublication = decide (t.call.status = .succeeded)
  existing : t.phase ≠ .closed → t.call.status = .succeeded → ∀ agent ∈ t.call.agentId,
    (Table.get agent db.publications).isSome
  /-- The row that is written follows the committed one. -/
  metric : ∀ key row, t.metric = some (key, row) →
    row = t.call.upserted (Table.get key db.metrics)
  publication : ∀ agent callCount, t.publication = some (agent, callCount) →
    ∃ before, Table.get agent db.publications = some before ∧ callCount = before + 1
  counted : ∀ agent ∈ t.call.agentId, (∃ row, t.phase = .counted row) ∨
    (∃ row callCount, t.phase = .incremented row callCount) →
    t.metricKey = some (agent, t.call.today)
  incremented : ∀ agent ∈ t.call.agentId, (∃ row callCount, t.phase = .incremented row callCount) →
    (t.publicationKey = some agent ↔ t.call.status = .succeeded)

/-- What every step keeps. -/
structure MetricsInv (s : Store) : Prop where
  unique : Table.Unique Prod.fst s.db.metrics
  column : ∀ key row, Table.get key s.db.metrics = some row →
    ∀ c, row.column c = total (s.db.callsOn key) c
  rows : ∀ key, s.db.callsOn key ≠ [] ↔ (Table.get key s.db.metrics).isSome
  listed : ∀ agent c, sumColumn s.db.metrics agent c = total (s.db.callsOf agent) c
  publication : ∀ agent callCount, Table.get agent s.db.publications = some callCount →
    callCount = (s.db.callsOf agent).countP (·.status = .succeeded)
  existing : ∀ audit ∈ s.db.audits, audit.status = .succeeded → ∀ agent ∈ audit.agentId,
    (Table.get agent s.db.publications).isSome
  transactions : ∀ t ∈ s.transactions, t.Ok s.db
  metricKeys : Exclusive (fun t key => t.metricKey = some key) s.transactions
  publicationKeys : Exclusive (fun t agent => t.publicationKey = some agent) s.transactions

theorem MetricsInv.law {s : Store} (h : MetricsInv s) : MetricsLaw s.db where
  daily := by
    intro key hne
    obtain ⟨row, hrow⟩ := Option.isSome_iff_exists.mp ((h.rows key).mp hne)
    exact ⟨row, hrow, isFold_of_columns (h.column key row hrow)⟩
  counted := by
    intro key row hrow
    exact (h.rows key).mpr (hrow ▸ rfl)
  listed := by
    intro agent
    apply isFold_of_columns
    intro c
    rw [column_listedMetric]
    exact h.listed agent c
  publication := h.publication

/-! ## The steps of a transaction -/

namespace MetricsInv

variable {s : Store} {i : Nat} {t t' : Transaction}

theorem freeFor_metric {key : String × Nat} (h : s.metricFree i key = true) :
    FreeFor (fun t key => t.metricKey = some key) s.transactions i key :=
  freeFor_of_all h fun t ht => by simpa using ht

theorem freeFor_publication {agent : String} (h : s.publicationFree i agent = true) :
    FreeFor (fun t agent => t.publicationKey = some agent) s.transactions i agent :=
  freeFor_of_all h fun t ht => by simpa using ht

/-- Nothing is committed. -/
theorem setTransaction (h : MetricsInv s) (hget : s.transactions[i]? = some t)
    (hok : t'.Ok s.db)
    (hmetric : ∀ key, t'.metricKey = some key → t.metricKey = some key ∨
      FreeFor (fun t key => t.metricKey = some key) s.transactions i key)
    (hpublication : ∀ agent, t'.publicationKey = some agent → t.publicationKey = some agent ∨
      FreeFor (fun t agent => t.publicationKey = some agent) s.transactions i agent) :
    MetricsInv { s with transactions := s.transactions.set i t' } :=
  { h with
    transactions := by
      intro u hu
      obtain hu | rfl := List.mem_or_eq_of_mem_set hu
      · exact h.transactions u hu
      · exact hok
    metricKeys := h.metricKeys.set hget hmetric
    publicationKeys := h.publicationKeys.set hget hpublication }

theorem ok_closed (hok : t.Ok s.db) : ({ t with phase := .closed } : Transaction).Ok s.db where
  passed := hok.passed
  existing := fun hne => absurd rfl hne
  metric := fun _ _ hm => by cases hm
  publication := fun _ _ hm => by cases hm
  counted := fun _ _ hp => by simp at hp
  incremented := fun _ _ hp => by simp at hp

theorem rollback (h : MetricsInv s) (hget : s.transactions[i]? = some t) :
    MetricsInv { s with transactions := s.transactions.set i { t with phase := .closed } } :=
  h.setTransaction hget (ok_closed (h.transactions t (List.mem_of_getElem? hget)))
    (fun _ hkey => by cases hkey) (fun _ hkey => by cases hkey)

theorem count (h : MetricsInv s) (hget : s.transactions[i]? = some t) (hphase : t.phase = .opened)
    {phase : Phase} (hcount : countCall s i t.call = some phase) :
    MetricsInv { s with transactions := s.transactions.set i { t with phase := phase } } := by
  have hok := h.transactions t (List.mem_of_getElem? hget)
  have hopen : t.phase ≠ .closed := by simp [hphase]
  unfold countCall at hcount
  split at hcount
  next hagent =>
    cases hcount
    refine h.setTransaction hget ?_ ?_ ?_
    · constructor
      case passed => exact hok.passed
      case existing => exact fun _ => hok.existing hopen
      case metric => exact fun _ _ hm => by cases hm
      case publication => exact fun _ _ hm => by cases hm
      case counted => exact fun agent ha => by simp [hagent] at ha
      case incremented => exact fun agent ha => by simp [hagent] at ha
    · exact fun _ hkey => by cases hkey
    · exact fun _ hkey => by cases hkey
  next agent hagent =>
    rw [Option.ite_none_right_eq_some, Option.some.injEq] at hcount
    obtain ⟨⟨hfree, -, -⟩, rfl⟩ := hcount
    have hwritten : ({ t with phase := .counted (some (t.call.upserted
        (Table.get (agent, t.call.today) s.db.metrics))) } : Transaction).metric
        = some ((agent, t.call.today),
          t.call.upserted (Table.get (agent, t.call.today) s.db.metrics)) := by
      simp [Transaction.metric, hagent]
    refine h.setTransaction hget ?_ ?_ ?_
    · constructor
      case passed => exact hok.passed
      case existing => exact fun _ => hok.existing hopen
      case metric =>
        intro key row hm
        rw [hwritten] at hm
        cases hm
        rfl
      case publication => exact fun _ _ hm => by cases hm
      case counted =>
        intro agent' ha _
        rw [hagent] at ha
        cases ha
        rw [Transaction.metricKey, hwritten]
        rfl
      case incremented => exact fun _ _ hp => by simp at hp
    · intro key hkey
      rw [Transaction.metricKey, hwritten] at hkey
      cases hkey
      exact .inr (freeFor_metric hfree)
    · exact fun _ hkey => by cases hkey

/-- The row versions of a transaction that has counted its call. -/
theorem metric_incremented {row : Option AgentMetric} (hphase : t.phase = .counted row)
    (callCount : Option Nat) :
    ({ t with phase := .incremented row callCount } : Transaction).metric = t.metric := by
  simp only [Transaction.metric, hphase]
  cases row with
  | none => rfl
  | some row => cases t.call.agentId <;> rfl

/-- The transaction goes on to its commit; `hpublication` says what it has written. -/
theorem advance (h : MetricsInv s) (hget : s.transactions[i]? = some t)
    {row : Option AgentMetric} (hphase : t.phase = .counted row) {callCount : Option Nat}
    (hbefore : ∀ agent ∈ t.call.agentId, ∀ n ∈ callCount,
      ∃ before, Table.get agent s.db.publications = some before ∧ n = before + 1)
    (hfree : ∀ agent ∈ t.call.agentId, callCount.isSome →
      FreeFor (fun t agent => t.publicationKey = some agent) s.transactions i agent)
    (hsucceeded : ∀ agent ∈ t.call.agentId, callCount.isSome ↔ t.call.status = .succeeded) :
    MetricsInv { s with transactions :=
      s.transactions.set i { t with phase := .incremented row callCount } } := by
  have hok := h.transactions t (List.mem_of_getElem? hget)
  have hopen : t.phase ≠ .closed := by simp [hphase]
  have hmetric := metric_incremented hphase callCount
  have hkey : ∀ agent, ({ t with phase := .incremented row callCount } : Transaction).publicationKey
      = some agent ↔ agent ∈ t.call.agentId ∧ callCount.isSome := by
    intro agent
    cases hagent : t.call.agentId <;> cases callCount <;>
      simp [Transaction.publicationKey, Transaction.publication, hagent, eq_comm]
  refine h.setTransaction hget ?_ ?_ ?_
  · constructor
    case passed => exact hok.passed
    case existing => exact fun _ => hok.existing hopen
    case metric =>
      intro key row' hm
      rw [hmetric] at hm
      exact hok.metric key row' hm
    case publication =>
      intro agent n hm
      cases hagent : t.call.agentId with
      | none => simp [Transaction.publication, hagent] at hm
      | some agent' =>
          cases callCount with
          | none => simp [Transaction.publication] at hm
          | some n' =>
              simp only [Transaction.publication, hagent, Option.some.injEq, Prod.mk.injEq] at hm
              obtain ⟨rfl, rfl⟩ := hm
              exact hbefore _ hagent _ rfl
    case counted =>
      intro agent ha _
      rw [Transaction.metricKey, hmetric]
      exact hok.counted agent ha (.inl ⟨row, hphase⟩)
    case incremented =>
      intro agent ha _
      rw [hkey, hsucceeded agent ha]
      exact and_iff_right ha
  · intro key hk
    rw [Transaction.metricKey, hmetric] at hk
    exact .inl hk
  · intro agent hk
    obtain ⟨ha, hsome⟩ := (hkey agent).mp hk
    exact .inr (hfree agent ha hsome)

theorem increment (h : MetricsInv s) (hget : s.transactions[i]? = some t)
    {row : Option AgentMetric} (hphase : t.phase = .counted row) {phase : Phase}
    (hincrement : incrementCall s i t.call row = some phase) :
    MetricsInv { s with transactions := s.transactions.set i { t with phase := phase } } := by
  have hok := h.transactions t (List.mem_of_getElem? hget)
  have hopen : t.phase ≠ .closed := by simp [hphase]
  unfold incrementCall at hincrement
  split at hincrement
  next =>
    split at hincrement
    next agent hstatus hagent =>
      obtain ⟨before, hbefore⟩ :=
        Option.isSome_iff_exists.mp (hok.existing hopen hstatus agent hagent)
      simp only [hbefore] at hincrement
      rw [Option.ite_none_right_eq_some, Option.some.injEq] at hincrement
      obtain ⟨⟨hfree, -⟩, rfl⟩ := hincrement
      refine h.advance hget hphase ?_ ?_ ?_
      · intro agent' ha n hn
        rw [hagent] at ha
        cases ha
        cases hn
        exact ⟨before, hbefore, rfl⟩
      · intro agent' ha _
        rw [hagent] at ha
        cases ha
        exact freeFor_publication hfree
      · exact fun _ _ => iff_of_true rfl hstatus
    next => cases hincrement
  next hnot =>
    cases hincrement
    have hfailed : ¬ t.call.status = .succeeded := by
      intro hstatus
      exact hnot (hok.passed.trans (decide_eq_true hstatus))
    exact h.advance hget hphase (fun _ _ _ hn => by cases hn) (fun _ _ hn => by cases hn)
      fun _ _ => iff_of_false (by simp) hfailed

/-! ### The commit -/

theorem get_commitCall_metrics {db : Database} (hok : t.Ok db) (key : String × Nat) :
    Table.get key (commitCall db t).metrics =
      if t.metricKey = some key then some (t.call.upserted (Table.get key db.metrics))
      else Table.get key db.metrics := by
  cases hmetric : t.metric with
  | none => simp [commitCall, Transaction.metricKey, hmetric]
  | some written =>
      obtain ⟨key', row⟩ := written
      have hrow := hok.metric key' row hmetric
      simp only [commitCall, Transaction.metricKey, hmetric, Option.elim_some, Option.map_some,
        Option.some.injEq, Table.get_put, eq_comm (a := key)]
      split
      next hkey => rw [hrow, hkey]
      next => rfl

theorem get_commitCall_publications {db : Database} (hok : t.Ok db) (agent : String) :
    Table.get agent (commitCall db t).publications =
      if t.publicationKey = some agent then (Table.get agent db.publications).map (· + 1)
      else Table.get agent db.publications := by
  cases hpublication : t.publication with
  | none => simp [commitCall, Transaction.publicationKey, hpublication]
  | some written =>
      obtain ⟨agent', callCount⟩ := written
      obtain ⟨before, hbefore, rfl⟩ := hok.publication agent' callCount hpublication
      simp only [commitCall, Transaction.publicationKey, hpublication, Option.elim_some,
        Option.map_some, Option.some.injEq, Table.get_put, eq_comm (a := agent)]
      split
      next hagent => rw [← hagent, hbefore, Option.map_some]
      next => rfl

theorem isSome_commitCall_publications {db : Database} (hok : t.Ok db) {agent : String}
    (h : (Table.get agent db.publications).isSome) :
    (Table.get agent (commitCall db t).publications).isSome := by
  rw [get_commitCall_publications hok]
  split
  · rw [Option.isSome_map]
    exact h
  · exact h

/-- The row that is written is that of the agent and the date of the call. -/
theorem metricKey_iff {db : Database} (hok : t.Ok db) {row : Option AgentMetric}
    {callCount : Option Nat} (hphase : t.phase = .incremented row callCount) (key : String × Nat) :
    t.metricKey = some key ↔ t.call.agentId = some key.1 ∧ t.call.today = key.2 := by
  have hwritten : ∀ agent ∈ t.call.agentId, t.metricKey = some (agent, t.call.today) :=
    fun agent ha => hok.counted agent ha (.inr ⟨row, callCount, hphase⟩)
  constructor
  · intro hkey
    cases hagent : t.call.agentId with
    | none => simp [Transaction.metricKey, Transaction.metric, hphase, hagent] at hkey
    | some agent =>
        rw [hwritten agent hagent] at hkey
        cases hkey
        exact ⟨rfl, rfl⟩
  · rintro ⟨hagent, htoday⟩
    rw [hwritten key.1 hagent, htoday]

theorem filter_concat {α : Type} (l : List α) (a : α) (p : α → Bool) :
    (l ++ [a]).filter p = if p a then l.filter p ++ [a] else l.filter p := by
  rw [List.filter_append]
  cases hp : p a <;> simp [hp]

theorem callsOn_commitCall {db : Database} (hok : t.Ok db) {row : Option AgentMetric}
    {callCount : Option Nat} (hphase : t.phase = .incremented row callCount) (key : String × Nat) :
    (commitCall db t).callsOn key =
      if t.metricKey = some key then db.callsOn key ++ [t.call.audit] else db.callsOn key := by
  refine (filter_concat _ _ _).trans (if_congr ?_ rfl rfl)
  rw [metricKey_iff hok hphase key]
  exact decide_eq_true_iff

theorem callsOf_commitCall (db : Database) (t : Transaction) (agent : String) :
    (commitCall db t).callsOf agent =
      if t.call.agentId = some agent then db.callsOf agent ++ [t.call.audit]
      else db.callsOf agent :=
  (filter_concat _ _ _).trans (if_congr decide_eq_true_iff rfl rfl)

theorem sumColumn_eq (metrics : List ((String × Nat) × AgentMetric)) (agent : String)
    (c : Column) : sumColumn metrics agent c =
      (metrics.map fun entry => if entry.1.1 = agent then entry.2.column c else 0).sum := by
  induction metrics with
  | nil => rfl
  | cons entry rest ih =>
      unfold sumColumn at ih ⊢
      rw [List.map_cons, List.sum_cons, ← ih]
      by_cases hagent : entry.1.1 = agent
      · rw [List.filter_cons_of_pos (by simpa using hagent), if_pos hagent]
        rfl
      · rw [List.filter_cons_of_neg (by simpa using hagent), if_neg hagent, Nat.zero_add]

/-- The sum over the dates of an agent grows by what the call adds. -/
theorem sumColumn_put {metrics : List ((String × Nat) × AgentMetric)}
    (hunique : Table.Unique Prod.fst metrics) (call : PublicCall) (key : String × Nat)
    (agent : String) (c : Column) :
    sumColumn (Table.put key (call.upserted (Table.get key metrics)) metrics) agent c =
      sumColumn metrics agent c + if key.1 = agent then call.audit.weight c else 0 := by
  rw [sumColumn_eq, sumColumn_eq]
  have hsum := Table.sum_map_put (k := key) (v := call.upserted (Table.get key metrics)) hunique
    fun entry => if entry.1.1 = agent then entry.2.column c else 0
  simp only [PublicCall.column_upserted] at hsum
  by_cases hagent : key.1 = agent
  · simp only [if_pos hagent] at hsum ⊢
    omega
  · simp only [if_neg hagent] at hsum ⊢
    have hzero : ((Table.get key metrics).map fun _ => 0).getD 0 = 0 := by
      cases Table.get key metrics <;> rfl
    omega

/-- What another transaction has written does not depend on the commit. -/
theorem ok_commitCall {db : Database} {u : Transaction} (ht : t.Ok db) (hu : u.Ok db)
    (hmetric : ∀ key, u.metricKey = some key → t.metricKey ≠ some key)
    (hpublication : ∀ agent, u.publicationKey = some agent → t.publicationKey ≠ some agent) :
    u.Ok (commitCall db t) where
  passed := hu.passed
  existing := fun hopen hstatus agent ha =>
    isSome_commitCall_publications ht (hu.existing hopen hstatus agent ha)
  metric := by
    intro key row hrow
    have hkey : u.metricKey = some key := by rw [Transaction.metricKey, hrow]; rfl
    rw [get_commitCall_metrics ht, if_neg (hmetric key hkey)]
    exact hu.metric key row hrow
  publication := by
    intro agent callCount hwritten
    have hkey : u.publicationKey = some agent := by
      rw [Transaction.publicationKey, hwritten]
      rfl
    rw [get_commitCall_publications ht, if_neg (hpublication agent hkey)]
    exact hu.publication agent callCount hwritten
  counted := hu.counted
  incremented := hu.incremented

theorem commit (h : MetricsInv s) (hget : s.transactions[i]? = some t)
    {row : Option AgentMetric} {callCount : Option Nat}
    (hphase : t.phase = .incremented row callCount) :
    MetricsInv
      { db := commitCall s.db t
        transactions := s.transactions.set i { t with phase := .closed } } := by
  have hok := h.transactions t (List.mem_of_getElem? hget)
  constructor
  case unique =>
    have hput : ∀ written : Option ((String × Nat) × AgentMetric), Table.Unique Prod.fst
        (written.elim s.db.metrics fun row => Table.put row.1 row.2 s.db.metrics) := by
      intro written
      cases written with
      | none => exact h.unique
      | some written => exact h.unique.put
    exact hput t.metric
  case column =>
    intro key new hnew c
    rw [get_commitCall_metrics hok] at hnew
    rw [callsOn_commitCall hok hphase]
    split at hnew
    next hkey =>
      cases hnew
      rw [if_pos hkey, total_append, PublicCall.column_upserted]
      congr 1
      cases hbefore : Table.get key s.db.metrics with
      | some before => exact h.column key before hbefore c
      | none =>
          -- The first call of the key.
          have hnone : s.db.callsOn key = [] := by
            by_contra hne
            simpa [hbefore] using (h.rows key).mp hne
          rw [hnone]
          rfl
    next hkey =>
      rw [if_neg hkey]
      exact h.column key new hnew c
  case rows =>
    intro key
    rw [get_commitCall_metrics hok, callsOn_commitCall hok hphase]
    split
    next => simp
    next => exact h.rows key
  case listed =>
    intro agent c
    rw [callsOf_commitCall]
    cases hagent : t.call.agentId with
    | none =>
        have hmetric : t.metric = none := by simp [Transaction.metric, hphase, hagent]
        rw [if_neg (by simp), commitCall, hmetric]
        exact h.listed agent c
    | some agent' =>
        have hkey := (metricKey_iff hok hphase (agent', t.call.today)).mpr ⟨hagent, rfl⟩
        obtain ⟨⟨key, new⟩, hmetric, hkey'⟩ := Option.map_eq_some_iff.mp hkey
        obtain rfl : key = (agent', t.call.today) := hkey'
        rw [commitCall, hmetric]
        have hput := sumColumn_put h.unique t.call (agent', t.call.today) agent c
        rw [← hok.metric _ _ hmetric] at hput
        refine hput.trans ?_
        rw [h.listed agent c]
        by_cases heq : agent' = agent
        · rw [if_pos heq, if_pos (congrArg some heq), total_append]
        · rw [if_neg heq, if_neg fun hsome => heq (Option.some.inj hsome), Nat.add_zero]
  case publication =>
    intro agent n hn
    rw [get_commitCall_publications hok] at hn
    rw [callsOf_commitCall]
    by_cases hagent : t.call.agentId = some agent
    · have hsucceeded := hok.incremented agent hagent ⟨row, callCount, hphase⟩
      rw [if_pos hagent, List.countP_append]
      split at hn
      next hkey =>
        obtain ⟨before, hbefore, rfl⟩ := Option.map_eq_some_iff.mp hn
        have hstatus := hsucceeded.mp hkey
        rw [h.publication agent before hbefore]
        simp [PublicCall.audit, hstatus]
      next hkey =>
        have hstatus := mt hsucceeded.mpr hkey
        rw [h.publication agent n hn]
        simp [PublicCall.audit, hstatus]
    · have hkey : t.publicationKey ≠ some agent := by
        intro hkey
        cases hid : t.call.agentId with
        | none => simp [Transaction.publicationKey, Transaction.publication, hid] at hkey
        | some agent' =>
            cases callCount <;>
              simp [Transaction.publicationKey, Transaction.publication, hphase, hid] at hkey
            exact hagent (hid.trans (congrArg some hkey))
      rw [if_neg hkey] at hn
      rw [if_neg hagent]
      exact h.publication agent n hn
  case existing =>
    intro audit haudit hstatus agent ha
    apply isSome_commitCall_publications hok
    obtain hold | hnew := List.mem_append.mp haudit
    · exact h.existing audit hold hstatus agent ha
    · obtain rfl := List.mem_singleton.mp hnew
      exact hok.existing (by simp [hphase]) hstatus agent ha
  case transactions =>
    intro u hu
    obtain ⟨j, hj⟩ := List.mem_iff_getElem?.mp hu
    obtain ⟨-, rfl⟩ | ⟨hne, hj⟩ := getElem?_set_cases hj
    · exact ok_commitCall hok (ok_closed hok) (fun _ hkey => by cases hkey)
        (fun _ hkey => by cases hkey)
    · apply ok_commitCall hok (h.transactions u (List.mem_of_getElem? hj))
      · intro key hkey ht
        exact hne (h.metricKeys i j t u key hget hj ht hkey)
      · intro agent hkey ht
        exact hne (h.publicationKeys i j t u agent hget hj ht hkey)
  case metricKeys => exact h.metricKeys.set hget fun _ hkey => by cases hkey
  case publicationKeys => exact h.publicationKeys.set hget fun _ hkey => by cases hkey

/-! ### The other steps -/

theorem init : MetricsInv ⟨⟨[], [], []⟩, []⟩ where
  unique := List.nodup_nil
  column := fun _ _ hrow => by cases hrow
  rows := fun _ => iff_of_false (fun hne => hne rfl) (fun hsome => by cases hsome)
  listed := fun _ _ => rfl
  publication := fun _ _ hrow => by cases hrow
  existing := fun _ hmem => by cases hmem
  transactions := fun _ hmem => by cases hmem
  metricKeys := Exclusive.nil
  publicationKeys := Exclusive.nil

/-- A new publication has no successful call yet. -/
theorem publish (h : MetricsInv s) {agent : String}
    (hnone : Table.get agent s.db.publications = none) :
    MetricsInv { s with db :=
      { s.db with publications := Table.put agent 0 s.db.publications } } := by
  have hkept : ∀ {agent' : String}, (Table.get agent' s.db.publications).isSome →
      Table.get agent' (Table.put agent 0 s.db.publications)
        = Table.get agent' s.db.publications := by
    intro agent' hsome
    rw [Table.get_put, if_neg]
    rintro rfl
    simp [hnone] at hsome
  constructor
  case unique => exact h.unique
  case column => exact h.column
  case rows => exact h.rows
  case listed => exact h.listed
  case publication =>
    intro agent' n hn
    have hn : Table.get agent' (Table.put agent 0 s.db.publications) = some n := hn
    rw [Table.get_put] at hn
    split at hn
    next hagent =>
      cases hn
      refine (List.countP_eq_zero.mpr ?_).symm
      intro audit haudit hstatus
      obtain ⟨hmem, hid⟩ := List.mem_filter.mp haudit
      have hsome := h.existing audit hmem (of_decide_eq_true hstatus) agent
        (hagent ▸ of_decide_eq_true hid)
      simp [hnone] at hsome
    next => exact h.publication agent' n hn
  case existing =>
    intro audit haudit hstatus agent' ha
    have hsome := h.existing audit haudit hstatus agent' ha
    exact (hkept hsome).symm ▸ hsome
  case transactions =>
    intro t ht
    have hok := h.transactions t ht
    constructor
    case passed => exact hok.passed
    case existing =>
      intro hopen hstatus agent' ha
      have hsome := hok.existing hopen hstatus agent' ha
      exact (hkept hsome).symm ▸ hsome
    case metric => exact hok.metric
    case publication =>
      intro agent' n hn
      obtain ⟨before, hbefore, heq⟩ := hok.publication agent' n hn
      exact ⟨before, (hkept (hbefore ▸ rfl)).trans hbefore, heq⟩
    case counted => exact hok.counted
    case incremented => exact hok.incremented
  case metricKeys => exact h.metricKeys
  case publicationKeys => exact h.publicationKeys

theorem record (h : MetricsInv s) {call : PublicCall} (hpassed : Passed s.db call) :
    MetricsInv { s with transactions := s.transactions ++ [⟨call, .opened⟩] } :=
  { h with
    transactions := by
      rw [List.forall_mem_append, List.forall_mem_singleton]
      refine ⟨h.transactions, ?_⟩
      exact
        { passed := hpassed.1
          existing := fun _ => hpassed.2
          metric := fun _ _ hrow => by cases hrow
          publication := fun _ _ hrow => by cases hrow
          counted := fun _ _ hphase => by simp at hphase
          incremented := fun _ _ hphase => by simp at hphase }
    metricKeys := h.metricKeys.append fun _ hkey => by cases hkey
    publicationKeys := h.publicationKeys.append fun _ hkey => by cases hkey }

theorem move (h : MetricsInv s) (hget : s.transactions[i]? = some t) {m : Move} {s' : Store}
    (hmove : moveStep s i t m = some s') : MetricsInv s' := by
  cases m with
  | count =>
      rw [moveStep, Option.ite_none_right_eq_some] at hmove
      obtain ⟨phase, hcount, rfl⟩ := Option.map_eq_some_iff.mp hmove.2
      exact h.count hget hmove.1 hcount
  | increment =>
      rw [moveStep] at hmove
      split at hmove
      next row hphase =>
        obtain ⟨phase, hincrement, rfl⟩ := Option.map_eq_some_iff.mp hmove
        exact h.increment hget hphase hincrement
      next => cases hmove
  | commit =>
      rw [moveStep] at hmove
      split at hmove
      next row callCount hphase =>
        rw [Option.ite_none_right_eq_some, Option.some.injEq] at hmove
        exact hmove.2 ▸ h.commit hget hphase
      next => cases hmove
  | rollback =>
      rw [moveStep, Option.some.injEq] at hmove
      exact hmove ▸ h.rollback hget

theorem step (h : MetricsInv s) (a : Action) {s' : Store} (hstep : step s a = some s') :
    MetricsInv s' := by
  cases a with
  | publish agent =>
      rw [Metrics.step, Option.ite_none_right_eq_some, Option.some.injEq] at hstep
      exact hstep.2 ▸ h.publish (Option.isNone_iff_eq_none.mp hstep.1)
  | record call =>
      rw [Metrics.step, Option.ite_none_right_eq_some, Option.some.injEq] at hstep
      exact hstep.2 ▸ h.record hstep.1
  | move i m =>
      rw [Metrics.step] at hstep
      obtain ⟨t, hget, hmove⟩ := Option.bind_eq_some_iff.mp hstep
      exact h.move hget hmove

end MetricsInv

/-- In every state of every interleaving the counters are the fold over the recorded calls. -/
theorem metrics_fold {s : Store} (h : system.Reachable System.anyStep s) : MetricsLaw s.db := by
  refine MetricsInv.law (h.invariant MetricsInv ?_ ?_)
  · rintro _ rfl
    exact MetricsInv.init
  · intro s a s' hs _ hstep
    exact hs.step a hstep

/-- Two calls of one agent and date, the second without its usage. -/
def observedCall : PublicCall := ⟨some "a", .succeeded, 40, some 7, 1, true, 20⟩

def unobservedCall : PublicCall := ⟨some "a", .failed, -1, none, 0, false, 20⟩

/-- The second call waits for the first one's row and then updates it. -/
def twoCalls : List Action :=
  [.publish "a", .record observedCall, .record unobservedCall, .move 0 .count, .move 0 .increment,
    .move 0 .commit, .move 1 .count, .move 1 .increment, .move 1 .commit]

theorem metrics_fold_twoCalls : ∃ s, system.exec ⟨⟨[], [], []⟩, []⟩ twoCalls = some s ∧
    Table.get ("a", 20) s.db.metrics = some ⟨2, 1, 1, 40, 7, 1, 1⟩ ∧ MetricsLaw s.db := by
  refine ⟨_, rfl, by decide, ?_⟩
  apply metrics_fold
  exact ⟨_, rfl, System.path_of_exec twoCalls rfl⟩

end Metrics
end Production
end HermesPlatform
