/-
  HermesPlatform.Gateway.Quota

  The admission of capability calls: `_enforce_quota` and the insert of a PENDING
  invocation in one transaction of `invoke_capability`, with `_finish` and
  `_audit_failure`.

  Any number of callers take their steps in any order.  A statement reads the
  rows that are committed by then, the advisory locks are held to the end of the
  transaction, and `created_at` is the time at which the transaction began; the
  times need not be ordered.
-/

import HermesPlatform.Lib.LockOrder
import HermesPlatform.Lib.Transition
import Mathlib.Data.List.Sort
import Mathlib.Data.String.Basic

namespace HermesPlatform
namespace Gateway

open LockOrder Transition

/-! ## Rows and policies -/

/-- `capability_invocations.status`. -/
inductive InvocationStatus where
  | pending
  | succeeded
  | failed
  | denied
deriving DecidableEq, Repr

/-- A row of `capability_invocations`, as far as the quota depends on it. -/
structure Invocation where
  id : Nat
  executionId : String
  bindingId : Option String
  revisionId : Option String
  status : InvocationStatus
  createdAt : Int
  /-- Inserted by an admission; this is not a column of the table. -/
  admitted : Bool
deriving DecidableEq, Repr

/-- A `quota_policy`; keys can be missing. -/
structure QuotaPolicy where
  callsPerExecution : Option Int
  callsPerMinute : Option Int
  maxConcurrency : Option Int
deriving DecidableEq, Repr

/-- `int(value or default)`. -/
def orDefault (value : Option Int) (default : Int) : Int :=
  match value with
  | some n => if n = 0 then default else n
  | none => default

/-- The policies of the bindings and of the connector instance revisions. -/
structure Policies where
  binding : String → QuotaPolicy
  revision : String → QuotaPolicy

/-- `interval '1 minute'`, in the unit of the time stamps. -/
def minute : Int := 60000000

/-- A call after its resolution. -/
structure Call where
  executionId : String
  bindingId : String
  revisionId : String
deriving DecidableEq, Repr

/-! ## `_enforce_quota` -/

def ofBinding (bindingId : String) (v : Invocation) : Bool := v.bindingId = some bindingId

def ofRevision (revisionId : String) (v : Invocation) : Bool := v.revisionId = some revisionId

/-- The binding has used up one of its quotas. -/
def bindingExceeded (policies : Policies) (rows : List Invocation) (call : Call) (now : Int) : Bool :=
  let quota := policies.binding call.bindingId
  let rows := rows.filter (ofBinding call.bindingId)
  let executionCount := rows.countP fun v => v.executionId = call.executionId
  let minuteCount := rows.countP fun v => v.createdAt ≥ now - minute
  let activeCount := rows.countP fun v => v.status = .pending
  decide (executionCount ≥ orDefault quota.callsPerExecution 20) ||
    decide (minuteCount ≥ orDefault quota.callsPerMinute 60) ||
    decide (activeCount ≥ orDefault quota.maxConcurrency 2)

/-- The connector instance has used up one of its quotas. -/
def instanceExceeded (policies : Policies) (rows : List Invocation) (call : Call) (now : Int) :
    Bool :=
  let quota := policies.revision call.revisionId
  let rows := rows.filter (ofRevision call.revisionId)
  let minuteCount := rows.countP fun v => v.createdAt ≥ now - minute
  let activeCount := rows.countP fun v => v.status = .pending
  decide (minuteCount ≥ orDefault quota.callsPerMinute 600) ||
    decide (activeCount ≥ orDefault quota.maxConcurrency 20)

/-! ## Locks -/

def bindingKey (bindingId : String) : String := "binding:" ++ bindingId

def revisionKey (revisionId : String) : String := "connector:" ++ revisionId

/-- The keys of the advisory locks, in the order in which they are taken. -/
def Call.lockKeys (call : Call) : List String :=
  [bindingKey call.bindingId, revisionKey call.revisionId].insertionSort (· ≤ ·)

theorem bindingKey_ne_revisionKey (b r : String) : bindingKey b ≠ revisionKey r := by
  intro h
  have hlist := congrArg String.toList h
  simp [bindingKey, revisionKey] at hlist

theorem mem_lockKeys {call : Call} {key : String} :
    key ∈ call.lockKeys ↔ key = bindingKey call.bindingId ∨ key = revisionKey call.revisionId := by
  rw [Call.lockKeys, List.mem_insertionSort]
  simp

theorem lockKeys_increasing (call : Call) : call.lockKeys.Pairwise (· < ·) := by
  have hsorted : call.lockKeys.Pairwise (· ≤ ·) := List.pairwise_insertionSort _ _
  have hnodup : call.lockKeys.Nodup := by
    rw [Call.lockKeys, (List.perm_insertionSort _ _).nodup_iff]
    simp [bindingKey_ne_revisionKey]
  exact (hsorted.and hnodup).imp fun h => lt_of_le_of_ne h.1 h.2

/-! ## Callers -/

/-- How far a transaction is: it takes its locks, then each half of the quota
    check is one statement. -/
inductive Stage where
  | locking
  | bindingChecked
  | instanceChecked
deriving DecidableEq, Repr

/-- A caller of `invoke_capability`. -/
inductive Phase where
  | resolving
  | transaction (id : Nat) (now : Int) (locks : Acquisition String) (stage : Stage)
  | admitted (id : Nat)
  /-- On the way to `_audit_failure`, with the values it is called with. -/
  | failed (id : Option Nat) (bindingId revisionId : Option String)
  | gone

structure Caller where
  call : Call
  phase : Phase

/-- The advisory locks a caller holds; they go with its transaction. -/
def Caller.held (c : Caller) : List String :=
  match c.phase with
  | .transaction _ _ locks _ => locks.held
  | _ => []

/-- The key a caller tries to lock next. -/
def Caller.next? (c : Caller) : Option String :=
  match c.phase with
  | .transaction _ _ locks _ => locks.todo.head?
  | _ => none

/-- The row of the `INSERT ... 'PENDING'`. -/
def Call.row (call : Call) (id : Nat) (now : Int) : Invocation where
  id
  executionId := call.executionId
  bindingId := some call.bindingId
  revisionId := some call.revisionId
  status := .pending
  createdAt := now
  admitted := true

/-- `UPDATE capability_invocations SET status = ... WHERE id = ...`. -/
def setStatus (id : Nat) (status : InvocationStatus) (rows : List Invocation) : List Invocation :=
  rows.map fun v => if v.id = id then { v with status } else v

/-- `_finish`, whose status is SUCCEEDED or FAILED. -/
def finishRow (id : Nat) (succeeded : Bool) (rows : List Invocation) : List Invocation :=
  setStatus id (if succeeded then .succeeded else .failed) rows

/-- `_audit_failure`: the row is inserted, or updated where it exists. -/
def auditFailure (value : Nat) (executionId : String) (bindingId revisionId : Option String)
    (denied : Bool) (now : Int) (rows : List Invocation) : List Invocation :=
  let status := if denied then .denied else .failed
  if rows.any (·.id = value) then setStatus value status rows
  else
    { id := value, executionId, bindingId, revisionId, status, createdAt := now,
      admitted := false } :: rows

/-- What a caller does next. -/
inductive Move where
  /-- The resolution failed; the binding or the implementation was found before. -/
  | refuse (binding implementation : Bool)
  | begin (id : Nat) (now : Int)
  | lock
  | check
  | insert
  /-- An unexpected error rolls the transaction back. -/
  | abort
  | finish (succeeded : Bool)
  | fail
  | audit (fresh : Nat) (denied : Bool) (now : Int)
  /-- The caller is done, or its process or connection ends. -/
  | leave
deriving DecidableEq, Repr

/-- One move of a caller: the rows that are committed after it, and its phase.
    `free` are the keys that no other caller holds.  The new row is visible with
    the commit, which follows the `INSERT` at once. -/
def Caller.move (policies : Policies) (free : String → Bool) (rows : List Invocation) (c : Caller)
    (m : Move) : Option (List Invocation × Phase) :=
  match c.phase, m with
  | .resolving, .refuse binding implementation =>
      some (rows, .failed none (if binding then some c.call.bindingId else none)
        (if implementation then some c.call.revisionId else none))
  | .resolving, .begin id now =>
      some (rows, .transaction id now (.start c.call.lockKeys (lockKeys_increasing c.call)) .locking)
  | .transaction id now locks .locking, .lock =>
      match locks.todo with
      | [] => none
      | key :: _ => if free key then some (rows, .transaction id now locks.take .locking) else none
  | .transaction id now locks .locking, .check =>
      if locks.todo ≠ [] then none
      else if bindingExceeded policies rows c.call now then
        some (rows, .failed (some id) (some c.call.bindingId) (some c.call.revisionId))
      else some (rows, .transaction id now locks .bindingChecked)
  | .transaction id now locks .bindingChecked, .check =>
      if instanceExceeded policies rows c.call now then
        some (rows, .failed (some id) (some c.call.bindingId) (some c.call.revisionId))
      else some (rows, .transaction id now locks .instanceChecked)
  | .transaction id now _ .instanceChecked, .insert =>
      -- The primary key.
      if rows.any (·.id = id) then none
      else some (c.call.row id now :: rows, .admitted id)
  | .transaction id _ _ _, .abort =>
      some (rows, .failed (some id) (some c.call.bindingId) (some c.call.revisionId))
  | .admitted id, .finish succeeded => some (finishRow id succeeded rows, .gone)
  | .admitted id, .fail =>
      some (rows, .failed (some id) (some c.call.bindingId) (some c.call.revisionId))
  | .failed id bindingId revisionId, .audit fresh denied now =>
      some (auditFailure (id.getD fresh) c.call.executionId bindingId revisionId denied now rows,
        .gone)
  | _, .leave => some (rows, .gone)
  | _, _ => none

/-- The table and the callers. -/
structure Admissions where
  rows : List Invocation
  callers : List Caller

inductive Action where
  | arrive (call : Call)
  | move (i : Nat) (m : Move)
deriving DecidableEq, Repr

/-- No caller but `i` holds the key. -/
def Admissions.free (s : Admissions) (i : Nat) (key : String) : Bool :=
  (s.callers.eraseIdx i).all fun c => key ∉ c.held

def step (policies : Policies) (s : Admissions) : Action → Option Admissions
  | .arrive call => some { s with callers := s.callers ++ [⟨call, .resolving⟩] }
  | .move i m =>
      (s.callers[i]?).bind fun c =>
        (c.move policies (s.free i) s.rows m).map fun (rows, phase) =>
          { rows, callers := s.callers.set i ⟨c.call, phase⟩ }

def Empty (s : Admissions) : Prop := s.rows = [] ∧ s.callers = []

def system (policies : Policies) : System Admissions Action := ⟨Empty, step policies⟩

end Gateway
end HermesPlatform
