/-
  HermesPlatform.Runtimes.PiRuns

  The executions of the Pi runtime: `execute` from one await point to the next, `stopRun`,
  and the timer that removes a finished run from the map `runs`.

  A run object outlives its entry in the map, and an entry outlives the run: it is removed
  when `gate.acquire` is rejected, or by a timer that `finally` sets.  Run objects are
  numbered by their call of `gate.acquire`, so that the gate and the map speak of the same
  runs.
-/

import HermesPlatform.Runtimes.PiGate
import HermesPlatform.Lib.Table

namespace HermesPlatform
namespace Pi

open Transition

/-! ## The server -/

/-- `run.status`. -/
inductive RunStatus where
  | queued
  | running
  | cancelling
  | completed
  | cancelled
  | failed
deriving DecidableEq, Repr

/-- Where the call of `execute` is. -/
inductive Stage where
  /-- At `await gate.acquire(..)`. -/
  | acquiring
  /-- At `await engine.run(..)`. -/
  | executing
  /-- Past its `finally`; the status it recorded. -/
  | ended (outcome : RunStatus)
  /-- `gate.acquire` was rejected. -/
  | rejected
deriving DecidableEq, Repr

structure Run where
  id : String
  executionId : String
  streaming : Bool
  /-- `controller.signal.aborted`. -/
  aborted : Bool
  status : RunStatus
  stage : Stage
deriving DecidableEq, Repr

structure PiConfig where
  maxConcurrency : Nat
  maxSessions : Nat
deriving DecidableEq, Repr

structure Server where
  gate : ConcurrencyGate
  objects : List Run
  /-- The map `runs`. -/
  runs : List (String × Nat)
  /-- In the order of insertion, with the time each expires at. -/
  pendingStops : List (String × Nat)
  /-- The runs whose retention timer is pending. -/
  retention : List Nat
deriving DecidableEq, Repr

namespace Server

/-- `createPiRuntimeServer(..)`. -/
def new : Server := ⟨.new, [], [], [], []⟩

variable (s : Server)

/-- `runs.get(id)`. -/
def getRun (id : String) : Option Nat := Table.get id s.runs

def findRun (id : String) : Option Nat :=
  (s.getRun id).or
    ((s.runs.map Prod.snd).find? fun i => s.objects[i]?.any fun run => run.executionId = id)

/-- `controller.abort()`. -/
def abort (i : Nat) : Server :=
  { s with
    objects := s.objects.modify i fun run => { run with aborted := true }
    gate := s.gate.abort i }

def setStatus (i : Nat) (status : RunStatus) : Server :=
  { s with objects := s.objects.modify i fun run => { run with status := status } }

def setStage (i : Nat) (stage : Stage) : Server :=
  { s with objects := s.objects.modify i fun run => { run with stage := stage } }

theorem setStage_setStatus (i : Nat) (status : RunStatus) (stage : Stage) :
    (s.setStatus i status).setStage i stage =
      { s with objects := s.objects.modify i fun run =>
          { run with status := status, stage := stage } } := by
  simp only [setStatus, setStage, List.modify_modify_eq]
  rfl

/-- `runs.delete(id)`. -/
def deleteRun (id : String) : Server := { s with runs := Table.delete Prod.fst id s.runs }

end Server

/-- The oldest ones go until there is room for one more. -/
def evictStops (maxSessions : Nat) : List (String × Nat) → List (String × Nat)
  | [] => []
  | oldest :: rest =>
      if maxSessions ≤ rest.length + 1 then evictStops maxSessions rest else oldest :: rest

/-- `stopRun(id)`. -/
def stopRun (config : PiConfig) (s : Server) (id : String) (now : Nat) : Server :=
  match s.findRun id with
  | some i => (s.abort i).setStatus i .cancelling
  | none =>
      let alive := s.pendingStops.filter fun stop => ¬ stop.2 ≤ now
      let stops := evictStops config.maxSessions alive
      { s with pendingStops := Table.put id (now + 30000) stops }

/-- A new run object, and its call of `gate.acquire`. -/
def Server.add (config : PiConfig) (s : Server) (run : Run) : Server :=
  { gate := s.gate.acquire config.maxConcurrency (some run.aborted)
    objects := s.objects ++ [run]
    runs := Table.put run.id s.objects.length s.runs
    pendingStops := Table.delete Prod.fst run.id s.pendingStops
    retention := s.retention }

/-- What `execute` answers before its first await, or the number of the new run. -/
inductive Answer where
  /-- Status 409 or an event, with `status: 'cancelled'`. -/
  | cancelled
  /-- `Pi Runtime execution id is already active`. -/
  | alreadyActive
  | accepted (i : Nat)
deriving DecidableEq, Repr

/-- `execute(payload, response, streaming)` up to `await gate.acquire(..)`. -/
def execute (config : PiConfig) (s : Server) (runId : String) (streaming : Bool) (now : Nat) :
    Answer × Server :=
  match (s.getRun runId).bind (s.objects[·]?) with
  | some existingRun =>
      if existingRun.status ∈ [.cancelling, .cancelled] then (.cancelled, s)
      else (.alreadyActive, s)
  | none =>
      let expiresAt := (Table.get runId s.pendingStops).getD 0
      let aborted := decide (expiresAt > now)
      let run : Run :=
        { id := runId
          executionId := runId
          streaming := streaming
          aborted := aborted
          status := .queued
          stage := .acquiring }
      (.accepted s.objects.length, s.add config run)

/-- How `engine.run` ends, and whether its result could be sent. -/
inductive EngineResult where
  | returned (sent : Bool)
  /-- A `PiRunCancelledError`. -/
  | cancelled
  | failed
deriving DecidableEq, Repr

/-- The status recorded at the end; what is caught is read as a cancellation when the
    signal has aborted. -/
def EngineResult.status (aborted : Bool) : EngineResult → RunStatus
  | .returned true => .completed
  | .cancelled => .cancelled
  | .returned false | .failed => if aborted then .cancelled else .failed

theorem EngineResult.status_mem (result : EngineResult) (aborted : Bool) :
    result.status aborted ∈ [.completed, .cancelled, .failed] := by
  cases result with
  | returned sent => cases sent <;> cases aborted <;> decide
  | cancelled => exact List.mem_of_elem_eq_true rfl
  | failed => cases aborted <;> decide

/-- `execute` after `gate.acquire` is settled. -/
def resume (s : Server) (i : Nat) (run : Run) : Settlement → Server
  | .granted =>
      (s.setStatus i (if run.aborted then .cancelling else .running)).setStage i .executing
  | .timedOut | .cancelled => (s.deleteRun run.id).setStage i .rejected

/-- `execute` after `engine.run` is settled, with its `finally`. -/
def finish (s : Server) (i : Nat) (run : Run) (result : EngineResult) : Server :=
  let status := result.status run.aborted
  let s := (s.setStatus i status).setStage i (.ended status)
  { s with
    gate := { s.gate with released := s.gate.released ++ [i] }.release
    retention := s.retention ++ [i] }

inductive Action where
  | execute (id : String) (streaming : Bool) (now : Nat)
  | stop (id : String) (now : Nat)
  /-- The response of a stream closes before it has ended. -/
  | disconnect (i : Nat)
  /-- The timer of the gate. -/
  | timeout (i : Nat)
  | resume (i : Nat)
  | finish (i : Nat) (result : EngineResult)
  /-- The retention timer. -/
  | expire (i : Nat)
deriving DecidableEq, Repr

def serverStep (config : PiConfig) (s : Server) : Action → Option Server
  | .execute id streaming now => some (execute config s id streaming now).2
  | .stop id now => some (stopRun config s id now)
  | .disconnect i =>
      s.objects[i]?.bind fun run =>
        if run.stage = .executing ∧ run.streaming then some (s.abort i) else none
  | .timeout i => (gateStep config.maxConcurrency s.gate (.timeout i)).map ({ s with gate := · })
  | .resume i =>
      s.objects[i]?.bind fun run =>
        if run.stage = .acquiring then
          (s.gate.log.find? (·.1 = i)).map fun settled => resume s i run settled.2
        else none
  | .finish i result =>
      s.objects[i]?.bind fun run =>
        if run.stage = .executing then some (finish s i run result) else none
  | .expire i =>
      if i ∈ s.retention then
        s.objects[i]?.map fun run =>
          { s.deleteRun run.id with retention := s.retention.filter (· ≠ i) }
      else none

/-- Any order of requests, answers of the engine, timers and disconnections. -/
def serverSystem (config : PiConfig) : System Server Action where
  init s := s = .new
  step := serverStep config

/-! ## The law -/

/-- The call of `execute` has not come to its end. -/
def Run.Live (run : Run) : Prop := run.stage = .acquiring ∨ run.stage = .executing

/-- The execution `i` of an id is queued, running or cancelling. -/
def Server.Live (s : Server) (id : String) (i : Nat) (status : RunStatus) : Prop :=
  ∃ run, s.objects[i]? = some run ∧ run.id = id ∧ run.Live ∧ run.status = status

/-- The execution `i` of an id has ended, and its entry is still kept. -/
def Server.Retained (s : Server) (id : String) (i : Nat) (outcome : RunStatus) : Prop :=
  ∃ run, s.objects[i]? = some run ∧ run.id = id ∧ run.stage = .ended outcome ∧ i ∈ s.retention

/-- Neither of them. -/
def Server.Forgotten (s : Server) (id : String) : Prop :=
  ∀ i status, ¬ s.Live id i status ∧ ¬ s.Retained id i status

/-- What `execute` and `stopRun` do with an id, in the state `s`. -/
structure ExecutionLaw (config : PiConfig) (s : Server) (id : String) : Prop where
  status : ∀ i status, s.Live id i status → status ∈ [.queued, .running, .cancelling]
  unique : ∀ i j status status', s.Live id i status → s.Live id j status' → i = j
  active : ∀ i status streaming now, s.Live id i status → status ∈ [.queued, .running] →
    execute config s id streaming now = (.alreadyActive, s)
  /-- It has been asked to stop, or has been cancelled a short time ago. -/
  cancelled : ∀ i streaming now,
    s.Live id i .cancelling ∨ s.Retained id i .cancelled →
    execute config s id streaming now = (.cancelled, s)
  refused : ∀ streaming now, (execute config s id streaming now).1 = .alreadyActive →
    ∃ i status, (s.Live id i status ∧ status ∈ [.queued, .running]) ∨
      (s.Retained id i status ∧ status ∈ [.completed, .failed])
  accepted : ∀ streaming now, s.Forgotten id →
    ∃ t, execute config s id streaming now = (.accepted s.objects.length, t) ∧
      t.Live id s.objects.length .queued
  /-- A stop that finds nothing changes no execution. -/
  stopped : ∀ now, s.Forgotten id → (stopRun config s id now).objects = s.objects
  granted : ∀ i status t, s.Live id i status → s.gate.settledAs i = some .granted →
    serverStep config s (.resume i) = some t → ∃ status', t.Live id i status'
  /-- An execution that the gate has rejected is forgotten at once. -/
  rejected : ∀ i status settlement t, s.Live id i status →
    s.gate.settledAs i = some settlement → settlement ≠ .granted →
    serverStep config s (.resume i) = some t → t.Forgotten id
  /-- An ended one is kept, until its timer fires. -/
  ended : ∀ i status result t, s.Live id i status →
    serverStep config s (.finish i result) = some t → ∃ outcome, t.Retained id i outcome
  expired : ∀ i status t, s.Retained id i status → serverStep config s (.expire i) = some t →
    t.Forgotten id

/-! ## The invariant -/

/-- A status that the run can have where it is; a stop overwrites the one that an ended run
    has recorded. -/
def Run.StatusOk (run : Run) : Prop :=
  match run.stage with
  | .acquiring => run.status = .queued ∨ run.status = .cancelling
  | .executing => run.status = .running ∨ run.status = .cancelling
  | .ended outcome =>
      outcome ∈ [.completed, .cancelled, .failed] ∧
        (run.status = outcome ∨ run.status = .cancelling)
  | .rejected => True

/-- What every step keeps. -/
structure ServerInv (config : PiConfig) (s : Server) : Prop where
  gate : GateInv config.maxConcurrency s.gate
  numbered : s.objects.length = s.gate.arrivals
  unique : Table.Unique Prod.fst s.runs
  ids : ∀ (i : Nat) (run : Run), s.objects[i]? = some run → run.executionId = run.id
  status : ∀ (i : Nat) (run : Run), s.objects[i]? = some run → run.StatusOk
  /-- An entry is that of a live run or of an ended one whose timer is pending. -/
  entry : ∀ id i, s.getRun id = some i → ∃ run : Run, s.objects[i]? = some run ∧ run.id = id ∧
    (run.Live ∨ ∃ outcome, run.stage = .ended outcome ∧ i ∈ s.retention)
  recorded : ∀ (i : Nat) (run : Run), s.objects[i]? = some run → run.Live →
    s.getRun run.id = some i
  kept : ∀ i ∈ s.retention, ∃ (run : Run) (outcome : RunStatus), s.objects[i]? = some run ∧
    run.stage = .ended outcome ∧ s.getRun run.id = some i
  granted : ∀ (i : Nat) (run : Run), s.objects[i]? = some run → run.stage = .executing →
    (i, Settlement.granted) ∈ s.gate.log
  /-- A slot is released once, at the end. -/
  released : ∀ i ∈ s.gate.released, ∃ (run : Run) (outcome : RunStatus), s.objects[i]? = some run ∧
    run.stage = .ended outcome

/-- The gate goes on without a call of `acquire` or `release`. -/
structure GateExtends (gate gate' : ConcurrencyGate) : Prop where
  arrivals : gate'.arrivals = gate.arrivals
  released : gate'.released = gate.released
  log : ∀ e ∈ gate.log, e ∈ gate'.log

theorem gateExtends_reject (gate : ConcurrencyGate) (i : Nat) (settlement : Settlement) :
    GateExtends gate (((gate.disarm i).remove i).settle i settlement) :=
  ⟨rfl, rfl, fun _ he => List.mem_append_left _ he⟩

theorem gateExtends_abort (gate : ConcurrencyGate) (i : Nat) :
    GateExtends gate (gate.abort i) := by
  unfold ConcurrencyGate.abort
  split
  next => exact gateExtends_reject gate i .cancelled
  next => exact ⟨rfl, rfl, fun _ he => he⟩

/-- One more call of `acquire`; what is settled stays so. -/
theorem acquire_frame (gate : ConcurrencyGate) (limit : Nat) (signal : Option Bool) :
    (gate.acquire limit signal).arrivals = gate.arrivals + 1 ∧
      (gate.acquire limit signal).released = gate.released ∧
      ∀ e ∈ gate.log, e ∈ (gate.acquire limit signal).log := by
  unfold ConcurrencyGate.acquire
  dsimp only
  by_cases habort : signal = some true
  · rw [if_pos habort]
    exact ⟨rfl, rfl, fun _ he => List.mem_append_left _ he⟩
  · rw [if_neg habort]
    by_cases hfree : gate.active < limit
    · rw [if_pos hfree]
      exact ⟨rfl, rfl, fun _ he => List.mem_append_left _ he⟩
    · rw [if_neg hfree]
      exact ⟨rfl, rfl, fun _ he => he⟩

theorem gateExtends_release (gate : ConcurrencyGate) : GateExtends gate gate.release := by
  unfold ConcurrencyGate.release
  split
  · exact ⟨rfl, rfl, fun _ he => List.mem_append_left _ he⟩
  · exact ⟨rfl, rfl, fun _ he => he⟩

theorem getRun_deleteRun (s : Server) (id k : String) :
    (s.deleteRun id).getRun k = if k = id then none else s.getRun k :=
  Table.get_delete k

theorem getElem?_modify_some {objects : List Run} {i j : Nat} {f : Run → Run} {run : Run}
    (h : (objects.modify i f)[j]? = some run) :
    ∃ old, objects[j]? = some old ∧ run = if i = j then f old else old := by
  rw [List.getElem?_modify] at h
  obtain ⟨old, hold, heq⟩ := Option.map_eq_some_iff.mp h
  exact ⟨old, hold, heq.symm⟩

theorem exists_getElem?_modify {objects : List Run} {i j : Nat} {f : Run → Run} {run : Run}
    (h : objects[j]? = some run) :
    (objects.modify i f)[j]? = some (if i = j then f run else run) := by
  rw [List.getElem?_modify, h]
  rfl

/-- A run afterwards is the one that changed, or it is another one. -/
theorem getElem?_modify_cases {objects : List Run} {i j : Nat} {f : Run → Run} {run run' : Run}
    (hrun : objects[i]? = some run) (h : (objects.modify i f)[j]? = some run') :
    (j ≠ i ∧ objects[j]? = some run') ∨ (j = i ∧ run' = f run) := by
  obtain ⟨old, hold, rfl⟩ := getElem?_modify_some h
  by_cases hij : i = j
  · subst hij
    obtain rfl := Option.some.inj (hold.symm.trans hrun)
    exact .inr ⟨rfl, if_pos rfl⟩
  · rw [if_neg hij]
    exact .inl ⟨Ne.symm hij, hold⟩

theorem getElem?_modify_other {objects : List Run} {i j : Nat} {f : Run → Run} {run : Run}
    (hji : j ≠ i) (h : objects[j]? = some run) : (objects.modify i f)[j]? = some run := by
  rw [exists_getElem?_modify h, if_neg (Ne.symm hji)]

namespace ServerInv

variable {config : PiConfig} {s : Server}

theorem init : ServerInv config .new where
  gate := GateInv.init
  numbered := rfl
  unique := List.nodup_nil
  ids := by simp [Server.new]
  status := by simp [Server.new]
  entry := by simp [Server.new, Server.getRun, Table.get, Table.lookup]
  recorded := by simp [Server.new]
  kept := by simp [Server.new]
  granted := by simp [Server.new]
  released := by simp [Server.new, ConcurrencyGate.new]

/-- The gate moves on, the rest stays. -/
theorem gateStep (h : ServerInv config s) {gate : ConcurrencyGate}
    (hgate : GateInv config.maxConcurrency gate) (hext : GateExtends s.gate gate) :
    ServerInv config { s with gate := gate } where
  gate := hgate
  numbered := h.numbered.trans hext.arrivals.symm
  unique := h.unique
  ids := h.ids
  status := h.status
  entry := h.entry
  recorded := h.recorded
  kept := h.kept
  granted := fun i run hrun hstage => hext.log _ (h.granted i run hrun hstage)
  released := fun i hi => h.released i (hext.released ▸ hi)

/-- One run changes; it neither begins nor ends. -/
theorem modify (h : ServerInv config s) {i : Nat} {f : Run → Run}
    (hid : ∀ run, (f run).id = run.id) (hexec : ∀ run, (f run).executionId = run.executionId)
    (hlive : ∀ run, s.objects[i]? = some run → ((f run).Live ↔ run.Live))
    (hended : ∀ run outcome, s.objects[i]? = some run → run.stage = .ended outcome →
      (f run).stage = .ended outcome)
    (hstatus : ∀ run, s.objects[i]? = some run → (f run).StatusOk)
    (hgranted : ∀ run, s.objects[i]? = some run → (f run).stage = .executing →
      (i, Settlement.granted) ∈ s.gate.log) :
    ServerInv config { s with objects := s.objects.modify i f } where
  gate := h.gate
  numbered := (List.length_modify _ _ _).trans h.numbered
  unique := h.unique
  ids := by
    intro j run hrun
    obtain ⟨old, hold, rfl⟩ := getElem?_modify_some hrun
    split
    next => rw [hid, hexec, h.ids j old hold]
    next => exact h.ids j old hold
  status := by
    intro j run hrun
    obtain ⟨old, hold, rfl⟩ := getElem?_modify_some hrun
    split
    next hij => exact hstatus old (hij ▸ hold)
    next => exact h.status j old hold
  entry := by
    intro id j hj
    obtain ⟨old, hold, hidold, hkind⟩ := h.entry id j hj
    refine ⟨_, exists_getElem?_modify hold, ?_⟩
    split
    next hij =>
      subst hij
      refine ⟨(hid old).trans hidold, ?_⟩
      obtain hl | ⟨outcome, hstage, hmem⟩ := hkind
      · exact .inl ((hlive old hold).mpr hl)
      · exact .inr ⟨outcome, hended old outcome hold hstage, hmem⟩
    next => exact ⟨hidold, hkind⟩
  recorded := by
    intro j run hrun hl
    obtain ⟨old, hold, rfl⟩ := getElem?_modify_some hrun
    split at hl
    next hij =>
      subst hij
      rw [if_pos rfl, hid]
      exact h.recorded i old hold ((hlive old hold).mp hl)
    next hij =>
      rw [if_neg hij]
      exact h.recorded j old hold hl
  kept := by
    intro j hj
    obtain ⟨old, outcome, hold, hstage, hget⟩ := h.kept j hj
    refine ⟨_, outcome, exists_getElem?_modify hold, ?_⟩
    split
    next hij =>
      subst hij
      exact ⟨hended old outcome hold hstage, (hid old).symm ▸ hget⟩
    next => exact ⟨hstage, hget⟩
  granted := by
    intro j run hrun hstage
    obtain ⟨old, hold, rfl⟩ := getElem?_modify_some hrun
    split at hstage
    next hij =>
      subst hij
      exact hgranted old hold hstage
    next => exact h.granted j old hold hstage
  released := by
    intro j hj
    obtain ⟨old, outcome, hold, hstage⟩ := h.released j hj
    refine ⟨_, outcome, exists_getElem?_modify hold, ?_⟩
    split
    next hij =>
      subst hij
      exact hended old outcome hold hstage
    next => exact hstage

theorem abort (h : ServerInv config s) (i : Nat) : ServerInv config (s.abort i) := by
  have hgate := h.gateStep (h.gate.abort i) (gateExtends_abort s.gate i)
  exact hgate.modify (fun _ => rfl) (fun _ => rfl) (fun _ _ => Iff.rfl) (fun _ _ _ hs => hs)
    (fun run hrun => hgate.status i run hrun) (fun run hrun => hgate.granted i run hrun)

/-- A stop. -/
theorem setCancelling (h : ServerInv config s) (i : Nat) :
    ServerInv config (s.setStatus i .cancelling) := by
  refine h.modify (fun _ => rfl) (fun _ => rfl) (fun _ _ => Iff.rfl) (fun _ _ _ hs => hs) ?_
    (fun run hrun => h.granted i run hrun)
  intro run hrun
  have hstatus := h.status i run hrun
  simp only [Run.StatusOk] at hstatus ⊢
  cases hstage : run.stage with
  | rejected => trivial
  | ended outcome =>
      simp only [hstage] at hstatus
      simp only [or_true, and_true]
      exact hstatus.1
  | _ => simp only [or_true]

theorem findRun_eq (h : ServerInv config s) (id : String) : s.findRun id = s.getRun id := by
  unfold Server.findRun
  cases hget : s.getRun id with
  | some i => rfl
  | none =>
      rw [Option.none_or, List.find?_eq_none]
      intro i hi hany
      obtain ⟨⟨k, i⟩, hmem, rfl⟩ := List.mem_map.mp hi
      have hk : s.getRun k = some i := h.unique.get_of_mem hmem
      obtain ⟨run, hrun, hid, -⟩ := h.entry k i hk
      rw [hrun, Option.any_some, decide_eq_true_eq, h.ids i run hrun, hid] at hany
      rw [hany, hget] at hk
      cases hk

theorem stop (h : ServerInv config s) (id : String) (now : Nat) :
    ServerInv config (stopRun config s id now) := by
  unfold stopRun
  split
  next i _ => exact (h.abort i).setCancelling i
  next => exact { h with }

theorem getRun_eq_none (h : ServerInv config s) {id : String}
    (hnone : (s.getRun id).bind (s.objects[·]?) = none) : s.getRun id = none := by
  cases hget : s.getRun id with
  | none => rfl
  | some i =>
      obtain ⟨run, hrun, -⟩ := h.entry id i hget
      rw [hget, Option.bind_some, hrun] at hnone
      cases hnone

theorem getRun_add (run : Run) (k : String) :
    (s.add config run).getRun k = if k = run.id then some s.objects.length else s.getRun k :=
  Table.get_put k

/-- A run is either one of those before or the new one. -/
theorem getElem?_add {new run : Run} {i : Nat}
    (hrun : (s.add config new).objects[i]? = some run) :
    s.objects[i]? = some run ∨ (i = s.objects.length ∧ run = new) := by
  have happend : (s.objects ++ [new])[i]? = some run := hrun
  by_cases hi : i < s.objects.length
  · rw [List.getElem?_append_left hi] at happend
    exact .inl happend
  · obtain ⟨hle, hget⟩ := List.getElem?_eq_some_iff.mp happend
    rw [List.length_append, List.length_singleton] at hle
    have heq : i = s.objects.length := by omega
    subst heq
    rw [List.getElem?_concat_length, Option.some.injEq] at happend
    exact .inr ⟨rfl, happend.symm⟩

theorem getElem?_add_of_some {new run : Run} {i : Nat} (hrun : s.objects[i]? = some run) :
    (s.add config new).objects[i]? = some run := by
  have happend : (s.objects ++ [new])[i]? = some run := by
    rw [List.getElem?_append_left (List.getElem?_eq_some_iff.mp hrun).1]
    exact hrun
  exact happend

/-- An execution whose id has no entry. -/
theorem add (h : ServerInv config s) {new : Run} (hnone : s.getRun new.id = none)
    (hexec : new.executionId = new.id) (hstatus : new.status = .queued)
    (hstage : new.stage = .acquiring) : ServerInv config (s.add config new) := by
  obtain ⟨harrivals, hreleased, hlog⟩ :=
    acquire_frame s.gate config.maxConcurrency (some new.aborted)
  have hne : ∀ (id : String) (i : Nat), s.getRun id = some i → id ≠ new.id := by
    rintro id i hget rfl
    rw [hnone] at hget
    cases hget
  constructor
  case gate => exact h.gate.acquire (some new.aborted)
  case numbered =>
    have hlength : (s.objects ++ [new]).length = s.gate.arrivals + 1 := by
      rw [List.length_append, h.numbered]
      rfl
    exact hlength.trans harrivals.symm
  case unique => exact h.unique.put
  case ids =>
    intro i run hrun
    obtain hold | ⟨-, rfl⟩ := getElem?_add hrun
    · exact h.ids i run hold
    · exact hexec
  case status =>
    intro i run hrun
    obtain hold | ⟨-, rfl⟩ := getElem?_add hrun
    · exact h.status i run hold
    · rw [Run.StatusOk, hstage]
      exact .inl hstatus
  case entry =>
    intro id i hget
    rw [getRun_add] at hget
    split at hget
    next hid =>
      cases hget
      exact ⟨new, List.getElem?_concat_length, hid.symm, .inl (.inl hstage)⟩
    next =>
      obtain ⟨run, hrun, hid, hkind⟩ := h.entry id i hget
      exact ⟨run, getElem?_add_of_some hrun, hid, hkind⟩
  case recorded =>
    intro i run hrun hlive
    rw [getRun_add]
    obtain hold | ⟨rfl, rfl⟩ := getElem?_add hrun
    · have hget := h.recorded i run hold hlive
      rw [if_neg (hne _ _ hget)]
      exact hget
    · exact if_pos rfl
  case kept =>
    intro i hi
    obtain ⟨run, outcome, hrun, hended, hget⟩ := h.kept i hi
    refine ⟨run, outcome, getElem?_add_of_some hrun, hended, ?_⟩
    rw [getRun_add, if_neg (hne _ _ hget)]
    exact hget
  case granted =>
    intro i run hrun hexecuting
    obtain hold | ⟨-, rfl⟩ := getElem?_add hrun
    · exact hlog _ (h.granted i run hold hexecuting)
    · rw [hstage] at hexecuting
      cases hexecuting
  case released =>
    intro i hi
    obtain ⟨run, outcome, hrun, hended⟩ := h.released i (hreleased ▸ hi)
    exact ⟨run, outcome, getElem?_add_of_some hrun, hended⟩

theorem execute (h : ServerInv config s) (id : String) (streaming : Bool) (now : Nat) :
    ServerInv config (execute config s id streaming now).2 := by
  unfold Pi.execute
  split
  next run _ =>
    split
    · exact h
    · exact h
  next hnone => exact h.add (h.getRun_eq_none hnone) rfl rfl rfl

/-- The run leaves the queue with a slot. -/
theorem resume_granted (h : ServerInv config s) {i : Nat} {run : Run}
    (hrun : s.objects[i]? = some run) (hstage : run.stage = .acquiring)
    (hlog : (i, Settlement.granted) ∈ s.gate.log) :
    ServerInv config (resume s i run .granted) := by
  rw [resume, Server.setStage_setStatus]
  let start := fun old : Run =>
    { old with
      status := if run.aborted then .cancelling else .running
      stage := .executing }
  apply h.modify (f := start) (fun _ => rfl) (fun _ => rfl)
  case hlive =>
    intro old hold
    obtain rfl := Option.some.inj (hold.symm.trans hrun)
    exact iff_of_true (.inr rfl) (.inl hstage)
  case hended =>
    intro old outcome hold hended
    obtain rfl := Option.some.inj (hold.symm.trans hrun)
    rw [hstage] at hended
    cases hended
  case hstatus =>
    intro old _
    cases haborted : run.aborted <;> simp [start, Run.StatusOk, haborted]
  case hgranted => exact fun _ _ _ => hlog

/-- Two entries do not name the same run object. -/
theorem id_of_getRun (h : ServerInv config s) {id : String} {i : Nat} {run : Run}
    (hget : s.getRun id = some i) (hrun : s.objects[i]? = some run) : run.id = id := by
  obtain ⟨run', hrun', hid, -⟩ := h.entry id i hget
  obtain rfl := Option.some.inj (hrun'.symm.trans hrun)
  exact hid

/-- The entries of the other run objects stay. -/
theorem getRun_deleteRun_of_ne {id id' : String} {i j : Nat} (hget : s.getRun id' = some i)
    (hji : j ≠ i) (hj : s.getRun id = some j) : (s.deleteRun id').getRun id = some j := by
  rw [getRun_deleteRun, if_neg]
  · exact hj
  · rintro rfl
    exact hji (Option.some.inj (hj.symm.trans hget))

theorem getRun_of_deleteRun (h : ServerInv config s) {id : String} {i j : Nat} {run : Run}
    (hrun : s.objects[i]? = some run) (hj : (s.deleteRun run.id).getRun id = some j) :
    s.getRun id = some j ∧ j ≠ i := by
  have hdelete := (getRun_deleteRun s run.id id).symm.trans hj
  rw [Option.ite_none_left_eq_some] at hdelete
  refine ⟨hdelete.2, ?_⟩
  rintro rfl
  exact hdelete.1 (h.id_of_getRun hdelete.2 hrun).symm

/-- The run leaves the queue without a slot, and the map with it. -/
theorem resume_rejected (h : ServerInv config s) {i : Nat} {run : Run}
    (hrun : s.objects[i]? = some run) (hstage : run.stage = .acquiring) :
    ServerInv config ((s.deleteRun run.id).setStage i .rejected) := by
  have hget := h.recorded i run hrun (.inl hstage)
  have hended : ∀ {j : Nat} {run' : Run} {outcome : RunStatus}, s.objects[j]? = some run' →
      run'.stage = .ended outcome → j ≠ i := by
    rintro j run' outcome hrun' hstage' rfl
    obtain rfl := Option.some.inj (hrun'.symm.trans hrun)
    rw [hstage] at hstage'
    cases hstage'
  constructor
  case gate => exact h.gate
  case numbered => exact (List.length_modify _ _ _).trans h.numbered
  case unique => exact h.unique.delete
  case ids =>
    intro j run' hj
    obtain ⟨-, hold⟩ | ⟨-, rfl⟩ := getElem?_modify_cases hrun hj
    · exact h.ids j run' hold
    · exact h.ids i run hrun
  case status =>
    intro j run' hj
    obtain ⟨-, hold⟩ | ⟨-, rfl⟩ := getElem?_modify_cases hrun hj
    · exact h.status j run' hold
    · trivial
  case entry =>
    intro id j hj
    obtain ⟨hback, hji⟩ := h.getRun_of_deleteRun hrun hj
    obtain ⟨run', hrun', hid, hkind⟩ := h.entry id j hback
    exact ⟨run', getElem?_modify_other hji hrun', hid, hkind⟩
  case recorded =>
    intro j run' hj hlive
    obtain ⟨hji, hold⟩ | ⟨-, rfl⟩ := getElem?_modify_cases hrun hj
    · exact getRun_deleteRun_of_ne hget hji (h.recorded j run' hold hlive)
    · cases hlive <;> contradiction
  case kept =>
    intro j hj
    obtain ⟨run', outcome, hrun', hstage', hget'⟩ := h.kept j hj
    have hji := hended hrun' hstage'
    exact ⟨run', outcome, getElem?_modify_other hji hrun', hstage',
      getRun_deleteRun_of_ne hget hji hget'⟩
  case granted =>
    intro j run' hj hexecuting
    obtain ⟨-, hold⟩ | ⟨-, rfl⟩ := getElem?_modify_cases hrun hj
    · exact h.granted j run' hold hexecuting
    · contradiction
  case released =>
    intro j hj
    obtain ⟨run', outcome, hrun', hstage'⟩ := h.released j hj
    exact ⟨run', outcome, getElem?_modify_other (hended hrun' hstage') hrun', hstage'⟩

/-- A run that holds a slot has not released it. -/
theorem mem_holders (h : ServerInv config s) {i : Nat} {run : Run}
    (hrun : s.objects[i]? = some run) (hstage : run.stage = .executing) :
    i ∈ s.gate.holders := by
  apply List.mem_filter.mpr
  refine ⟨GateInv.mem_grants.mpr (h.granted i run hrun hstage), ?_⟩
  rw [decide_eq_true_eq]
  intro hreleased
  obtain ⟨run', outcome, hrun', hended⟩ := h.released i hreleased
  obtain rfl := Option.some.inj (hrun'.symm.trans hrun)
  rw [hstage] at hended
  cases hended

theorem finish (h : ServerInv config s) {i : Nat} {run : Run} (hrun : s.objects[i]? = some run)
    (hstage : run.stage = .executing) (result : EngineResult) :
    ServerInv config (finish s i run result) := by
  have hget := h.recorded i run hrun (.inr hstage)
  have hgate := gateExtends_release { s.gate with released := s.gate.released ++ [i] }
  rw [Pi.finish, Server.setStage_setStatus]
  constructor
  case gate => exact h.gate.release (h.mem_holders hrun hstage)
  case numbered =>
    exact (List.length_modify _ _ _).trans (h.numbered.trans hgate.arrivals.symm)
  case unique => exact h.unique
  case ids =>
    intro j run' hj
    obtain ⟨-, hold⟩ | ⟨-, rfl⟩ := getElem?_modify_cases hrun hj
    · exact h.ids j run' hold
    · exact h.ids i run hrun
  case status =>
    intro j run' hj
    obtain ⟨-, hold⟩ | ⟨-, rfl⟩ := getElem?_modify_cases hrun hj
    · exact h.status j run' hold
    · exact ⟨result.status_mem run.aborted, .inl rfl⟩
  case entry =>
    intro id j hj
    obtain ⟨run', hrun', hid, hkind⟩ := h.entry id j hj
    refine ⟨_, exists_getElem?_modify hrun', ?_⟩
    split
    next hij => exact ⟨hid, .inr ⟨_, rfl, List.mem_append_right _ (List.mem_singleton.mpr hij.symm)⟩⟩
    next =>
      refine ⟨hid, hkind.imp_right ?_⟩
      rintro ⟨outcome, hended, hmem⟩
      exact ⟨outcome, hended, List.mem_append_left _ hmem⟩
  case recorded =>
    intro j run' hj hlive
    obtain ⟨-, hold⟩ | ⟨-, rfl⟩ := getElem?_modify_cases hrun hj
    · exact h.recorded j run' hold hlive
    · cases hlive <;> contradiction
  case kept =>
    intro j hj
    by_cases hji : j = i
    · subst hji
      exact ⟨_, _, (exists_getElem?_modify hrun).trans (congrArg some (if_pos rfl)), rfl, hget⟩
    · have hmem : j ∈ s.retention := by simpa [hji] using hj
      obtain ⟨run', outcome, hrun', hended, hget'⟩ := h.kept j hmem
      exact ⟨run', outcome, getElem?_modify_other hji hrun', hended, hget'⟩
  case granted =>
    intro j run' hj hexecuting
    obtain ⟨-, hold⟩ | ⟨-, rfl⟩ := getElem?_modify_cases hrun hj
    · exact hgate.log _ (h.granted j run' hold hexecuting)
    · contradiction
  case released =>
    intro j hj
    have hmem : j ∈ s.gate.released ++ [i] := (congrArg (j ∈ ·) hgate.released).mp hj
    by_cases hji : j = i
    · subst hji
      exact ⟨_, _, (exists_getElem?_modify hrun).trans (congrArg some (if_pos rfl)), rfl⟩
    · obtain ⟨run', outcome, hrun', hended⟩ := h.released j (by simpa [hji] using hmem)
      exact ⟨run', outcome, getElem?_modify_other hji hrun', hended⟩

theorem expire (h : ServerInv config s) {i : Nat} {run : Run} (hrun : s.objects[i]? = some run)
    (hmem : i ∈ s.retention) :
    ServerInv config { s.deleteRun run.id with retention := s.retention.filter (· ≠ i) } := by
  obtain ⟨run', outcome, hrun', hended, hget⟩ := h.kept i hmem
  obtain rfl := Option.some.inj (hrun'.symm.trans hrun)
  constructor
  case gate => exact h.gate
  case numbered => exact h.numbered
  case unique => exact h.unique.delete
  case ids => exact h.ids
  case status => exact h.status
  case entry =>
    intro id j hj
    obtain ⟨hback, hji⟩ := h.getRun_of_deleteRun hrun hj
    obtain ⟨other, hother, hid, hkind⟩ := h.entry id j hback
    refine ⟨other, hother, hid, hkind.imp_right ?_⟩
    rintro ⟨outcome', hended', hj'⟩
    exact ⟨outcome', hended', List.mem_filter.mpr ⟨hj', decide_eq_true hji⟩⟩
  case recorded =>
    intro j other hj hlive
    refine getRun_deleteRun_of_ne hget ?_ (h.recorded j other hj hlive)
    rintro rfl
    obtain rfl := Option.some.inj (hj.symm.trans hrun)
    cases hlive with
    | inl hstage => exact nomatch hended.symm.trans hstage
    | inr hstage => exact nomatch hended.symm.trans hstage
  case kept =>
    intro j hj
    obtain ⟨hj, hji⟩ := List.mem_filter.mp hj
    obtain ⟨other, outcome', hother, hended', hget'⟩ := h.kept j hj
    exact ⟨other, outcome', hother, hended',
      getRun_deleteRun_of_ne hget (by simpa using hji) hget'⟩
  case granted => exact h.granted
  case released => exact h.released

/-- One lemma for each action. -/
theorem step (h : ServerInv config s) (a : Action) {t : Server}
    (hstep : serverStep config s a = some t) : ServerInv config t := by
  cases a with
  | execute id streaming now =>
      rw [serverStep, Option.some.injEq] at hstep
      exact hstep ▸ h.execute id streaming now
  | stop id now =>
      rw [serverStep, Option.some.injEq] at hstep
      exact hstep ▸ h.stop id now
  | disconnect i =>
      rw [serverStep] at hstep
      obtain ⟨run, -, hstep⟩ := Option.bind_eq_some_iff.mp hstep
      rw [Option.ite_none_right_eq_some, Option.some.injEq] at hstep
      exact hstep.2 ▸ h.abort i
  | timeout i =>
      rw [serverStep] at hstep
      obtain ⟨gate, hgate, rfl⟩ := Option.map_eq_some_iff.mp hstep
      refine h.gateStep (h.gate.step _ hgate) ?_
      rw [Pi.gateStep, Option.ite_none_right_eq_some, Option.some.injEq] at hgate
      exact hgate.2 ▸ gateExtends_reject s.gate i .timedOut
  | resume i =>
      rw [serverStep] at hstep
      obtain ⟨run, hrun, hstep⟩ := Option.bind_eq_some_iff.mp hstep
      rw [Option.ite_none_right_eq_some] at hstep
      obtain ⟨⟨j, settlement⟩, hfound, rfl⟩ := Option.map_eq_some_iff.mp hstep.2
      have hlog := List.mem_of_find?_eq_some hfound
      obtain rfl : j = i := by simpa using List.find?_some hfound
      cases settlement with
      | granted => exact h.resume_granted hrun hstep.1 hlog
      | timedOut => exact h.resume_rejected hrun hstep.1
      | cancelled => exact h.resume_rejected hrun hstep.1
  | finish i result =>
      rw [serverStep] at hstep
      obtain ⟨run, hrun, hstep⟩ := Option.bind_eq_some_iff.mp hstep
      rw [Option.ite_none_right_eq_some, Option.some.injEq] at hstep
      exact hstep.2 ▸ h.finish hrun hstep.1 result
  | expire i =>
      rw [serverStep, Option.ite_none_right_eq_some] at hstep
      obtain ⟨hmem, hstep⟩ := hstep
      obtain ⟨run, hrun, rfl⟩ := Option.map_eq_some_iff.mp hstep
      exact h.expire hrun hmem

theorem reachable (h : (serverSystem config).Reachable System.anyStep s) :
    ServerInv config s := by
  apply h.invariant (ServerInv config)
  · rintro _ rfl
    exact init
  · intro s a t hs _ hstep
    exact hs.step a hstep

theorem getRun_of_live (h : ServerInv config s) {id : String} {i : Nat} {status : RunStatus}
    (hlive : s.Live id i status) : s.getRun id = some i := by
  obtain ⟨run, hrun, rfl, hlive, -⟩ := hlive
  exact h.recorded i run hrun hlive

theorem getRun_of_retained (h : ServerInv config s) {id : String} {i : Nat}
    {outcome : RunStatus} (hkept : s.Retained id i outcome) : s.getRun id = some i := by
  obtain ⟨run, hrun, rfl, -, hmem⟩ := hkept
  obtain ⟨run', -, hrun', -, hget⟩ := h.kept i hmem
  obtain rfl := Option.some.inj (hrun'.symm.trans hrun)
  exact hget

/-- The map has an entry for the live and the retained executions and no others. -/
theorem forgotten_iff (h : ServerInv config s) (id : String) :
    s.Forgotten id ↔ s.getRun id = none := by
  constructor
  · intro hforgotten
    cases hget : s.getRun id with
    | none => rfl
    | some i =>
        obtain ⟨run, hrun, hid, hkind⟩ := h.entry id i hget
        cases hkind with
        | inl hlive => exact absurd ⟨run, hrun, hid, hlive, rfl⟩ (hforgotten i run.status).1
        | inr hended =>
            obtain ⟨outcome, hstage, hmem⟩ := hended
            exact absurd ⟨run, hrun, hid, hstage, hmem⟩ (hforgotten i outcome).2
  · intro hnone i status
    constructor
    · intro hlive
      exact nomatch hnone.symm.trans (h.getRun_of_live hlive)
    · intro hkept
      exact nomatch hnone.symm.trans (h.getRun_of_retained hkept)

theorem execute_of_entry {id : String} {i : Nat} {run : Run} (hget : s.getRun id = some i)
    (hrun : s.objects[i]? = some run) (streaming : Bool) (now : Nat) :
    Pi.execute config s id streaming now =
      if run.status ∈ [.cancelling, .cancelled] then (.cancelled, s) else (.alreadyActive, s) := by
  rw [Pi.execute, hget, Option.bind_some, hrun]

theorem live_status (h : ServerInv config s) {id : String} {i : Nat} {status : RunStatus}
    (hlive : s.Live id i status) : status ∈ [.queued, .running, .cancelling] := by
  obtain ⟨run, hrun, -, hlive, rfl⟩ := hlive
  have hstatus := h.status i run hrun
  simp only [Run.StatusOk] at hstatus
  rcases hlive with hstage | hstage <;> rw [hstage] at hstatus <;>
    rcases hstatus with hstatus | hstatus <;> rw [hstatus] <;> decide

theorem resume_of_step {i : Nat} {run : Run} {t : Server} (hrun : s.objects[i]? = some run)
    (hstep : serverStep config s (.resume i) = some t) :
    ∃ settlement, s.gate.settledAs i = some settlement ∧ resume s i run settlement = t := by
  rw [serverStep, hrun, Option.bind_some, Option.ite_none_right_eq_some] at hstep
  obtain ⟨settled, hfound, ht⟩ := Option.map_eq_some_iff.mp hstep.2
  exact ⟨settled.2, by rw [ConcurrencyGate.settledAs, hfound, Option.map_some], ht⟩

theorem law (h : ServerInv config s) (id : String) : ExecutionLaw config s id where
  status := fun i status hlive => h.live_status hlive
  unique := by
    intro i j status status' hi hj
    exact Option.some.inj ((h.getRun_of_live hi).symm.trans (h.getRun_of_live hj))
  active := by
    intro i status streaming now hlive hmem
    have hget := h.getRun_of_live hlive
    obtain ⟨run, hrun, -, -, rfl⟩ := hlive
    rw [execute_of_entry hget hrun, if_neg]
    intro hstop
    cases hstatus : run.status <;> rw [hstatus] at hmem hstop <;> revert hmem hstop <;> decide
  cancelled := by
    intro i streaming now hcancelled
    have hstatus : ∃ run, s.getRun id = some i ∧ s.objects[i]? = some run ∧
        run.status ∈ [.cancelling, .cancelled] := by
      cases hcancelled with
      | inl hlive =>
          have hget := h.getRun_of_live hlive
          obtain ⟨run, hrun, -, -, hstatus⟩ := hlive
          exact ⟨run, hget, hrun, by rw [hstatus]; decide⟩
      | inr hkept =>
          have hget := h.getRun_of_retained hkept
          obtain ⟨run, hrun, -, hstage, -⟩ := hkept
          have hstatus := h.status i run hrun
          simp only [Run.StatusOk, hstage] at hstatus
          rcases hstatus.2 with hstatus | hstatus
          · exact ⟨run, hget, hrun, by rw [hstatus]; decide⟩
          · exact ⟨run, hget, hrun, by rw [hstatus]; decide⟩
    obtain ⟨run, hget, hrun, hmem⟩ := hstatus
    rw [execute_of_entry hget hrun, if_pos hmem]
  refused := by
    intro streaming now hrefused
    cases hget : s.getRun id with
    | none =>
        rw [Pi.execute, hget] at hrefused
        cases hrefused
    | some i =>
        obtain ⟨run, hrun, hid, hkind⟩ := h.entry id i hget
        have hactive : run.status ∉ [.cancelling, .cancelled] := by
          intro hmem
          rw [execute_of_entry hget hrun, if_pos hmem] at hrefused
          cases hrefused
        cases hkind with
        | inl hlive =>
            have hlive : s.Live id i run.status := ⟨run, hrun, hid, hlive, rfl⟩
            refine ⟨i, run.status, .inl ⟨hlive, ?_⟩⟩
            have hstatus := h.live_status hlive
            cases hs : run.status <;> rw [hs] at hstatus hactive <;> revert hstatus hactive <;>
              decide
        | inr hended =>
            obtain ⟨outcome, hstage, hmem⟩ := hended
            refine ⟨i, outcome, .inr ⟨⟨run, hrun, hid, hstage, hmem⟩, ?_⟩⟩
            have hstatus := h.status i run hrun
            simp only [Run.StatusOk, hstage] at hstatus
            obtain ⟨houtcome, rfl | hs⟩ := hstatus
            · cases hs : run.status <;> rw [hs] at houtcome hactive <;>
                revert houtcome hactive <;> decide
            · exact absurd (by rw [hs]; decide) hactive
  accepted := by
    intro streaming now hforgotten
    have hnone := (h.forgotten_iff id).mp hforgotten
    rw [Pi.execute, hnone]
    refine ⟨_, rfl, _, List.getElem?_concat_length, rfl, .inl rfl, rfl⟩
  stopped := by
    intro now hforgotten
    have hnone := (h.forgotten_iff id).mp hforgotten
    rw [stopRun, h.findRun_eq, hnone]
  granted := by
    intro i status t hlive hgranted hstep
    obtain ⟨run, hrun, hid, -, -⟩ := hlive
    obtain ⟨settlement, hsettled, rfl⟩ := resume_of_step hrun hstep
    rw [hgranted, Option.some.injEq] at hsettled
    subst hsettled
    have hstarted : (resume s i run .granted).objects[i]? = some { run with
        status := if run.aborted then .cancelling else .running
        stage := .executing } := by
      rw [resume, Server.setStage_setStatus]
      exact (exists_getElem?_modify hrun).trans (congrArg some (if_pos rfl))
    exact ⟨_, _, hstarted, hid, .inr rfl, rfl⟩
  rejected := by
    intro i status settlement t hlive hrejected hne hstep
    have ht := h.step _ hstep
    obtain ⟨run, hrun, hid, -, -⟩ := hlive
    obtain ⟨settlement', hsettled, rfl⟩ := resume_of_step hrun hstep
    rw [hrejected, Option.some.injEq] at hsettled
    subst hsettled
    have hdeleted : ((s.deleteRun run.id).setStage i .rejected).getRun id = none := by
      refine (getRun_deleteRun s run.id id).trans ?_
      rw [if_pos hid.symm]
    cases settlement with
    | granted => exact absurd rfl hne
    | timedOut => exact (ht.forgotten_iff id).mpr hdeleted
    | cancelled => exact (ht.forgotten_iff id).mpr hdeleted
  ended := by
    intro i status result t hlive hstep
    obtain ⟨run, hrun, hid, -, -⟩ := hlive
    rw [serverStep, hrun, Option.bind_some, Option.ite_none_right_eq_some,
      Option.some.injEq] at hstep
    obtain ⟨-, rfl⟩ := hstep
    have hended : (Pi.finish s i run result).objects[i]? = some { run with
        status := result.status run.aborted
        stage := .ended (result.status run.aborted) } := by
      rw [Pi.finish, Server.setStage_setStatus]
      exact (exists_getElem?_modify hrun).trans (congrArg some (if_pos rfl))
    exact ⟨_, _, hended, hid, rfl, List.mem_append_right _ (List.mem_singleton.mpr rfl)⟩
  expired := by
    intro i status t hkept hstep
    have ht := h.step _ hstep
    obtain ⟨run, hrun, hid, -, hmem⟩ := hkept
    rw [serverStep, if_pos hmem, hrun, Option.map_some, Option.some.injEq] at hstep
    subst hstep
    apply (ht.forgotten_iff id).mpr
    refine (getRun_deleteRun s run.id id).trans ?_
    rw [if_pos hid.symm]

end ServerInv

/-- At most one execution of an id is live; the id is answered as active, then as cancelled
    where a stop has reached it, and accepted again once its entry is gone. -/
theorem serverSystem_law (config : PiConfig) {s : Server}
    (h : (serverSystem config).Reachable System.anyStep s) (id : String) :
    ExecutionLaw config s id :=
  (ServerInv.reachable h).law id

def oneSlot : PiConfig := ⟨1, 4⟩

/-- An execution, a stop while it runs, and its end. -/
def stoppedRun : List Action :=
  [.execute "e" false 0, .resume 0, .stop "e" 1, .finish 0 .cancelled]

theorem serverSystem_law_stoppedRun : ∃ s,
    (serverSystem oneSlot).exec .new stoppedRun = some s ∧ ExecutionLaw oneSlot s "e" := by
  refine ⟨_, rfl, ?_⟩
  apply serverSystem_law
  exact ⟨.new, rfl, System.path_of_exec stoppedRun rfl⟩

/-- While the run is cancelling its id is not refused as active, and a retry is not accepted
    after it has ended. -/
theorem stoppedRun_answers :
    (∃ s, (serverSystem oneSlot).exec .new (stoppedRun.take 3) = some s ∧
      s.Live "e" 0 .cancelling ∧ (execute oneSlot s "e" false 2).1 = .cancelled) ∧
    ∃ s, (serverSystem oneSlot).exec .new stoppedRun = some s ∧
      (∀ run ∈ s.objects, run.stage = .ended .cancelled) ∧
      (execute oneSlot s "e" false 2).1 = .cancelled := by
  refine ⟨⟨_, rfl, ⟨_, rfl, rfl, .inr rfl, rfl⟩, rfl⟩, ⟨_, rfl, ?_, rfl⟩⟩
  decide

end Pi
end HermesPlatform
