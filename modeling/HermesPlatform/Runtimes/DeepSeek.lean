/-
  HermesPlatform.Runtimes.DeepSeek

  The DeepSeek runtime bridge: `RuntimeManager.run` from one await point to the next,
  the `HarnessProcess` it drives, and `RuntimeManager.stop`.

  `stop` sets a flag and signals the child process.  The flag is read once, when the run
  leaves the queue of the gate, and the signal needs a child; a stop that arrives between
  the two, or after the child has reported that it is idle, is lost.

  Each run steps on its own; the lock of the manager and the slots of the gate are what
  the runs share.
-/

import HermesPlatform.Lib.Transition
import Mathlib.Logic.Function.Basic

namespace HermesPlatform
namespace DeepSeek

open Transition

/-! ## The child process and its wire -/

/-- The events `_final_response` and `_finish_reason` look at; `kind` is `none` where it
    is missing from a `turn/end`. -/
inductive HarnessEvent where
  | assistantMessage (text : String)
  | turnEnd (kind : Option String)
  | other
deriving DecidableEq, Repr

inductive HarnessRequest where
  | initialization
  | prompt
deriving DecidableEq, Repr

/-- `HarnessCancelledError`, or any other exception. -/
inductive RunError where
  | cancelled
  | failed
deriving DecidableEq, Repr

/-- A line that the child writes to its stdout. -/
inductive Message where
  | reply (request : HarnessRequest) (valid : Bool)
  | event (event : HarnessEvent)
  /-- `session.status` with status `idle`. -/
  | idle
deriving DecidableEq, Repr

/-- What `_read_stdout` puts into the queue of notifications. -/
inductive Notification where
  | event (event : HarnessEvent)
  | idle
  | error (error : RunError)
deriving DecidableEq, Repr

inductive Child where
  | absent
  | running
  | exited
deriving DecidableEq, Repr

/-- A `HarnessProcess`; `responses` are the futures that are done, with the exception
    they raise. -/
structure HarnessProcess where
  cancelled : Bool
  child : Child
  signalled : Bool
  stdout : List Message
  readerDone : Bool
  responses : List (HarnessRequest × Option RunError)
  notifications : List Notification
  events : List HarnessEvent
deriving DecidableEq, Repr

/-- `HarnessProcess(..)`. -/
def HarnessProcess.new : HarnessProcess :=
  { cancelled := false
    child := .absent
    signalled := false
    stdout := []
    readerDone := false
    responses := []
    notifications := []
    events := [] }

def HarnessProcess.cancel (process : HarnessProcess) : HarnessProcess :=
  { process with
    cancelled := true
    signalled := process.signalled || process.child = .running }

/-- The child has not reported that it is idle, as far as it has not been heard yet. -/
def HarnessProcess.quiet (process : HarnessProcess) : Bool :=
  .idle ∉ process.stdout ∧ .idle ∉ process.notifications

/-- `_final_response(events)`. -/
def finalResponse (events : List HarnessEvent) : String :=
  (events.reverse.findSome? fun
    | .assistantMessage text => some text
    | _ => none).getD ""

/-- `_finish_reason(events)`; the outer `none` is its exception. -/
def finishReason (events : List HarnessEvent) : Option (Option String) :=
  match events.reverse.findSome? fun
    | .turnEnd kind => some kind
    | _ => none with
  | none => some none
  | some kind => kind.map some

/-! ## Runs -/

/-- The await points of `run`. -/
inductive RunStage where
  /-- `self.gate.acquire()`. -/
  | waitingGate
  /-- The lock in `_execution_uid`. -/
  | waitingUid
  /-- The thread of `_assign_workspace_owner`, under the lock. -/
  | assigningUid
  | startingDispatcher
  /-- `create_subprocess_exec`. -/
  | spawning
  | initializing
  | prompting
  /-- The loop over the notifications. -/
  | turn
  /-- `_collect_artifacts`. -/
  | collecting (output : String)
  /-- `process.close()` in the `finally`. -/
  | closing
  /-- The lock around `self.runs.pop`. -/
  | popping
  | finished
deriving DecidableEq, Repr

inductive RunResult where
  | completed (output : String)
  | raised (error : RunError)
deriving DecidableEq, Repr

/-- `result` is set when the body of the `try` returns or raises. -/
structure ActiveRun where
  id : String
  sessionId : String
  stage : RunStage
  cancelled : Bool
  acquired : Bool
  process : Option HarnessProcess
  result : Option RunResult
deriving DecidableEq, Repr

def ActiveRun.leave (run : ActiveRun) (result : RunResult) : ActiveRun :=
  { run with stage := .closing, result := some result }

/-- The request whose future the run awaits. -/
def RunStage.request : RunStage → Option HarnessRequest
  | .initializing => some .initialization
  | .prompting => some .prompt
  | _ => none

/-- The body of the `try` is still running. -/
def RunStage.running : RunStage → Bool
  | .closing | .popping | .finished => false
  | _ => true

/-- `_request` returns or raises. -/
def ActiveRun.replied (run : ActiveRun) (error : Option RunError) : ActiveRun :=
  match error with
  | some error => run.leave (.raised error)
  | none => { run with stage := if run.stage = .initializing then .prompting else .turn }

/-- The `HarnessResult` after the idle status, and the checks of `run` on it. -/
def ActiveRun.turnEnded (run : ActiveRun) (events : List HarnessEvent) : ActiveRun :=
  match finishReason events with
  | none => run.leave (.raised .failed)
  | some reason =>
      if reason = some "error" ∨ finalResponse events = "" then run.leave (.raised .failed)
      else { run with stage := .collecting (finalResponse events) }

/-- One turn of the loop in `_read_stdout`: a reply sets the future that is awaited, a
    notification is queued. -/
def ActiveRun.readLine (run : ActiveRun) (process : HarnessProcess) (line : Message)
    (rest : List Message) : ActiveRun :=
  let process := { process with stdout := rest }
  match line with
  | .reply request valid =>
      if run.stage.request = some request ∧ process.responses.lookup request = none then
        { run with process := some { process with
            responses := process.responses ++ [(request, if valid then none else some .failed)] } }
      else { run with process := some process }
  | .event event =>
      { run with process := some { process with notifications := process.notifications ++ [.event event] } }
  | .idle =>
      { run with process := some { process with notifications := process.notifications ++ [.idle] } }

/-- The end of `_read_stdout`: the awaited future and the queue get the error. -/
def ActiveRun.readEof (run : ActiveRun) (process : HarnessProcess) : ActiveRun :=
  let error : RunError := if process.cancelled then .cancelled else .failed
  { run with process := some { process with
      readerDone := true
      responses := process.responses ++ (run.stage.request.map fun request => (request, some error)).toList
      notifications := process.notifications ++ [.error error] } }

/-- `stop` on a run that is registered. -/
def ActiveRun.stop (run : ActiveRun) : ActiveRun :=
  { run with cancelled := true, process := run.process.map HarnessProcess.cancel }

inductive RunAction where
  | enterGate
  | lockUid
  | uidAssigned (tools : Bool)
  | dispatcherStarted
  | childSpawned
  | childWrites (message : Message)
  | childExits
  | readLine
  | readEof
  | replied
  | consume
  | collected
  /-- A time-out, a rejected option, an error of the system or of the wire. -/
  | raise
  | closed
  | pop
deriving DecidableEq, Repr

/-- A step of one run; `lockFree` and `slotFree` are the lock and the gate. -/
def runStep (lockFree slotFree : Bool) (run : ActiveRun) : RunAction → Option ActiveRun
  | .enterGate =>
      if run.stage = .waitingGate ∧ slotFree then
        let run := { run with acquired := true }
        if run.cancelled then some (run.leave (.raised .cancelled))
        else some { run with stage := .waitingUid }
      else none
  | .lockUid =>
      if run.stage = .waitingUid ∧ lockFree then some { run with stage := .assigningUid } else none
  | .uidAssigned tools =>
      if run.stage = .assigningUid then
        some { run with
          stage := if tools then .startingDispatcher else .spawning
          process := some .new }
      else none
  | .dispatcherStarted =>
      if run.stage = .startingDispatcher then some { run with stage := .spawning } else none
  | .childSpawned =>
      if run.stage = .spawning then
        some { run with
          stage := .initializing
          process := run.process.map fun process => { process with child := .running } }
      else none
  | .childWrites message =>
      match run.process with
      | some process =>
          if process.child = .running then
            some { run with process := some { process with stdout := process.stdout ++ [message] } }
          else none
      | none => none
  | .childExits =>
      match run.process with
      | some process =>
          if process.child = .running then
            some { run with process := some { process with child := .exited } }
          else none
      | none => none
  | .readLine =>
      match run.process with
      | some process =>
          match process.stdout with
          | line :: rest => some (run.readLine process line rest)
          | [] => none
      | none => none
  | .readEof =>
      match run.process with
      | some process =>
          if process.stdout = [] ∧ process.child = .exited ∧ ¬ process.readerDone then
            some (run.readEof process)
          else none
      | none => none
  | .replied =>
      match run.process, run.stage.request with
      | some process, some request => (process.responses.lookup request).map run.replied
      | _, _ => none
  | .consume =>
      match run.stage, run.process with
      | .turn, some process =>
          match process.notifications with
          | .event event :: rest =>
              some { run with process := some { process with
                notifications := rest
                events := process.events ++ [event] } }
          | .idle :: _ => some (run.turnEnded process.events)
          | .error error :: _ => some (run.leave (.raised error))
          | [] => none
      | _, _ => none
  | .collected =>
      match run.stage with
      | .collecting output => some (run.leave (.completed output))
      | _ => none
  | .raise => if run.stage.running then some (run.leave (.raised .failed)) else none
  | .closed =>
      if run.stage = .closing then
        some { run with
          stage := .popping
          acquired := false
          process := run.process.map fun process => { process with child := .exited } }
      else none
  | .pop => if run.stage = .popping ∧ lockFree then some { run with stage := .finished } else none

/-! ## The manager -/

/-- A clock in milliseconds, `pending_stops`, and the runs with those that have ended. -/
structure RuntimeManager where
  now : Nat
  pendingStops : String → Option Nat
  runs : List ActiveRun

/-- `max_concurrency`. -/
structure Settings where
  maxConcurrency : Nat

inductive ManagerAction where
  | tick
  | accept (runId sessionId : String)
  | stop (runId : String)
  | run (index : Nat) (action : RunAction)
deriving DecidableEq, Repr

/-- The run is in `self.runs`. -/
def ActiveRun.registered (run : ActiveRun) : Bool := run.stage ≠ .finished

/-- Only `_execution_uid` awaits anything while it holds the lock. -/
def RuntimeManager.lockFree (st : RuntimeManager) : Bool :=
  st.runs.all (·.stage ≠ .assigningUid)

def RuntimeManager.slotFree (st : RuntimeManager) (settings : Settings) : Bool :=
  st.runs.countP (·.acquired) < settings.maxConcurrency

def RuntimeManager.pendingStop (st : RuntimeManager) (runId : String) : Bool :=
  st.now < (st.pendingStops runId).getD 0

/-- The registration in `run`, and the check that follows it without an await. -/
def RuntimeManager.accept (st : RuntimeManager) (runId sessionId : String) : RuntimeManager :=
  let run : ActiveRun := ⟨runId, sessionId, .waitingGate, st.pendingStop runId, false, none, none⟩
  { st with
    pendingStops := Function.update st.pendingStops runId none
    runs := st.runs ++ [if run.cancelled then run.leave (.raised .cancelled) else run] }

/-- A stop of a run that is not registered waits for it for 30 seconds. -/
def RuntimeManager.expectStop (st : RuntimeManager) (runId : String) : RuntimeManager :=
  let kept : String → Option Nat := fun key => (st.pendingStops key).filter (st.now < ·)
  { st with pendingStops := Function.update kept runId (some (st.now + 30000)) }

def managerStep (settings : Settings) (st : RuntimeManager) : ManagerAction → Option RuntimeManager
  | .tick => some { st with now := st.now + 1 }
  | .accept runId sessionId =>
      if st.lockFree ∧ ∀ run ∈ st.runs, run.registered → run.id ≠ runId ∧ run.sessionId ≠ sessionId then
        some (st.accept runId sessionId)
      else none
  | .stop runId =>
      if st.lockFree then
        match st.runs.findIdx? fun run => run.registered && run.id = runId with
        | some i => some { st with runs := st.runs.modify i ActiveRun.stop }
        | none => some (st.expectStop runId)
      else none
  | .run i action =>
      match st.runs[i]? with
      | some run =>
          (runStep st.lockFree (st.slotFree settings) run action).map fun run' =>
            { st with runs := st.runs.set i run' }
      | none => none

def runtimeSystem (settings : Settings) : System RuntimeManager ManagerAction where
  init st := st.runs = [] ∧ ∀ runId, st.pendingStops runId = none
  step := managerStep settings

/-! ## The law -/

/-- No run completes that a stop has been accepted for. -/
def NoStopLost (st : RuntimeManager) : Prop :=
  ∀ run ∈ st.runs, run.cancelled = true → ∀ output, run.result ≠ some (.completed output)

/-- A stop takes effect now: the run still waits for the gate, or its child is there and has
    not reported that it is idle, or the run has failed already. -/
def ActiveRun.stopSeen (run : ActiveRun) : Bool :=
  match run.stage with
  | .waitingGate => true
  | .initializing | .prompting | .turn => run.process.any HarnessProcess.quiet
  | .closing | .popping =>
      match run.result with
      | some (.raised _) => true
      | _ => false
  | _ => false

/-- Every stop takes effect when it arrives, and a child that has been signalled does not
    report that it is idle. -/
def StopSeen (st : RuntimeManager) : ManagerAction → Prop
  | .stop runId => ∀ run ∈ st.runs, run.registered = true → run.id = runId → run.stopSeen = true
  | .run i (.childWrites .idle) =>
      ∀ run ∈ st.runs[i]?, ∀ process ∈ run.process, process.signalled = false
  | _ => True

instance (st : RuntimeManager) (action : ManagerAction) : Decidable (StopSeen st action) :=
  match action with
  | .stop runId => inferInstanceAs (Decidable
      (∀ run ∈ st.runs, run.registered = true → run.id = runId → run.stopSeen = true))
  | .run i (.childWrites .idle) => inferInstanceAs (Decidable
      (∀ run ∈ st.runs[i]?, ∀ process ∈ run.process, process.signalled = false))
  | .run _ (.childWrites (.reply _ _)) | .run _ (.childWrites (.event _)) => isTrue trivial
  | .run _ .enterGate | .run _ .lockUid | .run _ (.uidAssigned _) | .run _ .dispatcherStarted
  | .run _ .childSpawned | .run _ .childExits | .run _ .readLine | .run _ .readEof
  | .run _ .replied | .run _ .consume | .run _ .collected | .run _ .raise | .run _ .closed
  | .run _ .pop | .tick | .accept _ _ => isTrue trivial

/-! ## One run -/

variable {settings : Settings} {st st' : RuntimeManager} {run run' : ActiveRun}
  {process : HarnessProcess} {lockFree slotFree : Bool}

def RunStage.talking : RunStage → Bool
  | .initializing | .prompting | .turn => true
  | _ => false

/-- The stop of the process has reached the child. -/
structure HarnessProcess.Stopped (process : HarnessProcess) : Prop where
  quiet : process.quiet = true
  signalled : process.child = .running → process.signalled = true

/-- What holds of a run that has been stopped. -/
inductive StoppedRun (run : ActiveRun) : Prop where
  | waiting (hstage : run.stage = .waitingGate)
  | talking (hstage : run.stage.talking = true) (process : HarnessProcess)
      (hprocess : run.process = some process) (hstopped : process.Stopped)
  | ended (hstage : run.stage.running = false) (error : RunError)
      (hresult : run.result = some (.raised error))

def StopInv (run : ActiveRun) : Prop := run.cancelled = true → StoppedRun run

theorem StoppedRun.leave (run : ActiveRun) (error : RunError) :
    StoppedRun (run.leave (.raised error)) := .ended rfl error rfl

theorem quiet_iff :
    process.quiet = true ↔ Message.idle ∉ process.stdout ∧ Notification.idle ∉ process.notifications := by
  simp [HarnessProcess.quiet]

theorem stop_talking (hstage : run.stage.talking = true)
    (h : run.process.any HarnessProcess.quiet = true) : StoppedRun run.stop := by
  obtain ⟨process, hprocess, hquiet⟩ := (Option.any_eq_true _ _).1 h
  refine .talking hstage process.cancel ?_ ⟨hquiet, ?_⟩
  · rw [ActiveRun.stop, hprocess]
    rfl
  · intro hchild
    simp only [HarnessProcess.cancel] at hchild ⊢
    simp [hchild]

theorem stop_ended (hstage : run.stage.running = false) {error : RunError}
    (h : run.result = some (.raised error)) : StoppedRun run.stop :=
  .ended hstage error h

theorem stop_stoppedRun (h : run.stopSeen = true) : StoppedRun run.stop := by
  rw [ActiveRun.stopSeen] at h
  split at h
  next hstage => exact .waiting hstage
  next hstage => exact stop_talking (by rw [hstage]; rfl) h
  next hstage => exact stop_talking (by rw [hstage]; rfl) h
  next hstage => exact stop_talking (by rw [hstage]; rfl) h
  next hstage =>
    split at h
    next hresult => exact stop_ended (by rw [hstage]; rfl) hresult
    next => cases h
  next hstage =>
    split at h
    next hresult => exact stop_ended (by rw [hstage]; rfl) hresult
    next => cases h
  next => cases h

/-- A stopped run that talks to its child goes on with the process changed. -/
theorem StoppedRun.withProcess {process' : HarnessProcess} (h : StoppedRun run)
    (hprocess : run.process = some process) (hkeep : process.Stopped → process'.Stopped) :
    StoppedRun { run with process := some process' } := by
  cases h with
  | waiting hstage => exact .waiting hstage
  | talking hstage stopped hstopped hinv =>
      obtain rfl : process = stopped := Option.some.inj (hprocess.symm.trans hstopped)
      exact .talking hstage process' rfl (hkeep hinv)
  | ended hstage error hresult => exact .ended hstage error hresult

theorem StoppedRun.readLine {line : Message} {rest : List Message} (h : StoppedRun run)
    (hprocess : run.process = some process) (hline : process.stdout = line :: rest) :
    StoppedRun (run.readLine process line rest) := by
  have hquiet : process.Stopped → line ≠ .idle ∧ Message.idle ∉ rest ∧
      Notification.idle ∉ process.notifications := by
    intro hinv
    obtain ⟨hstdout, hqueue⟩ := quiet_iff.1 hinv.quiet
    rw [hline, List.mem_cons, not_or] at hstdout
    exact ⟨fun heq => hstdout.1 heq.symm, hstdout.2, hqueue⟩
  cases line with
  | reply request valid =>
      rw [ActiveRun.readLine]
      split
      · exact h.withProcess hprocess fun hinv =>
          ⟨quiet_iff.2 ⟨(hquiet hinv).2.1, (hquiet hinv).2.2⟩, hinv.signalled⟩
      · exact h.withProcess hprocess fun hinv =>
          ⟨quiet_iff.2 ⟨(hquiet hinv).2.1, (hquiet hinv).2.2⟩, hinv.signalled⟩
  | event event =>
      refine h.withProcess hprocess fun hinv => ⟨quiet_iff.2 ⟨(hquiet hinv).2.1, ?_⟩, hinv.signalled⟩
      rw [List.mem_append, not_or]
      exact ⟨(hquiet hinv).2.2, by simp⟩
  | idle =>
      exact h.withProcess hprocess fun hinv => absurd rfl (hquiet hinv).1

theorem StoppedRun.readEof (h : StoppedRun run) (hprocess : run.process = some process) :
    StoppedRun (run.readEof process) := by
  refine h.withProcess hprocess fun hinv => ⟨quiet_iff.2 ?_, hinv.signalled⟩
  obtain ⟨hstdout, hqueue⟩ := quiet_iff.1 hinv.quiet
  refine ⟨hstdout, ?_⟩
  rw [List.mem_append, not_or]
  exact ⟨hqueue, by simp⟩

theorem StoppedRun.replied {request : HarnessRequest} (h : StoppedRun run)
    (hrequest : run.stage.request = some request) (error : Option RunError) :
    StoppedRun (run.replied error) := by
  cases error with
  | some error => exact .leave run error
  | none =>
      cases h with
      | waiting hstage =>
          rw [hstage] at hrequest
          cases hrequest
      | talking hstage process hprocess hstopped =>
          refine .talking ?_ process hprocess hstopped
          rw [ActiveRun.replied]
          dsimp only
          split <;> rfl
      | ended hstage error hresult =>
          cases hrun : run.stage <;> rw [hrun] at hstage hrequest <;> cases hstage <;> cases hrequest

/-- **Step lemma for one run.**  A stopped run stays stopped as long as its child does not
    report that it is idle. -/
theorem StoppedRun.step {action : RunAction} (h : StoppedRun run) (hcancelled : run.cancelled = true)
    (hok : action = .childWrites .idle → ∀ process ∈ run.process, process.signalled = false)
    (hstep : runStep lockFree slotFree run action = some run') : StoppedRun run' := by
  have hno : ∀ stage : RunStage, stage ≠ .waitingGate → stage.talking = false → stage.running = true →
      run.stage ≠ stage := by
    rintro stage hgate htalking hrunning rfl
    cases h with
    | waiting hstage => exact hgate hstage
    | talking hstage => rw [hstage] at htalking; cases htalking
    | ended hstage => rw [hstage] at hrunning; cases hrunning
  cases action with
  | enterGate =>
      simp only [runStep, hcancelled, if_true, Option.ite_none_right_eq_some, Option.some.injEq] at hstep
      obtain ⟨_, rfl⟩ := hstep
      exact .leave _ .cancelled
  | lockUid =>
      simp only [runStep, Option.ite_none_right_eq_some] at hstep
      exact absurd hstep.1.1 (hno _ (by decide) rfl rfl)
  | uidAssigned tools =>
      simp only [runStep, Option.ite_none_right_eq_some] at hstep
      exact absurd hstep.1 (hno _ (by decide) rfl rfl)
  | dispatcherStarted =>
      simp only [runStep, Option.ite_none_right_eq_some] at hstep
      exact absurd hstep.1 (hno _ (by decide) rfl rfl)
  | childSpawned =>
      simp only [runStep, Option.ite_none_right_eq_some] at hstep
      exact absurd hstep.1 (hno _ (by decide) rfl rfl)
  | childWrites message =>
      simp only [runStep] at hstep
      split at hstep
      next process hprocess =>
        simp only [Option.ite_none_right_eq_some, Option.some.injEq] at hstep
        obtain ⟨hchild, rfl⟩ := hstep
        refine h.withProcess hprocess fun hinv => ⟨quiet_iff.2 ?_, hinv.signalled⟩
        obtain ⟨hstdout, hqueue⟩ := quiet_iff.1 hinv.quiet
        refine ⟨?_, hqueue⟩
        rw [List.mem_append, not_or, List.mem_singleton]
        refine ⟨hstdout, ?_⟩
        rintro rfl
        exact absurd (hinv.signalled hchild) (by rw [hok rfl process hprocess]; decide)
      next => cases hstep
  | childExits =>
      simp only [runStep] at hstep
      split at hstep
      next process hprocess =>
        simp only [Option.ite_none_right_eq_some, Option.some.injEq] at hstep
        obtain ⟨_, rfl⟩ := hstep
        exact h.withProcess hprocess fun hinv => ⟨hinv.quiet, fun hchild => nomatch hchild⟩
      next => cases hstep
  | readLine =>
      simp only [runStep] at hstep
      split at hstep
      next process hprocess =>
        split at hstep
        next line rest hline =>
          cases hstep
          exact h.readLine hprocess hline
        next => cases hstep
      next => cases hstep
  | readEof =>
      simp only [runStep] at hstep
      split at hstep
      next process hprocess =>
        simp only [Option.ite_none_right_eq_some, Option.some.injEq] at hstep
        obtain ⟨_, rfl⟩ := hstep
        exact h.readEof hprocess
      next => cases hstep
  | replied =>
      simp only [runStep] at hstep
      split at hstep
      next process request hprocess hrequest =>
        obtain ⟨error, _, rfl⟩ := Option.map_eq_some_iff.1 hstep
        exact h.replied hrequest error
      next => cases hstep
  | consume =>
      simp only [runStep] at hstep
      split at hstep
      next process hstage hprocess =>
        split at hstep
        next event rest hqueue =>
          cases hstep
          refine h.withProcess hprocess fun hinv => ⟨quiet_iff.2 ?_, hinv.signalled⟩
          obtain ⟨hstdout, hidle⟩ := quiet_iff.1 hinv.quiet
          rw [hqueue, List.mem_cons, not_or] at hidle
          exact ⟨hstdout, hidle.2⟩
        next rest hqueue =>
          -- The queue of a stopped run holds no idle status.
          cases h with
          | waiting hgate => rw [hstage] at hgate; cases hgate
          | talking _ stopped hstopped hinv =>
              obtain rfl : process = stopped := Option.some.inj (hprocess.symm.trans hstopped)
              have hidle := (quiet_iff.1 hinv.quiet).2
              rw [hqueue] at hidle
              exact absurd List.mem_cons_self hidle
          | ended hended => rw [hstage] at hended; cases hended
        next error rest hqueue =>
          cases hstep
          exact .leave run error
        next => cases hstep
      next => cases hstep
  | collected =>
      simp only [runStep] at hstep
      split at hstep
      next output hstage => exact absurd hstage (hno _ (by simp) rfl rfl)
      next => cases hstep
  | raise =>
      simp only [runStep, Option.ite_none_right_eq_some, Option.some.injEq] at hstep
      obtain ⟨_, rfl⟩ := hstep
      exact .leave run .failed
  | closed =>
      simp only [runStep, Option.ite_none_right_eq_some, Option.some.injEq] at hstep
      obtain ⟨hstage, rfl⟩ := hstep
      cases h with
      | waiting hgate => rw [hstage] at hgate; cases hgate
      | talking htalking => rw [hstage] at htalking; cases htalking
      | ended _ error hresult => exact .ended rfl error hresult
  | pop =>
      simp only [runStep, Option.ite_none_right_eq_some, Option.some.injEq] at hstep
      obtain ⟨hstage, rfl⟩ := hstep
      cases h with
      | waiting hgate => rw [hstage.1] at hgate; cases hgate
      | talking htalking => rw [hstage.1] at htalking; cases htalking
      | ended _ error hresult => exact .ended rfl error hresult

theorem readLine_eq (run : ActiveRun) (process : HarnessProcess) (line : Message) (rest : List Message) :
    ∃ process', run.readLine process line rest = { run with process := some process' } := by
  cases line with
  | reply request valid =>
      rw [ActiveRun.readLine]
      split
      · exact ⟨_, rfl⟩
      · exact ⟨_, rfl⟩
  | event | idle => exact ⟨_, rfl⟩

theorem turnEnded_cancelled (events : List HarnessEvent) :
    (run.turnEnded events).cancelled = run.cancelled := by
  rw [ActiveRun.turnEnded]
  split
  · rfl
  · split <;> rfl

/-- Only `stop` sets the flag of a run. -/
theorem runStep_cancelled {action : RunAction}
    (h : runStep lockFree slotFree run action = some run') : run'.cancelled = run.cancelled := by
  cases action with
  | enterGate =>
      simp only [runStep, Option.ite_none_right_eq_some] at h
      obtain ⟨_, h⟩ := h
      split at h <;> cases h <;> rfl
  | lockUid | uidAssigned | dispatcherStarted | childSpawned | raise | closed | pop =>
      simp only [runStep, Option.ite_none_right_eq_some, Option.some.injEq] at h
      obtain ⟨_, rfl⟩ := h
      rfl
  | childWrites | childExits | readEof =>
      simp only [runStep] at h
      split at h
      · simp only [Option.ite_none_right_eq_some, Option.some.injEq] at h
        obtain ⟨_, rfl⟩ := h
        rfl
      · cases h
  | readLine =>
      simp only [runStep] at h
      split at h
      next process hprocess =>
        split at h <;> cases h
        next line rest hline =>
          obtain ⟨process', heq⟩ := readLine_eq run process line rest
          rw [heq]
      next => cases h
  | replied =>
      simp only [runStep] at h
      split at h
      · obtain ⟨error, _, rfl⟩ := Option.map_eq_some_iff.1 h
        cases error <;> rfl
      · cases h
  | consume =>
      simp only [runStep] at h
      split at h
      · split at h <;> cases h
        · rfl
        · exact turnEnded_cancelled _
        · rfl
      · cases h
  | collected =>
      simp only [runStep] at h
      split at h <;> cases h
      rfl

/-! ## All runs -/

/-- What holds of the runs but one, and of what that one becomes, holds of all. -/
theorem forall_mem_modify {α : Type} {P : α → Prop} {l : List α} {i : Nat} {f : α → α}
    (h : ∀ a ∈ l, P a) (hi : ∀ a, l[i]? = some a → P (f a)) : ∀ a ∈ l.modify i f, P a := by
  intro a ha
  obtain ⟨j, hj⟩ := List.mem_iff_getElem?.1 ha
  rw [List.getElem?_modify, Option.map_eq_map, Option.map_eq_some_iff] at hj
  obtain ⟨b, hb, rfl⟩ := hj
  split
  next heq =>
    subst heq
    exact hi b hb
  next => exact h b (List.mem_of_getElem? hb)

theorem accept_inv (hinv : ∀ run ∈ st.runs, StopInv run) (runId sessionId : String) :
    ∀ run ∈ (st.accept runId sessionId).runs, StopInv run := by
  intro run hrun
  obtain hold | hnew := List.mem_append.1 hrun
  · exact hinv run hold
  · rw [List.mem_singleton.1 hnew]
    intro _
    split
    · exact .leave _ .cancelled
    · exact .waiting rfl

/-- **Step lemma.** -/
theorem managerStep_inv {action : ManagerAction} (hinv : ∀ run ∈ st.runs, StopInv run)
    (hok : StopSeen st action) (h : managerStep settings st action = some st') :
    ∀ run ∈ st'.runs, StopInv run := by
  cases action with
  | tick =>
      cases h
      exact hinv
  | accept runId sessionId =>
      simp only [managerStep, Option.ite_none_right_eq_some, Option.some.injEq] at h
      obtain ⟨_, rfl⟩ := h
      exact accept_inv hinv runId sessionId
  | stop runId =>
      simp only [managerStep, Option.ite_none_right_eq_some] at h
      obtain ⟨_, h⟩ := h
      split at h <;> cases h
      next i hi =>
        refine forall_mem_modify hinv ?_
        intro run hrun _
        obtain ⟨hbound, hfound, _⟩ := List.findIdx?_eq_some_iff_getElem.1 hi
        rw [List.getElem?_eq_getElem hbound, Option.some.injEq] at hrun
        rw [hrun, Bool.and_eq_true, decide_eq_true_eq] at hfound
        exact stop_stoppedRun
          (hok run (hrun ▸ List.getElem_mem hbound) hfound.1 hfound.2)
      next => exact hinv
  | run i action =>
      simp only [managerStep] at h
      split at h
      next run hrun =>
        obtain ⟨run', hstep, rfl⟩ := Option.map_eq_some_iff.1 h
        intro other hother
        obtain hold | hnew := List.mem_or_eq_of_mem_set hother
        · exact hinv other hold
        · rw [hnew]
          intro hcancelled
          rw [runStep_cancelled hstep] at hcancelled
          refine (hinv run (List.mem_of_getElem? hrun) hcancelled).step hcancelled ?_ hstep
          rintro rfl
          exact hok run hrun
      next => cases h

theorem running_of_request {stage : RunStage} {request : HarnessRequest}
    (h : stage.request = some request) : stage.running = true := by
  cases stage <;> first | rfl | cases h

/-- A run has no result while the body of its `try` is running. -/
def Unsettled (run : ActiveRun) : Prop := run.stage.running = true → run.result = none

theorem Unsettled.turnEnded (h : Unsettled run) (hrunning : run.stage.running = true)
    (events : List HarnessEvent) : Unsettled (run.turnEnded events) := by
  rw [ActiveRun.turnEnded]
  split
  · exact fun hleft => nomatch hleft
  · split
    · exact fun hleft => nomatch hleft
    · exact fun _ => h hrunning

theorem Unsettled.step {action : RunAction} (hinv : Unsettled run)
    (h : runStep lockFree slotFree run action = some run') : Unsettled run' := by
  have hstage : ∀ {stage : RunStage}, run.stage = stage → stage.running = true → run.result = none := by
    rintro stage rfl hrunning
    exact hinv hrunning
  cases action with
  | enterGate =>
      simp only [runStep, Option.ite_none_right_eq_some] at h
      obtain ⟨hgate, h⟩ := h
      split at h <;> cases h
      · exact fun hleft => nomatch hleft
      · exact fun _ => hstage hgate.1 rfl
  | lockUid =>
      simp only [runStep, Option.ite_none_right_eq_some, Option.some.injEq] at h
      obtain ⟨huid, rfl⟩ := h
      exact fun _ => hstage huid.1 rfl
  | uidAssigned | dispatcherStarted | childSpawned =>
      simp only [runStep, Option.ite_none_right_eq_some, Option.some.injEq] at h
      obtain ⟨hat, rfl⟩ := h
      exact fun _ => hstage hat rfl
  | raise | closed | pop =>
      simp only [runStep, Option.ite_none_right_eq_some, Option.some.injEq] at h
      obtain ⟨_, rfl⟩ := h
      exact fun hleft => nomatch hleft
  | childWrites | childExits | readEof =>
      simp only [runStep] at h
      split at h
      · simp only [Option.ite_none_right_eq_some, Option.some.injEq] at h
        obtain ⟨_, rfl⟩ := h
        exact hinv
      · cases h
  | readLine =>
      simp only [runStep] at h
      split at h
      next process hprocess =>
        split at h <;> cases h
        next line rest hline =>
          obtain ⟨process', heq⟩ := readLine_eq run process line rest
          rw [heq]
          exact hinv
      next => cases h
  | replied =>
      simp only [runStep] at h
      split at h
      next process request hprocess hrequest =>
        obtain ⟨error, _, rfl⟩ := Option.map_eq_some_iff.1 h
        cases error with
        | some error => exact fun hleft => nomatch hleft
        | none => exact fun _ => hinv (running_of_request hrequest)
      next => cases h
  | consume =>
      simp only [runStep] at h
      split at h
      next process hturn hprocess =>
        split at h <;> cases h
        · exact hinv
        · exact hinv.turnEnded (by rw [hturn]; rfl) _
        · exact fun hleft => nomatch hleft
      next => cases h
  | collected =>
      simp only [runStep] at h
      split at h <;> cases h
      exact fun hleft => nomatch hleft

theorem managerStep_unsettled {action : ManagerAction} (hinv : ∀ run ∈ st.runs, Unsettled run)
    (h : managerStep settings st action = some st') : ∀ run ∈ st'.runs, Unsettled run := by
  cases action with
  | tick =>
      cases h
      exact hinv
  | accept runId sessionId =>
      simp only [managerStep, Option.ite_none_right_eq_some, Option.some.injEq] at h
      obtain ⟨_, rfl⟩ := h
      intro run hrun
      obtain hold | hnew := List.mem_append.1 hrun
      · exact hinv run hold
      · rw [List.mem_singleton.1 hnew]
        split
        · exact fun hleft => nomatch hleft
        · exact fun _ => rfl
  | stop runId =>
      simp only [managerStep, Option.ite_none_right_eq_some] at h
      obtain ⟨_, h⟩ := h
      split at h <;> cases h
      · exact forall_mem_modify hinv fun run hrun => hinv run (List.mem_of_getElem? hrun)
      · exact hinv
  | run i action =>
      simp only [managerStep] at h
      split at h
      next run hrun =>
        obtain ⟨run', hstep, rfl⟩ := Option.map_eq_some_iff.1 h
        intro other hother
        obtain hold | hnew := List.mem_or_eq_of_mem_set hother
        · exact hinv other hold
        · rw [hnew]
          exact (hinv run (List.mem_of_getElem? hrun)).step hstep
      next => cases h

theorem StoppedRun.not_completed (h : StoppedRun run) (hunsettled : Unsettled run) (output : String) :
    run.result ≠ some (.completed output) := by
  intro hresult
  have hended : run.stage.running = false := by
    cases hrunning : run.stage.running with
    | false => rfl
    | true =>
        rw [hunsettled hrunning] at hresult
        cases hresult
  cases h with
  | waiting hstage => rw [hstage] at hended; cases hended
  | talking hstage => cases hrun : run.stage <;> rw [hrun] at hstage hended <;> cases hstage <;> cases hended
  | ended _ error hraised => rw [hraised] at hresult; cases hresult

/-! ## Results -/

/-- In a run in which every stop takes effect when it arrives, and no signalled child
    reports that it is idle, no stopped run ever completes. -/
theorem stop_never_lost (h : (runtimeSystem settings).Reachable StopSeen st) : NoStopLost st := by
  have hinv : (∀ run ∈ st.runs, StopInv run) ∧ ∀ run ∈ st.runs, Unsettled run := by
    refine h.invariant (fun st => (∀ run ∈ st.runs, StopInv run) ∧ ∀ run ∈ st.runs, Unsettled run) ?_ ?_
    · intro st hinit
      rw [hinit.1]
      exact ⟨List.forall_mem_nil _, List.forall_mem_nil _⟩
    · intro st action st' hinv hok hstep
      exact ⟨managerStep_inv hinv.1 hok hstep, managerStep_unsettled hinv.2 hstep⟩
  intro run hrun hcancelled output
  exact (hinv.1 run hrun hcancelled).not_completed (hinv.2 run hrun) output

/-- A child that answers and ends its turn with a text. -/
def cooperativeTurn : List RunAction :=
  [.childSpawned, .childWrites (.reply .initialization true), .readLine, .replied,
    .childWrites (.reply .prompt true), .readLine, .replied,
    .childWrites (.event (.assistantMessage "done")), .readLine, .consume,
    .childWrites .idle, .readLine, .consume, .collected]

def runExec (run : ActiveRun) : List RunAction → Option ActiveRun
  | [] => some run
  | action :: actions => (runStep true true run action).bind fun run' => runExec run' actions

/-- Whatever its flag says, a run that has no child yet goes on to complete: a stop that
    arrives while the child is spawned does nothing. -/
theorem stop_while_spawning_lost (run : ActiveRun) (hstage : run.stage = .spawning)
    (hprocess : run.process = some HarnessProcess.new.cancel) :
    (runExec run cooperativeTurn).map (fun run' => (run'.cancelled, run'.result)) =
      some (run.cancelled, some (.completed "done")) := by
  obtain ⟨id, sessionId, stage, cancelled, acquired, process, result⟩ := run
  dsimp only at hstage hprocess
  subst hstage hprocess
  rfl

/-! ## Runs -/

def oneSlot : Settings := ⟨1⟩

def idleRuntime : RuntimeManager := ⟨0, fun _ => none, []⟩

theorem idleRuntime_init : (runtimeSystem oneSlot).init idleRuntime := ⟨rfl, fun _ => rfl⟩

/-- The stop arrives while `create_subprocess_exec` is awaited. -/
def stopWhileSpawning : List ManagerAction :=
  [.accept "run-1" "session-1", .run 0 .enterGate, .run 0 .lockUid, .run 0 (.uidAssigned false),
    .stop "run-1"] ++ cooperativeTurn.map (.run 0)

theorem stopped_run_completes :
    ∃ st, (runtimeSystem oneSlot).Reachable System.anyStep st ∧ ¬ NoStopLost st := by
  refine ⟨_, ⟨idleRuntime, idleRuntime_init, System.path_of_exec stopWhileSpawning rfl⟩, ?_⟩
  intro hlaw
  exact hlaw _ List.mem_cons_self rfl "done" rfl

/-- The stop arrives while the child works on the prompt. -/
def stopDuringTurn : List ManagerAction :=
  [.accept "run-1" "session-1", .run 0 .enterGate, .run 0 .lockUid, .run 0 (.uidAssigned false),
    .run 0 .childSpawned, .run 0 (.childWrites (.reply .initialization true)), .run 0 .readLine,
    .run 0 .replied, .run 0 (.childWrites (.reply .prompt true)), .run 0 .readLine, .run 0 .replied,
    .stop "run-1", .run 0 .childExits, .run 0 .readEof, .run 0 .consume, .run 0 .closed, .run 0 .pop]

theorem stop_never_lost_during_turn :
    ∃ st, (runtimeSystem oneSlot).Reachable StopSeen st ∧
      st.runs.map ActiveRun.result = [some (.raised .cancelled)] ∧ NoStopLost st := by
  have hrun : (runtimeSystem oneSlot).Reachable StopSeen _ :=
    ⟨idleRuntime, idleRuntime_init, System.path_of_allowed stopDuringTurn (by decide) rfl⟩
  exact ⟨_, hrun, rfl, stop_never_lost hrun⟩

end DeepSeek
end HermesPlatform
