/-
  HermesPlatform.Orchestration.Lease

  The workers of one task, and the recovery of its lease.

  A row holds the lease: a worker starts a queued task and makes it running.
  The recovery takes any task that has been running for too long, whether its
  worker is alive or not, and the end of a worker's execution does not check that
  the task is still its own.  A worker locks the row for its start and for the
  end of a failure; the recovery does not, so it commits what it has decided on a
  row that may have changed since.
-/

import HermesPlatform.Lib.Transition
import HermesPlatform.Orchestration.Sessions
import HermesPlatform.Orchestration.TaskActions

namespace HermesPlatform
namespace Orchestration

open Transition

/-! ## The system -/

/-- The row of a task, the workers between the start and the end of its
    execution, and the task as the recoveries on their way have read it. -/
structure LeaseState where
  task : AgentTask
  live : List String
  recoveries : List AgentTask
deriving DecidableEq

/-- The id of a task can be put into the queue at any time, so any worker may try
    to start it at any time. -/
inductive LeaseAction where
  | start (workerId : String) (agentActive : Bool)
  | finish (workerId : String) (outcome : Outcome)
  /-- A worker dies, after its result has been stored or before. -/
  | crash (workerId : String) (delivered : Option String)
  /-- `stale_running_tasks` of `_recover` finds the lease expired. -/
  | beginRecovery
  | commitRecovery (i : Nat) (workerId : String)
  /-- The recovery raises, or its process ends. -/
  | abandonRecovery (i : Nat)

def leaseStep (s : LeaseState) : LeaseAction → Option LeaseState
  | .start workerId agentActive =>
      match startTask workerId agentActive s.task with
      | .ignored => none
      | .finished t => some { s with task := t }
      | .started t => some { s with task := t, live := workerId :: s.live }
  | .finish workerId outcome =>
      if workerId ∈ s.live then
        some { s with
          task := finishTask workerId outcome s.task
          live := s.live.erase workerId }
      else none
  | .crash workerId delivered =>
      if workerId ∈ s.live then
        some { s with
          task :=
            match delivered with
            | some output => deliverOutput output s.task
            | none => s.task
          live := s.live.erase workerId }
      else none
  | .beginRecovery =>
      -- Selected without a lock; whether a live worker is on the task is not asked.
      if s.task.status = .running then some { s with recoveries := s.recoveries ++ [s.task] }
      else none
  | .commitRecovery i workerId =>
      (s.recoveries[i]?).bind fun loaded => some { s with
        task := commitTask loaded (recoverTask workerId loaded) s.task
        recoveries := s.recoveries.eraseIdx i }
  | .abandonRecovery i =>
      (s.recoveries[i]?).bind fun _ => some { s with recoveries := s.recoveries.eraseIdx i }

/-- A new task; the database requires at least one attempt. -/
def Queued (s : LeaseState) : Prop :=
  s.task.status = .pending ∧ s.task.attempt = 0 ∧ 1 ≤ s.task.maxAttempts ∧ s.live = [] ∧
    s.recoveries = []

def leaseSystem : System LeaseState LeaseAction := ⟨Queued, leaseStep⟩

/-- Another recovery has been on the row already: it is in the queue again while
    attempts are left, else it has ended. -/
def AlreadyRecovered (loaded t : AgentTask) : Prop :=
  if loaded.session.status = .succeeded then t.status = .succeeded
  else if loaded.attempt < loaded.maxAttempts then t.status = .retrying
  else t.status = .failed

/-- A recovery commits while no live worker is on the task, and the task is in the
    attempt the recovery has read: it runs, or has been recovered already. -/
def RecoversDead (s : LeaseState) : LeaseAction → Prop
  | .commitRecovery i _ => ∀ loaded, s.recoveries[i]? = some loaded →
      s.live = [] ∧ s.task.attempt = loaded.attempt ∧
        (s.task.status = .running ∨ AlreadyRecovered loaded s.task)
  | _ => True

/-! ## Recoveries -/

/-- The recoveries on their way have read the task as running. -/
def RecoveriesRead (s : LeaseState) : Prop :=
  ∀ loaded ∈ s.recoveries, loaded.toTaskSpec = s.task.toTaskSpec ∧ loaded.status = .running

/-- A recovery takes a running task out of that status, so its commit writes the
    status of the row. -/
theorem commitRecovery_status {workerId : String} {loaded t : AgentTask}
    (h : loaded.status = .running) :
    (commitTask loaded (recoverTask workerId loaded) t).status =
      (recoverTask workerId loaded).status := by
  have hended := (recoverTask_spec workerId loaded).2.2
  have hne : (recoverTask workerId loaded).status ≠ loaded.status := by
    rw [h]
    rintro hrunning
    rw [hrunning] at hended
    simp [Ended] at hended
  show commitColumn loaded.status (recoverTask workerId loaded).status t.status = _
  rw [commitColumn, if_neg hne]

/-- It writes no attempt. -/
theorem commitRecovery_attempt (workerId : String) (loaded t : AgentTask) :
    (commitTask loaded (recoverTask workerId loaded) t).attempt = t.attempt := by
  show commitColumn loaded.attempt (recoverTask workerId loaded).attempt t.attempt = _
  rw [commitColumn, if_pos (recoverTask_spec workerId loaded).2.1]

theorem alreadyRecovered_status {loaded t : AgentTask} (workerId : String)
    (h : AlreadyRecovered loaded t) : t.status = (recoverTask workerId loaded).status := by
  unfold AlreadyRecovered at h
  unfold recoverTask
  split at h
  · rename_i hsucceeded
    rw [if_pos hsucceeded, h]
  · rename_i hsucceeded
    rw [if_neg hsucceeded]
    split at h
    · rename_i hleft
      simp [h, hleft]
    · rename_i hleft
      simp [h, hleft]

theorem leaseStep_spec {s s' : LeaseState} {a : LeaseAction} (hstep : leaseStep s a = some s') :
    s'.task.toTaskSpec = s.task.toTaskSpec := by
  cases a with
  | start workerId agentActive =>
      simp only [leaseStep] at hstep
      split at hstep
      · cases hstep
      · rename_i t hstart
        cases hstep
        exact (startTask_spec.1 hstart).2.1
      · rename_i t hstart
        cases hstep
        exact (startTask_spec.2 hstart).2.1
  | finish workerId outcome =>
      simp only [leaseStep] at hstep
      split at hstep
      · cases hstep
        exact (finishTask_spec workerId outcome s.task).1
      · cases hstep
  | crash workerId delivered =>
      simp only [leaseStep] at hstep
      split at hstep
      · cases hstep
        cases delivered <;> rfl
      · cases hstep
  | beginRecovery =>
      simp only [leaseStep] at hstep
      split at hstep
      · cases hstep
        rfl
      · cases hstep
  | commitRecovery i workerId =>
      simp only [leaseStep, Option.bind_eq_some_iff] at hstep
      obtain ⟨loaded, -, hstep⟩ := hstep
      cases hstep
      -- A commit writes columns of the row and no other part of it.
      rfl
  | abandonRecovery i =>
      simp only [leaseStep, Option.bind_eq_some_iff] at hstep
      obtain ⟨loaded, -, hstep⟩ := hstep
      cases hstep
      rfl

theorem recoveriesRead_step {s s' : LeaseState} {a : LeaseAction} (h : RecoveriesRead s)
    (hstep : leaseStep s a = some s') : RecoveriesRead s' := by
  have hspec := leaseStep_spec hstep
  -- No step but the beginning of a recovery adds one.
  have hold : s'.recoveries ⊆ s.recoveries → RecoveriesRead s' := by
    intro hsub loaded hloaded
    rw [hspec]
    exact h loaded (hsub hloaded)
  cases a with
  | start workerId agentActive =>
      simp only [leaseStep] at hstep
      split at hstep <;> cases hstep <;> exact hold (List.Subset.refl _)
  | finish workerId outcome =>
      simp only [leaseStep] at hstep
      split at hstep <;> cases hstep
      exact hold (List.Subset.refl _)
  | crash workerId delivered =>
      simp only [leaseStep] at hstep
      split at hstep <;> cases hstep
      exact hold (List.Subset.refl _)
  | beginRecovery =>
      simp only [leaseStep] at hstep
      split at hstep
      · rename_i hrunning
        cases hstep
        intro loaded hloaded
        rcases List.mem_append.mp hloaded with hloaded | hloaded
        · exact h loaded hloaded
        · rw [List.mem_singleton.mp hloaded]
          exact ⟨rfl, hrunning⟩
      · cases hstep
  | commitRecovery i workerId =>
      simp only [leaseStep, Option.bind_eq_some_iff] at hstep
      obtain ⟨loaded, -, hstep⟩ := hstep
      cases hstep
      exact hold List.eraseIdx_subset
  | abandonRecovery i =>
      simp only [leaseStep, Option.bind_eq_some_iff] at hstep
      obtain ⟨loaded, -, hstep⟩ := hstep
      cases hstep
      exact hold List.eraseIdx_subset

/-! ## Attempts -/

/-- A queued task has attempts left. -/
structure AttemptsLeft (t : AgentTask) : Prop where
  bounded : t.attempt ≤ t.maxAttempts
  queued : t.status = .pending ∨ t.status = .retrying → t.attempt < t.maxAttempts

theorem attemptsLeft_step {s s' : LeaseState} {a : LeaseAction} (h : AttemptsLeft s.task)
    (hread : RecoveriesRead s) (hgood : RecoversDead s a) (hstep : leaseStep s a = some s') :
    AttemptsLeft s'.task := by
  cases a with
  | start workerId agentActive =>
      simp only [leaseStep] at hstep
      split at hstep
      · cases hstep
      · rename_i t hstart
        cases hstep
        obtain ⟨-, hspec, hended, hattempt⟩ := startTask_spec.1 hstart
        have hmax : t.maxAttempts = s.task.maxAttempts := congrArg TaskSpec.maxAttempts hspec
        refine ⟨?_, ?_⟩
        · show t.attempt ≤ t.maxAttempts
          rw [hattempt, hmax]
          exact h.bounded
        · show t.status = .pending ∨ t.status = .retrying → _
          rcases hended with hs | hs <;> simp [hs]
      · rename_i t hstart
        cases hstep
        obtain ⟨hqueued, hspec, hstatus, hattempt⟩ := startTask_spec.2 hstart
        have hmax : t.maxAttempts = s.task.maxAttempts := congrArg TaskSpec.maxAttempts hspec
        -- The attempt that is used up now was left.
        have hleft := h.queued hqueued
        refine ⟨?_, ?_⟩
        · show t.attempt ≤ t.maxAttempts
          omega
        · show t.status = .pending ∨ t.status = .retrying → _
          rw [hstatus]
          simp
  | finish workerId outcome =>
      simp only [leaseStep] at hstep
      split at hstep
      · cases hstep
        obtain ⟨hspec, hended⟩ := finishTask_spec workerId outcome s.task
        obtain ⟨hattempt, hretry⟩ := finishTask_attempts workerId outcome s.task
        have hmax : (finishTask workerId outcome s.task).maxAttempts = s.task.maxAttempts :=
          congrArg TaskSpec.maxAttempts hspec
        refine ⟨?_, ?_⟩
        · show (finishTask workerId outcome s.task).attempt ≤ _
          rw [hattempt, hmax]
          exact h.bounded
        · show (finishTask workerId outcome s.task).status = .pending ∨ _ → _
          rw [hattempt, hmax]
          rintro (hs | hs)
          · rw [hs] at hended
            simp [Ended] at hended
          · exact hretry hs
      · cases hstep
  | crash workerId delivered =>
      simp only [leaseStep] at hstep
      split at hstep
      · cases hstep
        cases delivered with
        | none => exact h
        | some output => exact ⟨h.bounded, h.queued⟩
      · cases hstep
  | beginRecovery =>
      simp only [leaseStep] at hstep
      split at hstep
      · cases hstep
        exact h
      · cases hstep
  | commitRecovery i workerId =>
      simp only [leaseStep, Option.bind_eq_some_iff] at hstep
      obtain ⟨loaded, hloaded, hstep⟩ := hstep
      cases hstep
      obtain ⟨hspec, hrunning⟩ := hread loaded (List.mem_of_getElem? hloaded)
      obtain ⟨-, hattempt, -⟩ := hgood loaded hloaded
      have hmax : loaded.maxAttempts = s.task.maxAttempts := congrArg TaskSpec.maxAttempts hspec
      refine ⟨?_, ?_⟩
      · rw [commitRecovery_attempt]
        exact h.bounded
      · rw [commitRecovery_attempt, commitRecovery_status hrunning]
        show _ → s.task.attempt < s.task.maxAttempts
        -- The attempts that were left to the task as read are left to the row.
        rw [hattempt, ← hmax]
        rintro (hs | hs)
        · have hended := (recoverTask_spec workerId loaded).2.2
          rw [hs] at hended
          simp [Ended] at hended
        · exact recoverTask_retrying hs
  | abandonRecovery i =>
      simp only [leaseStep, Option.bind_eq_some_iff] at hstep
      obtain ⟨loaded, -, hstep⟩ := hstep
      cases hstep
      exact h

/-! ## One worker -/

/-- A worker on the task means that the task runs, and that it is the only one. -/
structure Exclusive (s : LeaseState) : Prop where
  single : s.live.length ≤ 1
  running : s.live ≠ [] → s.task.status = .running

theorem Exclusive.of_nil {s : LeaseState} (h : s.live = []) : Exclusive s := by
  refine ⟨?_, fun hne => absurd h hne⟩
  rw [h]
  exact Nat.zero_le 1

/-- The only worker leaves. -/
theorem Exclusive.erase {s : LeaseState} (h : Exclusive s) {workerId : String}
    (hmem : workerId ∈ s.live) : s.live.erase workerId = [] := by
  have hlength := List.length_erase_of_mem hmem
  have hsingle := h.single
  exact List.eq_nil_of_length_eq_zero (by omega)

theorem exclusive_step {s s' : LeaseState} {a : LeaseAction} (h : Exclusive s)
    (hgood : RecoversDead s a) (hstep : leaseStep s a = some s') : Exclusive s' := by
  -- A worker would have the task running.
  have hidle : s.task.status = .pending ∨ s.task.status = .retrying → s.live = [] := by
    intro hqueued
    by_contra hne
    rw [h.running hne] at hqueued
    simp at hqueued
  cases a with
  | start workerId agentActive =>
      simp only [leaseStep] at hstep
      split at hstep
      · cases hstep
      · rename_i t hstart
        cases hstep
        exact Exclusive.of_nil (hidle (startTask_spec.1 hstart).1)
      · rename_i t hstart
        cases hstep
        obtain ⟨hqueued, -, hstatus, -⟩ := startTask_spec.2 hstart
        refine ⟨?_, fun _ => hstatus⟩
        rw [hidle hqueued]
        exact Nat.le_refl 1
  | finish workerId outcome =>
      simp only [leaseStep] at hstep
      split at hstep
      · rename_i hmem
        cases hstep
        exact Exclusive.of_nil (h.erase hmem)
      · cases hstep
  | crash workerId delivered =>
      simp only [leaseStep] at hstep
      split at hstep
      · rename_i hmem
        cases hstep
        exact Exclusive.of_nil (h.erase hmem)
      · cases hstep
  | beginRecovery =>
      simp only [leaseStep] at hstep
      split at hstep
      · cases hstep
        exact ⟨h.single, h.running⟩
      · cases hstep
  | commitRecovery i workerId =>
      simp only [leaseStep, Option.bind_eq_some_iff] at hstep
      obtain ⟨loaded, hloaded, hstep⟩ := hstep
      cases hstep
      -- This recovery takes the task from no live worker.
      exact Exclusive.of_nil (hgood loaded hloaded).1
  | abandonRecovery i =>
      simp only [leaseStep, Option.bind_eq_some_iff] at hstep
      obtain ⟨loaded, -, hstep⟩ := hstep
      cases hstep
      exact ⟨h.single, h.running⟩

/-- A task that has ended keeps its status. -/
theorem endedTask_step {s s' : LeaseState} {a : LeaseAction} (h : Exclusive s)
    (hread : RecoveriesRead s) (hended : s.task.status.terminal = true)
    (hgood : RecoversDead s a) (hstep : leaseStep s a = some s') :
    s'.task.status = s.task.status := by
  -- A worker on the task would mean that it runs.
  have hlive : s.live = [] := by
    by_contra hne
    rw [h.running hne] at hended
    cases hended
  have hnone : ∀ workerId, workerId ∉ s.live := by
    intro workerId
    rw [hlive]
    exact List.not_mem_nil
  have hopen : ¬ (s.task.status = .pending ∨ s.task.status = .retrying) := by
    rintro (hs | hs) <;> rw [hs] at hended <;> cases hended
  cases a with
  | start workerId agentActive =>
      simp only [leaseStep, startTask, if_pos hopen] at hstep
      cases hstep
  | finish workerId outcome =>
      simp only [leaseStep, if_neg (hnone workerId)] at hstep
      cases hstep
  | crash workerId delivered =>
      simp only [leaseStep, if_neg (hnone workerId)] at hstep
      cases hstep
  | beginRecovery =>
      simp only [leaseStep] at hstep
      split at hstep
      · cases hstep
        rfl
      · cases hstep
  | commitRecovery i workerId =>
      simp only [leaseStep, Option.bind_eq_some_iff] at hstep
      obtain ⟨loaded, hloaded, hstep⟩ := hstep
      cases hstep
      obtain ⟨-, hrunning⟩ := hread loaded (List.mem_of_getElem? hloaded)
      obtain ⟨-, -, hrow | hrecovered⟩ := hgood loaded hloaded
      · rw [hrow] at hended
        cases hended
      · -- Another recovery has ended the task; this one comes to the same end.
        rw [commitRecovery_status hrunning]
        exact (alreadyRecovered_status workerId hrecovered).symm
  | abandonRecovery i =>
      simp only [leaseStep, Option.bind_eq_some_iff] at hstep
      obtain ⟨loaded, -, hstep⟩ := hstep
      cases hstep
      rfl

/-! ## Every run -/

/-- What holds while recoveries take the task from dead workers only. -/
structure Leased (s : LeaseState) : Prop where
  read : RecoveriesRead s
  attempts : AttemptsLeft s.task
  exclusive : Exclusive s

theorem leased_step {s s' : LeaseState} {a : LeaseAction} (h : Leased s) (hgood : RecoversDead s a)
    (hstep : leaseStep s a = some s') : Leased s' where
  read := recoveriesRead_step h.read hstep
  attempts := attemptsLeft_step h.attempts h.read hgood hstep
  exclusive := exclusive_step h.exclusive hgood hstep

theorem leased_queued {s : LeaseState} (h : Queued s) : Leased s := by
  obtain ⟨hpending, hattempt, hmax, hlive, hrecoveries⟩ := h
  refine ⟨?_, ⟨by omega, fun _ => by omega⟩, Exclusive.of_nil hlive⟩
  unfold RecoveriesRead
  rw [hrecoveries]
  intro loaded hloaded
  cases hloaded

/-- **Lease safety.** While recoveries take the task from dead workers only, at
    most one worker is on it, its attempts stay within bounds, and its end is
    final. -/
theorem lease_safe {s : LeaseState} (h : leaseSystem.Reachable RecoversDead s) :
    s.live.length ≤ 1 ∧ s.task.attempt ≤ s.task.maxAttempts ∧
      ∀ t, leaseSystem.Path RecoversDead s t → s.task.status.terminal = true →
        t.task.status = s.task.status := by
  have hleased : Leased s := h.invariant Leased (fun _ => leased_queued)
    fun _ _ _ hu hgood hstep => leased_step hu hgood hstep
  refine ⟨hleased.exclusive.single, hleased.attempts.bounded, ?_⟩
  intro t hpath hended
  have hkept := hpath.preserves (fun u => Leased u ∧ u.task.status = s.task.status)
    (fun u a v ⟨hu, hstatus⟩ hgood hstep => by
      have hended' : u.task.status.terminal = true := by
        rw [hstatus]
        exact hended
      exact ⟨leased_step hu hgood hstep,
        (endedTask_step hu.exclusive hu.read hended' hgood hstep).trans hstatus⟩)
    ⟨hleased, rfl⟩
  exact hkept.2

/-! ### Two workers -/

/-- A new task with a number of attempts. -/
def newTask (maxAttempts : Nat) : LeaseState where
  task :=
    { id := 1, parentTaskId := none, nodeKey := none, nodeType := .agent, dependsOn := [],
      agentId := "analyst", priority := 5, maxAttempts := maxAttempts, status := .pending,
      attempt := 0, workerId := none, error := none, session := ⟨.queued, "report", none⟩,
      execution := some ⟨.queued, "report", none, none⟩ }
  live := []
  recoveries := []

theorem newTask_queued {maxAttempts : Nat} (h : 1 ≤ maxAttempts) : Queued (newTask maxAttempts) :=
  ⟨rfl, rfl, h, rfl, rfl⟩

/-- A worker dies, and the recovery gives the task up. -/
theorem lease_safe_crash :
    ∃ s, leaseSystem.exec (newTask 1)
        [.start "a" true, .crash "a" none, .beginRecovery, .commitRecovery 0 "r"] = some s ∧
      s.live.length ≤ 1 ∧ s.task.attempt ≤ s.task.maxAttempts ∧
      ∀ t, leaseSystem.Path RecoversDead s t → s.task.status.terminal = true →
        t.task.status = s.task.status := by
  refine ⟨_, rfl, lease_safe ⟨newTask 1, newTask_queued (Nat.le_refl 1), System.path_of_allowed
    [.start "a" true, .crash "a" none, .beginRecovery, .commitRecovery 0 "r"] ?_ rfl⟩⟩
  refine System.allowed_cons trivial rfl ?_
  refine System.allowed_cons trivial rfl ?_
  refine System.allowed_cons trivial rfl ?_
  refine System.allowed_cons (fun loaded hloaded => ?_) rfl trivial
  cases hloaded
  exact ⟨rfl, rfl, Or.inl rfl⟩

/-- The lease of a slow worker expires: a second worker starts the task, or,
    without attempts left, the failed task succeeds after all.  And a recovery that
    read the task before another one puts a failed task into the queue again, where
    it is started once too often. -/
theorem expired_lease_unsafe :
    (¬ ∀ s, leaseSystem.Reachable System.anyStep s → s.live.length ≤ 1) ∧
      (¬ ∀ s, leaseSystem.Reachable System.anyStep s → s.task.attempt ≤ s.task.maxAttempts) ∧
      ¬ ∀ s t, leaseSystem.Reachable System.anyStep s → leaseSystem.Path System.anyStep s t →
        s.task.status.terminal = true → t.task.status = s.task.status := by
  refine ⟨?_, ?_, ?_⟩
  · intro hclaim
    have hsingle := hclaim _ ⟨newTask 2, newTask_queued (by decide), System.path_of_exec
      [.start "a" true, .beginRecovery, .commitRecovery 0 "r", .start "b" true] rfl⟩
    exact absurd hsingle (by decide)
  · intro hclaim
    have hbound := hclaim _ ⟨newTask 2, newTask_queued (by decide), System.path_of_exec
      [.start "a" true, .beginRecovery, .beginRecovery, .crash "a" none, .commitRecovery 1 "r",
        .start "b" true, .finish "b" (.failed "no answer"), .commitRecovery 0 "q",
        .start "c" true] rfl⟩
    exact absurd hbound (by decide)
  · intro hclaim
    have hfinal := hclaim _ _ ⟨newTask 1, newTask_queued (by decide), System.path_of_exec
      [.start "a" true, .beginRecovery, .commitRecovery 0 "r"] rfl⟩
      (System.path_of_exec [.finish "a" (.succeeded "text")] rfl) rfl
    exact absurd hfinal (by decide)

end Orchestration
end HermesPlatform
